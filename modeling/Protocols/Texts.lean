import Mathlib.Algebra.Group.Nat.Defs
import Mathlib.Data.Int.DivMod

namespace Protocols

/-- A text of bytes, each of them the character with its code. -/
abbrev Text := List Char

/-- `format`: every `{}` of the template is replaced by the next argument. -/
def format : Text → List Text → Text
  | '{' :: '}' :: rest, arg :: args => arg ++ format rest args
  | c :: rest, args => c :: format rest args
  | [], _ => []

def decimal (n : Nat) : Text := Nat.toDigits 10 n

def decimalInt (n : Int) : Text :=
  if n < 0 then '-' :: decimal n.natAbs else decimal n.natAbs

/-- `stoi` of a text of digits: out of range where the value does not fit into an `int`. -/
def stoi (digits : Text) : Option Nat :=
  let value := Nat.ofDigitChars 10 digits 0
  if value < 2 ^ 31 then some value else none

theorem stoi_decimal (n : Nat) : stoi (decimal n) = if n < 2 ^ 31 then some n else none := by
  rw [stoi, decimal, Nat.ofDigitChars_ten_toDigits]

theorem decimal_injective {m n : Nat} (h : decimal m = decimal n) : m = n := by
  have hdigits := congrArg (fun digits => Nat.ofDigitChars 10 digits 0) h
  simpa [decimal, Nat.ofDigitChars_ten_toDigits] using hdigits

theorem digit_decimal {n : Nat} {c : Char} (h : c ∈ decimal n) : c.isDigit = true :=
  Nat.isDigit_of_mem_toDigits (by decide) (Nat.le_refl 10) h

theorem decimal_ne_nil (n : Nat) : decimal n ≠ [] := Nat.toDigits_ne_nil

theorem stoi_isSome (digits : Text) :
    (stoi digits).isSome = true ↔ Nat.ofDigitChars 10 digits 0 < 2 ^ 31 := by
  simp only [stoi]
  split
  next h => exact iff_of_true rfl h
  next h => exact iff_of_false Bool.false_ne_true h

/-- A text is split at the first place of a character in one way. -/
theorem split_unique {c : Char} {u v u' v' : Text} (hu : c ∉ u) (hu' : c ∉ u')
    (h : u ++ c :: v = u' ++ c :: v') : u = u' ∧ v = v' := by
  have first : ∀ w t : Text, c ∉ w → (w ++ c :: t).takeWhile (· != c) = w := by
    intro w t hw
    have hall : ∀ x ∈ w, (x != c) = true := by
      intro x hx
      have hne : x ≠ c := fun he => hw (he ▸ hx)
      simp [hne]
    rw [List.takeWhile_append_of_pos hall]
    simp
  obtain rfl : u = u' := by
    rw [← first u v hu, h, first u' v' hu']
  exact ⟨rfl, (List.cons.inj (List.append_cancel_left h)).2⟩

end Protocols
