import Mathlib.Data.List.Destutter

namespace Protocols

variable {α : Type*} [DecidableEq α]

theorem destutter'_concat (x : α) (xs : List α) (a : α) :
    (xs ++ [a]).destutter' (· ≠ ·) x =
      if (x :: xs).getLast? = some a then xs.destutter' (· ≠ ·) x
      else xs.destutter' (· ≠ ·) x ++ [a] := by
  induction xs generalizing x with
  | nil => by_cases h : x = a <;> simp [List.destutter', h]
  | cons b xs ih =>
    rw [List.cons_append, List.getLast?_cons_cons]
    by_cases h : x = b
    · subst h
      have hx : ¬ x ≠ x := by simp
      rw [List.destutter'_cons_neg _ hx, List.destutter'_cons_neg _ hx]
      exact ih x
    · rw [List.destutter'_cons_pos _ h, List.destutter'_cons_pos _ h, ih b]
      split <;> rfl

/-- What collapsing repetitions makes of one more entry. -/
theorem destutter_concat (xs : List α) (a : α) :
    (xs ++ [a]).destutter (· ≠ ·) =
      if xs.getLast? = some a then xs.destutter (· ≠ ·) else xs.destutter (· ≠ ·) ++ [a] := by
  cases xs with
  | nil => simp
  | cons x xs =>
    rw [List.cons_append, List.destutter_cons', List.destutter_cons']
    exact destutter'_concat x xs a

theorem destutter_getLast? (xs : List α) : (xs.destutter (· ≠ ·)).getLast? = xs.getLast? := by
  induction xs using List.reverseRecOn with
  | nil => rfl
  | append_singleton xs a ih =>
    rw [destutter_concat]
    split
    next h => rw [ih, h, List.getLast?_concat]
    next => rw [List.getLast?_concat, List.getLast?_concat]

end Protocols
