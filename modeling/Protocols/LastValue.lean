import Mathlib.Data.List.Basic

namespace Protocols

variable {α β γ : Type}

/-- The value of the last element that has one. -/
def lastSome (f : α → Option β) (l : List α) : Option β := l.reverse.findSome? f

variable {f : α → Option β}

theorem lastSome_append (l l' : List α) :
    lastSome f (l ++ l') = (lastSome f l').or (lastSome f l) := by
  rw [lastSome, List.reverse_append, List.findSome?_append]
  rfl

theorem lastSome_singleton (a : α) : lastSome f [a] = f a := by
  rw [lastSome, List.reverse_singleton, List.findSome?_singleton]

theorem lastSome_cons (a : α) (l : List α) : lastSome f (a :: l) = (lastSome f l).or (f a) := by
  rw [← List.singleton_append, lastSome_append, lastSome_singleton]

theorem lastSome_map (g : γ → α) (l : List γ) :
    lastSome f (l.map g) = lastSome (fun c => f (g c)) l := by
  rw [lastSome, ← List.map_reverse, List.findSome?_map]
  rfl

theorem lastSome_eq_none {l : List α} : lastSome f l = none ↔ ∀ a ∈ l, f a = none := by
  simp [lastSome, List.findSome?_eq_none_iff]

theorem lastSome_eq_some {l : List α} {b : β} : lastSome f l = some b ↔
    ∃ before a after, l = before ++ a :: after ∧ f a = some b ∧ ∀ x ∈ after, f x = none := by
  rw [lastSome, List.findSome?_eq_some_iff]
  constructor
  · rintro ⟨after, a, before, hl, ha, hafter⟩
    refine ⟨before.reverse, a, after.reverse, ?_, ha, by simpa using hafter⟩
    rw [← l.reverse_reverse, hl]
    simp
  · rintro ⟨before, a, after, rfl, ha, hafter⟩
    exact ⟨after.reverse, a, before.reverse, by simp, ha, by simpa using hafter⟩

/-- What an assignment for every element that has a value leaves. -/
theorem foldl_last (d : β) (l : List α) :
    l.foldl (fun b a => (f a).getD b) d = (lastSome f l).getD d := by
  induction l generalizing d with
  | nil => rfl
  | cons a l ih =>
    rw [List.foldl_cons, ih, lastSome_cons]
    cases lastSome f l with
    | none => rfl
    | some b => rfl

end Protocols
