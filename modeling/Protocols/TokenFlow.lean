import Protocols.StepRelation
import Mathlib.Data.Multiset.AddSub
import Mathlib.Data.Multiset.Count

namespace Protocols

open Relation

/-- Tokens of a system, each at a rank, how often one has been copied, and the ranks at which tokens
have been emitted. -/
structure Tokens where
  ranks : Multiset Nat
  copies : Nat
  emitted : List Nat

/-- A token is copied, lost or moved up, or it goes up by one rank and is emitted there. -/
inductive TokenStep (t u : Tokens) : Prop
  | copy (rank) : rank ∈ t.ranks → u.ranks = {rank} + t.ranks → u.copies = t.copies + 1 →
      u.emitted = t.emitted → TokenStep t u
  | lose (rank) : t.ranks = {rank} + u.ranks → u.copies = t.copies → u.emitted = t.emitted →
      TokenStep t u
  | move (rank rank' rest) : t.ranks = {rank} + rest → u.ranks = {rank'} + rest → rank ≤ rank' →
      u.copies = t.copies → u.emitted = t.emitted → TokenStep t u
  | emit (rank rest) : t.ranks = {rank} + rest → u.ranks = {rank + 1} + rest →
      u.copies = t.copies → u.emitted = t.emitted ++ [rank + 1] → TokenStep t u

/-- Up to one token, moved up or lost. -/
def Rises (a b : Multiset Nat) : Prop :=
  a = b ∨ (∃ rank, a = {rank} ∧ b = 0) ∨ ∃ rank rank', a = {rank} ∧ b = {rank'} ∧ rank ≤ rank'

theorem Rises.reaches {a b : Multiset Nat} {t u : Tokens} (h : Rises a b) (rest : Multiset Nat)
    (ht : t.ranks = a + rest) (hu : u.ranks = b + rest) (hc : u.copies = t.copies)
    (he : u.emitted = t.emitted) : ReflTransGen TokenStep t u := by
  rcases h with rfl | ⟨rank, rfl, rfl⟩ | ⟨rank, rank', rfl, rfl, hle⟩
  · obtain ⟨ranks, copies, emitted⟩ := t
    obtain ⟨ranks', copies', emitted'⟩ := u
    simp only at ht hu hc he
    subst ht hu hc he
    exact .refl
  · exact .single (.lose rank (by rw [ht, hu, Multiset.zero_add]) hc he)
  · exact .single (.move rank rank' rest ht hu hle hc he)

theorem rises_ite {rank rank' : Nat} (h : rank ≤ rank') (c : Prop) [Decidable c] :
    Rises {rank} (if c then {rank'} else 0) := by
  split
  next => exact Or.inr (Or.inr ⟨rank, rank', rfl, rfl, h⟩)
  next => exact Or.inr (Or.inl ⟨rank, rfl, rfl⟩)

theorem rises_ite_self {rank : Nat} {c d : Prop} [Decidable c] [Decidable d] (h : d → c) :
    Rises (if c then {rank} else 0) (if d then {rank} else 0) := by
  by_cases hc : c
  · rw [if_pos hc]
    exact rises_ite le_rfl d
  · rw [if_neg hc, if_neg fun hd => hc (h hd)]
    exact Or.inl rfl

/-- The emissions at a rank, and the tokens that may still be emitted at it. -/
def Tokens.claims (t : Tokens) (rank : Nat) : Nat :=
  t.emitted.count rank + t.ranks.countP (· < rank)

theorem countP_singleton_add (r : Nat) (ranks : Multiset Nat) (rank : Nat) :
    ({r} + ranks).countP (· < rank) = ranks.countP (· < rank) + if r < rank then 1 else 0 := by
  rw [Multiset.singleton_add, Multiset.countP_cons]

theorem tokenStep_claims {t u : Tokens} (h : TokenStep t u) (rank n : Nat)
    (hle : t.claims rank ≤ t.copies + n) : u.claims rank ≤ u.copies + n := by
  unfold Tokens.claims at hle ⊢
  cases h with
  | copy r _ hu hc he =>
    rw [hu, hc, he, countP_singleton_add]
    split <;> omega
  | lose r ht hc he =>
    rw [ht, countP_singleton_add] at hle
    rw [hc, he]
    omega
  | move r r' rest ht hu hr hc he =>
    rw [ht, countP_singleton_add] at hle
    rw [hu, hc, he, countP_singleton_add]
    split at hle <;> split <;> omega
  | emit r rest ht hu hc he =>
    rw [ht, countP_singleton_add] at hle
    rw [hu, hc, he, countP_singleton_add, List.count_append, List.count_singleton]
    simp only [beq_iff_eq]
    split at hle <;> split <;> split <;> omega

/-- No rank is emitted at more often than there are tokens at the start and copies together. -/
theorem tokens_emitted_count_le {t u : Tokens} {n : Nat} (run : ReflTransGen TokenStep t u)
    (start : ∀ rank, t.claims rank ≤ t.copies + n) (rank : Nat) :
    u.emitted.count rank ≤ u.copies + n := by
  have h := reaches_invariant (P := fun u => u.claims rank ≤ u.copies + n) run (start rank)
    fun _ _ hle hs => tokenStep_claims hs rank n hle
  exact (Nat.le_add_right _ _).trans h

/-- A list of numbers from 1 to `n`, none of them more than `k` times. -/
theorem length_le_of_count_le {l : List Nat} {n k : Nat} (hl : ∀ x ∈ l, 1 ≤ x ∧ x ≤ n)
    (hk : ∀ x, l.count x ≤ k) : l.length ≤ k * n := by
  induction n generalizing l with
  | zero =>
    have hnil : l = [] := List.eq_nil_iff_forall_not_mem.mpr fun x hx => by
      have := hl x hx
      omega
    simp [hnil]
  | succ n ih =>
    have hrest : (l.filter fun x => x ≠ n + 1).length ≤ k * n := by
      refine ih (fun x hx => ?_) fun x => ((List.filter_sublist).count_le x).trans (hk x)
      obtain ⟨hmem, hne⟩ := List.mem_filter.mp hx
      have hx' := hl x hmem
      simp only [ne_eq, decide_eq_true_eq] at hne
      omega
    have hsplit : l.length = l.count (n + 1) + (l.filter fun x => x ≠ n + 1).length := by
      rw [List.length_eq_countP_add_countP (· == n + 1), List.count, ← List.countP_eq_length_filter]
      congr 1
      refine List.countP_congr fun x _ => ?_
      simp
    have hlast := hk (n + 1)
    rw [hsplit, Nat.mul_succ]
    omega

end Protocols
