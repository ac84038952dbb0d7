import Protocols.Chunks
import Mathlib.Logic.Relation
import Mathlib.Order.Basic
import Mathlib.Order.Nat

namespace Protocols

open Relation

variable {α : Type*}

/-- A transfer of numbered blocks, one at a time, over a medium that keeps every message for
ever and may hand any of them over again: messages carry a block's number modulo `modulus`. -/
structure StopAndWait (α : Type*) where
  modulus : Nat
  /-- least number of accepted blocks the receiver confirms -/
  firstConfirmed : Nat
  total : Nat
  block : Nat → α

/-- `next` is the block the sender offers; `received` is what the receiver has accepted. -/
structure StopAndWaitState (α : Type*) where
  next : Nat
  received : List α
  offered : List Nat
  confirmed : List Nat

def StopAndWaitState.init : StopAndWaitState α := ⟨1, [], [], []⟩

/-- The receiver compares a message's number with its own count plus one, which is not reduced;
the sender compares a confirmation with the number it last sent, which is. -/
inductive StopAndWaitStep (p : StopAndWait α) : StopAndWaitState α → StopAndWaitState α → Prop
  | offer {s} : s.next ≤ p.total →
      StopAndWaitStep p s { s with offered := s.next :: s.offered }
  | accept {s j} : j ∈ s.offered → j % p.modulus = s.received.length + 1 →
      StopAndWaitStep p s { s with received := s.received ++ [p.block j] }
  | confirm {s} : p.firstConfirmed ≤ s.received.length →
      StopAndWaitStep p s { s with confirmed := s.received.length :: s.confirmed }
  | advance {s a} : s.next ≤ p.total → a ∈ s.confirmed → a % p.modulus = s.next % p.modulus →
      StopAndWaitStep p s { s with next := s.next + 1 }

/-- The receiver stops for good at `modulus - 1` blocks, so once the sender's number has wrapped
nothing is accepted any more; until then the two counters differ by at most one. -/
structure StopAndWaitInv (p : StopAndWait α) (s : StopAndWaitState α) : Prop where
  next_pos : 1 ≤ s.next
  next_le : s.next ≤ p.total + 1
  received_eq : s.received = (List.range s.received.length).map fun k => p.block (k + 1)
  count_lt : s.received.length < p.modulus
  count_le : s.received.length ≤ p.total
  level : s.next ≤ p.modulus → s.next ≤ s.received.length + 1 ∧ s.received.length ≤ s.next
  wrapped : p.modulus < s.next → s.received.length + 1 = p.modulus
  unwrapped : 1 ≤ p.firstConfirmed → s.next ≤ p.modulus
  offered_le : ∀ j ∈ s.offered, 1 ≤ j ∧ j ≤ s.next ∧ j ≤ p.total
  confirmed_le : ∀ a ∈ s.confirmed, p.firstConfirmed ≤ a ∧ a ≤ s.received.length

theorem stopAndWait_init_inv {p : StopAndWait α} (hm : 0 < p.modulus) :
    StopAndWaitInv p .init where
  next_pos := le_rfl
  next_le := by simp [StopAndWaitState.init]
  received_eq := rfl
  count_lt := hm
  count_le := Nat.zero_le _
  level := by simp [StopAndWaitState.init]
  wrapped := fun h => by simp only [StopAndWaitState.init] at h ⊢; simp; omega
  unwrapped := fun _ => hm
  offered_le := by simp [StopAndWaitState.init]
  confirmed_le := by simp [StopAndWaitState.init]

/-- An accepted message is the block after the last accepted one, whatever its age. -/
theorem stopAndWait_accepted_eq {p : StopAndWait α} {s : StopAndWaitState α} {j : Nat}
    (inv : StopAndWaitInv p s) (hj : j ∈ s.offered)
    (hn : j % p.modulus = s.received.length + 1) :
    j = s.received.length + 1 ∧ s.next ≤ p.modulus ∧ j < p.modulus := by
  obtain ⟨hj1, hjn, _⟩ := inv.offered_le j hj
  have hmod : j % p.modulus < p.modulus := Nat.mod_lt _ (by have := inv.count_lt; omega)
  have hw : s.next ≤ p.modulus := by
    by_contra hh
    have := inv.wrapped (by omega)
    omega
  have hlt : j < p.modulus := by
    rcases Nat.lt_or_eq_of_le (show j ≤ p.modulus by omega) with hlt | heq
    · exact hlt
    · rw [heq, Nat.mod_self] at hn; omega
  rw [Nat.mod_eq_of_lt hlt] at hn
  exact ⟨hn, hw, hlt⟩

/-- A confirmation moves the sender past a block the receiver has, unless the number wrapped. -/
theorem stopAndWait_advance_level {p : StopAndWait α} {s : StopAndWaitState α} {a : Nat}
    (inv : StopAndWaitInv p s) (ha : a ∈ s.confirmed)
    (hn : a % p.modulus = s.next % p.modulus) (hlt : s.next < p.modulus) :
    s.received.length = s.next := by
  have hac := (inv.confirmed_le a ha).2
  have hlv := inv.level hlt.le
  rw [Nat.mod_eq_of_lt (hac.trans_lt inv.count_lt), Nat.mod_eq_of_lt hlt] at hn
  omega

theorem stopAndWait_step_inv {p : StopAndWait α} {s t : StopAndWaitState α}
    (inv : StopAndWaitInv p s) (h : StopAndWaitStep p s t) : StopAndWaitInv p t := by
  cases h with
  | offer hb =>
    refine { inv with offered_le := ?_ }
    intro j hj
    rcases List.mem_cons.mp hj with rfl | hj
    · exact ⟨inv.next_pos, le_rfl, hb⟩
    · exact inv.offered_le j hj
  | @accept j hj hn =>
    -- only the block after the last accepted one is taken, and none once the number has wrapped
    obtain ⟨hje, hw, hlt⟩ := stopAndWait_accepted_eq inv hj hn
    obtain ⟨_, hjn, hjt⟩ := inv.offered_le j hj
    have hlen : (s.received ++ [p.block j]).length = s.received.length + 1 := by simp
    refine ⟨inv.next_pos, inv.next_le, ?_, ?_, ?_, ?_, ?_, inv.unwrapped, inv.offered_le, ?_⟩
    · simp only [hlen, List.range_succ, List.map_append, List.map_cons, List.map_nil]
      rw [← inv.received_eq, hje]
    · simp only [hlen]; omega
    · simp only [hlen]; omega
    · intro _
      have := inv.level hw
      simp only [hlen]; omega
    · intro hh
      simp only at hh; omega
    · intro a ha
      have := inv.confirmed_le a ha
      simp only [hlen]; omega
  | confirm hf =>
    refine { inv with confirmed_le := ?_ }
    intro a ha
    rcases List.mem_cons.mp ha with rfl | ha
    · exact ⟨hf, le_rfl⟩
    · exact inv.confirmed_le a ha
  | @advance a hb ha hn =>
    -- the receiver stays; what has to be shown is how far apart the two are now
    have hcount := inv.count_lt
    obtain ⟨hfa, hac⟩ := inv.confirmed_le a ha
    refine ⟨?_, ?_, inv.received_eq, hcount, inv.count_le, ?_, ?_, ?_, ?_, inv.confirmed_le⟩
    · simp
    · simpa using hb
    · intro hm
      have := stopAndWait_advance_level inv ha hn hm
      simp only; omega
    · intro hm
      rcases Nat.lt_or_ge p.modulus s.next with hlt | hge
      · exact inv.wrapped hlt
      · have := inv.level hge
        simp only at hm ⊢; omega
    · intro hf
      have hle := inv.unwrapped hf
      rcases Nat.lt_or_eq_of_le hle with hlt | heq
      · exact hlt
      · -- a wrapped number is confirmed only by a confirmation of nothing
        rw [heq, Nat.mod_self, Nat.mod_eq_of_lt (by omega)] at hn
        omega
    · intro j hj
      obtain ⟨h1, h2, h3⟩ := inv.offered_le j hj
      exact ⟨h1, h2.trans (Nat.le_succ _), h3⟩

/-- A sender that is past its last block without its number having wrapped was understood. -/
theorem stopAndWait_finished {p : StopAndWait α} {s : StopAndWaitState α}
    (inv : StopAndWaitInv p s) (hn : s.next = p.total + 1)
    (hw : p.total < p.modulus ∨ 1 ≤ p.firstConfirmed) : s.received.length = p.total := by
  have hle : s.next ≤ p.modulus := by
    rcases hw with hw | hw
    · omega
    · exact inv.unwrapped hw
  have := inv.level hle
  have := inv.count_le
  omega

/-- A transfer that learns further blocks is where it was. -/
theorem StopAndWaitInv.extend {p q : StopAndWait α} {s : StopAndWaitState α}
    (inv : StopAndWaitInv p s) (hm : q.modulus = p.modulus)
    (hf : q.firstConfirmed = p.firstConfirmed) (ht : p.total ≤ q.total)
    (hb : ∀ j, 1 ≤ j → j ≤ p.total → q.block j = p.block j) : StopAndWaitInv q s where
  next_pos := inv.next_pos
  next_le := inv.next_le.trans (by omega)
  received_eq := by
    rw [List.map_congr_left fun k hk => ?_]
    · exact inv.received_eq
    · have := List.mem_range.mp hk
      have := inv.count_le
      exact hb (k + 1) (by omega) (by omega)
  count_lt := by rw [hm]; exact inv.count_lt
  count_le := inv.count_le.trans ht
  level := by rw [hm]; exact inv.level
  wrapped := by rw [hm]; exact inv.wrapped
  unwrapped := by rw [hm, hf]; exact inv.unwrapped
  offered_le := fun j hj => by
    obtain ⟨h1, h2, h3⟩ := inv.offered_le j hj
    exact ⟨h1, h2, h3.trans ht⟩
  confirmed_le := by rw [hf]; exact inv.confirmed_le

end Protocols
