import Protocols.LastValue
import Protocols.Pop3Transparency
import Protocols.RegexLines

namespace Protocols

open Regex

namespace Pop3Client

/-- The body is what stands between the first empty line and the last line. -/
structure HasBody (message : List Text) : Prop where
  between : ∀ front body, message = front ++ [] :: (body ++ [endList]) → [] ∉ front →
    (parseMessage message).body = newlined body
  missing : [] ∉ message → (parseMessage message).body = []

section

variable {message front body chunks unread : List Text}

theorem newlined_append (lines lines' : List Text) :
    newlined (lines ++ lines') = newlined lines ++ newlined lines' := List.flatMap_append

theorem newlined_eq_nil {lines : List Text} : newlined lines = [] ↔ lines = [] := by
  constructor
  · intro h
    have hlen := length_newlined lines
    rw [h] at hlen
    exact List.length_eq_zero_iff.mp (Nat.le_zero.mp hlen)
  · rintro rfl
    rfl

/-- Without an empty line the default of `body_start` stays. -/
theorem bodyStart_default (table : Table Text Text) (n : Nat) (h : [] ∉ message) :
    (parseHeaders table n message).2 = 0 := by
  induction message generalizing table n with
  | nil => rfl
  | cons line message ih =>
    obtain ⟨hline, hrest⟩ := List.ne_and_not_mem_of_not_mem_cons h
    rw [parseHeaders]
    simp only [if_neg (Ne.symm hline)]
    exact ih _ _ hrest

/-- The lines up to the first empty one get into the body as far as their number is cut off. -/
theorem body_after_empty (h : [] ∉ front) :
    (parseMessage (front ++ [] :: (body ++ [endList]))).body =
      newlined ((front ++ [[]]).drop ((front.length + 1) % 2 ^ 32)) ++ newlined body := by
  have hlast : (front ++ [] :: (body ++ [endList])).dropLast = (front ++ [[]]) ++ body := by
    have hconcat : front ++ [] :: (body ++ [endList]) = ((front ++ [[]]) ++ body) ++ [endList] := by
      simp
    rw [hconcat, List.dropLast_concat]
  have hle : (front.length + 1) % 2 ^ 32 ≤ (front ++ [[]]).length := by
    rw [List.length_append]
    exact Nat.mod_le _ _
  rw [parseMessage_body, bodyStart_eq ∅ 0 _ h, hlast, Nat.zero_add,
    List.drop_append_of_le_length hle, newlined_append]

theorem body_between_eq (h : [] ∉ front) :
    (parseMessage (front ++ [] :: (body ++ [endList]))).body = newlined body ↔
      front.length + 1 < 2 ^ 32 := by
  rw [body_after_empty h, List.append_left_eq_self, newlined_eq_nil, List.drop_eq_nil_iff]
  simp only [List.length_append, List.length_singleton]
  have hpos : 0 < 2 ^ 32 := by decide
  have hmod := Nat.mod_lt (front.length + 1) hpos
  constructor
  · intro hle
    omega
  · intro hlt
    rw [Nat.mod_eq_of_lt hlt]

theorem idxOf_empty (rest : List Text) (h : [] ∉ front) :
    (front ++ [] :: rest).idxOf [] = front.length := by
  rw [List.idxOf_append_of_notMem h, List.idxOf_cons_self, Nat.add_zero]

/-- The body of a message that has been read is the right one if and only if the message is nothing
but its last line, or it has an empty line whose index fits. -/
theorem hasBody_iff (h : readMultiline chunks = some (message, unread)) :
    HasBody message ↔
      message = [endList] ∨ ([] ∈ message ∧ message.idxOf [] + 1 < 2 ^ 32) := by
  have hanswer := (readThrough_some h).1
  obtain ⟨init, last, rfl⟩ := message.eq_nil_or_concat'.resolve_left hanswer.ne_nil
  obtain rfl : last = endList := beq_iff_eq.mp (isAnswer_concat.mp hanswer).2.2
  have hsplit : [] ∈ init ++ [endList] → ∃ front body,
      init ++ [endList] = front ++ [] :: (body ++ [endList]) ∧ [] ∉ front := by
    intro hempty
    have hinit : [] ∈ init := by simpa [endList] using hempty
    obtain ⟨front, body, rfl, hfront⟩ := List.eq_append_cons_of_mem hinit
    exact ⟨front, body, by simp, hfront⟩
  constructor
  · rintro ⟨hbetween, hmissing⟩
    by_cases hempty : [] ∈ init ++ [endList]
    · obtain ⟨front, body, heq, hfront⟩ := hsplit hempty
      have hbody := hbetween front body heq hfront
      rw [heq] at hbody
      refine Or.inr ⟨hempty, ?_⟩
      rw [heq, idxOf_empty _ hfront]
      exact (body_between_eq hfront).mp hbody
    · have hbody := hmissing hempty
      rw [parseMessage_body, bodyStart_default _ _ hempty, List.drop_zero, List.dropLast_concat,
        newlined_eq_nil] at hbody
      exact Or.inl (by rw [hbody, List.nil_append])
  · rintro (hone | ⟨hempty, hfits⟩)
    · rw [hone]
      refine ⟨fun front body heq _ => ?_, fun _ => rfl⟩
      have hlen := congrArg List.length heq
      simp only [List.length_append, List.length_cons, List.length_nil] at hlen
      omega
    · refine ⟨fun front body heq hfront => ?_, fun hnot => absurd hempty hnot⟩
      rw [heq, idxOf_empty _ hfront] at hfits
      rw [heq]
      exact (body_between_eq hfront).mpr hfits

theorem hasBody_mail :
    HasBody [positive, [], "a".toList, endList] ↔
      [positive, [], "a".toList, endList] = [endList] ∨
        ([] ∈ [positive, [], "a".toList, endList] ∧
          [positive, [], "a".toList, endList].idxOf [] + 1 < 2 ^ 32) := by
  have hread : readMultiline [unlines [positive, [], "a".toList, endList]] =
      some ([positive, [], "a".toList, endList], []) := by decide
  exact hasBody_iff hread

/-- A mail without a body: the status line and the header are taken for it. -/
theorem header_as_body :
    readMultiline [unlines [positive, "Subject: hi".toList, endList]] =
      some ([positive, "Subject: hi".toList, endList], []) ∧
    ¬ HasBody [positive, "Subject: hi".toList, endList] := by
  refine ⟨by decide, fun h => ?_⟩
  exact absurd (h.missing (by decide)) (by decide)

end

end Pop3Client

end Protocols
