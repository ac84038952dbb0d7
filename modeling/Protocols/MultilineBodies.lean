import Protocols.LineFraming
import Protocols.Pop3Client

namespace Protocols

/-- One of the lines of the stream is the given one. -/
def HasLine (line stream : Text) : Prop :=
  ∃ before after, stream = before ++ line ++ crlf ++ after ∧ (before = [] ∨ crlf <:+ before)

/-- The lines of the stream up to its first line `.`. -/
structure IsMultiline (stream : Text) (lines : List Text) : Prop where
  free : ∀ line ∈ lines, CrlfFree line
  beginning : unlines lines <+: stream
  last : lines.getLast? = some ['.']
  first : ['.'] ∉ lines.dropLast

section

variable {stream : Text} {lines : List Text}

theorem isMultiline_iff : IsMultiline stream lines ↔
    IsAnswer (fun line => line == ['.']) lines ∧ unlines lines <+: stream := by
  constructor
  · rintro ⟨hfree, hbeginning, hlast, hfirst⟩
    obtain ⟨init, rfl⟩ := List.getLast?_eq_some_iff.mp hlast
    rw [List.dropLast_concat] at hfirst
    refine ⟨isAnswer_concat.mpr ⟨fun l hl => ⟨hfree l (by simp [hl]), ?_⟩, by decide, rfl⟩, hbeginning⟩
    exact beq_eq_false_iff_ne.mpr fun he => hfirst (he ▸ hl)
  · rintro ⟨ha, hbeginning⟩
    obtain ⟨init, line, rfl⟩ := lines.eq_nil_or_concat'.resolve_left ha.ne_nil
    obtain ⟨hinit, _, hline⟩ := isAnswer_concat.mp ha
    refine ⟨ha.free, hbeginning, by simpa using hline, ?_⟩
    rw [List.dropLast_concat]
    exact fun hdot => by simpa using (hinit _ hdot).2

theorem multiline_exists (h : HasLine ['.'] stream) :
    ∃ lines, IsAnswer (fun line => line == ['.']) lines ∧ unlines lines <+: stream := by
  obtain ⟨before, after, rfl, hbefore⟩ := h
  obtain ⟨front, rfl, hfree⟩ := unlines_of_ended hbefore
  have hlines : ∀ line ∈ front ++ [['.']], CrlfFree line :=
    List.forall_mem_append.mpr ⟨hfree, List.forall_mem_singleton.mpr (by decide)⟩
  have hdot : ∃ line ∈ front ++ [['.']], (line == ['.']) = true := ⟨['.'], by simp, rfl⟩
  obtain ⟨lines, ha, more, hmore⟩ := answer_of_lines hlines hdot
  refine ⟨lines, ha, unlines more ++ after, ?_⟩
  rw [← List.append_assoc, ← unlines_append, hmore, unlines_append, unlines_cons]
  simp

/-- Both readers take the lines up to the first line `.`, however the stream is cut. -/
theorem multiline_bodies (h : HasLine ['.'] stream) :
    ∃ lines, IsMultiline stream lines ∧ (∀ other, IsMultiline stream other → other = lines) ∧
      ∀ chunks : List Text, chunks.flatten = stream →
        (∃ unread, readMultipleLines chunks = some (lines, unread)) ∧
          ∃ unread, Pop3Client.readMultiline chunks = some (lines, unread) := by
  obtain ⟨lines, ha, hbeginning⟩ := multiline_exists h
  refine ⟨lines, isMultiline_iff.mpr ⟨ha, hbeginning⟩, fun other ho => ?_, fun chunks hc => ?_⟩
  · obtain ⟨ha', hbeginning'⟩ := isMultiline_iff.mp ho
    exact answer_unique ha' ha hbeginning' hbeginning
  · rw [← hc] at hbeginning
    rw [readMultipleLines_eq]
    exact ⟨readThrough_answer ha hbeginning, readThrough_answer ha hbeginning⟩

theorem multiline_bodies_dots : ∃ lines, IsMultiline "a\r\n..\r\n\r\n.\r\nb".toList lines ∧
    (∀ other, IsMultiline "a\r\n..\r\n\r\n.\r\nb".toList other → other = lines) ∧
      ∀ chunks : List Text, chunks.flatten = "a\r\n..\r\n\r\n.\r\nb".toList →
        (∃ unread, readMultipleLines chunks = some (lines, unread)) ∧
          ∃ unread, Pop3Client.readMultiline chunks = some (lines, unread) :=
  multiline_bodies ⟨"a\r\n..\r\n\r\n".toList, "b".toList, rfl, Or.inr ⟨"a\r\n..\r\n".toList, rfl⟩⟩

end

end Protocols
