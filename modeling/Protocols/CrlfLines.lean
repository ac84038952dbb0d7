import Protocols.Texts
import Mathlib.Data.List.Flatten
import Mathlib.Data.List.Infix

namespace Protocols

def crlf : Text := ['\r', '\n']

/-- What stands before the first CRLF, and what stands after it. -/
def splitCrlf : Text → Option (Text × Text)
  | '\r' :: '\n' :: rest => some ([], rest)
  | c :: rest => (splitCrlf rest).map fun (line, rest) => (c :: line, rest)
  | [] => none

/-- `read_until`: pieces of the stream are read into the buffer until there is a CRLF in it. The
line, what the buffer has after the CRLF, and the pieces not read yet. -/
def readUntil : Text → List Text → Option (Text × Text × List Text)
  | buffer, [] => (splitCrlf buffer).map fun (line, rest) => (line, rest, [])
  | buffer, chunk :: chunks =>
    match splitCrlf buffer with
    | some (line, rest) => some (line, rest, chunk :: chunks)
    | none => readUntil (buffer ++ chunk) chunks

/-- `read_data` has a buffer of its own, which is lost with all that it has after the line. -/
def readData (chunks : List Text) : Option (Text × List Text) :=
  (readUntil [] chunks).map fun (line, _, chunks) => (line, chunks)

/-- A text without a CRLF: lone CR and LF are characters like others. -/
def CrlfFree (line : Text) : Prop := ¬ crlf <:+: line

/-- Lines one after another, each with its CRLF. -/
def unlines (lines : List Text) : Text := lines.flatMap fun line => line ++ crlf

/-- Line after line up to the first one that `ends` accepts, every one from the buffer that the one
before has left. -/
def readFrom (ends : Text → Bool) : Nat → Text → List Text → Option (List Text × List Text)
  | 0, _, _ => none
  | fuel + 1, buffer, chunks =>
    (readUntil buffer chunks).bind fun (line, rest, chunks) =>
      if ends line then some ([line], chunks)
      else (readFrom ends fuel rest chunks).map fun (lines, chunks) => (line :: lines, chunks)

/-- A loop that keeps its buffer from line to line, and loses it in the end. Every line takes its
CRLF, so there are no more lines than bytes. -/
def readThrough (ends : Text → Bool) (chunks : List Text) : Option (List Text × List Text) :=
  readFrom ends (chunks.flatten.length + 1) [] chunks

/-- Lines of which the last one, and no other, is accepted by `ends`. -/
inductive IsAnswer (ends : Text → Bool) : List Text → Prop
  | last {line} : CrlfFree line → ends line = true → IsAnswer ends [line]
  | more {line lines} : CrlfFree line → ends line = false → IsAnswer ends lines →
      IsAnswer ends (line :: lines)

instance (line : Text) : Decidable (CrlfFree line) :=
  inferInstanceAs (Decidable (¬ crlf <:+: line))

theorem splitCrlf_cons {c : Char} {s : Text} (h : ∀ rest, c = '\r' → s = '\n' :: rest → False) :
    splitCrlf (c :: s) = (splitCrlf s).map fun (line, rest) => (c :: line, rest) := by
  rw [splitCrlf]
  exact h

/-- The first CRLF stays the first one when the text goes on. -/
theorem splitCrlf_append {a line rest : Text} (b : Text) (h : splitCrlf a = some (line, rest)) :
    splitCrlf (a ++ b) = some (line, rest ++ b) := by
  induction a using splitCrlf.induct generalizing line with
  | case1 rest' =>
    cases h
    rfl
  | case2 c rest' hne ih =>
    rw [splitCrlf_cons hne] at h
    obtain ⟨⟨line', rest''⟩, hs, he⟩ := Option.map_eq_some_iff.mp h
    cases he
    rw [List.cons_append, splitCrlf_cons, ih hs]
    · rfl
    · intro r hc hr
      cases rest' with
      | nil => simp [splitCrlf] at hs
      | cons d rest' => exact hne rest' hc (by rw [(List.cons.inj hr).1])
  | case3 => simp [splitCrlf] at h

theorem splitCrlf_eq {s line rest : Text} (h : splitCrlf s = some (line, rest)) :
    s = line ++ crlf ++ rest ∧ splitCrlf (line ++ crlf) = some (line, []) := by
  induction s using splitCrlf.induct generalizing line with
  | case1 rest' =>
    cases h
    exact ⟨rfl, rfl⟩
  | case2 c rest' hne ih =>
    rw [splitCrlf_cons hne] at h
    obtain ⟨⟨line', rest''⟩, hs, he⟩ := Option.map_eq_some_iff.mp h
    cases he
    obtain ⟨heq, hline⟩ := ih hs
    refine ⟨by rw [heq]; rfl, ?_⟩
    rw [List.cons_append, splitCrlf_cons, hline]
    · rfl
    · intro r hc hr
      refine hne (r ++ rest) hc ?_
      rw [heq, hr]
      rfl
  | case3 => simp [splitCrlf] at h

theorem splitCrlf_suffix {a b : Text} (h : splitCrlf (a ++ b) = none) : splitCrlf b = none := by
  induction a with
  | nil => exact h
  | cons c a ih =>
    apply ih
    by_cases hc : ∃ rest, c = '\r' ∧ a ++ b = '\n' :: rest
    · obtain ⟨rest, rfl, hr⟩ := hc
      rw [List.cons_append, hr] at h
      simp [splitCrlf] at h
    · rw [List.cons_append, splitCrlf_cons fun rest hcr hr => hc ⟨rest, hcr, hr⟩] at h
      simpa using h

theorem splitCrlf_none {s : Text} : splitCrlf s = none ↔ CrlfFree s := by
  induction s using splitCrlf.induct with
  | case1 rest =>
    have hcrlf : crlf <:+: '\r' :: '\n' :: rest := (List.prefix_append crlf rest).isInfix
    simp [splitCrlf, CrlfFree, hcrlf]
  | case2 c rest hne ih =>
    have hnot : ¬ crlf <+: c :: rest := by
      rintro ⟨t, ht⟩
      exact hne t (List.cons.inj ht).1.symm (List.cons.inj ht).2.symm
    rw [splitCrlf_cons hne, Option.map_eq_none_iff, ih, CrlfFree, CrlfFree, List.infix_cons_iff]
    simp [hnot]
  | case3 => simp [splitCrlf, CrlfFree, crlf]

theorem crlfFree_of_not_mem {line : Text} (h : '\r' ∉ line) : CrlfFree line := fun hin =>
  h (hin.subset List.mem_cons_self)

theorem splitCrlf_line {line : Text} (h : CrlfFree line) (rest : Text) :
    splitCrlf (line ++ crlf ++ rest) = some (line, rest) := by
  induction line with
  | nil => rfl
  | cons c line ih =>
    have hline : CrlfFree line := fun hin => h (hin.trans (List.suffix_cons c line).isInfix)
    rw [List.append_assoc, List.cons_append, splitCrlf_cons, ← List.append_assoc, ih hline]
    · rfl
    · -- the CRLF would begin in the line
      intro r hc hr
      cases line with
      | nil => cases hr
      | cons d line =>
        refine h ⟨[], line, ?_⟩
        rw [hc, (List.cons.inj hr).1]
        rfl

theorem splitCrlf_free {s line rest : Text} (h : splitCrlf s = some (line, rest)) :
    CrlfFree line := by
  induction s using splitCrlf.induct generalizing line with
  | case1 rest' =>
    cases h
    simp [CrlfFree, crlf]
  | case2 c rest' hne ih =>
    rw [splitCrlf_cons hne] at h
    obtain ⟨⟨line', rest''⟩, hs, he⟩ := Option.map_eq_some_iff.mp h
    cases he
    intro hin
    rcases List.infix_cons_iff.mp hin with hpre | hin
    · obtain ⟨t, ht⟩ := hpre
      refine hne (t ++ crlf ++ rest) (List.cons.inj ht).1.symm ?_
      rw [(splitCrlf_eq hs).1, ← (List.cons.inj ht).2]
      simp
    · exact ih hs hin
  | case3 => simp [splitCrlf] at h

theorem readUntil_some {buffer line rest : Text} {chunks unread : List Text}
    (h : readUntil buffer chunks = some (line, rest, unread)) :
    splitCrlf (buffer ++ chunks.flatten) = some (line, rest ++ unread.flatten) := by
  induction chunks generalizing buffer with
  | nil =>
    obtain ⟨⟨line', rest'⟩, hs, he⟩ := Option.map_eq_some_iff.mp h
    cases he
    simpa using hs
  | cons chunk chunks ih =>
    rw [readUntil] at h
    split at h
    next line' rest' hs =>
      cases h
      exact splitCrlf_append _ hs
    next =>
      rw [List.flatten_cons, ← List.append_assoc]
      exact ih h

theorem readUntil_none {buffer : Text} {chunks : List Text} :
    readUntil buffer chunks = none ↔ splitCrlf (buffer ++ chunks.flatten) = none := by
  induction chunks generalizing buffer with
  | nil => simp [readUntil]
  | cons chunk chunks ih =>
    rw [readUntil, List.flatten_cons]
    split
    next line rest hs => simp [splitCrlf_append _ hs]
    next => rw [ih, List.append_assoc]

/-- What has been read is the first line, whatever the pieces, and some of the rest may be lost. -/
theorem readData_some {chunks unread : List Text} {line : Text}
    (h : readData chunks = some (line, unread)) :
    ∃ lost, splitCrlf chunks.flatten = some (line, lost ++ unread.flatten) := by
  obtain ⟨⟨line', lost, unread'⟩, hr, he⟩ := Option.map_eq_some_iff.mp h
  cases he
  exact ⟨lost, readUntil_some hr⟩

theorem readData_none {chunks : List Text} :
    readData chunks = none ↔ splitCrlf chunks.flatten = none := by
  simp [readData, readUntil_none]

theorem readUntil_suffix {buffer line rest : Text} {chunks unread : List Text}
    (h : readUntil buffer chunks = some (line, rest, unread)) : unread <:+ chunks := by
  induction chunks generalizing buffer with
  | nil =>
    obtain ⟨_, _, he⟩ := Option.map_eq_some_iff.mp h
    cases he
    exact List.suffix_refl _
  | cons chunk chunks ih =>
    rw [readUntil] at h
    split at h
    next =>
      cases h
      exact List.suffix_refl _
    next => exact (ih h).trans (List.suffix_cons _ _)

theorem readData_piece {piece line rest : Text} (h : splitCrlf piece = some (line, rest))
    (chunks : List Text) : readData (piece :: chunks) = some (line, chunks) := by
  have hr : readUntil [] (piece :: chunks) = readUntil piece chunks := by
    simp [readUntil, splitCrlf]
  rw [readData, hr]
  cases chunks with
  | nil => simp [readUntil, h]
  | cons chunk chunks => simp [readUntil, h]

/-- What is there already is read first. -/
theorem readUntil_append {buffer line rest : Text} {chunks unread : List Text} (later : List Text)
    (h : readUntil buffer chunks = some (line, rest, unread)) :
    readUntil buffer (chunks ++ later) = some (line, rest, unread ++ later) := by
  induction chunks generalizing buffer with
  | nil =>
    obtain ⟨⟨line', rest'⟩, hs, he⟩ := Option.map_eq_some_iff.mp h
    cases he
    cases later with
    | nil => simp [readUntil, hs]
    | cons chunk later => simp [readUntil, hs]
  | cons chunk chunks ih =>
    rw [readUntil] at h
    rw [List.cons_append, readUntil]
    split at h
    next =>
      cases h
      rfl
    next => exact ih h

@[simp] theorem unlines_nil : unlines [] = [] := rfl

theorem unlines_cons (line : Text) (lines : List Text) :
    unlines (line :: lines) = line ++ crlf ++ unlines lines := rfl

theorem unlines_append (lines lines' : List Text) :
    unlines (lines ++ lines') = unlines lines ++ unlines lines' := List.flatMap_append

theorem nil_notMem_whole {lines : List Text} (h : lines ≠ []) : [] ∉ [unlines lines] := by
  obtain ⟨line, lines, rfl⟩ := List.exists_cons_of_ne_nil h
  simp [unlines_cons, crlf]

theorem length_le_unlines (lines : List Text) : lines.length ≤ (unlines lines).length := by
  induction lines with
  | nil => exact Nat.zero_le _
  | cons line lines ih =>
    rw [unlines_cons]
    simp only [List.length_cons, List.length_append, crlf]
    omega

theorem splitCrlf_unlines {line : Text} (h : CrlfFree line) (lines : List Text) (rest : Text) :
    splitCrlf (unlines (line :: lines) ++ rest) = some (line, unlines lines ++ rest) := by
  rw [unlines_cons, List.append_assoc]
  exact splitCrlf_line h _

theorem unlines_prefix {lines lines' : List Text} (h : ∀ line ∈ lines, CrlfFree line)
    (h' : ∀ line ∈ lines', CrlfFree line) (hpre : unlines lines <+: unlines lines') :
    lines <+: lines' := by
  induction lines generalizing lines' with
  | nil => exact List.nil_prefix
  | cons line lines ih =>
    obtain ⟨hline, hlines⟩ := List.forall_mem_cons.mp h
    obtain ⟨rest, hrest⟩ := hpre
    have hsplit := splitCrlf_unlines hline lines rest
    cases lines' with
    | nil =>
      rw [hrest, unlines_nil] at hsplit
      cases hsplit
    | cons line' lines' =>
      obtain ⟨hline', hlines'⟩ := List.forall_mem_cons.mp h'
      have hsplit' := splitCrlf_unlines hline' lines' []
      rw [List.append_nil, ← hrest, hsplit, List.append_nil] at hsplit'
      obtain ⟨rfl, heq⟩ := Prod.mk.inj (Option.some.inj hsplit')
      exact List.cons_prefix_cons.mpr ⟨rfl, ih hlines hlines' ⟨rest, heq⟩⟩

theorem unlines_ended (lines : List Text) : unlines lines = [] ∨ crlf <:+ unlines lines := by
  rcases lines.eq_nil_or_concat' with rfl | ⟨init, line, rfl⟩
  · exact Or.inl rfl
  · rw [unlines_append, unlines_cons, unlines_nil, List.append_nil, ← List.append_assoc]
    exact Or.inr (List.suffix_append _ _)

/-- A text is cut into lines and what follows the last CRLF in one way only. -/
theorem unlines_unique {lines lines' : List Text} {tail tail' : Text}
    (h : ∀ line ∈ lines, CrlfFree line) (h' : ∀ line ∈ lines', CrlfFree line)
    (ht : CrlfFree tail) (ht' : CrlfFree tail') (heq : unlines lines ++ tail = unlines lines' ++ tail') :
    lines = lines' ∧ tail = tail' := by
  induction lines generalizing lines' with
  | nil =>
    cases lines' with
    | nil => exact ⟨rfl, heq⟩
    | cons line' lines' =>
      have hsplit := splitCrlf_unlines (h' line' List.mem_cons_self) lines' tail'
      rw [← heq, unlines_nil, List.nil_append, splitCrlf_none.mpr ht] at hsplit
      cases hsplit
  | cons line lines ih =>
    obtain ⟨hline, hlines⟩ := List.forall_mem_cons.mp h
    have hsplit := splitCrlf_unlines hline lines tail
    cases lines' with
    | nil =>
      rw [heq, unlines_nil, List.nil_append, splitCrlf_none.mpr ht'] at hsplit
      cases hsplit
    | cons line' lines' =>
      obtain ⟨hline', hlines'⟩ := List.forall_mem_cons.mp h'
      rw [heq, splitCrlf_unlines hline'] at hsplit
      obtain ⟨rfl, hrest⟩ := Prod.mk.inj (Option.some.inj hsplit)
      obtain ⟨rfl, htail⟩ := ih hlines hlines' hrest.symm
      exact ⟨rfl, htail⟩

/-- A text that ends with a line consists of lines. -/
theorem unlines_of_ended {s : Text} (h : s = [] ∨ crlf <:+ s) :
    ∃ lines, s = unlines lines ∧ ∀ line ∈ lines, CrlfFree line := by
  obtain ⟨n, hn⟩ : ∃ n, s.length = n := ⟨_, rfl⟩
  induction n using Nat.strong_induction_on generalizing s with
  | _ n ih =>
    rcases h with rfl | h
    · exact ⟨[], rfl, fun _ hl => (List.not_mem_nil hl).elim⟩
    · cases hs : splitCrlf s with
      | none => exact absurd h.isInfix (splitCrlf_none.mp hs)
      | some r =>
        obtain ⟨line, rest⟩ := r
        have heq := (splitCrlf_eq hs).1
        -- what follows the first line is nothing, or ends as the whole does
        have hrest : rest = [] ∨ crlf <:+ rest := by
          rcases rest with _ | ⟨c, _ | ⟨d, rest⟩⟩
          · exact Or.inl rfl
          · obtain ⟨before, hbefore⟩ := h
            rw [heq] at hbefore
            simp [crlf, List.append_eq_append_iff, List.cons_eq_append_iff] at hbefore
          · refine Or.inr (List.suffix_of_suffix_length_le h ⟨line ++ crlf, heq.symm⟩ ?_)
            simp [crlf]
        have hlt : rest.length < n := by
          rw [← hn, heq]
          simp only [List.length_append, crlf, List.length_cons, List.length_nil]
          omega
        obtain ⟨lines, hlines, hfree⟩ := ih rest.length hlt hrest rfl
        refine ⟨line :: lines, by rw [unlines_cons, ← hlines, heq], ?_⟩
        exact List.forall_mem_cons.mpr ⟨splitCrlf_free hs, hfree⟩

section

variable {ends : Text → Bool} {fuel : Nat} {buffer : Text} {chunks unread lines : List Text}

theorem IsAnswer.ne_nil (h : IsAnswer ends lines) : lines ≠ [] := by
  cases h <;> exact List.cons_ne_nil _ _

theorem isAnswer_concat {init : List Text} {line : Text} : IsAnswer ends (init ++ [line]) ↔
    (∀ l ∈ init, CrlfFree l ∧ ends l = false) ∧ CrlfFree line ∧ ends line = true := by
  induction init with
  | nil =>
    constructor
    · intro h
      cases h with
      | last hf he => exact ⟨fun _ hl => (List.not_mem_nil hl).elim, hf, he⟩
      | more _ _ h => exact absurd rfl h.ne_nil
    · intro h
      exact .last h.2.1 h.2.2
  | cons l init ih =>
    rw [List.cons_append]
    constructor
    · intro h
      generalize hinit : init ++ [line] = more at h
      cases h with
      | last _ _ => simp at hinit
      | more hf he h =>
        rw [← hinit, ih] at h
        exact ⟨List.forall_mem_cons.mpr ⟨⟨hf, he⟩, h.1⟩, h.2⟩
    · intro h
      obtain ⟨hl, hinit⟩ := List.forall_mem_cons.mp h.1
      exact .more hl.1 hl.2 (ih.mpr ⟨hinit, h.2⟩)

theorem IsAnswer.free (h : IsAnswer ends lines) : ∀ line ∈ lines, CrlfFree line := by
  induction h with
  | last hf _ => exact List.forall_mem_singleton.mpr hf
  | more hf _ _ ih => exact List.forall_mem_cons.mpr ⟨hf, ih⟩

/-- Lines of which one is accepted begin with an answer. -/
theorem answer_of_lines (hfree : ∀ line ∈ lines, CrlfFree line)
    (h : ∃ line ∈ lines, ends line = true) : ∃ answer, IsAnswer ends answer ∧ answer <+: lines := by
  induction lines with
  | nil => simp at h
  | cons line lines ih =>
    obtain ⟨hline, hlines⟩ := List.forall_mem_cons.mp hfree
    cases hends : ends line with
    | true => exact ⟨[line], .last hline hends, List.prefix_append [line] lines⟩
    | false =>
      obtain ⟨l, hl, he⟩ := h
      rcases List.mem_cons.mp hl with rfl | hl
      · rw [hends] at he
        cases he
      · obtain ⟨answer, ha, hpre⟩ := ih hlines ⟨l, hl, he⟩
        exact ⟨line :: answer, .more hline hends ha, List.cons_prefix_cons.mpr ⟨rfl, hpre⟩⟩

theorem readFrom_suffix (h : readFrom ends fuel buffer chunks = some (lines, unread)) :
    unread <:+ chunks := by
  induction fuel generalizing buffer chunks lines with
  | zero => simp [readFrom] at h
  | succ fuel ih =>
    obtain ⟨⟨line, rest, chunks'⟩, hr, h⟩ := Option.bind_eq_some_iff.mp h
    dsimp only at h
    split at h
    next =>
      cases h
      exact readUntil_suffix hr
    next =>
      obtain ⟨⟨lines', unread'⟩, hl, he⟩ := Option.map_eq_some_iff.mp h
      cases he
      exact (ih hl).trans (readUntil_suffix hr)

/-- What has been read is an answer, and the stream goes on with what is lost and not yet read. -/
theorem readFrom_some (h : readFrom ends fuel buffer chunks = some (lines, unread)) :
    IsAnswer ends lines ∧
      ∃ lost, buffer ++ chunks.flatten = unlines lines ++ (lost ++ unread.flatten) := by
  induction fuel generalizing buffer chunks lines with
  | zero => simp [readFrom] at h
  | succ fuel ih =>
    obtain ⟨⟨line, rest, chunks'⟩, hr, h⟩ := Option.bind_eq_some_iff.mp h
    have hsplit := readUntil_some hr
    have hfree := splitCrlf_free hsplit
    dsimp only at h
    split at h
    next hends =>
      cases h
      refine ⟨.last hfree hends, rest, ?_⟩
      rw [(splitCrlf_eq hsplit).1, unlines_cons, unlines_nil, List.append_nil]
    next hends =>
      obtain ⟨⟨lines', unread'⟩, hl, he⟩ := Option.map_eq_some_iff.mp h
      cases he
      obtain ⟨hanswer, lost, hrest⟩ := ih hl
      refine ⟨.more hfree (by simpa using hends) hanswer, lost, ?_⟩
      rw [(splitCrlf_eq hsplit).1, hrest, unlines_cons, List.append_assoc, List.append_assoc,
        List.append_assoc]

theorem readFrom_answer {rest : Text} (hl : IsAnswer ends lines) (hfuel : lines.length ≤ fuel)
    (h : buffer ++ chunks.flatten = unlines lines ++ rest) :
    ∃ unread, readFrom ends fuel buffer chunks = some (lines, unread) := by
  induction hl generalizing fuel buffer chunks with
  | @last line hf he =>
    obtain ⟨fuel, rfl⟩ := Nat.exists_eq_succ_of_ne_zero (Nat.one_le_iff_ne_zero.mp hfuel)
    have hsplit : splitCrlf (buffer ++ chunks.flatten) = some (line, rest) := by
      rw [h, unlines_cons, unlines_nil, List.append_nil]
      exact splitCrlf_line hf rest
    cases hr : readUntil buffer chunks with
    | none =>
      rw [readUntil_none.mp hr] at hsplit
      cases hsplit
    | some r =>
      obtain ⟨line', rest', unread⟩ := r
      have hline := readUntil_some hr
      rw [hsplit] at hline
      cases hline
      exact ⟨unread, by simp [readFrom, hr, he]⟩
  | @more line lines hf he _ ih =>
    obtain ⟨fuel, rfl⟩ := Nat.exists_eq_succ_of_ne_zero
      (Nat.ne_of_gt (Nat.lt_of_lt_of_le (Nat.zero_lt_succ _) hfuel))
    have hsplit : splitCrlf (buffer ++ chunks.flatten) = some (line, unlines lines ++ rest) := by
      rw [h, unlines_cons, List.append_assoc]
      exact splitCrlf_line hf _
    cases hr : readUntil buffer chunks with
    | none =>
      rw [readUntil_none.mp hr] at hsplit
      cases hsplit
    | some r =>
      obtain ⟨line', rest', chunks'⟩ := r
      have hline := readUntil_some hr
      rw [hsplit] at hline
      obtain ⟨rfl, hrest⟩ := Prod.mk.inj (Option.some.inj hline)
      obtain ⟨unread, hu⟩ := ih (Nat.le_of_succ_le_succ hfuel) hrest.symm
      exact ⟨unread, by simp [readFrom, hr, he, hu]⟩

theorem readFrom_append {fuel' : Nat} (later : List Text) (hfuel : fuel ≤ fuel')
    (h : readFrom ends fuel buffer chunks = some (lines, unread)) :
    readFrom ends fuel' buffer (chunks ++ later) = some (lines, unread ++ later) := by
  induction fuel generalizing fuel' buffer chunks lines with
  | zero => simp [readFrom] at h
  | succ fuel ih =>
    obtain ⟨fuel', rfl⟩ := Nat.exists_eq_succ_of_ne_zero
      (Nat.ne_of_gt (Nat.lt_of_lt_of_le (Nat.zero_lt_succ _) hfuel))
    obtain ⟨⟨line, rest, chunks'⟩, hr, h⟩ := Option.bind_eq_some_iff.mp h
    dsimp only at h
    rw [readFrom, readUntil_append later hr, Option.bind_some]
    dsimp only
    split at h
    next hends =>
      cases h
      rw [if_pos hends]
    next hends =>
      obtain ⟨⟨lines', unread'⟩, hl, he⟩ := Option.map_eq_some_iff.mp h
      cases he
      rw [if_neg hends, ih (Nat.le_of_succ_le_succ hfuel) hl]
      rfl

theorem readThrough_some (h : readThrough ends chunks = some (lines, unread)) :
    IsAnswer ends lines ∧ ∃ lost, chunks.flatten = unlines lines ++ (lost ++ unread.flatten) :=
  readFrom_some h

theorem readThrough_answer (hl : IsAnswer ends lines) (h : unlines lines <+: chunks.flatten) :
    ∃ unread, readThrough ends chunks = some (lines, unread) := by
  obtain ⟨rest, hrest⟩ := h
  refine readFrom_answer hl ?_ hrest.symm
  have hlen := congrArg List.length hrest
  have := length_le_unlines lines
  rw [List.length_append] at hlen
  omega

/-- The reader waits for more while no line is accepted. -/
theorem readThrough_unending (hfree : ∀ line ∈ lines, CrlfFree line)
    (hends : ∀ line ∈ lines, ends line = false) (h : chunks.flatten = unlines lines) :
    readThrough ends chunks = none := by
  refine Option.eq_none_iff_forall_ne_some.mpr fun r hr => ?_
  obtain ⟨answer, unread⟩ := r
  obtain ⟨ha, lost, hstream⟩ := readThrough_some hr
  have hpre : answer <+: lines := unlines_prefix ha.free hfree ⟨_, by rw [← h, hstream]⟩
  obtain ⟨init, last, rfl⟩ := answer.eq_nil_or_concat'.resolve_left ha.ne_nil
  have hlast := hends last (hpre.subset (by simp))
  rw [(isAnswer_concat.mp ha).2.2] at hlast
  cases hlast

/-- A stream begins with one answer at most. -/
theorem answer_unique {lines' : List Text} {stream : Text} (hl : IsAnswer ends lines)
    (hl' : IsAnswer ends lines') (h : unlines lines <+: stream) (h' : unlines lines' <+: stream) :
    lines = lines' := by
  rw [← List.flatten_singleton (l := stream)] at h h'
  obtain ⟨unread, hread⟩ := readThrough_answer hl h
  obtain ⟨unread', hread'⟩ := readThrough_answer hl' h'
  rw [hread] at hread'
  exact (Prod.mk.inj (Option.some.inj hread')).1

theorem readThrough_append (later : List Text) (h : readThrough ends chunks = some (lines, unread)) :
    readThrough ends (chunks ++ later) = some (lines, unread ++ later) := by
  refine readFrom_append later ?_ h
  rw [List.flatten_append, List.length_append]
  omega

/-- An answer that has come whole is read whole, and nothing that comes after it. -/
theorem readThrough_whole (hl : IsAnswer ends lines) (hne : [] ∉ chunks)
    (h : chunks.flatten = unlines lines) (later : List Text) :
    readThrough ends (chunks ++ later) = some (lines, later) := by
  obtain ⟨unread, hread⟩ := readThrough_answer hl ⟨[], by rw [h, List.append_nil]⟩
  obtain ⟨_, lost, hrest⟩ := readThrough_some hread
  rw [h, List.self_eq_append_right, List.append_eq_nil_iff] at hrest
  have hunread : unread = [] := by
    refine List.eq_nil_iff_forall_not_mem.mpr fun piece hpiece => ?_
    have hnil := List.flatten_eq_nil_iff.mp hrest.2 piece hpiece
    exact hne (hnil ▸ (readFrom_suffix hread).subset hpiece)
  have happend := readThrough_append later hread
  rwa [hunread, List.nil_append] at happend

/-- Lines are read as one answer, however they are cut and whatever comes after them, if and only if
they are one. -/
theorem readThrough_exactly_iff :
    (∀ pieces : List Text, [] ∉ pieces → pieces.flatten = unlines lines →
      ∀ later, readThrough ends (pieces ++ later) = some (lines, later)) ↔ IsAnswer ends lines := by
  constructor
  · intro h
    cases hlines : lines with
    | nil =>
      rw [hlines] at h
      exact absurd rfl (readThrough_some (h [] List.not_mem_nil rfl [])).1.ne_nil
    | cons line more =>
      rw [← hlines]
      have hne : lines ≠ [] := by simp [hlines]
      exact (readThrough_some (h _ (nil_notMem_whole hne) List.flatten_singleton [])).1
  · intro hl pieces hne hp later
    exact readThrough_whole hl hne hp later

end

section

/-- The text in lines, and what follows the last one. -/
structure IsCut (s : Text) (lines : List Text) (tail : Text) : Prop where
  whole : s = unlines lines ++ tail
  free : ∀ line ∈ lines, CrlfFree line
  tail : CrlfFree tail

theorem isCut_exists (s : Text) : ∃ lines tail, IsCut s lines tail := by
  obtain ⟨n, hn⟩ : ∃ n, s.length = n := ⟨_, rfl⟩
  induction n using Nat.strong_induction_on generalizing s with
  | _ n ih =>
    cases hs : splitCrlf s with
    | none => exact ⟨[], s, rfl, nofun, splitCrlf_none.mp hs⟩
    | some r =>
      obtain ⟨line, rest⟩ := r
      have heq := (splitCrlf_eq hs).1
      have hlt : rest.length < n := by
        rw [← hn, heq]
        simp only [List.length_append, crlf, List.length_cons, List.length_nil]
        omega
      obtain ⟨lines, tail, hrest, hfree, htail⟩ := ih rest.length hlt rest rfl
      refine ⟨line :: lines, tail, ?_, List.forall_mem_cons.mpr ⟨splitCrlf_free hs, hfree⟩, htail⟩
      rw [heq, hrest, unlines_cons, List.append_assoc, List.append_assoc, List.append_assoc]

variable {s tail : Text} {lines answer chunks : List Text} {ends : Text → Bool} {line : Text}

theorem IsCut.beginning (h : IsCut s lines tail) (hfree : ∀ line ∈ answer, CrlfFree line) :
    unlines answer <+: s ↔ answer <+: lines := by
  constructor
  · rintro ⟨rest, hrest⟩
    obtain ⟨lines', tail', hcut, hfree', htail'⟩ := isCut_exists rest
    have hall : ∀ line ∈ answer ++ lines', CrlfFree line := List.forall_mem_append.mpr ⟨hfree, hfree'⟩
    have heq : unlines lines ++ tail = unlines (answer ++ lines') ++ tail' := by
      rw [← h.whole, ← hrest, hcut, unlines_append, List.append_assoc]
    exact ⟨lines', (unlines_unique h.free hall h.tail htail' heq).1.symm⟩
  · rintro ⟨more, rfl⟩
    rw [h.whole, unlines_append, List.append_assoc]
    exact List.prefix_append _ _

/-- The answer that is read ends with the first line that is accepted. -/
theorem IsCut.read_iff (h : IsCut chunks.flatten lines tail) :
    (∃ answer unread, readThrough ends chunks = some (answer, unread) ∧ answer.getLastD [] = line) ↔
      lines.find? ends = some line := by
  rw [List.find?_eq_some_iff_append]
  constructor
  · rintro ⟨answer, unread, hread, rfl⟩
    obtain ⟨hanswer, lost, hstream⟩ := readThrough_some hread
    obtain ⟨more, hmore⟩ := (h.beginning hanswer.free).mp ⟨_, hstream.symm⟩
    obtain ⟨init, last, rfl⟩ := answer.eq_nil_or_concat'.resolve_left hanswer.ne_nil
    obtain ⟨hinit, _, hlast⟩ := isAnswer_concat.mp hanswer
    rw [List.getLastD_concat]
    refine ⟨hlast, init, more, by rw [← hmore]; simp, fun other ho => ?_⟩
    rw [(hinit other ho).2]
    rfl
  · rintro ⟨hends, init, more, rfl, hinit⟩
    have hanswer : IsAnswer ends (init ++ [line]) := by
      refine isAnswer_concat.mpr ⟨fun other ho => ⟨h.free other (by simp [ho]), ?_⟩,
        h.free line (by simp), hends⟩
      simpa using hinit other ho
    have hpre : init ++ [line] <+: init ++ line :: more := ⟨more, by simp⟩
    obtain ⟨unread, hread⟩ := readThrough_answer hanswer ((h.beginning hanswer.free).mpr hpre)
    exact ⟨_, unread, hread, List.getLastD_concat⟩

end

end Protocols
