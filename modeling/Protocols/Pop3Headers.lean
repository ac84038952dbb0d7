import Protocols.LastValue
import Protocols.Pop3Responses
import Protocols.RegexLines

namespace Protocols

open Regex

/-- A continuation line of a header. -/
def Folded (line : Text) : Prop := line.head? = some ' ' ∨ line.head? = some '\t'

/-- A field of a header section, folded onto lines. -/
structure Field where
  name : Text
  value : Text
  continuation : List Text
  named : name ≠ [] ∧ ':' ∉ name ∧ ¬ Folded name
  folds : ∀ line ∈ continuation, Folded line
  valued : value ++ continuation.flatten ≠ []

namespace Field

def line (f : Field) : Text := f.name ++ ':' :: ' ' :: f.value

def lines (f : Field) : List Text := f.line :: f.continuation

/-- The complete value. -/
def unfolded (f : Field) : Text := f.value ++ f.continuation.flatten

/-- The first line of the field has something of its value, and no break. -/
def Shown (f : Field) : Prop := f.value ≠ [] ∧ NoBreak f.value

end Field

namespace Pop3Client

/-- The line reads as the header, whatever it is. -/
structure IsEntry (line name value : Text) : Prop where
  line : line = name ++ ':' :: ' ' :: value
  name : name ≠ [] ∧ ':' ∉ name
  value : value ≠ [] ∧ NoBreak value

/-- What retrieves a mail with the fields. -/
def retrieved (text : Text) (fields : List Field) (body : List Text) : List Text :=
  (positive ++ text) :: (fields.flatMap Field.lines ++ [] :: (body ++ [endList]))

/-- The headers are those of the fields, each with the complete value of one of its occurrences, and
the lines other than the first ones of the fields make no difference to them. -/
structure HasHeaders (text : Text) (fields : List Field) (body : List Text) : Prop where
  names : ∀ name, name ∈ (parseMessage (retrieved text fields body)).headers ↔
    ∃ f ∈ fields, f.name = name
  values : ∀ name value, (parseMessage (retrieved text fields body)).headers.lookup name = some value →
    ∃ f ∈ fields, f.name = name ∧ f.unfolded = value
  others : ∀ name, (parseMessage (retrieved text fields body)).headers.lookup name =
    (parseMessage (fields.map Field.line)).headers.lookup name

/-- No line of the section reads as a header other than a field, and of every name the last
occurrence that shows a value shows a complete one. -/
structure ReadsAsMeant (text : Text) (fields : List Field) : Prop where
  status : ∀ name value, IsEntry (positive ++ text) name value → ∃ f ∈ fields, f.name = name
  continuation : ∀ f ∈ fields, ∀ line ∈ f.continuation, ∀ name value, ¬ IsEntry line name value
  last : ∀ f ∈ fields, ∃ before g after, fields = before ++ g :: after ∧ g.name = f.name ∧ g.Shown ∧
    (∀ h ∈ after, h.name = f.name → ¬ h.Shown) ∧ ∃ h ∈ fields, h.name = f.name ∧ h.unfolded = g.value

section

variable {line name value : Text}

theorem IsEntry.unique {name' value' : Text} (h : IsEntry line name value)
    (h' : IsEntry line name' value') : name = name' ∧ value = value' := by
  obtain ⟨hname, hvalue⟩ := split_unique h.name.2 h'.name.2 (h.line.symm.trans h'.line)
  exact ⟨hname, (List.cons.inj hvalue).2⟩

theorem headerName_words {w : Text} :
    w ∈ (plus (set fun c => c != ':')).words ↔ w ≠ [] ∧ ':' ∉ w := by
  have hset : ∀ w : Text, w ∈ (set fun c => c != ':').words ↔ ∃ c, c ≠ ':' ∧ w = [c] := by
    intro w
    simp [mem_set_words]
  rw [mem_plus_set_words hset]
  refine and_congr_right fun _ => ⟨fun h hin => h ':' hin rfl, fun h c hc he => h (he ▸ hc)⟩

theorem colon_words {w : Text} : w ∈ (lit ": ").words ↔ w = [':', ' '] :=
  mem_lit_plain_words (by decide)

theorem header_some {submatch : List Text} (h : regexMatch header line = some submatch) :
    IsEntry line (str submatch 1) (str submatch 2) := by
  obtain ⟨ws, hws, hline, hsubmatch⟩ := regexMatch_line_some
    [group 1 (plus (set fun c => c != ':')), lit ": ", group 2 (plus any)] (by decide) h
  obtain _ | ⟨hname, _ | ⟨hcolon, _ | ⟨hvalue, ⟨⟩⟩⟩⟩ := hws
  rw [colon_words.mp hcolon] at hline hsubmatch
  simp only [List.flatten_cons, List.flatten_nil, List.append_nil] at hline
  rw [hsubmatch]
  exact ⟨hline, headerName_words.mp hname, plus_any_words.mp hvalue⟩

theorem header_isSome (h : IsEntry line name value) : (regexMatch header line).isSome = true := by
  refine (regexMatch_line_iff
    [group 1 (plus (set fun c => c != ':')), lit ": ", group 2 (plus any)] (by decide)).mpr ?_
  simp only [all_cons, mem_seq_words]
  refine ⟨name, headerName_words.mpr h.name, _, ⟨[':', ' '], colon_words.mpr rfl, _,
    ⟨value, plus_any_words.mpr h.value, [], (Language.mem_one _).mpr rfl, List.append_nil value⟩,
    rfl⟩, ?_⟩
  rw [h.line]
  rfl

/-- The value that the line gives to the header with the name. -/
def entryOf (name line : Text) : Option Text :=
  (regexMatch header line).bind fun submatch =>
    if str submatch 1 = name then some (str submatch 2) else none

theorem entryOf_eq_some : entryOf name line = some value ↔ IsEntry line name value := by
  rw [entryOf, Option.bind_eq_some_iff]
  constructor
  · rintro ⟨submatch, hmatch, he⟩
    have hentry := header_some hmatch
    split at he
    next hname =>
      cases he
      rwa [hname] at hentry
    next => cases he
  · intro h
    obtain ⟨submatch, hmatch⟩ := Option.isSome_iff_exists.mp (header_isSome h)
    obtain ⟨hname, hvalue⟩ := (header_some hmatch).unique h
    exact ⟨submatch, hmatch, by rw [if_pos hname, hvalue]⟩

theorem entryOf_eq_none : entryOf name line = none ↔ ∀ value, ¬ IsEntry line name value := by
  rw [Option.eq_none_iff_forall_ne_some]
  exact forall_congr' fun value => not_congr entryOf_eq_some

end

section

variable {lines front : List Text} {name : Text}

/-- A line sets the header that it reads as. -/
def addEntry (headers : Table Text Text) (line : Text) : Table Text Text :=
  match regexMatch header line with
  | some submatch => headers.modify (str submatch 1) [] fun _ => str submatch 2
  | none => headers

theorem lookup_addEntry (headers : Table Text Text) (line : Text) :
    (addEntry headers line).lookup name = (entryOf name line).or (headers.lookup name) := by
  rw [addEntry, entryOf]
  cases regexMatch header line with
  | none => rfl
  | some submatch =>
    dsimp only [Option.bind_some]
    split
    next hname =>
      rw [← hname, lookup_modify_self]
      rfl
    next hname => exact lookup_modify_ne _ _ _ (Ne.symm hname)

theorem lookup_entries (headers : Table Text Text) (lines : List Text) :
    (lines.foldl addEntry headers).lookup name =
      (lastSome (entryOf name) lines).or (headers.lookup name) := by
  induction lines generalizing headers with
  | nil => rfl
  | cons line lines ih => rw [List.foldl_cons, ih, lookup_addEntry, lastSome_cons, Option.or_assoc]

theorem parseHeaders_entries (headers : Table Text Text) (n : Nat) (h : [] ∉ lines) :
    (parseHeaders headers n lines).1 = lines.foldl addEntry headers := by
  induction lines generalizing headers n with
  | nil => rfl
  | cons line lines ih =>
    obtain ⟨hline, hlines⟩ := List.ne_and_not_mem_of_not_mem_cons h
    rw [parseHeaders]
    simp only [if_neg (Ne.symm hline)]
    exact ih _ _ hlines

/-- The headers end with the first empty line. -/
theorem parseHeaders_section (headers : Table Text Text) (n : Nat) (h : [] ∉ front)
    (rest : List Text) :
    (parseHeaders headers n (front ++ [] :: rest)).1 = front.foldl addEntry headers := by
  induction front generalizing headers n with
  | nil => rfl
  | cons line front ih =>
    obtain ⟨hline, hfront⟩ := List.ne_and_not_mem_of_not_mem_cons h
    rw [List.cons_append, parseHeaders]
    simp only [if_neg (Ne.symm hline)]
    exact ih _ _ hfront

end

section

variable {text : Text} {fields : List Field} {body : List Text} {name value : Text}

theorem line_ne_nil (f : Field) : f.line ≠ [] :=
  List.append_ne_nil_of_right_ne_nil _ (List.cons_ne_nil _ _)

theorem folded_ne_nil {line : Text} (h : Folded line) : line ≠ [] := by
  rintro rfl
  rcases h with h | h <;> cases h

theorem field_entry {f : Field} :
    IsEntry f.line name value ↔ f.name = name ∧ f.value = value ∧ f.Shown := by
  constructor
  · intro h
    obtain ⟨hname, hvalue⟩ := split_unique f.named.2.1 h.name.2 h.line
    obtain rfl := (List.cons.inj hvalue).2
    exact ⟨hname, rfl, h.value⟩
  · rintro ⟨rfl, rfl, hshown⟩
    exact ⟨rfl, ⟨f.named.1, f.named.2.1⟩, hshown⟩

/-- The name that a continuation line is read with is not the name of a field. -/
theorem folded_entry {line : Text} (hl : Folded line) (h : IsEntry line name value) (f : Field) :
    f.name ≠ name := by
  rintro rfl
  refine f.named.2.2 ?_
  obtain ⟨c, rest, hname⟩ := List.exists_cons_of_ne_nil f.named.1
  rw [Folded, h.line, hname] at hl
  rw [Folded, hname]
  exact hl

theorem headers_retrieved (name : Text) :
    (parseMessage (retrieved text fields body)).headers.lookup name =
      (lastSome (entryOf name) (fields.flatMap Field.lines)).or (entryOf name (positive ++ text)) := by
  have hfront : [] ∉ (positive ++ text) :: fields.flatMap Field.lines := by
    refine List.not_mem_cons_of_ne_of_not_mem (by simp [positive]) fun hin => ?_
    obtain ⟨f, _, hf⟩ := List.mem_flatMap.mp hin
    rcases List.mem_cons.mp hf with he | hc
    · exact line_ne_nil f he.symm
    · exact folded_ne_nil (f.folds _ hc) rfl
  have hheaders : (parseMessage (retrieved text fields body)).headers =
      ((positive ++ text) :: fields.flatMap Field.lines).foldl addEntry ∅ :=
    parseHeaders_section ∅ 0 hfront (body ++ [endList])
  rw [hheaders, lookup_entries, lastSome_cons]
  exact Option.or_none

theorem headers_fields (name : Text) :
    (parseMessage (fields.map Field.line)).headers.lookup name =
      lastSome (fun f => entryOf name f.line) fields := by
  have hlines : [] ∉ fields.map Field.line := by
    intro hin
    obtain ⟨f, _, hf⟩ := List.mem_map.mp hin
    exact line_ne_nil f hf
  have hheaders : (parseMessage (fields.map Field.line)).headers =
      (fields.map Field.line).foldl addEntry ∅ := parseHeaders_entries ∅ 0 hlines
  rw [hheaders, lookup_entries, lastSome_map]
  exact Option.or_none

/-- Continuation lines that do not read as headers make no difference. -/
theorem unfolded_entries
    (h : ∀ f ∈ fields, ∀ line ∈ f.continuation, ∀ name value, ¬ IsEntry line name value) :
    lastSome (entryOf name) (fields.flatMap Field.lines) =
      lastSome (fun f => entryOf name f.line) fields := by
  induction fields with
  | nil => rfl
  | cons f fields ih =>
    obtain ⟨hf, hfields⟩ := List.forall_mem_cons.mp h
    have hnone : lastSome (entryOf name) f.continuation = none :=
      lastSome_eq_none.mpr fun line hl => entryOf_eq_none.mpr (hf line hl name)
    rw [List.flatMap_cons, Field.lines, lastSome_append, lastSome_cons, lastSome_cons, hnone,
      ih hfields]
    rfl

/-- The last field with the name that shows a value. -/
theorem last_shown : lastSome (fun f => entryOf name f.line) fields = some value ↔
    ∃ before g after, fields = before ++ g :: after ∧ g.name = name ∧ g.Shown ∧
      (∀ h ∈ after, h.name = name → ¬ h.Shown) ∧ g.value = value := by
  have hnone : ∀ h : Field, entryOf name h.line = none ↔ (h.name = name → ¬ h.Shown) := by
    intro h
    rw [entryOf_eq_none]
    simp only [field_entry]
    exact ⟨fun hall hname hshown => hall h.value ⟨hname, rfl, hshown⟩,
      fun himp v hv => himp hv.1 hv.2.2⟩
  simp only [lastSome_eq_some, entryOf_eq_some, field_entry, hnone]
  constructor
  · rintro ⟨before, g, after, hfields, ⟨hname, hvalue, hshown⟩, hafter⟩
    exact ⟨before, g, after, hfields, hname, hshown, hafter, hvalue⟩
  · rintro ⟨before, g, after, hfields, hname, hshown, hafter, hvalue⟩
    exact ⟨before, g, after, hfields, ⟨hname, hvalue, hshown⟩, hafter⟩

theorem HasHeaders.meant (h : HasHeaders text fields body) : ReadsAsMeant text fields := by
  have read : ∀ name value, (lastSome (entryOf name) (fields.flatMap Field.lines)).or
      (entryOf name (positive ++ text)) = some value → ∃ f ∈ fields, f.name = name := by
    intro name value hlookup
    have hheaders : (parseMessage (retrieved text fields body)).headers.lookup name = _ :=
      headers_retrieved name
    rw [← hheaders] at hlookup
    exact (h.names name).mp (AList.lookup_isSome.mp (by rw [hlookup]; rfl))
  refine ⟨fun name value hentry => ?_, fun f hf line hl name value hentry => ?_, fun f hf => ?_⟩
  · have hsome := entryOf_eq_some.mpr hentry
    cases hlast : lastSome (entryOf name) (fields.flatMap Field.lines) with
    | none => exact read name value (by rw [hlast, hsome]; rfl)
    | some other => exact read name other (by rw [hlast]; rfl)
  · -- the line would give a value to a name that no field has
    have hmem : line ∈ fields.flatMap Field.lines :=
      List.mem_flatMap.mpr ⟨f, hf, List.mem_cons_of_mem _ hl⟩
    cases hlast : lastSome (entryOf name) (fields.flatMap Field.lines) with
    | none =>
      have hnone := lastSome_eq_none.mp hlast line hmem
      rw [entryOf_eq_some.mpr hentry] at hnone
      cases hnone
    | some other =>
      obtain ⟨g, _, hname⟩ := read name other (by rw [hlast]; rfl)
      exact folded_entry (f.folds line hl) hentry g hname
  · obtain ⟨value, hlookup⟩ := Option.isSome_iff_exists.mp
      (AList.lookup_isSome.mpr ((h.names f.name).mpr ⟨f, hf, rfl⟩))
    have hlast := hlookup
    rw [h.others, headers_fields] at hlast
    obtain ⟨before, g, after, hfields, hname, hshown, hafter, rfl⟩ := last_shown.mp hlast
    exact ⟨before, g, after, hfields, hname, hshown, hafter, h.values _ _ hlookup⟩

theorem ReadsAsMeant.has (h : ReadsAsMeant text fields) : HasHeaders text fields body := by
  have shown : ∀ f ∈ fields, ∃ value, lastSome (fun g => entryOf f.name g.line) fields = some value ∧
      ∃ g ∈ fields, g.name = f.name ∧ g.unfolded = value := by
    intro f hf
    obtain ⟨before, g, after, hfields, hname, hshown, hafter, hcomplete⟩ := h.last f hf
    exact ⟨g.value, last_shown.mpr ⟨before, g, after, hfields, hname, hshown, hafter, rfl⟩, hcomplete⟩
  have others : ∀ name, (parseMessage (retrieved text fields body)).headers.lookup name =
      lastSome (fun f => entryOf name f.line) fields := by
    intro name
    rw [headers_retrieved, unfolded_entries h.continuation]
    cases hentry : entryOf name (positive ++ text) with
    | none => exact Option.or_none
    | some value =>
      -- the status line comes first, and the field replaces what it has set
      obtain ⟨f, hf, rfl⟩ := h.status name value (entryOf_eq_some.mp hentry)
      obtain ⟨v, hv, _⟩ := shown f hf
      rw [hv]
      rfl
  refine ⟨fun name => ?_, fun name value hlookup => ?_, fun name => ?_⟩
  · rw [← AList.lookup_isSome, others]
    constructor
    · intro hsome
      obtain ⟨value, hlast⟩ := Option.isSome_iff_exists.mp hsome
      obtain ⟨before, g, after, hfields, hname, _⟩ := last_shown.mp hlast
      exact ⟨g, by rw [hfields]; simp, hname⟩
    · rintro ⟨f, hf, rfl⟩
      obtain ⟨v, hv, _⟩ := shown f hf
      rw [hv]
      rfl
  · rw [others] at hlookup
    obtain ⟨before, g, after, hfields, rfl, _⟩ := last_shown.mp hlookup
    obtain ⟨v, hv, hcomplete⟩ := shown g (by rw [hfields]; simp)
    rw [hv] at hlookup
    cases hlookup
    exact hcomplete
  · rw [others, headers_fields]

/-- The headers of a mail are taken as they are if and only if its lines read as they are meant. -/
theorem hasHeaders_iff : HasHeaders text fields body ↔ ReadsAsMeant text fields :=
  ⟨HasHeaders.meant, ReadsAsMeant.has⟩

end

/-- A field on two lines. -/
def foldedField : Field where
  name := "To".toList
  value := "ann@localhost,".toList
  continuation := [" bob@localhost".toList]
  named := ⟨by decide, by decide, by unfold Folded; decide⟩
  folds := List.forall_mem_singleton.mpr (Or.inl rfl)
  valued := by decide

/-- Of the recipients only those on the first line are taken. -/
theorem folded_value_cut : ¬ HasHeaders [] [foldedField] [] := by
  intro h
  obtain ⟨f, hf, _, hvalue⟩ := h.values "To".toList "ann@localhost,".toList (by decide +kernel)
  rw [List.mem_singleton.mp hf] at hvalue
  exact absurd hvalue (by decide)

end Pop3Client

end Protocols
