import Protocols.ImapAnswers
import Protocols.LastValue
import Protocols.RegexSearch
import Mathlib.Data.List.Perm.Basic

namespace Protocols

open Regex

namespace ImapClient

/-- A text on one line that ends with something other than a blank. -/
structure IsTrimmed (value : Text) : Prop where
  last : ∃ c, value.getLast? = some c ∧ spaceChar c = false
  oneLine : NoBreak value

/-- A text that begins and ends with something other than a blank. -/
structure IsValue (value : Text) : Prop where
  first : ∃ c, value.head? = some c ∧ spaceChar c = false
  trimmed : IsTrimmed value

/-- The text is the name of a field, in letters of any case, the value and blanks. -/
def Introduces (name : String) (s value : Text) : Prop :=
  ∃ spelled blanks, s = spelled ++ (value ++ blanks) ∧
    spelled.map Char.toLower = name.toList.map Char.toLower ∧ IsTrimmed value ∧
    ∀ c ∈ blanks, spaceChar c = true

/-- The value follows the first name of the field in the line that a value follows. -/
def Shows (name : String) (line value : Text) : Prop :=
  ∃ front s, line = front ++ s ∧ Introduces name s value ∧
    ∀ front' s', line = front' ++ s' → front'.length < front.length → ∀ v, ¬ Introduces name s' v

/-- The last of the lines that show the field shows the value. -/
def LastShown (name : String) (answer : List Text) (value : Text) : Prop :=
  ∃ before line after, answer = before ++ line :: after ∧ Shows name line value ∧
    ∀ other ∈ after, ∀ v, ¬ Shows name other v

def headerLines (mail : ImapMail) : List Text :=
  ["From: ".toList ++ mail.sender, "To: ".toList ++ mail.recipient, "Date: ".toList ++ mail.date,
    "Subject: ".toList ++ mail.subject]

structure HasValues (mail : ImapMail) : Prop where
  sender : IsValue mail.sender
  recipient : IsValue mail.recipient
  date : IsValue mail.date
  subject : IsValue mail.subject

section

variable {name : String} {s value line : Text}

theorem trimmed_words :
    value ∈ (all [star any, nonSpace]).words ↔ IsTrimmed value := by
  simp only [all_cons, mem_seq_words, star_any_words, nonSpace_words]
  constructor
  · rintro ⟨u, hu, _, ⟨_, ⟨c, hc, rfl⟩, rest, hrest, rfl⟩, rfl⟩
    rw [show rest = [] from (Language.mem_one _).mp hrest, List.append_nil]
    refine ⟨⟨c, List.getLast?_concat, hc⟩, noBreak_append.mpr ⟨hu, ?_⟩⟩
    refine List.forall_mem_singleton.mpr ⟨?_, ?_⟩
    · rintro rfl
      exact absurd hc (by decide)
    · rintro rfl
      exact absurd hc (by decide)
  · rintro ⟨⟨c, hlast, hc⟩, hline⟩
    obtain ⟨u, rfl⟩ := List.getLast?_eq_some_iff.mp hlast
    exact ⟨u, (noBreak_append.mp hline).1, _, ⟨[c], ⟨c, hc, rfl⟩, [], (Language.mem_one _).mpr rfl,
      List.append_nil _⟩, rfl⟩

theorem trimmed_unique {value' blanks blanks' : Text} (h : IsTrimmed value) (h' : IsTrimmed value')
    (hb : ∀ c ∈ blanks, spaceChar c = true) (hb' : ∀ c ∈ blanks', spaceChar c = true)
    (heq : value ++ blanks = value' ++ blanks') : value = value' := by
  have trims : ∀ v b : Text, IsTrimmed v → (∀ c ∈ b, spaceChar c = true) →
      (v ++ b).reverse.dropWhile spaceChar = v.reverse := by
    intro v b hv hblank
    obtain ⟨c, hlast, hc⟩ := hv.last
    obtain ⟨u, rfl⟩ := List.getLast?_eq_some_iff.mp hlast
    rw [List.reverse_append, List.dropWhile_append_of_pos fun x hx => hblank x (List.mem_reverse.mp hx)]
    simp [hc]
  have hrev := trims value blanks h hb
  rw [heq, trims value' blanks' h' hb'] at hrev
  exact (List.reverse_inj.mp hrev).symm

theorem introduces_unique {value' : Text} (h : Introduces name s value)
    (h' : Introduces name s value') : value = value' := by
  obtain ⟨spelled, blanks, rfl, hs, hv, hb⟩ := h
  obtain ⟨spelled', blanks', heq, hs', hv', hb'⟩ := h'
  have hlen : spelled.length = spelled'.length := by
    have hmap := congrArg List.length (hs.trans hs'.symm)
    simpa using hmap
  exact trimmed_unique hv hv' hb hb' (List.append_inj heq hlen).2

/-- The parts of the pattern of a field before its end. -/
def fieldParts (name : String) : List Regex :=
  [lit name, group 1 (all [star any, nonSpace]), star space]

theorem parseField_eq (name : String) : parseField name = all (fieldParts name ++ [eol]) := rfl

theorem fieldParts_plain (name : String) : ∀ r ∈ fieldParts name, Plain r = true := by
  refine List.forall_mem_cons.mpr
    ⟨plain_of_no_groups (lit_unanchored name) (lit_groupNumbers name), ?_⟩
  exact List.forall_mem_cons.mpr ⟨by decide, List.forall_mem_singleton.mpr (by decide)⟩

theorem fieldParts_unanchored (name : String) : ∀ r ∈ fieldParts name, r.Unanchored = true := by
  refine List.forall_mem_cons.mpr ⟨lit_unanchored name, ?_⟩
  exact List.forall_mem_cons.mpr ⟨by decide, List.forall_mem_singleton.mpr (by decide)⟩

/-- What the pattern of a field takes where it is tried. -/
def introduced (length : Nat) (name : String) (s : Text) : Option Text :=
  (whole length (parseField name) s).map fun caps => str (submatches (parseField name) s caps) 1

theorem introduced_some {length : Nat} (h : introduced length name s = some value) :
    Introduces name s value := by
  obtain ⟨caps, hwhole, rfl⟩ := Option.map_eq_some_iff.mp h
  obtain ⟨ws, hws, hs, rfl⟩ := whole_parts (fieldParts_plain name) hwhole
  obtain _ | ⟨hspelled, _ | ⟨hvalue, _ | ⟨hblanks, ⟨⟩⟩⟩⟩ := hws
  have hgroups : 0 < (parseField name).groups := by
    simp only [parseField, all, List.foldr_cons, groups]
    omega
  have hintroduces : Introduces name s _ := ⟨_, _, by simpa using hs, mem_lit_words.mp hspelled,
    trimmed_words.mp hvalue, star_space_words.mp hblanks⟩
  rw [str_submatches hgroups, fieldParts, captured_cons, captured_nothing (lit_groupNumbers name),
    List.append_nil]
  exact hintroduces

theorem introduced_eq_some {length : Nat} :
    introduced length name s = some value ↔ Introduces name s value := by
  refine ⟨introduced_some, fun h => ?_⟩
  have hsome : (introduced length name s).isSome = true := by
    obtain ⟨spelled, blanks, rfl, hspelled, hvalue, hblanks⟩ := h
    rw [introduced, Option.isSome_map, whole_isSome, parseField_eq,
      matches_all_eol _ (fieldParts_unanchored name)]
    simp only [fieldParts, all_cons, mem_seq_words]
    exact ⟨spelled, mem_lit_words.mpr hspelled, _, ⟨value, trimmed_words.mpr hvalue, _,
      ⟨blanks, star_space_words.mpr hblanks, [], (Language.mem_one _).mpr rfl,
        List.append_nil blanks⟩, rfl⟩, rfl⟩
  obtain ⟨value', hvalue'⟩ := Option.isSome_iff_exists.mp hsome
  rw [hvalue', introduces_unique (introduced_some hvalue') h]

theorem introduced_eq_none {length : Nat} :
    introduced length name s = none ↔ ∀ v, ¬ Introduces name s v := by
  rw [Option.eq_none_iff_forall_ne_some]
  exact forall_congr' fun v => not_congr introduced_eq_some

/-- What the line shows of the field. -/
def shown (name : String) (line : Text) : Option Text :=
  (regexSearch (parseField name) line).map fun submatch => str submatch 1

theorem shown_eq_some : shown name line = some value ↔ Shows name line value := by
  have hsearch : shown name line = line.tails.findSome? (introduced line.length name) := by
    rw [shown, parseField_eq, regexSearch_eq, List.map_findSome?]
    congr 1
    funext t
    rw [Function.comp_apply, Option.map_map]
    rfl
  rw [hsearch, findSome_tails]
  simp only [introduced_eq_some, introduced_eq_none, Shows]

theorem shown_eq_none : shown name line = none ↔ ∀ v, ¬ Shows name line v := by
  rw [Option.eq_none_iff_forall_ne_some]
  exact forall_congr' fun v => not_congr shown_eq_some

theorem setField_eq (old : Text) : setField (parseField name) line old = (shown name line).getD old := by
  rw [setField, shown]
  cases regexSearch (parseField name) line with
  | none => rfl
  | some submatch => rfl

/-- Each field is set by the last line that shows it. -/
theorem summary_eq (answer : List Text) (newMail : ImapMail) : extractHeaderSummary answer newMail =
    { sender := (lastSome (shown "from: ") answer).getD newMail.sender
      recipient := (lastSome (shown "to: ") answer).getD newMail.recipient
      date := (lastSome (shown "date: ") answer).getD newMail.date
      subject := (lastSome (shown "subject: ") answer).getD newMail.subject } := by
  simp only [← foldl_last]
  rw [extractHeaderSummary]
  induction answer generalizing newMail with
  | nil => rfl
  | cons line answer ih =>
    rw [List.foldl_cons, ih]
    simp only [parseFrom, parseTo, parseDate, parseSubject, setField_eq, List.foldl_cons]

theorem lastShown_iff {answer : List Text} :
    LastShown name answer value ↔ lastSome (shown name) answer = some value := by
  simp only [lastSome_eq_some, shown_eq_some, shown_eq_none, LastShown]

/-- The line of a field shows its value. -/
theorem own_line {spelled : Text} (hs : spelled.map Char.toLower = name.toList.map Char.toLower)
    (hv : IsValue value) : Shows name (spelled ++ value) value :=
  ⟨[], spelled ++ value, rfl, ⟨spelled, [], by rw [List.append_nil], hs, hv.trimmed, nofun⟩,
    fun _ _ _ hlt => absurd hlt (Nat.not_lt_zero _)⟩

theorem lastSome_own {answer : List Text} {own : Text} (h : Shows name own value) (hin : own ∈ answer)
    (old other : Text) : (lastSome (shown name) answer).getD old = other ↔
      LastShown name answer other := by
  rw [lastShown_iff]
  cases hlast : lastSome (shown name) answer with
  | none =>
    rw [lastSome_eq_none] at hlast
    have hnone := hlast own hin
    rw [shown_eq_some.mpr h] at hnone
    cases hnone
  | some v => exact Option.some_inj.symm

end

/-- The summary has the values of the header if and only if of every field the last line that shows it
shows its value. -/
theorem summary_iff {before headers after : List Text} {mail : ImapMail} (hm : HasValues mail)
    (hh : headers.Perm (headerLines mail)) (newMail : ImapMail) :
    extractHeaderSummary (before ++ headers ++ after) newMail = mail ↔
      LastShown "from: " (before ++ headers ++ after) mail.sender ∧
      LastShown "to: " (before ++ headers ++ after) mail.recipient ∧
      LastShown "date: " (before ++ headers ++ after) mail.date ∧
      LastShown "subject: " (before ++ headers ++ after) mail.subject := by
  have hin : ∀ line ∈ headerLines mail, line ∈ before ++ headers ++ after := fun line hl =>
    List.mem_append_left _ (List.mem_append_right _ (hh.mem_iff.mpr hl))
  have hfrom : Shows "from: " ("From: ".toList ++ mail.sender) mail.sender := own_line (by decide) hm.sender
  have hto : Shows "to: " ("To: ".toList ++ mail.recipient) mail.recipient :=
    own_line (by decide) hm.recipient
  have hdate : Shows "date: " ("Date: ".toList ++ mail.date) mail.date := own_line (by decide) hm.date
  have hsubject : Shows "subject: " ("Subject: ".toList ++ mail.subject) mail.subject :=
    own_line (by decide) hm.subject
  rw [summary_eq, ImapMail.mk.injEq, lastSome_own hfrom (hin _ (by simp [headerLines])),
    lastSome_own hto (hin _ (by simp [headerLines])),
    lastSome_own hdate (hin _ (by simp [headerLines])),
    lastSome_own hsubject (hin _ (by simp [headerLines]))]

/-- A mail whose subject has the name of another field in it. -/
def asking : ImapMail := ⟨"ann".toList, "bob".toList, "Mon".toList, "ask to: carol".toList⟩

theorem asking_values : HasValues asking where
  sender := ⟨⟨'a', rfl, by decide⟩, ⟨⟨'n', rfl, by decide⟩, by decide⟩⟩
  recipient := ⟨⟨'b', rfl, by decide⟩, ⟨⟨'b', rfl, by decide⟩, by decide⟩⟩
  date := ⟨⟨'M', rfl, by decide⟩, ⟨⟨'n', rfl, by decide⟩, by decide⟩⟩
  subject := ⟨⟨'a', rfl, by decide⟩, ⟨⟨'l', rfl, by decide⟩, by decide⟩⟩

theorem summary_asking : extractHeaderSummary ([] ++ headerLines asking ++ [")".toList]) {} = asking ↔
    LastShown "from: " ([] ++ headerLines asking ++ [")".toList]) asking.sender ∧
    LastShown "to: " ([] ++ headerLines asking ++ [")".toList]) asking.recipient ∧
    LastShown "date: " ([] ++ headerLines asking ++ [")".toList]) asking.date ∧
    LastShown "subject: " ([] ++ headerLines asking ++ [")".toList]) asking.subject :=
  summary_iff asking_values (List.Perm.refl _) {}

/-- The subject is taken for the recipient. -/
theorem subject_bleeds : HasValues asking ∧
    extractHeaderSummary (headerLines asking) {} ≠ asking := by
  refine ⟨asking_values, fun h => ?_⟩
  have hshown : shown "to: " ("Subject: ".toList ++ "ask to: carol".toList) = some "carol".toList := by
    decide +kernel
  have hlast : lastSome (shown "to: ") (headerLines asking) = some "carol".toList :=
    lastSome_eq_some.mpr ⟨(headerLines asking).take 3, _, [], rfl, hshown, nofun⟩
  rw [summary_eq, hlast] at h
  exact absurd (congrArg ImapMail.recipient h) (by decide)

end ImapClient

end Protocols
