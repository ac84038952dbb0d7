import Protocols.MailAddress
import Protocols.RegexLines

namespace Protocols

open Regex

/-- The pattern of MAIL and of RCPT, which have their own word and field. -/
def envelope (word field : String) : Regex :=
  all [bol, lit word, alt (all [lit field, group 1 smtpAddress, lit ">"]) (group 2 (plus any)), eol]

/-- The word and the field in letters of any case, and an address. -/
def IsEnvelope (word field : String) (request address : Text) : Prop :=
  IsSmtpAddress address ∧ ∃ head verb : Text, head.map Char.toLower = word.toList ∧
    verb.map Char.toLower = field.toList ∧ request = head ++ (verb ++ address ++ ['>'])

/-- The word in letters of any case, and some text in one line. -/
def HasText (word : String) (request : Text) : Prop :=
  ∃ head text : Text, head.map Char.toLower = word.toList ∧ text ≠ [] ∧ '\n' ∉ text ∧ '\r' ∉ text ∧
    request = head ++ text

/-- The request is taken for the command, with the address for its argument. -/
def Accepts (command : SmtpCommand) (request address : Text) : Prop :=
  (smtpParseRequest request).1 = command ∧ isInvalid (smtpParseRequest request).2 = false ∧
    str (smtpParseRequest request).2 1 = address

instance (command : SmtpCommand) (request address : Text) :
    Decidable (Accepts command request address) :=
  inferInstanceAs (Decidable (_ ∧ _ ∧ _))

/-- The request is taken for the command, and marked as invalid. -/
def Rejects (command : SmtpCommand) (request : Text) : Prop :=
  (smtpParseRequest request).1 = command ∧ isInvalid (smtpParseRequest request).2 = true

/-- The command is what the requests of its grammar are taken for, and no others. -/
structure ParsesEnvelope (command : SmtpCommand) (word field : String) : Prop where
  accepted : ∀ request address,
    Accepts command request address ↔ IsEnvelope word field request address
  refused : ∀ request, Rejects command request ↔
    HasText word request ∧ ∀ address, ¬ IsEnvelope word field request address

/-- A word that the pattern of a command is written with: it is in small letters. -/
abbrev Lowered (word : String) : Prop := word.toList.map Char.toLower = word.toList

section

variable {length : Nat} {word field : String} {s t : Text}

theorem text_words {w : Text} : w ∈ (plus any).words ↔ w ≠ [] ∧ '\n' ∉ w ∧ '\r' ∉ w := by
  rw [plus_any_words, NoBreak]
  refine and_congr_right fun _ => ⟨fun h => ?_, fun h c hc => ?_⟩
  · exact ⟨fun hn => (h _ hn).1 rfl, fun hr => (h _ hr).2 rfl⟩
  · exact ⟨fun he => h.1 (he ▸ hc), fun he => h.2 (he ▸ hc)⟩

/-- What the first alternative takes, and captures. -/
theorem wellFormed_run (hf : Lowered field) {p : Text × Captures}
    (h : p ∈ (all [lit field, group 1 smtpAddress, lit ">"]).run length t) :
    ∃ verb address, IsSmtpAddress address ∧ verb.map Char.toLower = field.toList ∧
      t = verb ++ address ++ ['>'] ++ p.1 ∧ p.2 = [(1, address)] := by
  obtain ⟨p₁, h₁, q₁, hrest₁, rfl⟩ := mem_run_seq h
  obtain ⟨p₂, h₂, q₂, hrest₂, rfl⟩ := mem_run_seq hrest₁
  obtain ⟨p₃, h₃, q₃, hrest₃, rfl⟩ := mem_run_seq hrest₂
  cases List.mem_singleton.mp hrest₃
  obtain ⟨verb, hverb, hs⟩ := matches_words (run_matches h₁) (lit_unanchored field)
  obtain ⟨address, haddress, hs₁, hcaps⟩ := mem_run_group (by decide) rfl h₂
  obtain ⟨close, hclose, hs₂⟩ := matches_words (run_matches h₃) (lit_unanchored ">")
  have hgt := (mem_lit_char_words (d := '>') rfl (by decide)).mp hclose
  have hcaps₁ := run_captures_nothing (lit_groupNumbers field) h₁
  have hcaps₃ := run_captures_nothing (lit_groupNumbers ">") h₃
  refine ⟨verb, address, smtpAddress_words.mp haddress, ?_, ?_, ?_⟩
  · rw [mem_lit_words.mp hverb]
    exact hf
  · rw [hs, hs₁, hs₂, hgt]
    simp
  · simp [hcaps, hcaps₁, hcaps₃]

theorem wellFormed_matches {verb address : Text} (hv : verb.map Char.toLower = field.toList)
    (hf : Lowered field) (ha : IsSmtpAddress address) :
    Matches length (all [lit field, group 1 smtpAddress, lit ">"]) (verb ++ address ++ ['>']) [] := by
  have hw : verb ++ address ++ ['>'] ∈ (all [lit field, group 1 smtpAddress, lit ">"]).words := by
    refine mem_seq_words.mpr ⟨verb, mem_lit_words.mpr (hv.trans hf.symm), address ++ ['>'], ?_,
      by simp⟩
    refine mem_seq_words.mpr ⟨address, smtpAddress_words.mpr ha, ['>'], ?_, rfl⟩
    exact mem_seq_words.mpr ⟨['>'], (mem_lit_char_words (d := '>') rfl (by decide)).mpr rfl, [], rfl,
      rfl⟩
  have hanchor : (all [lit field, group 1 smtpAddress, lit ">"]).Unanchored = true := by
    simp only [all, List.foldr_cons, List.foldr_nil, Unanchored, lit_unanchored, Bool.true_and,
      Bool.and_true]
    decide
  exact words_matches_whole hw hanchor

theorem find_isSome {r : Regex} (h : Matches length r s []) :
    ∃ caps, (r.run length s).find? (fun p => p.1.isEmpty) = some ([], caps) := by
  obtain ⟨caps, hrun⟩ := matches_run h
  have hsome : ((r.run length s).find? fun p => p.1.isEmpty).isSome = true :=
    List.find?_isSome.mpr ⟨_, hrun, rfl⟩
  obtain ⟨⟨rest, caps'⟩, hfind⟩ := Option.isSome_iff_exists.mp hsome
  have hend : rest = [] := by simpa using List.find?_some hfind
  rw [hend] at hfind
  exact ⟨caps', hfind⟩

/-- The first alternative, where it matches to the end, and else the second. -/
theorem envelope_find {head : Text} (hw : Lowered word) (hh : head.map Char.toLower = word.toList) :
    ((envelope word field).run (head ++ t).length (head ++ t)).find? (fun p => p.1.isEmpty) =
      (((all [lit field, group 1 smtpAddress, lit ">"]).run (head ++ t).length t).find?
        fun p => p.1.isEmpty).or
      (((group 2 (plus any)).run (head ++ t).length t).find? fun p => p.1.isEmpty) := by
  rw [envelope, find_line_append _ (hh.trans hw.symm), run, List.find?_append]

theorem envelope_submatches (s : Text) (caps : Captures) :
    submatches (envelope word field) s caps =
      [s, (caps.lookup 1).getD [], (caps.lookup 2).getD []] := by
  have hgroups : (envelope word field).groups = 2 := by
    simp only [envelope, all, List.foldr_cons, List.foldr_nil, groups, lit_groups]
    rfl
  rw [submatches, hgroups]
  rfl

/-- A line of the right form is taken by the first alternative, and nothing is left for the other. -/
theorem envelope_accepts {request address : Text} (hw : Lowered word) (hf : Lowered field)
    (h : IsEnvelope word field request address) :
    regexMatch (envelope word field) request = some [request, address, []] := by
  obtain ⟨ha, head, verb, hhead, hverb, rfl⟩ := h
  have hmatch : Matches (head ++ (verb ++ address ++ ['>'])).length
      (all [lit field, group 1 smtpAddress, lit ">"]) (verb ++ address ++ ['>']) [] :=
    wellFormed_matches hverb hf ha
  obtain ⟨caps, hfind⟩ := find_isSome hmatch
  obtain ⟨verb', address', ha', hverb', htext, hcaps⟩ :=
    wellFormed_run hf (List.mem_of_find?_eq_some hfind)
  have hlen : verb'.length = verb.length := by
    rw [← List.length_map (f := Char.toLower), hverb', ← hverb, List.length_map]
  have hsame : address' = address := by
    rw [List.append_nil, List.append_cancel_right_eq] at htext
    exact (List.append_inj htext hlen.symm).2.symm
  rw [regexMatch, envelope_find hw hhead, hfind, Option.some_or, Option.map_some,
    envelope_submatches, show caps = [(1, address')] from hcaps, hsame]
  rfl

theorem text_run {p : Text × Captures} (h : p ∈ (group 2 (plus any)).run length t)
    (hend : p.1 = []) : (t ≠ [] ∧ '\n' ∉ t ∧ '\r' ∉ t) ∧ p.2 = [(2, t)] := by
  obtain ⟨text, htext, rfl, hcaps⟩ := mem_run_group (by decide) rfl h
  rw [hend, List.append_nil]
  exact ⟨text_words.mp htext, hcaps⟩

theorem envelope_refuses {request : Text} (hw : Lowered word) (hf : Lowered field)
    (h : HasText word request) (hno : ∀ address, ¬ IsEnvelope word field request address) :
    ∃ text, text ≠ [] ∧ regexMatch (envelope word field) request = some [request, [], text] := by
  obtain ⟨head, text, hhead, hne, hn, hr, rfl⟩ := h
  have hfirst : ((all [lit field, group 1 smtpAddress, lit ">"]).run (head ++ text).length
      text).find? (fun p => p.1.isEmpty) = none := by
    refine List.find?_eq_none.mpr fun p hp hend => ?_
    obtain ⟨verb, address, ha, hverb, htext, _⟩ := wellFormed_run hf hp
    rw [List.isEmpty_iff.mp hend, List.append_nil] at htext
    exact hno address ⟨ha, head, verb, hhead, hverb, by rw [htext]⟩
  have hmatch : Matches (head ++ text).length (group 2 (plus any)) text [] := by
    exact words_matches_whole (text_words.mpr ⟨hne, hn, hr⟩) (by decide)
  obtain ⟨caps, hfind⟩ := find_isSome hmatch
  have hcaps := (text_run (List.mem_of_find?_eq_some hfind) rfl).2
  refine ⟨text, hne, ?_⟩
  rw [regexMatch, envelope_find hw hhead, hfirst, Option.none_or, hfind, Option.map_some,
    envelope_submatches, show caps = [(2, text)] from hcaps]
  rfl

theorem envelope_cases {request : Text} {arguments : List Text} (hw : Lowered word)
    (hf : Lowered field) (h : regexMatch (envelope word field) request = some arguments) :
    (∃ address, IsEnvelope word field request address) ∨ HasText word request := by
  obtain ⟨p, hfind, _⟩ := Option.map_eq_some_iff.mp h
  rw [envelope, find_line] at hfind
  split at hfind
  next hhead =>
    have hend : p.1 = [] := by simpa using List.find?_some hfind
    have hsplit := (List.take_append_drop word.toList.length request).symm
    have hp := List.mem_of_find?_eq_some hfind
    rcases List.mem_append.mp hp with hp | hp
    · obtain ⟨verb, address, ha, hverb, htext, _⟩ := wellFormed_run hf hp
      rw [hend, List.append_nil] at htext
      exact Or.inl ⟨address, ha, _, verb, hhead.trans hw, hverb, htext ▸ hsplit⟩
    · obtain ⟨⟨hne, hn, hr⟩, _⟩ := text_run hp hend
      exact Or.inr ⟨_, _, hhead.trans hw, hne, hn, hr, hsplit⟩
  next => simp at hfind

end

theorem parsesEnvelope {command : SmtpCommand} {word field : String} (hw : Lowered word)
    (hf : Lowered field)
    (hparse : ∀ request arguments, regexMatch (envelope word field) request = some arguments →
      smtpParseRequest request = (command, arguments))
    (hcommand : ∀ request, (smtpParseRequest request).1 = command →
      regexMatch (envelope word field) request = some (smtpParseRequest request).2) :
    ParsesEnvelope command word field := by
  have hvalid : ∀ request address, IsEnvelope word field request address →
      smtpParseRequest request = (command, [request, address, []]) := fun request address h =>
    hparse request _ (envelope_accepts hw hf h)
  have hinvalid : ∀ request, HasText word request →
      (∀ address, ¬ IsEnvelope word field request address) →
      ∃ text, text ≠ [] ∧ smtpParseRequest request = (command, [request, [], text]) := by
    intro request h hno
    obtain ⟨text, hne, hmatch⟩ := envelope_refuses hw hf h hno
    exact ⟨text, hne, hparse request _ hmatch⟩
  have heither : ∀ request, (smtpParseRequest request).1 = command →
      (∃ address, IsEnvelope word field request address) ∨
      (HasText word request ∧ ∀ address, ¬ IsEnvelope word field request address) := by
    intro request h
    by_cases hex : ∃ address, IsEnvelope word field request address
    · exact Or.inl hex
    · have hno := not_exists.mp hex
      rcases envelope_cases hw hf (hcommand request h) with hyes | htext
      · exact absurd hyes hex
      · exact Or.inr ⟨htext, hno⟩
  constructor
  · intro request address
    constructor
    · intro h
      obtain ⟨hc, hi, ha⟩ := h
      rcases heither request hc with ⟨address', henv⟩ | ⟨htext, hno⟩
      · rw [hvalid request address' henv] at ha
        rw [← show address' = address from ha]
        exact henv
      · obtain ⟨text, hne, hparsed⟩ := hinvalid request htext hno
        rw [hparsed] at hi
        exact absurd (of_decide_eq_false hi) (not_not_intro hne)
    · intro h
      rw [Accepts, hvalid request address h]
      exact ⟨rfl, rfl, rfl⟩
  · intro request
    constructor
    · intro h
      rcases heither request h.1 with ⟨address', henv⟩ | hrefused
      · have hi := h.2
        rw [hvalid request address' henv] at hi
        cases hi
      · exact hrefused
    · intro h
      obtain ⟨text, hne, hparsed⟩ := hinvalid request h.1 h.2
      rw [Rejects, hparsed]
      exact ⟨rfl, decide_eq_true hne⟩

/-- A line that begins with the word of an envelope does not begin with another word. -/
theorem other_word {word field : String} {request : Text} {arguments : List Text}
    (h : regexMatch (envelope word field) request = some arguments) (str : String) (body : Regex)
    (hlen : str.toList.length = word.toList.length)
    (hne : str.toList.map Char.toLower ≠ word.toList.map Char.toLower) :
    regexMatch (all [bol, lit str, body, eol]) request = none := by
  apply regexMatch_line_none
  intro hother
  rw [hlen] at hother
  by_cases hword : (request.take word.toList.length).map Char.toLower = word.toList.map Char.toLower
  · exact hne (hother.symm.trans hword)
  · rw [envelope, regexMatch_line_none hword] at h
    cases h

theorem smtp_parsed {request : Text} (h : (smtpParseRequest request).1 ≠ .unknown) :
    ∃ p ∈ smtpRequestParser, regexMatch p.1 request = some (smtpParseRequest request).2 ∧
      (smtpParseRequest request).1 = p.2 := by
  rcases firstMatch_cases SmtpCommand.unknown smtpRequestParser request with
    ⟨p, hp, arguments, hmatch, hfirst⟩ | hnone
  · refine ⟨p, hp, ?_, ?_⟩
    · rw [hmatch, smtpParseRequest, hfirst]
    · rw [smtpParseRequest, hfirst]
  · exact absurd (by rw [smtpParseRequest, firstMatch_none hnone]) h

/-- The patterns before the one of MAIL, and before the one of RCPT. -/
theorem smtpRequestParser_envelopes : ∃ helo last,
    smtpRequestParser = [(all [bol, lit "helo ", helo, eol], .helo)] ++
      (envelope "mail " "from:<", .mail) :: (envelope "rcpt " "to:<", .rcpt) :: last ∧
    ∀ p ∈ last, p.2 = .data ∨ p.2 = .quit ∨ p.2 = .unknown := by
  refine ⟨_, _, rfl, fun p hp => ?_⟩
  simp only [List.mem_cons, List.not_mem_nil, or_false] at hp
  rcases hp with rfl | rfl | rfl
  · exact Or.inl rfl
  · exact Or.inr (Or.inl rfl)
  · exact Or.inr (Or.inr rfl)

/-- MAIL and RCPT have one pattern each. -/
theorem envelope_entries : ∀ p ∈ smtpRequestParser,
    (p.2 = .mail → p.1 = envelope "mail " "from:<") ∧ (p.2 = .rcpt → p.1 = envelope "rcpt " "to:<") := by
  obtain ⟨helo, last, hparser, hlast⟩ := smtpRequestParser_envelopes
  intro p hp
  rw [hparser, List.singleton_append] at hp
  rcases List.mem_cons.mp hp with rfl | hp
  · exact ⟨nofun, nofun⟩
  rcases List.mem_cons.mp hp with rfl | hp
  · exact ⟨fun _ => rfl, nofun⟩
  rcases List.mem_cons.mp hp with rfl | hp
  · exact ⟨nofun, fun _ => rfl⟩
  · rcases hlast p hp with he | he | he <;> rw [he] <;> exact ⟨nofun, nofun⟩

/-- A command with one pattern is parsed by that one. -/
theorem parsed_by {command : SmtpCommand} {r : Regex} {request : Text} (hne : command ≠ .unknown)
    (honly : ∀ p ∈ smtpRequestParser, p.2 = command → p.1 = r)
    (h : (smtpParseRequest request).1 = command) :
    regexMatch r request = some (smtpParseRequest request).2 := by
  obtain ⟨p, hp, hmatch, hcommand⟩ := smtp_parsed (h.symm ▸ hne)
  rwa [honly p hp (hcommand.symm.trans h)] at hmatch

theorem mail_parsed : ParsesEnvelope .mail "mail " "from:<" := by
  obtain ⟨helo, last, hparser, _⟩ := smtpRequestParser_envelopes
  refine parsesEnvelope (by decide) (by decide) (fun request arguments h => ?_) fun request h => ?_
  · rw [smtpParseRequest, hparser]
    refine firstMatch_first (fun p hp => ?_) h
    rw [List.mem_singleton.mp hp]
    exact other_word h "helo " helo rfl (by decide)
  · exact parsed_by (by decide) (fun p hp => (envelope_entries p hp).1) h

theorem rcpt_parsed : ParsesEnvelope .rcpt "rcpt " "to:<" := by
  obtain ⟨helo, last, hparser, _⟩ := smtpRequestParser_envelopes
  refine parsesEnvelope (by decide) (by decide) (fun request arguments h => ?_) fun request h => ?_
  · rw [smtpParseRequest, hparser, ← List.singleton_append (l := _ :: last), ← List.append_assoc]
    refine firstMatch_first (fun p hp => ?_) h
    rcases List.mem_pair.mp hp with rfl | rfl
    · exact other_word h "helo " helo rfl (by decide)
    · exact other_word h "mail " _ rfl (by decide)
  · exact parsed_by (by decide) (fun p hp => (envelope_entries p hp).2) h

theorem rcpt_accepted_iff {address : Text} :
    (∃ request, Accepts .rcpt request address) ↔ IsSmtpAddress address := by
  constructor
  · intro h
    obtain ⟨request, h⟩ := h
    exact ((rcpt_parsed.accepted request address).mp h).1
  · intro h
    exact ⟨_, (rcpt_parsed.accepted _ address).mpr
      ⟨h, "rcpt ".toList, "to:<".toList, by decide, by decide, rfl⟩⟩

/-- MAIL and RCPT are taken for what their grammars say, and invalid where only the word is right. -/
theorem smtp_envelope_grammar :
    ParsesEnvelope .mail "mail " "from:<" ∧ ParsesEnvelope .rcpt "rcpt " "to:<" :=
  ⟨mail_parsed, rcpt_parsed⟩

end Protocols
