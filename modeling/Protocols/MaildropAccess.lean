import Protocols.ImapSession
import Protocols.SmtpEnvelope

namespace Protocols

open Regex

/-- An address that RCPT accepts, and whose maildrop gets the mail. -/
structure IsKept (address : Text) : Prop where
  accepted : ∃ request, Accepts .rcpt request address
  isLocal : isLocal address = true

/-- No white space: what `\S+` takes. -/
def IsToken (token : Text) : Prop :=
  token ≠ [] ∧ ∀ c ∈ token, c.isWhitespace = false ∧ c ≠ '\x0b' ∧ c ≠ '\x0c'

/-- What `\w+` takes. -/
def IsTag (tag : Text) : Prop := tag ≠ [] ∧ ∀ c ∈ tag, wordChar c = true

def userRequest (address : Text) : Text := "user ".toList ++ address

def loginRequest (tag address password : Text) : Text :=
  tag ++ (" login ".toList ++ (address ++ ' ' :: password))

def RecognisedByPop3 (address : Text) : Prop :=
  (pop3ParseRequest (userRequest address)).1 = .user ∧
    str (pop3ParseRequest (userRequest address)).2 1 = address

def RecognisedByImap (address : Text) : Prop :=
  ∀ tag password, IsTag tag → IsToken password →
    (imapParseRequest (loginRequest tag address password)).1 = .login ∧
      str (imapParseRequest (loginRequest tag address password)).2 1 = tag ∧
      str (imapParseRequest (loginRequest tag address password)).2 2 = address

/-- No hyphen in it, and a letter at the beginning of each label of its local part. -/
def HasLetterLabels (address : Text) : Prop :=
  '-' ∉ address ∧
    ∀ label ∈ (localPart address).splitOn '.', ∃ c rest, label = c :: rest ∧ c.isAlpha = true

section

variable {address : Text}

theorem token_words {w : Text} : w ∈ (plus nonSpace).words ↔ IsToken w := by
  have hset : ∀ u, u ∈ nonSpace.words ↔
      ∃ c : Char, (c.isWhitespace = false ∧ c ≠ '\x0b' ∧ c ≠ '\x0c') ∧ u = [c] := by
    intro u
    rw [nonSpace, mem_set_words]
    simp [and_assoc]
  exact mem_plus_set_words hset

theorem word_words {w : Text} : w ∈ (plus word).words ↔ IsTag w := by
  have hset : ∀ u, u ∈ word.words ↔ ∃ c, wordChar c = true ∧ u = [c] := by
    intro u
    rw [word, mem_alt_words, alnum_words, mem_lit_char_words (d := '_') rfl (by decide)]
    simp only [wordChar, Bool.or_eq_true, beq_iff_eq, or_and_right, exists_or, exists_eq_left]
  exact mem_plus_set_words hset

theorem find_user : ((all [bol, lit "user ", group 1 pop3Address, eol]).run
    (userRequest address).length (userRequest address)).find? (fun p => p.1.isEmpty) =
    ((group 1 pop3Address).run (userRequest address).length address).find?
      fun p => p.1.isEmpty :=
  find_line_append _ rfl

theorem pop3Address_of_user (h : (pop3ParseRequest (userRequest address)).1 = .user) :
    IsPop3Address address := by
  rcases firstMatch_cases Pop3Command.unknown pop3CommandParser (userRequest address) with
    ⟨p, hp, arguments, hmatch, hfirst⟩ | hnone
  · have hcommand : p.2 = .user := by
      rw [← h, pop3ParseRequest, hfirst]
    simp only [pop3CommandParser, List.mem_cons, List.not_mem_nil, or_false] at hp
    rcases hp with rfl | rfl | rfl | rfl
    · obtain ⟨q, hq, _⟩ := Option.map_eq_some_iff.mp hmatch
      rw [find_user] at hq
      have hend : q.1 = [] := by simpa using List.find?_some hq
      obtain ⟨w, hw, hs, _⟩ := mem_run_group (by decide) rfl (List.mem_of_find?_eq_some hq)
      rw [hs, hend, List.append_nil]
      exact pop3Address_words.mp hw
    · cases hcommand
    · cases hcommand
    · cases hcommand
  · rw [pop3ParseRequest, firstMatch_none hnone] at h
    cases h

theorem pop3_recognises (h : IsPop3Address address) : RecognisedByPop3 address := by
  have hword : Matches (userRequest address).length (group 1 pop3Address) address [] :=
    words_matches_whole (pop3Address_words.mpr h) (by decide)
  obtain ⟨caps, hcaps⟩ := find_isSome hword
  obtain ⟨w, hw, hs, hcapture⟩ :=
    mem_run_group (by decide) rfl (List.mem_of_find?_eq_some hcaps)
  have hmatch : regexMatch (all [bol, lit "user ", group 1 pop3Address, eol])
      (userRequest address) = some [userRequest address, address] := by
    rw [regexMatch, find_user, hcaps, Option.map_some, show caps = [(1, w)] from hcapture,
      hs, List.append_nil]
    rfl
  have hparsed : pop3ParseRequest (userRequest address) =
      (.user, [userRequest address, address]) :=
    firstMatch_first (List.forall_mem_nil _) hmatch
  rw [RecognisedByPop3, hparsed]
  exact ⟨rfl, rfl⟩

/-- USER is recognised if and only if its argument is an address by the pattern of POP3. -/
theorem pop3_recognises_iff : RecognisedByPop3 address ↔ IsPop3Address address :=
  ⟨fun h => pop3Address_of_user h.1, pop3_recognises⟩

/-- The pattern of LOGIN. -/
def login : Regex :=
  all [bol, group 1 (plus word), lit " login ", group 2 (plus nonSpace), lit " ",
    group 3 (plus nonSpace), eol]

theorem login_matches {tag password : Text} (ht : IsTag tag) (ha : IsToken address)
    (hp : IsToken password) :
    Matches (loginRequest tag address password).length login (loginRequest tag address password)
      [] := by
  refine .seq (.bol rfl) (.seq (.group (words_matches (word_words.mpr ht) (by decide) _)) ?_)
  refine .seq (words_matches (mem_lit_words.mpr rfl) (lit_unanchored _) _) ?_
  refine .seq (.group (words_matches (token_words.mpr ha) (by decide) _)) ?_
  refine .seq (words_matches (w := [' ']) (mem_lit_words.mpr rfl) (lit_unanchored _) password) ?_
  exact .seq (.group (words_matches_whole (token_words.mpr hp) (by decide))) (.seq .eol .empty)

/-- What LOGIN can have taken and captured. -/
theorem login_run {length : Nat} {s : Text} {p : Text × Captures} (h : p ∈ login.run length s) :
    ∃ tag blank address password, IsTag tag ∧ blank.map Char.toLower = " login ".toList ∧
      IsToken address ∧ IsToken password ∧ s = tag ++ (blank ++ (address ++ ' ' :: password)) ∧
      p.2 = [(3, password), (2, address), (1, tag)] := by
  obtain ⟨p₀, h₀, q₀, hq₀, rfl⟩ := mem_run_seq h
  obtain ⟨p₁, h₁, q₁, hq₁, rfl⟩ := mem_run_seq hq₀
  obtain ⟨p₂, h₂, q₂, hq₂, rfl⟩ := mem_run_seq hq₁
  obtain ⟨p₃, h₃, q₃, hq₃, rfl⟩ := mem_run_seq hq₂
  obtain ⟨p₄, h₄, q₄, hq₄, rfl⟩ := mem_run_seq hq₃
  obtain ⟨p₅, h₅, q₅, hq₅, rfl⟩ := mem_run_seq hq₄
  obtain ⟨p₆, h₆, q₆, hq₆, rfl⟩ := mem_run_seq hq₅
  cases List.mem_singleton.mp hq₆
  obtain ⟨tag, htag, hs₁, hc₁⟩ := mem_run_group (by decide) rfl h₁
  obtain ⟨blank, hblank, hs₂⟩ := matches_words (run_matches h₂) (lit_unanchored _)
  obtain ⟨user, huser, hs₃, hc₃⟩ := mem_run_group (by decide) rfl h₃
  obtain ⟨sep, hsep, hs₄⟩ := matches_words (run_matches h₄) (lit_unanchored _)
  obtain ⟨password, hpass, hs₅, hc₅⟩ := mem_run_group (by decide) rfl h₅
  have hc₂ := run_captures_nothing (lit_groupNumbers _) h₂
  have hc₄ := run_captures_nothing (lit_groupNumbers _) h₄
  have hc₀ := run_captures_nothing rfl h₀
  have hc₆ := run_captures_nothing rfl h₆
  have hsep : sep = [' '] := (mem_lit_char_words (d := ' ') rfl (by decide)).mp hsep
  refine ⟨tag, blank, user, password, word_words.mp htag, mem_lit_words.mp hblank,
    token_words.mp huser, token_words.mp hpass, ?_, ?_⟩
  · rw [← matches_bol (run_matches h₀), hs₁, hs₂, hs₃, hs₄, hs₅, (matches_eol (run_matches h₆)).1,
      hsep, List.append_nil]
    rfl
  · simp [hc₀, hc₁, hc₂, hc₃, hc₄, hc₅, hc₆]

theorem login_request_unique {tag user password tag' blank user' password' : Text}
    (ht : IsTag tag) (hu : IsToken user) (hp : IsToken password) (ht' : IsTag tag')
    (hb : blank.map Char.toLower = " login ".toList)
    (h : loginRequest tag user password = tag' ++ (blank ++ (user' ++ ' ' :: password'))) :
    tag = tag' ∧ user = user' ∧ password = password' := by
  have blank_head : ∀ (w t : Text), w.map Char.toLower = " login ".toList →
      ∀ c, (w ++ t).head? = some c → wordChar c = false := by
    intro w t hw c hc
    obtain ⟨x, rest, rfl, hx, _⟩ := List.map_eq_cons_iff.mp hw
    rw [toLower_eq_of_not_letter hx (by decide)] at hc
    cases hc
    decide
  have htag := congrArg (fun w => w.takeWhile wordChar) h
  rw [loginRequest] at htag
  simp only [takeWhile_word ht.2 (blank_head " login ".toList _ (by decide)),
    takeWhile_word ht'.2 (blank_head _ _ hb)] at htag
  rw [loginRequest, htag, List.append_cancel_left_eq] at h
  have hlen : " login ".toList.length = blank.length := by
    rw [← hb, List.length_map]
  have hrest := (List.append_inj h hlen).2
  have no_blank : ∀ w : Text, IsToken w → ' ' ∉ w := fun w hw hmem => by
    have := (hw.2 ' ' hmem).1
    cases this
  obtain ⟨huser, _, hpass⟩ := (List.append_cons_inj_of_notMem (no_blank user hu)
    (no_blank password hp)).mp hrest
  exact ⟨htag, huser, hpass⟩

theorem imap_recognises (h : IsToken address) : RecognisedByImap address := by
  intro tag password htag hpassword
  obtain ⟨caps, hfind⟩ := find_isSome (login_matches htag h hpassword)
  obtain ⟨tag', blank, user, password', ht', hb, _, _, hs, hcaps⟩ :=
    login_run (List.mem_of_find?_eq_some hfind)
  obtain ⟨rfl, rfl, rfl⟩ := login_request_unique htag h hpassword ht' hb hs
  have hmatch : regexMatch login (loginRequest tag address password) =
      some [loginRequest tag address password, tag, address, password] := by
    rw [regexMatch, hfind, Option.map_some,
      show caps = [(3, password), (2, address), (1, tag)] from hcaps]
    rfl
  have hparsed : imapParseRequest (loginRequest tag address password) =
      (.login, [loginRequest tag address password, tag, address, password]) :=
    firstMatch_first (List.forall_mem_nil _) hmatch
  rw [hparsed]
  exact ⟨rfl, rfl, rfl⟩

theorem mem_of_mem_splitOn {s label : Text} {a c : Char} (h : label ∈ s.splitOn a) (hc : c ∈ label) :
    c ∈ s := by
  obtain ⟨n, hn⟩ : ∃ n, s.length = n := ⟨_, rfl⟩
  induction n using Nat.strong_induction_on generalizing s with
  | _ n ih =>
    by_cases ha : a ∈ s
    · obtain ⟨first, rest, rfl, hfirst⟩ := List.eq_append_cons_of_mem ha
      rw [List.splitOn_append_cons_self_of_not_mem hfirst] at h
      rcases List.mem_cons.mp h with rfl | h
      · exact List.mem_append_left _ hc
      · have hrest := ih rest.length (by rw [← hn]; simp; omega) h rfl
        exact List.mem_append_right _ (List.mem_cons_of_mem _ hrest)
    · rw [List.splitOn_eq_singleton ha] at h
      rwa [← List.mem_singleton.mp h]

/-- Of the addresses that SMTP takes, POP3 takes those whose labels are its own. -/
theorem pop3Address_iff (h : IsSmtpAddress address) :
    IsPop3Address address ↔ HasLetterLabels address := by
  constructor
  · intro hp
    have havoid : '-' ∉ address :=
      words_avoid (pop3Address_words.mpr hp) (by decide) (by decide)
    exact ⟨havoid, fun label hl => (hp.user label hl).1⟩
  · intro hl
    obtain ⟨hhyphen, hletters⟩ := hl
    refine ⟨h.separated, fun label hlabel => ⟨hletters label hlabel, (h.user label hlabel).2⟩,
      fun label hlabel => ?_⟩
    have hhost := h.host label hlabel
    refine ⟨hhost.first, fun c hc => (hhost.all c hc).resolve_right fun hc' => hhyphen ?_⟩
    rw [(at_of_parts h.separated).1]
    rw [hc'] at hc
    exact List.mem_append_right _ (List.mem_cons_of_mem _ (mem_of_mem_splitOn hlabel hc))

theorem smtpAddress_token (h : IsSmtpAddress address) : IsToken address := by
  have havoid : ∀ c, smtpAddress.Avoids c = true → c ∉ address := fun c hc =>
    words_avoid (smtpAddress_words.mpr h) (by decide) hc
  refine ⟨List.ne_nil_of_mem h.separated, fun c hc => ⟨?_, ?_, ?_⟩⟩
  · have hwhite : c.isWhitespace = (c = ' ' || c = '\t' || c = '\r' || c = '\n') := rfl
    have hall : ∀ x ∈ [' ', '\t', '\r', '\n'], smtpAddress.Avoids x = true :=
      List.all_eq_true.mp (by decide)
    rw [hwhite]
    by_contra hw
    simp only [Bool.not_eq_false, Bool.or_eq_true, decide_eq_true_eq, or_assoc] at hw
    have hmem : c ∈ [' ', '\t', '\r', '\n'] := by simpa using hw
    exact havoid c (hall c hmem) hc
  · intro he
    exact havoid c (by rw [he]; decide) hc
  · intro he
    exact havoid c (by rw [he]; decide) hc

/-- The maildrop can be opened over both protocols if and only if POP3 takes its labels. -/
theorem maildrop_opens_iff (h : IsKept address) :
    (RecognisedByPop3 address ∧ RecognisedByImap address) ↔ HasLetterLabels address := by
  have haddress := rcpt_accepted_iff.mp h.accepted
  rw [pop3_recognises_iff, pop3Address_iff haddress]
  exact and_iff_left (imap_recognises (smtpAddress_token haddress))

end

theorem kept_liia : IsKept "liia@localhost".toList :=
  ⟨⟨"rcpt to:<liia@localhost>".toList, by decide +kernel⟩, by decide +kernel⟩

theorem letterLabels_liia : HasLetterLabels "liia@localhost".toList := by
  have hlabels : (localPart "liia@localhost".toList).splitOn '.' = ["liia".toList] := by
    decide
  refine ⟨by decide, fun label hlabel => ?_⟩
  rw [hlabels] at hlabel
  exact ⟨'l', "iia".toList, List.mem_singleton.mp hlabel, by decide⟩

theorem maildrop_opens_liia : RecognisedByPop3 "liia@localhost".toList ∧
    RecognisedByImap "liia@localhost".toList :=
  (maildrop_opens_iff kept_liia).mpr letterLabels_liia

/-- A local part that begins with a digit. -/
theorem maildrop_unopened : IsKept "1a@localhost".toList ∧
    ¬ (RecognisedByPop3 "1a@localhost".toList ∧ RecognisedByImap "1a@localhost".toList) := by
  refine ⟨⟨⟨"rcpt to:<1a@localhost>".toList, by decide +kernel⟩, by decide +kernel⟩, fun h => ?_⟩
  replace h := h.1
  have hcommand := h.1
  revert hcommand
  decide +kernel

end Protocols
