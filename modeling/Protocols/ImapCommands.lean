import Protocols.ImapCompletion
import Protocols.MailboxNames

namespace Protocols

open Regex ImapClient

namespace Regex

/-- Nowhere in it is the beginning of the text asked for. -/
def Floats : Regex → Bool
  | bol => false
  | empty | set _ | eol => true
  | seq a b | alt a b => a.Floats && b.Floats
  | star r | group _ r => r.Floats

theorem run_floats {r : Regex} (h : r.Floats = true) (length length' : Nat) :
    r.run length = r.run length' := by
  induction r with
  | bol => cases h
  | empty | set _ | eol => rfl
  | seq a b iha ihb =>
    obtain ⟨ha, hb⟩ := (Bool.and_eq_true _ _).mp h
    funext s
    rw [run, run, iha ha, ihb hb]
  | alt a b iha ihb =>
    obtain ⟨ha, hb⟩ := (Bool.and_eq_true _ _).mp h
    funext s
    rw [run, run, iha ha, ihb hb]
  | star r ih =>
    funext s
    rw [run, run, ih h]
  | group n r ih =>
    funext s
    rw [run, run, ih h]

variable {length : Nat} {w t : Text} {r : Regex}

/-- The ways of a word in the first group, of which the first one takes all of it. -/
theorem run_word (length : Nat) (hne : w ≠ []) (hw : ∀ c ∈ w, wordChar c = true)
    (ht : ∀ c, t.head? = some c → wordChar c = false) :
    ∃ others, (group 1 (plus word)).run length (w ++ t) = (t, [(1, w)]) :: others ∧
      ∀ p ∈ others, p.1 = t ∨ ∃ c, p.1.head? = some c ∧ wordChar c = true := by
  obtain ⟨others, hrun⟩ := List.head?_eq_some_iff.mp
    (@plus_greedy length _ _ word_takesOne _ _ hne hw ht)
  refine ⟨others.map fun p => (p.1, (1, (w ++ t).take ((w ++ t).length - p.1.length)) :: p.2), ?_, ?_⟩
  · rw [run, hrun, List.map_cons]
    simp
  · intro p hp
    obtain ⟨q, hq, rfl⟩ := List.mem_map.mp hp
    obtain ⟨g, hs, _, hg⟩ := plus_takesOne word_takesOne
      (show q ∈ (plus word).run length (w ++ t) by rw [hrun]; exact List.mem_cons_of_mem _ hq)
    rcases List.append_eq_append_iff.mp hs with ⟨more, hgw, htq⟩ | ⟨more, hwg, hqt⟩
    · -- a word does not go on where the text does not
      cases more with
      | nil => exact Or.inl htq.symm
      | cons c more =>
        have hno := ht c (by rw [htq]; rfl)
        rw [hg c (by rw [hgw]; simp)] at hno
        cases hno
    · cases more with
      | nil => exact Or.inl hqt
      | cons c more => exact Or.inr ⟨c, by rw [hqt]; rfl, hw c (by rw [hwg]; simp)⟩

/-- A line of a word and what follows it: where a pattern goes on with something that is no part of
a word, the word is in the first group, and the pattern goes on with what follows. -/
theorem find_tagged (hne : w ≠ []) (hw : ∀ c ∈ w, wordChar c = true)
    (ht : ∀ c, t.head? = some c → wordChar c = false)
    (hr : ∀ s u, Matches (w ++ t).length r s u → ∀ c, s.head? = some c → wordChar c = false) :
    ((seq bol (seq (group 1 (plus word)) r)).run (w ++ t).length (w ++ t)).find?
      (fun p => p.1.isEmpty) = ((r.run (w ++ t).length t).find? fun p => p.1.isEmpty).map
        fun p => (p.1, p.2 ++ [(1, w)]) := by
  obtain ⟨others, hrun, hothers⟩ := run_word (w ++ t).length hne hw ht
  have hbol : bol.run (w ++ t).length (w ++ t) = [(w ++ t, [])] := by simp [run]
  rw [run_seq, hbol]
  simp only [List.flatMap_singleton, List.append_nil, List.map_id']
  rw [run_seq, hrun, List.flatMap_cons, List.find?_append, List.find?_map]
  have hsame : (fun p : Text × Captures => p.1.isEmpty) ∘
      (fun q : Text × Captures => (q.1, q.2 ++ [(1, w)])) = fun p => p.1.isEmpty := rfl
  rw [hsame]
  cases hfind : (r.run (w ++ t).length t).find? fun p => p.1.isEmpty with
  | some q => rfl
  | none =>
    rw [Option.map_none, Option.none_or, List.find?_eq_none]
    intro p hp
    obtain ⟨q, hq, hp⟩ := List.mem_flatMap.mp hp
    obtain ⟨u, hu, rfl⟩ := List.mem_map.mp hp
    rcases hothers q hq with hqt | ⟨c, hc, hword⟩
    · rw [hqt] at hu
      exact List.find?_eq_none.mp hfind u hu
    · have hno := hr q.1 u.1 (run_matches hu) c hc
      rw [hword] at hno
      cases hno

/-- The patterns of the commands: the tag, a blank, and what the command is called. -/
def tagged (str : String) (r : Regex) : Regex :=
  seq bol (seq (group 1 (plus word)) (seq (lit str) r))

variable {str : String} {chars : List Char}

theorem find_command (hstr : str.toList = ' ' :: chars) (hne : w ≠ [])
    (hw : ∀ c ∈ w, wordChar c = true) (ht : ∀ c, t.head? = some c → wordChar c = false) :
    ((tagged str r).run (w ++ t).length (w ++ t)).find? (fun p => p.1.isEmpty) =
      (((seq (lit str) r).run (w ++ t).length t).find? fun p => p.1.isEmpty).map
        fun p => (p.1, p.2 ++ [(1, w)]) :=
  find_tagged hne hw ht fun _ _ h => begins_with_space hstr h

/-- No other command is taken for it. -/
theorem command_none (hstr : str.toList = ' ' :: chars) (hne : w ≠ [])
    (hw : ∀ c ∈ w, wordChar c = true) (ht : ∀ c, t.head? = some c → wordChar c = false)
    (h : (t.take str.toList.length).map Char.toLower ≠ str.toList.map Char.toLower) :
    regexMatch (tagged str r) (w ++ t) = none := by
  rw [regexMatch, find_command hstr hne hw ht, run_seq, lit_run, if_neg h]
  rfl

/-- What follows the tag decides, wherever the tag stands. -/
theorem command_some (caps : Captures) (hstr : str.toList = ' ' :: chars) (hne : w ≠ [])
    (hw : ∀ c ∈ w, wordChar c = true) (ht : ∀ c, t.head? = some c → wordChar c = false)
    (hr : (seq (lit str) r).Floats = true)
    (h : (((seq (lit str) r).run 0 t).find? fun p => p.1.isEmpty) = some ([], caps)) :
    regexMatch (tagged str r) (w ++ t) =
      some (submatches (tagged str r) (w ++ t) (caps ++ [(1, w)])) := by
  rw [regexMatch, find_command hstr hne hw ht, run_floats hr _ 0, h]
  rfl

end Regex

theorem isTag_decimal (n : Nat) : IsTag (decimal n) := by
  refine ⟨decimal_ne_nil n, fun c hc => ?_⟩
  have hdigit := digit_decimal hc
  simp [wordChar, Char.isAlphanum, hdigit]

section

variable {n : Nat} {user pass name : Text}

theorem loginCommand_eq : loginCommand user pass n =
    decimal n ++ (" LOGIN ".toList ++ (user ++ ' ' :: pass)) := by
  simp [loginCommand, format]

theorem listCommand_eq : listCommand n = decimal n ++ " LIST \"\" *".toList := by
  simp [listCommand, format]

theorem examineCommand_eq : examineCommand name n =
    decimal n ++ (" EXAMINE ".toList ++ name) := by
  simp [examineCommand, format]

theorem logoutCommand_eq : logoutCommand n = decimal n ++ " LOGOUT".toList := by
  simp [logoutCommand, format]

/-- What follows the names of LOGIN, LIST and LOGOUT in their patterns. -/
def loginArguments : Regex := all [group 2 (plus nonSpace), lit " ", group 3 (plus nonSpace), eol]

def listArguments : Regex :=
  all [alt (all [lit "\"", group 2 (star quotedChar), lit "\""]) (group 3 (plus atomChar)), lit " ",
    alt (all [lit "\"", group 4 (plus quotedChar), lit "\""]) (group 5 (plus atomChar)), eol]

theorem imapCommandParser_eq : imapCommandParser =
    [(tagged " login " loginArguments, .login), (tagged " list " listArguments, .list),
      (tagged " logout" (all [eol]), .logout),
      (all [bol, group 1 (plus word), star any, eol], .tagUnknown),
      (all [bol, star any, eol], .unknown)] := rfl

/-- The LIST of the client names no reference, and asks for all. -/
theorem listCommand_parsed : imapParseRequest (listCommand n) =
    (.list, [listCommand n, decimal n, [], [], [], "*".toList]) := by
  obtain ⟨hne, hw⟩ := isTag_decimal n
  have ht : ∀ c, " LIST \"\" *".toList.head? = some c → wordChar c = false := by
    rintro c hc
    cases hc
    decide
  have hlogin : regexMatch (tagged " login " loginArguments) (listCommand n) = none := by
    rw [listCommand_eq]
    exact command_none rfl hne hw ht (by decide)
  have hlist : regexMatch (tagged " list " listArguments) (listCommand n) =
      some [listCommand n, decimal n, [], [], [], "*".toList] := by
    rw [listCommand_eq]
    exact command_some [(5, "*".toList), (2, [])] rfl hne hw ht (by decide) (by decide +kernel)
  exact firstMatch_first (List.forall_mem_singleton.mpr hlogin) hlist

theorem logoutCommand_parsed : imapParseRequest (logoutCommand n) =
    (.logout, [logoutCommand n, decimal n]) := by
  obtain ⟨hne, hw⟩ := isTag_decimal n
  have ht : ∀ c, " LOGOUT".toList.head? = some c → wordChar c = false := by
    rintro c hc
    cases hc
    decide
  have hlogin : regexMatch (tagged " login " loginArguments) (logoutCommand n) = none := by
    rw [logoutCommand_eq]
    exact command_none rfl hne hw ht (by decide)
  have hlist : regexMatch (tagged " list " listArguments) (logoutCommand n) = none := by
    rw [logoutCommand_eq]
    exact command_none rfl hne hw ht (by decide)
  have hlogout : regexMatch (tagged " logout" (all [eol])) (logoutCommand n) =
      some [logoutCommand n, decimal n] := by
    rw [logoutCommand_eq]
    exact command_some [] rfl hne hw ht (by decide) (by decide +kernel)
  exact firstMatch_first (List.forall_mem_cons.mpr ⟨hlogin, List.forall_mem_singleton.mpr hlist⟩)
    hlogout

theorem login_parts {tag tag' blank address password : Text} (ht : IsTag tag) (ht' : IsTag tag')
    (hb : blank.map Char.toLower = " login ".toList) (ha : IsToken address) (hp : IsToken password)
    (h : tag ++ (" LOGIN ".toList ++ (user ++ ' ' :: pass)) =
      tag' ++ (blank ++ (address ++ ' ' :: password))) : user = address := by
  have blank_head : ∀ (w t : Text), w.map Char.toLower = " login ".toList →
      ∀ c, (w ++ t).head? = some c → wordChar c = false := by
    intro w t hw c hc
    obtain ⟨x, rest, rfl, hx, _⟩ := List.map_eq_cons_iff.mp hw
    rw [toLower_eq_of_not_letter hx (by decide)] at hc
    cases hc
    decide
  have htag := congrArg (fun w => w.takeWhile wordChar) h
  simp only [takeWhile_word ht.2 (blank_head " LOGIN ".toList _ (by decide)),
    takeWhile_word ht'.2 (blank_head _ _ hb)] at htag
  rw [htag, List.append_cancel_left_eq] at h
  have hlen : " LOGIN ".toList.length = blank.length := by
    have := congrArg List.length hb
    simpa using this.symm
  have hrest := (List.append_inj h hlen).2
  have no_blank : ∀ w : Text, IsToken w → ' ' ∉ w := fun w hw hmem => by
    have := (hw.2 ' ' hmem).1
    cases this
  -- there is one blank on the right
  have hone : (user ++ ' ' :: pass).count ' ' = 1 := by
    rw [hrest]
    simp [List.count_eq_zero.mpr (no_blank address ha), List.count_eq_zero.mpr (no_blank password hp)]
  simp only [List.count_append, List.count_cons_self] at hone
  have huser : ' ' ∉ user := List.count_eq_zero.mp (by omega)
  have hpass : ' ' ∉ pass := List.count_eq_zero.mp (by omega)
  exact ((List.append_cons_inj_of_notMem huser hpass).mp hrest).1

/-- The user that a LOGIN names: what LOGIN takes has no blanks. -/
theorem loginCommand_user {arguments : List Text}
    (h : imapParseRequest (loginCommand user pass n) = (.login, arguments)) :
    str arguments 2 = user := by
  rcases firstMatch_cases ImapCommand.unknown imapCommandParser (loginCommand user pass n) with
    ⟨p, hp, arguments', hmatch, hfirst⟩ | hnone
  · rw [imapParseRequest, hfirst] at h
    obtain ⟨hcommand, rfl⟩ := Prod.mk.inj h
    rw [imapCommandParser_eq] at hp
    simp only [List.mem_cons, List.not_mem_nil, or_false] at hp
    rcases hp with rfl | rfl | rfl | rfl | rfl
    · obtain ⟨q, hq, rfl⟩ := Option.map_eq_some_iff.mp hmatch
      obtain ⟨tag, blank, address, password, ht, hb, ha, hp, hs, hcaps⟩ :=
        login_run (List.mem_of_find?_eq_some hq)
      rw [hcaps]
      exact (login_parts (isTag_decimal n) ht hb ha hp (loginCommand_eq.symm.trans hs)).symm
    all_goals cases hcommand
  · rw [imapParseRequest, firstMatch_none hnone] at h
    cases h

/-- What stands between the tag and the arguments of a command. -/
def ImapCommand.spelling : ImapCommand → Option String
  | .login => some " login "
  | .list => some " list "
  | .logout => some " logout"
  | .tagUnknown | .unknown => none

theorem parsed_spelling {t : Text} {str : String} (ht : ∀ c, t.head? = some c → wordChar c = false)
    (h : (imapParseRequest (decimal n ++ t)).1.spelling = some str) :
    (t.take str.toList.length).map Char.toLower = str.toList.map Char.toLower := by
  obtain ⟨hne, hw⟩ := isTag_decimal n
  rcases firstMatch_cases ImapCommand.unknown imapCommandParser (decimal n ++ t) with
    ⟨p, hp, arguments, hmatch, hfirst⟩ | hnone
  · rw [imapParseRequest, hfirst] at h
    by_contra hother
    rw [imapCommandParser_eq] at hp
    simp only [List.mem_cons, List.not_mem_nil, or_false] at hp
    rcases hp with rfl | rfl | rfl | rfl | rfl
    · cases h
      rw [command_none rfl hne hw ht hother] at hmatch
      cases hmatch
    · cases h
      rw [command_none rfl hne hw ht hother] at hmatch
      cases hmatch
    · cases h
      rw [command_none rfl hne hw ht hother] at hmatch
      cases hmatch
    · cases h
    · cases h
  · rw [imapParseRequest, firstMatch_none hnone] at h
    cases h

/-- The server has no EXAMINE. -/
theorem examineCommand_parsed (h : NoBreak name) :
    ∃ arguments, imapParseRequest (examineCommand name n) = (.tagUnknown, arguments) ∧
      str arguments 1 = decimal n := by
  obtain ⟨hne, hw⟩ := isTag_decimal n
  have hspelling : ∀ str, (imapParseRequest (examineCommand name n)).1.spelling = some str →
      str.toList.length ≤ 9 →
      (" EXAMINE ".toList.take str.toList.length).map Char.toLower = str.toList.map Char.toLower := by
    intro str hstr hlen
    rw [examineCommand_eq] at hstr
    have ht : ∀ c, (" EXAMINE ".toList ++ name).head? = some c → wordChar c = false := by
      rintro c hc
      cases hc
      decide
    rw [← List.take_append_of_le_length hlen]
    exact parsed_spelling ht hstr
  have hline : examineCommand name n = decimal n ++ ' ' :: ("EXAMINE ".toList ++ name) :=
    examineCommand_eq
  have hbreaks : NoBreak (examineCommand name n) := by
    rw [examineCommand_eq]
    refine noBreak_append.mpr ⟨fun c hc => ?_, noBreak_append.mpr ⟨by decide, h⟩⟩
    have hdigit := digit_decimal hc
    constructor
    · rintro rfl
      cases hdigit
    · rintro rfl
      cases hdigit
  have htag := imapParseRequest_tag ("EXAMINE ".toList ++ name) hne hw
  rw [← hline] at htag
  rcases htag with ⟨hbreak | hbreak, _⟩ | ⟨_, hknown, htag⟩
  · exact absurd rfl (hbreaks _ hbreak).1
  · exact absurd rfl (hbreaks _ hbreak).2
  · rcases hparse : imapParseRequest (examineCommand name n) with ⟨command, arguments⟩
    rw [hparse] at hspelling hknown htag
    cases command with
    | tagUnknown => exact ⟨arguments, rfl, htag⟩
    | unknown => exact absurd rfl hknown
    | login => exact absurd (hspelling _ rfl (by decide)) (by decide)
    | list => exact absurd (hspelling _ rfl (by decide)) (by decide)
    | logout => exact absurd (hspelling _ rfl (by decide)) (by decide)

/-- A LOGIN is taken for a LOGIN of the user, or for no command. -/
theorem loginCommand_parsed {arguments : List Text} {command : ImapCommand}
    (h : imapParseRequest (loginCommand user pass n) = (command, arguments)) :
    (command = .login ∧ str arguments 1 = decimal n ∧ str arguments 2 = user) ∨
      (command = .tagUnknown ∧ str arguments 1 = decimal n) ∨ command = .unknown := by
  obtain ⟨hne, hw⟩ := isTag_decimal n
  have hspelling : ∀ str, command.spelling = some str → str.toList.length ≤ 7 →
      (" LOGIN ".toList.take str.toList.length).map Char.toLower = str.toList.map Char.toLower := by
    intro str hstr hlen
    have ht : ∀ c, (" LOGIN ".toList ++ (user ++ ' ' :: pass)).head? = some c →
        wordChar c = false := by
      rintro c hc
      cases hc
      decide
    rw [← List.take_append_of_le_length hlen]
    refine parsed_spelling (n := n) ht ?_
    rw [← loginCommand_eq, h]
    exact hstr
  have hline : loginCommand user pass n =
      decimal n ++ ' ' :: ("LOGIN ".toList ++ (user ++ ' ' :: pass)) := loginCommand_eq
  have htag := imapParseRequest_tag ("LOGIN ".toList ++ (user ++ ' ' :: pass)) hne hw
  rw [← hline, h] at htag
  cases command with
  | unknown => exact Or.inr (Or.inr rfl)
  | list => exact absurd (hspelling _ rfl (by decide)) (by decide)
  | logout => exact absurd (hspelling _ rfl (by decide)) (by decide)
  | tagUnknown =>
    rcases htag with ⟨_, hunknown⟩ | ⟨_, _, htag⟩
    · cases hunknown
    · exact Or.inr (Or.inl ⟨rfl, htag⟩)
  | login =>
    rcases htag with ⟨_, hunknown⟩ | ⟨_, _, htag⟩
    · cases hunknown
    · exact Or.inl ⟨rfl, htag, loginCommand_user h⟩

end

end Protocols
