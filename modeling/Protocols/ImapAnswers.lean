import Protocols.ImapClient
import Protocols.RegexLines

namespace Protocols

open Regex Relation Conversation

namespace ImapClient

def statuses : List String := ["ok", "no", "bad", "preauth", "bye"]

/-- There is one of the statuses in the line, after a blank that it does not begin with. -/
def LooksLast (line : Text) : Prop :=
  NoBreak line ∧ ∃ word ∈ statuses, (' ' :: word.toList) <:+: line.tail.map Char.toLower

/-- What a server may answer to the command with the tag. -/
structure IsTagged (tag : Text) (untagged : List Text) (completion : Text) : Prop where
  others : ∀ line ∈ untagged, CrlfFree line ∧ ¬ tag <+: line
  free : CrlfFree completion
  completes : ∃ status ∈ ["OK", "NO", "BAD"], ∃ text,
    completion = tag ++ ' ' :: (String.toList status ++ text)

/-- However the answer is cut, all of it is read, and nothing of what comes after it. -/
def ReadExactly (answer : List Text) : Prop :=
  ∀ pieces : List Text, [] ∉ pieces → pieces.flatten = unlines answer →
    ∀ later, readMultipleLines (pieces ++ later) = some (answer, later)

/-- Only the completion can be taken for the end of the answer, and it can. -/
def Recognised (untagged : List Text) (completion : Text) : Prop :=
  (∀ line ∈ untagged, ¬ LooksLast line) ∧ NoBreak completion

/-- The server greets with a line and answers every command with its tag. -/
structure AnswersEvery (reply : List Text → List Text) : Prop where
  greets : ∃ line, CrlfFree line ∧ reply [] = [line]
  tagged : ∀ said n text, ∃ untagged completion,
    reply (said ++ [decimal n ++ ' ' :: text]) = untagged ++ [completion] ∧
      IsTagged (decimal n) untagged completion

/-- In a whole session the client stays in step, and its commands have the tags 1, 2 and so on. -/
def Paired (server reply : List Text → List Text) (c : ImapClient) : Prop :=
  StaysInStep imapClient server reply c ∧
    ∀ d, ReflTransGen (Talks imapClient server) (opening c server) d →
      ∀ k < d.said.length, ∃ text, d.said[k]? = some (decimal ((k + 1) % 2 ^ 32) ++ ' ' :: text)

/-- Whenever the client has sent a command, the answer to it is recognised. -/
def AllRecognised (server reply : List Text → List Text) (c : ImapClient) : Prop :=
  ∀ d, ReflTransGen (Talks imapClient server) (opening c server) d → d.client.awaits ≠ none →
    d.said ≠ [] → ∀ untagged completion, reply d.said = untagged ++ [completion] →
      Recognised untagged completion

section

variable {line : Text}

theorem status_words {w : Text} :
    w ∈ status.words ↔ ∃ word ∈ statuses, w.map Char.toLower = word.toList := by
  have hlow : ∀ word ∈ statuses, word.toList.map Char.toLower = word.toList := by decide
  simp only [status, mem_alt_words, mem_lit_words, statuses, List.exists_mem_cons_iff]
  simp

theorem noBreak_append {u v : Text} : NoBreak (u ++ v) ↔ NoBreak u ∧ NoBreak v :=
  List.forall_mem_append

theorem noBreak_of_lower {w : Text} (h : NoBreak (w.map Char.toLower)) : NoBreak w := by
  intro c hc
  have hlow := h c.toLower (List.mem_map_of_mem hc)
  constructor
  · rintro rfl
    exact hlow.1 rfl
  · rintro rfl
    exact hlow.2 rfl

theorem noBreak_status : ∀ word ∈ statuses, NoBreak word.toList := by decide

/-- A word in letters of any case stands in the line after its first character. -/
theorem spelled_within {spelled : Text} (hne : spelled ≠ []) (hs : NoBreak spelled) :
    (∃ u w v, (u ≠ [] ∧ NoBreak u) ∧ w.map Char.toLower = spelled ∧ NoBreak v ∧
      line = u ++ (w ++ v)) ↔ NoBreak line ∧ spelled <:+: line.tail.map Char.toLower := by
  constructor
  · rintro ⟨u, w, v, ⟨hfirst, hu⟩, hw, hv, rfl⟩
    obtain ⟨c, u, rfl⟩ := List.exists_cons_of_ne_nil hfirst
    have hletters : NoBreak w := noBreak_of_lower (hw ▸ hs)
    refine ⟨noBreak_append.mpr ⟨hu, noBreak_append.mpr ⟨hletters, hv⟩⟩,
      u.map Char.toLower, v.map Char.toLower, ?_⟩
    simp [hw]
  · rintro ⟨hline, front, back, hwhole⟩
    cases line with
    | nil =>
      obtain ⟨hfront, _⟩ := List.append_eq_nil_iff.mp hwhole
      exact absurd (List.append_eq_nil_iff.mp hfront).2 hne
    | cons c line =>
      obtain ⟨front', v, rfl, hfront, rfl⟩ := List.map_eq_append_iff.mp hwhole.symm
      obtain ⟨u, w, rfl, rfl, hw⟩ := List.map_eq_append_iff.mp hfront
      rw [List.append_assoc, ← List.cons_append] at hline
      obtain ⟨hu, hrest⟩ := noBreak_append.mp hline
      exact ⟨c :: u, w, v, ⟨List.cons_ne_nil c u, hu⟩, hw, (noBreak_append.mp hrest).2, by simp⟩

theorem isLast_iff : isLast line = true ↔ LooksLast line := by
  have within : ∀ word ∈ statuses, (∃ u w v, (u ≠ [] ∧ NoBreak u) ∧
      w.map Char.toLower = ' ' :: word.toList ∧ NoBreak v ∧ line = u ++ (w ++ v)) ↔
        NoBreak line ∧ (' ' :: word.toList) <:+: line.tail.map Char.toLower := by
    intro word hword
    refine spelled_within (List.cons_ne_nil _ _) (List.forall_mem_cons.mpr ⟨by decide, ?_⟩)
    exact noBreak_status word hword
  refine (regexMatch_line_iff [plus any, lit " ", group 1 status, star any] (by decide)).trans ?_
  simp only [all_cons, mem_seq_words, plus_any_words]
  constructor
  · rintro ⟨u, hu, _, ⟨b, hb, _, ⟨w, hw, _, ⟨v, hv, rest, hrest, rfl⟩, rfl⟩, rfl⟩, rfl⟩
    obtain ⟨word, hword, hw⟩ := status_words.mp hw
    have hspelled : (b ++ w).map Char.toLower = ' ' :: word.toList := by
      rw [List.map_append, mem_lit_words.mp hb, hw]
      rfl
    obtain rfl : rest = [] := (Language.mem_one _).mp hrest
    rw [List.append_nil] at within ⊢
    obtain ⟨hline, hin⟩ := (within word hword).mp
      ⟨u, b ++ w, v, hu, hspelled, star_any_words.mp hv, by rw [List.append_assoc]⟩
    exact ⟨hline, word, hword, hin⟩
  · rintro ⟨hline, word, hword, hin⟩
    obtain ⟨u, s, v, hu, hs, hv, rfl⟩ := (within word hword).mpr ⟨hline, hin⟩
    obtain ⟨c, w, rfl, hc, hw⟩ := List.map_eq_cons_iff.mp hs
    have hb : [c] ∈ (lit " ").words := mem_lit_words.mpr (congrArg (fun c => [c]) hc)
    exact ⟨u, hu, _, ⟨[c], hb, _, ⟨w, status_words.mpr ⟨word, hword, hw⟩, _,
      ⟨v, star_any_words.mpr hv, [], (Language.mem_one _).mpr rfl, List.append_nil v⟩, rfl⟩, rfl⟩, rfl⟩

end

section

variable {tag completion : Text} {untagged : List Text}

theorem lower_status : ∀ status ∈ ["OK", "NO", "BAD"],
    String.ofList (String.toList status |>.map Char.toLower) ∈ statuses := by
  decide

theorem looksLast_completion (h : IsTagged tag untagged completion) (ht : tag ≠ []) :
    LooksLast completion ↔ NoBreak completion := by
  refine and_iff_left ?_
  obtain ⟨status, hstatus, text, rfl⟩ := h.completes
  obtain ⟨c, tag, rfl⟩ := List.exists_cons_of_ne_nil ht
  have hlower := lower_status status hstatus
  refine ⟨_, hlower, tag.map Char.toLower, text.map Char.toLower, ?_⟩
  simp

theorem answer_iff_recognised (h : IsTagged tag untagged completion) (ht : tag ≠ []) :
    IsAnswer isLast (untagged ++ [completion]) ↔ Recognised untagged completion := by
  rw [isAnswer_concat, isLast_iff, looksLast_completion h ht]
  simp only [← Bool.not_eq_true, isLast_iff]
  constructor
  · rintro ⟨hothers, _, hlast⟩
    exact ⟨fun line hl => (hothers line hl).2, hlast⟩
  · rintro ⟨hothers, hlast⟩
    exact ⟨fun line hl => ⟨(h.others line hl).1, hothers line hl⟩, h.free, hlast⟩

theorem readExactly_iff (h : IsTagged tag untagged completion) (ht : tag ≠ []) :
    ReadExactly (untagged ++ [completion]) ↔ Recognised untagged completion :=
  readThrough_exactly_iff.trans (answer_iff_recognised h ht)

end

section

variable {server reply : List Text → List Text} {c : ImapClient} {said : List Text}
  {d : Conversation ImapClient}

/-- The client's tag is that of its last command, and before the first one it waits for the
greeting. -/
structure Tagged (c : ImapClient) (said : List Text) : Prop where
  tag : c.tag = said.length % 2 ^ 32
  commands : ∀ k < said.length, ∃ text,
    said[k]? = some (decimal ((k + 1) % 2 ^ 32) ++ ' ' :: text)
  waits : c.awaits ≠ none → (c.awaits = some (fun _ => true) ∧ said = []) ∨
    (c.awaits = some isLast ∧ said ≠ [])

theorem Tagged.hears (h : Tagged c said) (hw : c.awaits ≠ none) (response : List Text) :
    Tagged (c.hears response).1 (said ++ (c.hears response).2.toList) := by
  rcases hears_cases c response hw with hsends | hstops
  · obtain ⟨text, htext⟩ := hsends.command
    have htag : (c.tag + 1) % 2 ^ 32 = (said.length + 1) % 2 ^ 32 := by
      rw [h.tag, Nat.mod_add_mod]
    rw [htext, Option.toList_some]
    refine ⟨by rw [hsends.tag, htag, List.length_append, List.length_singleton], fun k hk => ?_,
      fun _ => Or.inr ⟨hsends.waits, by simp⟩⟩
    rw [List.length_append, List.length_singleton] at hk
    by_cases hlast : k = said.length
    · exact ⟨text, by rw [hlast, List.getElem?_concat_length, htag]⟩
    · rw [List.getElem?_append_left (by omega)]
      exact h.commands k (by omega)
  · rw [hstops.silent, Option.toList_none, List.append_nil]
    exact ⟨hstops.tag.trans h.tag, h.commands, fun hne => absurd hstops.waits hne⟩

theorem session_tagged (hc : c.control = .greeting) (ht : c.tag = 0)
    (run : ReflTransGen (Talks imapClient server) (opening c server) d) :
    Tagged d.client d.said := by
  have start : Tagged c [] :=
    ⟨ht, fun k hk => absurd hk (Nat.not_lt_zero k), fun _ => Or.inl ⟨by simp [awaits, hc], rfl⟩⟩
  exact talks_invariant start (fun s said lines h hw => h.hears hw lines) run

/-- What the client waits for when it has sent a command. -/
theorem answered (h : AnswersEvery reply) (ht : Tagged c said) (hne : said ≠ []) :
    ∃ untagged completion, reply said = untagged ++ [completion] ∧
      (IsAnswer isLast (reply said) ↔ Recognised untagged completion) := by
  obtain ⟨before, command, rfl⟩ := said.eq_nil_or_concat'.resolve_left hne
  obtain ⟨text, hcommand⟩ := ht.commands before.length (by simp)
  rw [List.getElem?_concat_length] at hcommand
  obtain ⟨untagged, completion, hreply, htagged⟩ :=
    h.tagged before ((before.length + 1) % 2 ^ 32) text
  rw [Option.some.inj hcommand, hreply]
  exact ⟨untagged, completion, rfl, answer_iff_recognised htagged (decimal_ne_nil _)⟩

/-- The client of a session is in step if and only if it recognises the answers. -/
theorem paired_iff (hs : Serves server reply) (h : AnswersEvery reply) (hc : c.control = .greeting)
    (ht : c.tag = 0) : Paired server reply c ↔ AllRecognised server reply c := by
  constructor
  · rintro ⟨hstays, _⟩ d run hw hne untagged completion hreply
    have htagged := session_tagged hc ht run
    obtain ⟨untagged', completion', hreply', hanswer⟩ := answered h htagged hne
    obtain ⟨rfl, hsame⟩ := List.append_inj' (hreply.symm.trans hreply') rfl
    cases hsame
    refine hanswer.mp ?_
    rcases htagged.waits hw with ⟨_, hnil⟩ | ⟨hlast, _⟩
    · exact absurd hnil hne
    · exact (staysInStep_iff hs).mp hstays d run isLast hlast
  · intro hall
    refine ⟨(staysInStep_iff hs).mpr fun d run ends hw => ?_,
      fun d run => (session_tagged hc ht run).commands⟩
    have hw' : d.client.awaits = some ends := hw
    have htagged := session_tagged hc ht run
    rcases htagged.waits (by simp [hw']) with ⟨hgreet, hnil⟩ | ⟨hlast, hne⟩
    · cases hw'.symm.trans hgreet
      obtain ⟨line, hfree, hline⟩ := h.greets
      rw [hnil, hline]
      exact .last hfree rfl
    · cases hw'.symm.trans hlast
      obtain ⟨untagged, completion, hreply, hanswer⟩ := answered h htagged hne
      exact hanswer.mpr (hall d run (by simp [hw']) hne untagged completion hreply)

/-- An answer is read exactly if and only if it is recognised, and a client stays in step if and only
if all the answers to its commands are. -/
theorem stays_in_step_iff {tag completion : Text} {untagged : List Text}
    (h : IsTagged tag untagged completion) (hne : tag ≠ []) (hs : Serves server reply)
    (ha : AnswersEvery reply) (hc : c.control = .greeting) (ht : c.tag = 0) :
    (ReadExactly (untagged ++ [completion]) ↔ Recognised untagged completion) ∧
      (Paired server reply c ↔ AllRecognised server reply c) :=
  ⟨readExactly_iff h hne, paired_iff hs ha hc ht⟩

end

/-- A server that puts some lines before every completion, which is always OK. -/
def completing (untagged : List Text) (said : List Text) : List Text :=
  match said.getLast? with
  | none => ["* OK".toList]
  | some command => untagged ++ [command.takeWhile (· ≠ ' ') ++ " OK".toList]

theorem completing_every {untagged : List Text}
    (h : ∀ line ∈ untagged, CrlfFree line ∧ ['*'] <+: line) : AnswersEvery (completing untagged) where
  greets := ⟨_, by decide, rfl⟩
  tagged said n text := by
    have hnot : ∀ c : Char, c.isDigit = false → c ∉ decimal n := fun c hc hmem => by
      rw [digit_decimal hmem] at hc
      cases hc
    have hword : (decimal n ++ ' ' :: text).takeWhile (· ≠ ' ') = decimal n := by
      rw [List.takeWhile_append_of_pos fun c hc => ?_]
      · simp
      · refine decide_eq_true ?_
        rintro rfl
        exact hnot ' ' rfl hc
    refine ⟨untagged, decimal n ++ " OK".toList, ?_, fun line hl => ⟨(h line hl).1, ?_⟩, ?_, ?_⟩
    · rw [completing, List.getLast?_concat]
      simp only [hword]
    · obtain ⟨rest, rfl⟩ := (h line hl).2
      obtain ⟨c, digits, hdigits⟩ := List.exists_cons_of_ne_nil (decimal_ne_nil n)
      rintro ⟨after, hafter⟩
      rw [hdigits] at hafter
      refine hnot '*' rfl ?_
      rw [hdigits, (List.cons.inj hafter).1]
      exact List.mem_cons_self
    · exact crlfFree_of_not_mem (by simp [hnot '\r' rfl])
    · exact ⟨"OK", by simp, [], by simp⟩

theorem completing_ne_nil (untagged said : List Text) : completing untagged said ≠ [] := by
  unfold completing
  split
  next => exact List.cons_ne_nil _ _
  next => simp

instance (line : Text) : Decidable (LooksLast line) :=
  inferInstanceAs (Decidable (NoBreak line ∧
    ∃ word ∈ statuses, (' ' :: word.toList) <:+: line.tail.map Char.toLower))

theorem stays_in_step_plain :
    (ReadExactly (["* 1 EXISTS".toList] ++ ["3 OK".toList]) ↔
      Recognised ["* 1 EXISTS".toList] "3 OK".toList) ∧
    (Paired (inOnePiece (completing [])) (completing []) ⟨[], [], [], 0, .greeting⟩ ↔
      AllRecognised (inOnePiece (completing [])) (completing []) ⟨[], [], [], 0, .greeting⟩) :=
  stays_in_step_iff
    (show IsTagged ['3'] ["* 1 EXISTS".toList] "3 OK".toList from
      ⟨by decide, by decide, "OK", by simp, [], rfl⟩)
    (by simp) (inOnePiece_serves (completing_ne_nil [])) (completing_every (by simp)) rfl rfl

theorem untagged_status_ends :
    IsTagged ['3'] ["* 1 EXISTS".toList, "* OK [UIDVALIDITY 1] UIDs valid".toList]
      "3 OK Success".toList ∧
    ¬ ReadExactly (["* 1 EXISTS".toList, "* OK [UIDVALIDITY 1] UIDs valid".toList] ++
      ["3 OK Success".toList]) ∧
    AnswersEvery (completing ["* OK ready".toList]) ∧
    ¬ Paired (inOnePiece (completing ["* OK ready".toList])) (completing ["* OK ready".toList])
      ⟨[], [], [], 0, .greeting⟩ := by
  have htagged : IsTagged ['3'] ["* 1 EXISTS".toList, "* OK [UIDVALIDITY 1] UIDs valid".toList]
      "3 OK Success".toList := ⟨by decide, by decide, "OK", by simp, " Success".toList, rfl⟩
  have hanswers : AnswersEvery (completing ["* OK ready".toList]) := completing_every (by decide)
  refine ⟨htagged, fun h => ?_, hanswers, fun h => ?_⟩
  · have hrecognised := (readExactly_iff htagged (by simp)).mp h
    exact hrecognised.1 _ (List.mem_cons_of_mem _ List.mem_cons_self) (by decide)
  · have hall := (paired_iff (inOnePiece_serves (completing_ne_nil _)) hanswers rfl rfl).mp h
    have greeted : Talks imapClient (inOnePiece (completing ["* OK ready".toList]))
      (opening ⟨[], [], [], 0, .greeting⟩ (inOnePiece (completing ["* OK ready".toList])))
      ⟨⟨[], [], [], 1, .login⟩, [unlines ["* OK ready".toList, "1 OK".toList]],
        ["1 LOGIN  ".toList], [["* OK".toList]]⟩ := rfl
    have hrecognised := hall _ (.single greeted) (by simp [awaits]) (by simp)
      ["* OK ready".toList] "1 OK".toList rfl
    exact hrecognised.1 _ List.mem_cons_self (by decide)

end ImapClient

end Protocols
