import Protocols.ImapAnswers

namespace Protocols

open Regex Relation Conversation

namespace ImapClient

/-- The line completes the command with the tag, with the status. -/
def Completes (tag : Text) (status : String) (line : Text) : Prop :=
  ∃ text, line = tag ++ ' ' :: text ∧
    (text.takeWhile fun c => c ≠ ' ').map Char.toLower = status.toList

/-- The first of the lines with the tag. -/
def completion (tag : Text) (lines : List Text) : Option Text :=
  lines.find? fun line => decide (tag ++ [' '] <+: line)

/-- A LOGIN or a LIST with the tag. -/
def AsksLogin (c : ImapClient) (command : Text) : Prop :=
  (c.control = .login ∧ command = loginCommand c.user c.pass c.tag) ∨
    (c.control = .list ∧ command = listCommand c.tag)

/-- Only a command that is completed with OK succeeds, and after NO or BAD there is an error. -/
structure OnlyOkSucceeds (server : List Text → List Text) (d : Conversation ImapClient)
    (lines : List Text) : Prop where
  succeeds : ∀ e, Talks imapClient server d e →
    e.client.control ≠ .error ∨ e.client.storage ≠ d.client.storage →
    ∃ line, completion (decimal d.client.tag) lines = some line ∧
      Completes (decimal d.client.tag) "ok" line
  fails : ∀ line, completion (decimal d.client.tag) lines = some line →
    Completes (decimal d.client.tag) "no" line ∨ Completes (decimal d.client.tag) "bad" line →
    ∃ e, Talks imapClient server d e ∧ e.client.control = .error

/-- There is an OK in the line, after a blank that it does not begin with. -/
def ShowsOk (line : Text) : Prop := " ok".toList <:+: line.tail.map Char.toLower

instance (line : Text) : Decidable (ShowsOk line) :=
  inferInstanceAs (Decidable (" ok".toList <:+: line.tail.map Char.toLower))

/-- Unless the command is completed with OK, there is none in the first line that looks like the last
one, and after NO or BAD there is such a line. -/
structure NotMistaken (tag : Text) (lines : List Text) : Prop where
  first : ∀ line, lines.find? (fun line => LooksLast line) = some line → ShowsOk line →
    ∃ other, completion tag lines = some other ∧ Completes tag "ok" other
  found : ∀ line, completion tag lines = some line →
    Completes tag "no" line ∨ Completes tag "bad" line → ∃ other ∈ lines, LooksLast other

section

variable {line : Text}

theorem isOk_iff : isOk line = true ↔ NoBreak line ∧ ShowsOk line := by
  have within := @spelled_within line " ok".toList (List.cons_ne_nil _ _) (by decide)
  refine (regexMatch_line_iff [plus any, lit " ok", star any] (by decide)).trans (.trans ?_ within)
  simp only [all_cons, mem_seq_words, plus_any_words, mem_lit_words]
  constructor
  · rintro ⟨u, hu, _, ⟨w, hw, _, ⟨v, hv, rest, hrest, rfl⟩, rfl⟩, rfl⟩
    rw [show rest = [] from (Language.mem_one _).mp hrest, List.append_nil]
    exact ⟨u, w, v, hu, hw, star_any_words.mp hv, rfl⟩
  · rintro ⟨u, w, v, hu, hw, hv, rfl⟩
    exact ⟨u, hu, _, ⟨w, hw, _, ⟨v, star_any_words.mpr hv, [], (Language.mem_one _).mpr rfl,
      List.append_nil v⟩, rfl⟩, rfl⟩

end

section

variable {server : List Text → List Text} {c : ImapClient} {d e : Conversation ImapClient}
  {lines : List Text} {tail : Text}

/-- The client asks for neither LOGIN nor LIST. -/
def AsksMore (c : ImapClient) : Prop := c.control ≠ .login ∧ c.control ≠ .list

theorem examine_more (c : ImapClient) (mailbox : Nat) : AsksMore (c.examine mailbox).1 := by
  unfold examine
  split
  next => exact ⟨nofun, nofun⟩
  next => exact ⟨nofun, nofun⟩

theorem fetch_more (c : ImapClient) (mailbox i existsAmount : Nat) (mails : List ImapMail) :
    AsksMore (c.fetch mailbox i existsAmount mails).1 := by
  unfold fetch
  split
  next => exact ⟨nofun, nofun⟩
  next => exact examine_more _ _

theorem hears_asks_login (c : ImapClient) (response : List Text) (hw : c.awaits ≠ none) :
    AsksMore (c.hears response).1 ∨
      ∃ command, (c.hears response).2 = some command ∧ AsksLogin (c.hears response).1 command := by
  unfold hears
  cases hc : c.control with
  | greeting =>
    dsimp only
    split
    next => exact Or.inr ⟨_, rfl, Or.inl ⟨rfl, rfl⟩⟩
    next => exact Or.inl ⟨nofun, nofun⟩
  | login =>
    dsimp only
    split
    next => exact Or.inr ⟨_, rfl, Or.inr ⟨rfl, rfl⟩⟩
    next => exact Or.inl ⟨nofun, nofun⟩
  | list =>
    dsimp only
    split
    next => exact Or.inl (examine_more _ _)
    next => exact Or.inl ⟨nofun, nofun⟩
  | examine mailbox =>
    dsimp only
    split
    next => exact Or.inl (fetch_more _ _ _ _ _)
    next => exact Or.inl ⟨nofun, nofun⟩
  | fetch mailbox i existsAmount mails => exact Or.inl (fetch_more _ _ _ _ _)
  | logout => exact Or.inl ⟨nofun, nofun⟩
  | ended | error | failed => simp [awaits, hc] at hw

/-- While the client waits for the answer to a LOGIN or a LIST, this is what it has sent last. -/
theorem asks_login (hc : c.control = .greeting)
    (run : ReflTransGen (Talks imapClient server) (opening c server) d)
    (hd : d.client.control = .login ∨ d.client.control = .list) :
    ∃ command, d.said.getLast? = some command ∧ AsksLogin d.client command := by
  have start : AsksMore c ∨ ∃ command, ([] : List Text).getLast? = some command ∧ AsksLogin c command :=
    Or.inl ⟨by simp [hc], by simp [hc]⟩
  have reached := talks_invariant (k := imapClient)
    (I := fun s said => AsksMore s ∨ ∃ command, said.getLast? = some command ∧ AsksLogin s command)
    start (fun s said response _ hw => by
      refine (hears_asks_login s response hw).imp_right fun ⟨command, hcommand, hasks⟩ => ?_
      refine ⟨command, ?_, hasks⟩
      have hsaid : (imapClient.hears s response).2 = some command := hcommand
      rw [hsaid, Option.toList_some, List.getLast?_concat]) run
  exact reached.resolve_left fun h => hd.elim h.1 h.2

theorem examine_not_error (c : ImapClient) (mailbox : Nat) :
    (c.examine mailbox).1.control ≠ .error := by
  unfold examine
  split
  next => exact nofun
  next => exact nofun

/-- The client goes on from a LOGIN or a LIST if the last line that it has read is taken for OK. -/
theorem hears_ok (hd : c.control = .login ∨ c.control = .list) {response : List Text}
    (hok : isOk (response.getLastD []) = true) : (c.hears response).1.control ≠ .error := by
  unfold hears
  rcases hd with hd | hd
  · simp only [hd, if_pos hok]
    exact nofun
  · simp only [hd, if_pos hok]
    exact examine_not_error _ _

theorem hears_not_ok (hd : c.control = .login ∨ c.control = .list) {response : List Text}
    (hok : ¬ isOk (response.getLastD []) = true) :
    (c.hears response).1.control = .error ∧ (c.hears response).1.storage = c.storage := by
  unfold hears
  rcases hd with hd | hd
  · simp only [hd, if_neg hok, and_self]
  · simp only [hd, if_neg hok, and_self]

theorem isLast_eq : isLast = fun line => decide (LooksLast line) :=
  funext fun _ => Bool.eq_iff_iff.mpr (isLast_iff.trans decide_eq_true_iff.symm)

theorem awaits_last (hd : c.control = .login ∨ c.control = .list) : c.awaits = some isLast := by
  unfold awaits
  rcases hd with hd | hd
  · rw [hd]
  · rw [hd]

/-- The answer to a LOGIN or a LIST ends with the first line that looks like the last one. -/
theorem talks_found (hd : d.client.control = .login ∨ d.client.control = .list)
    (hcut : IsCut d.unread.flatten lines tail) (hs : Talks imapClient server d e) :
    ∃ response, lines.find? (fun line => LooksLast line) = some (response.getLastD []) ∧
      e.client = (d.client.hears response).1 := by
  obtain ⟨ends, response, unread, hw, hread, hclient, _⟩ := talks_cases hs
  cases (awaits_last hd).symm.trans hw
  rw [← isLast_eq]
  exact ⟨response, hcut.read_iff.mp ⟨response, unread, hread, rfl⟩, hclient⟩

theorem found_talks (server : List Text → List Text) (hd : d.client.control = .login ∨ d.client.control = .list)
    (hcut : IsCut d.unread.flatten lines tail) {line : Text}
    (h : lines.find? (fun line => LooksLast line) = some line) :
    ∃ e response, Talks imapClient server d e ∧ response.getLastD [] = line ∧
      e.client = (d.client.hears response).1 := by
  rw [← isLast_eq] at h
  obtain ⟨response, unread, hread, hlast⟩ := hcut.read_iff.mpr h
  obtain ⟨e, hs, hclient, _⟩ := @talks_of_read _ imapClient server d _ _ _ (awaits_last hd) hread
  exact ⟨e, response, hs, hlast, hclient⟩

theorem completes_unique {tag line : Text} {status status' : String} (h : Completes tag status line)
    (h' : Completes tag status' line) : status.toList = status'.toList := by
  obtain ⟨text, rfl, hstatus⟩ := h
  obtain ⟨text', heq, hstatus'⟩ := h'
  obtain rfl := (List.cons.inj (List.append_cancel_left heq)).2
  rw [← hstatus, ← hstatus']

theorem isOk_of_first {line : Text} (h : lines.find? (fun line => LooksLast line) = some line) :
    isOk line = true ↔ ShowsOk line := by
  have hlooks : LooksLast line := by simpa using List.find?_some h
  exact isOk_iff.trans (and_iff_right hlooks.1)

/-- What the client waits for is the completion of the LOGIN or the LIST that it has sent, and only OK
is success to it if and only if there is no other OK to be mistaken for it. -/
theorem only_ok_iff (hc : c.control = .greeting)
    (run : ReflTransGen (Talks imapClient server) (opening c server) d)
    (hd : d.client.control = .login ∨ d.client.control = .list)
    (hcut : IsCut d.unread.flatten lines tail) :
    (∃ command, d.said.getLast? = some command ∧ AsksLogin d.client command) ∧
      (OnlyOkSucceeds server d lines ↔ NotMistaken (decimal d.client.tag) lines) := by
  refine ⟨asks_login hc run hd, fun h => ⟨fun line hline hok => ?_, fun line hline hno => ?_⟩,
    fun h => ⟨fun e hs hgoes => ?_, fun line hline hno => ?_⟩⟩
  · obtain ⟨e, response, hs, rfl, hclient⟩ := found_talks server hd hcut hline
    refine h.succeeds e hs (Or.inl ?_)
    rw [hclient]
    exact hears_ok hd ((isOk_of_first hline).mpr hok)
  · obtain ⟨e, hs, _⟩ := h.fails line hline hno
    obtain ⟨response, hfound, _⟩ := talks_found hd hcut hs
    exact ⟨_, List.mem_of_find?_eq_some hfound, by simpa using List.find?_some hfound⟩
  · obtain ⟨response, hfound, hclient⟩ := talks_found hd hcut hs
    refine h.first _ hfound ((isOk_of_first hfound).mp ?_)
    by_contra hnot
    obtain ⟨herror, hstorage⟩ := hears_not_ok hd hnot
    rw [hclient] at hgoes
    exact hgoes.elim (absurd herror) (absurd hstorage)
  · obtain ⟨other, hother, hlooks⟩ := h.found line hline hno
    have hsome : (lines.find? fun line => decide (LooksLast line)).isSome = true :=
      List.find?_isSome.mpr ⟨other, hother, decide_eq_true hlooks⟩
    obtain ⟨last, hfound⟩ := Option.isSome_iff_exists.mp hsome
    obtain ⟨e, response, hs, rfl, hclient⟩ := found_talks server hd hcut hfound
    refine ⟨e, hs, ?_⟩
    rw [hclient]
    refine (hears_not_ok hd fun hok => ?_).1
    obtain ⟨done, hdone, hcompletes⟩ := h.first _ hfound ((isOk_of_first hfound).mp hok)
    cases hline.symm.trans hdone
    rcases hno with hno | hbad
    · exact absurd (completes_unique hcompletes hno) (by decide)
    · exact absurd (completes_unique hcompletes hbad) (by decide)

end

/-- A server that greets and answers every command with the same lines. -/
def answering (lines said : List Text) : List Text :=
  if said = [] then [unlines ["* OK".toList]] else [unlines lines]

/-- The client when it has sent LOGIN. -/
def loggingIn (lines : List Text) : Conversation ImapClient :=
  ⟨⟨[], [], [], 1, .login⟩, [unlines lines], ["1 LOGIN  ".toList], [["* OK".toList]]⟩

theorem only_ok_no :
    (∃ command, (loggingIn ["1 NO".toList]).said.getLast? = some command ∧
      AsksLogin (loggingIn ["1 NO".toList]).client command) ∧
    (OnlyOkSucceeds (answering ["1 NO".toList]) (loggingIn ["1 NO".toList]) ["1 NO".toList] ↔
      NotMistaken (decimal 1) ["1 NO".toList]) := by
  have hnext : Talks imapClient (answering ["1 NO".toList])
      (opening ⟨[], [], [], 0, .greeting⟩ (answering ["1 NO".toList]))
      (loggingIn ["1 NO".toList]) := rfl
  have hcut : IsCut (loggingIn ["1 NO".toList]).unread.flatten ["1 NO".toList] [] :=
    ⟨rfl, List.forall_mem_singleton.mpr (by decide), by decide⟩
  exact only_ok_iff rfl (.single hnext) (Or.inl rfl) hcut

/-- A refused LOGIN that the client takes for a success. -/
theorem refusal_taken_for_ok :
    ReflTransGen (Talks imapClient (answering ["1 NO not ok".toList]))
      (opening ⟨[], [], [], 0, .greeting⟩ (answering ["1 NO not ok".toList]))
      (loggingIn ["1 NO not ok".toList]) ∧
    IsCut (loggingIn ["1 NO not ok".toList]).unread.flatten ["1 NO not ok".toList] [] ∧
    ¬ OnlyOkSucceeds (answering ["1 NO not ok".toList]) (loggingIn ["1 NO not ok".toList])
      ["1 NO not ok".toList] := by
  have hnext : Talks imapClient (answering ["1 NO not ok".toList])
      (opening ⟨[], [], [], 0, .greeting⟩ (answering ["1 NO not ok".toList]))
      (loggingIn ["1 NO not ok".toList]) := rfl
  refine ⟨.single hnext, ⟨rfl, List.forall_mem_singleton.mpr (by decide), by decide⟩, fun h => ?_⟩
  obtain ⟨e, hs, herror⟩ := h.fails "1 NO not ok".toList rfl (Or.inl ⟨"NO not ok".toList, rfl, rfl⟩)
  have hlist : Talks imapClient (answering ["1 NO not ok".toList])
      (loggingIn ["1 NO not ok".toList])
      ⟨⟨[], [], [], 2, .list⟩, [unlines ["1 NO not ok".toList]],
        ["1 LOGIN  ".toList, "2 LIST \"\" *".toList], [["* OK".toList], ["1 NO not ok".toList]]⟩ := rfl
  rw [talks_unique hs hlist] at herror
  cases herror

end ImapClient

end Protocols
