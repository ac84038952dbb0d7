import Protocols.MailInvariant
import Protocols.RegexLanguage

namespace Protocols

open Regex Relation

section

variable {tag : Text}

/-- A line that begins with a tag is classified unless it has a line terminator in it, and the tag
is the first argument of its command. -/
theorem imapParseRequest_tag (rest : Text) (hne : tag ≠ [])
    (hw : ∀ c ∈ tag, wordChar c = true) :
    (('\n' ∈ tag ++ ' ' :: rest ∨ '\r' ∈ tag ++ ' ' :: rest) ∧
      (imapParseRequest (tag ++ ' ' :: rest)).1 = .unknown) ∨
    (('\n' ∉ tag ++ ' ' :: rest ∧ '\r' ∉ tag ++ ' ' :: rest) ∧
      (imapParseRequest (tag ++ ' ' :: rest)).1 ≠ .unknown ∧
      str (imapParseRequest (tag ++ ' ' :: rest)).2 1 = tag) := by
  have hblank : ∀ c, (' ' :: rest).head? = some c → wordChar c = false := by
    rintro c hc
    cases hc
    decide
  by_cases hterm : '\n' ∈ tag ++ ' ' :: rest ∨ '\r' ∈ tag ++ ' ' :: rest
  · left
    refine ⟨hterm, ?_⟩
    have havoid : ∀ p ∈ imapCommandParser, p.1.Avoids '\n' = true ∧ p.1.Avoids '\r' = true := by
      decide
    rcases firstMatch_cases .unknown imapCommandParser (tag ++ ' ' :: rest) with
      ⟨p, hp, arguments, hmatch, _⟩ | hnone
    · rcases hterm with hn | hr
      · exact absurd hn (regexMatch_avoids hmatch (havoid p hp).1)
      · exact absurd hr (regexMatch_avoids hmatch (havoid p hp).2)
    · rw [imapParseRequest, firstMatch_none hnone]
  · right
    obtain ⟨hn, hr⟩ := not_or.mp hterm
    refine ⟨⟨hn, hr⟩, ?_⟩
    obtain ⟨arguments, hany, htag⟩ := first_word_any hne hw hblank
      (fun hm => hn (List.mem_append_right _ hm)) (fun hm => hr (List.mem_append_right _ hm))
    have hfirst : imapParseRequest (tag ++ ' ' :: rest) =
        firstMatch .unknown (imapCommandParser.take 4) (tag ++ ' ' :: rest) :=
      firstMatch_append (imapCommandParser.take 4) (imapCommandParser.drop 4)
        (p := (all [bol, group 1 (plus word), star any, eol], .tagUnknown))
        (by simp [imapCommandParser]) (by rw [hany]; rfl)
    rw [hfirst]
    rcases firstMatch_cases .unknown (imapCommandParser.take 4) (tag ++ ' ' :: rest) with
      ⟨p, hp, arguments', hmatch, heq⟩ | hnone
    · rw [heq]
      simp only [imapCommandParser, List.take_succ_cons, List.take_zero, List.mem_cons,
        List.not_mem_nil, or_false] at hp
      have hstr : arguments'[1]? = some tag → str arguments' 1 = tag := fun h => by rw [str, h]; rfl
      rcases hp with rfl | rfl | rfl | rfl
      · exact ⟨by simp, hstr (first_word rfl hw hblank (by decide) hmatch)⟩
      · exact ⟨by simp, hstr (first_word rfl hw hblank (by decide) hmatch)⟩
      · exact ⟨by simp, hstr (first_word rfl hw hblank (by decide) hmatch)⟩
      · cases hany.symm.trans hmatch
        exact ⟨by simp, hstr htag⟩
    · have hno := hnone (all [bol, group 1 (plus word), star any, eol], .tagUnknown)
        (by simp [imapCommandParser])
      rw [hany] at hno
      cases hno

end

def Untagged (line : Text) : Prop := "* ".toList <+: line

def OnlyUntagged (answer : List SessionEvent) : Prop :=
  ∃ lines : List Text, answer = lines.map .sent ∧ ∀ line ∈ lines, Untagged line

/-- Untagged lines, and then one line that completes the command of the tag. -/
def Completes (tag : Text) (answer : List SessionEvent) : Prop :=
  ∃ untagged status, answer = untagged ++ [.sent (tag ++ ' ' :: status)] ∧
    OnlyUntagged untagged ∧ status ∈ ["OK".toList, "NO".toList, "BAD".toList]

/-- The line is answered with untagged lines and one completion of the tag, whatever the other
sessions do: until the completion, the session always goes on with one more of its lines, and it
has a bounded number of them. -/
def TagAnswered (n : Nat) (line tag : Text) (c : MailConfig) : Prop :=
  ∀ c₁, c.resumed mailServer n (.line line) = some c₁ → ∃ bound,
    ∀ d, ReflTransGen (StepWith mailServer n (· = .written)) c₁ d →
      ∃ answer, d.logOf n = c.logOf n ++ .heard line :: answer ∧ answer.length ≤ bound ∧
        (Completes tag answer ∨ OnlyUntagged answer ∧
          ∃ e, d.resumed mailServer n .written = some e ∧
            (d.logOf n).length < (e.logOf n).length)

/-- The line has no line terminator in it, and its command is one for the state. -/
structure ImapState.Accepts (state : ImapState) (line : Text) : Prop where
  noNewline : '\n' ∉ line
  noReturn : '\r' ∉ line
  list : state = .unauthenticated → (imapParseRequest line).1 ≠ .list
  login : state = .authenticated → (imapParseRequest line).1 ≠ .login

/-- How many more lines an answer has that the session goes on with. -/
def ImapAfter.Remains (tag : Text) : ImapAfter → Nat → Prop
  | .next _, _ => False
  | .list tag' _ mailboxes, k => tag' = tag ∧ k = mailboxes.length + 1
  | .complete tag' state, k => tag' = tag ∧ k = 1 ∧ state ≠ .greeting

/-- Where the answer to a command can be: so many lines are still to come, or it is complete. -/
def Completing (n : Nat) (tag : Text) (before : List SessionEvent) (total : Nat)
    (c : MailConfig) : Prop :=
  ∃ s answer, c.threads n = some (.imap s) ∧ c.logOf n = before ++ answer ∧
    ((∃ after k, s.control = .writing after ∧ after.Remains tag k ∧ answer.length + k = total ∧
      OnlyUntagged answer) ∨
    (Completes tag answer ∧ answer.length = total ∧ (s.control = .reading ∨ s.control = .ended ∨
      ∃ state, s.control = .writing (.next state) ∧ state ≠ .greeting)))

theorem ok_eq (tag : Text) : ok tag = tag ++ ' ' :: "OK".toList := by simp [ok, format]

theorem no_eq (tag : Text) : no tag = tag ++ ' ' :: "NO".toList := by simp [no, format]

theorem badTag_eq (tag : Text) : badTag tag = tag ++ ' ' :: "BAD".toList := by
  simp [badTag, format]

theorem untagged_listMailbox (mailbox : Text) : Untagged (listMailbox mailbox) := by
  simp [Untagged, listMailbox, format]

theorem onlyUntagged_append {answer : List SessionEvent} {line : Text} (h : OnlyUntagged answer)
    (hl : Untagged line) : OnlyUntagged (answer ++ [.sent line]) := by
  obtain ⟨lines, rfl, hu⟩ := h
  refine ⟨lines ++ [line], by simp, fun l hm => ?_⟩
  rcases List.mem_append.mp hm with hm | hm
  · exact hu l hm
  · rwa [List.mem_singleton.mp hm]

theorem completes_ok {tag : Text} {answer : List SessionEvent} (h : OnlyUntagged answer) :
    Completes tag (answer ++ [.sent (ok tag)]) :=
  ⟨answer, "OK".toList, by rw [ok_eq], h, by simp⟩

theorem completing_walk {n : Nat} {tag : Text} {before : List SessionEvent} {total : Nat}
    {s : ImapSession} {d : MailConfig} (answer : List SessionEvent) {keys mailboxes : List Text}
    (hd : d.threads n = some (.imap (s.walk tag keys mailboxes).1))
    (hlog : d.logOf n = before ++ (answer ++ (s.walk tag keys mailboxes).2))
    (hu : OnlyUntagged answer) (htotal : answer.length + (mailboxes.length + 1) = total) :
    Completing n tag before total d := by
  cases mailboxes with
  | nil =>
    refine ⟨_, _, hd, hlog, Or.inr ⟨completes_ok hu, ?_, Or.inr (Or.inr ⟨_, rfl, by simp⟩)⟩⟩
    simpa [ImapSession.walk, ImapSession.reply] using htotal
  | cons mailbox mailboxes =>
    refine ⟨_, _, hd, hlog, Or.inl ⟨_, _, rfl, ⟨rfl, rfl⟩, ?_,
      onlyUntagged_append hu (untagged_listMailbox mailbox)⟩⟩
    rw [List.length_cons] at htotal
    simp only [ImapSession.walk, ImapSession.reply, List.length_append, List.length_singleton]
    omega

theorem completing_step {n : Nat} {tag : Text} {before : List SessionEvent} {total : Nat}
    {c d : MailConfig} (sound : StoreSound c) (h : Completing n tag before total c)
    (hs : StepWith mailServer n (· = .written) c d) : Completing n tag before total d := by
  obtain ⟨s, answer, hn, hlog, hplace⟩ := h
  rcases stepWith_running_cases hs hn with ⟨wake, l', out, rfl, hr, hd, hdlog⟩ | ⟨hd, hdlog⟩
  · obtain ⟨t, rfl, ht, _⟩ := mailResume_imap hr
    rw [hlog, List.append_assoc] at hdlog
    obtain ⟨after, hwriting, he⟩ := imapResume_written ht
    rcases hplace with ⟨_, k, hc, hk, htotal, hu⟩ |
      ⟨hcomplete, hlen, hc | hc | ⟨state, hc, hstate⟩⟩
    · cases hc.symm.trans hwriting
      have hreplied : s.replied c.store after = (t, out) := he.symm
      cases after with
      | next state => exact hk.elim
      | list tag' keys mailboxes =>
        obtain ⟨rfl, rfl⟩ := hk
        rw [ImapSession.replied, if_pos ((sound.imap n s hn).iterates _ _ _ hc)] at hreplied
        obtain ⟨rfl, rfl⟩ := Prod.ext_iff.mp hreplied
        exact completing_walk answer hd hdlog hu htotal
      | complete tag' state =>
        obtain ⟨rfl, rfl, hstate⟩ := hk
        obtain ⟨rfl, rfl⟩ := Prod.ext_iff.mp hreplied
        refine ⟨_, _, hd, hdlog, Or.inr ⟨completes_ok hu, ?_, Or.inr (Or.inr ⟨_, rfl, hstate⟩)⟩⟩
        simpa [ImapSession.reply, ImapSession.replied] using htotal
    · cases hc.symm.trans hwriting
    · cases hc.symm.trans hwriting
    · cases hc.symm.trans hwriting
      have hreplied : s.enter state = (t, out) := he.symm
      cases state with
      | greeting => exact absurd rfl hstate
      | unauthenticated =>
        cases hreplied
        exact ⟨_, answer, hd, by simpa using hdlog, Or.inr ⟨hcomplete, hlen, Or.inl rfl⟩⟩
      | authenticated =>
        cases hreplied
        exact ⟨_, answer, hd, by simpa using hdlog, Or.inr ⟨hcomplete, hlen, Or.inl rfl⟩⟩
      | quit =>
        cases hreplied
        exact ⟨_, answer, hd, by simpa using hdlog, Or.inr ⟨hcomplete, hlen, Or.inr (Or.inl rfl)⟩⟩
  · exact ⟨s, answer, hd, hdlog.trans hlog, hplace⟩

theorem completing_answered {n : Nat} {tag : Text} {before : List SessionEvent} {total : Nat}
    {c : MailConfig} (sound : StoreSound c) (h : Completing n tag before total c) :
    ∃ answer, c.logOf n = before ++ answer ∧ answer.length ≤ total ∧
      (Completes tag answer ∨ OnlyUntagged answer ∧
        ∃ e, c.resumed mailServer n .written = some e ∧ (c.logOf n).length < (e.logOf n).length) := by
  obtain ⟨s, answer, hn, hlog, ⟨after, k, hc, hk, htotal, hu⟩ | ⟨hcomplete, hlen, _⟩⟩ := h
  · refine ⟨answer, hlog, by omega, Or.inr ⟨hu, ?_⟩⟩
    have more : (s.replied c.store after).2 ≠ [] := by
      cases after with
      | next state => exact hk.elim
      | list tag' keys mailboxes =>
        rw [ImapSession.replied, if_pos ((sound.imap n s hn).iterates _ _ _ hc)]
        cases mailboxes with
        | nil => simp [ImapSession.walk, ImapSession.reply]
        | cons mailbox mailboxes => simp [ImapSession.walk, ImapSession.reply]
      | complete tag' state => simp [ImapSession.replied, ImapSession.reply]
    have hr : mailServer.resume c.store (.imap s) .written =
        some (c.store, .imap (s.replied c.store after).1, (s.replied c.store after).2) := by
      simp [mailServer, mailResume, imapResume, hc]
    obtain ⟨e, he, _, _, helog⟩ := resumed_some hn hr
    refine ⟨e, he, ?_⟩
    rw [helog, List.length_append]
    have := List.length_pos_iff.mpr more
    omega
  · exact ⟨answer, hlog, hlen.le, Or.inl hcomplete⟩

theorem untagged_bye : Untagged bye := List.prefix_iff_eq_take.mpr rfl

section

variable {n : Nat} {c c₁ : MailConfig} {s : ImapSession} {tag : Text} {arguments : List Text}
  {before : List SessionEvent}

/-- A session that has gone on like this completes the command. -/
def CompletesFrom (n : Nat) (tag : Text) (before : List SessionEvent) (c : MailConfig)
    (o : ImapSession × List SessionEvent) : Prop :=
  c.threads n = some (.imap o.1) → c.logOf n = before ++ o.2 →
    ∃ total, Completing n tag before total c

theorem completing_reply {status : Text} {state : ImapState} (hstate : state ≠ .greeting)
    (hstatus : status ∈ ["OK".toList, "NO".toList, "BAD".toList]) :
    CompletesFrom n tag before c (s.reply (tag ++ ' ' :: status) (.next state)) := by
  intro hn hlog
  exact ⟨1, _, _, hn, hlog, Or.inr ⟨⟨[], status, rfl, ⟨[], rfl, by simp⟩, hstatus⟩, rfl,
    Or.inr (Or.inr ⟨state, rfl, hstate⟩)⟩⟩

theorem completing_ok {state : ImapState} (hstate : state ≠ .greeting) :
    CompletesFrom n tag before c (s.reply (ok tag) (.next state)) := by
  rw [ok_eq]
  exact completing_reply hstate (by simp)

theorem completing_begins {line : Text} {state : ImapState} (hline : Untagged line)
    (hstate : state ≠ .greeting) :
    CompletesFrom n tag before c (s.reply line (.complete tag state)) := by
  intro hn hlog
  exact ⟨2, _, _, hn, hlog, Or.inl ⟨_, _, rfl, ⟨rfl, rfl, hstate⟩, rfl, [line], rfl,
    by simpa using hline⟩⟩

theorem list_completing {drop : Maildrop}
    (hdrop : c.store.maildrops.lookup s.user = some drop) (htag : str arguments 1 = tag) :
    CompletesFrom n tag before c₁ (s.list c.store arguments) := by
  unfold ImapSession.list
  extract_lets tag' reference mailboxName
  rw [show tag' = tag from htag]
  split
  next => exact completing_ok (by simp)
  next =>
    split
    next hnone =>
      rw [hdrop] at hnone
      cases hnone
    next =>
      split
      next =>
        intro hn hlog
        exact ⟨_, completing_walk [] hn hlog ⟨[], rfl, by simp⟩ rfl⟩
      next =>
        split
        next => exact completing_begins (untagged_listMailbox _) (by simp)
        next => exact completing_ok (by simp)

theorem unauthenticated_completing {command : ImapCommand} (hlist : command ≠ .list)
    (hunknown : command ≠ .unknown) (htag : str arguments 1 = tag) :
    CompletesFrom n tag before c₁ (s.unauthenticated c.store command arguments) := by
  cases command with
  | login =>
    simp only [ImapSession.unauthenticated, htag]
    split
    next =>
      rw [no_eq]
      exact completing_reply (by simp) (by simp)
    next => exact completing_ok (by simp)
  | logout =>
    rw [ImapSession.unauthenticated, htag]
    exact completing_begins untagged_bye (by simp)
  | tagUnknown =>
    rw [ImapSession.unauthenticated, htag, badTag_eq]
    exact completing_reply (by simp) (by simp)
  | list => exact absurd rfl hlist
  | unknown => exact absurd rfl hunknown

theorem authenticated_completing {command : ImapCommand} {drop : Maildrop}
    (hdrop : c.store.maildrops.lookup s.user = some drop) (hlogin : command ≠ .login)
    (hunknown : command ≠ .unknown) (htag : str arguments 1 = tag) :
    CompletesFrom n tag before c₁ (s.authenticated c.store command arguments) := by
  cases command with
  | list => exact list_completing hdrop htag
  | logout =>
    rw [ImapSession.authenticated, htag]
    exact completing_begins untagged_bye (by simp)
  | tagUnknown =>
    rw [ImapSession.authenticated, htag, badTag_eq]
    exact completing_reply (by simp) (by simp)
  | login => exact absurd rfl hlogin
  | unknown => exact absurd rfl hunknown

theorem accepts_completing {line : Text}
    (hs : s.state = .unauthenticated ∨ s.state = .authenticated ∧
      ∃ drop, c.store.maildrops.lookup s.user = some drop) (ha : s.state.Accepts line)
    (hunknown : (imapParseRequest line).1 ≠ .unknown)
    (htag : str (imapParseRequest line).2 1 = tag) :
    CompletesFrom n tag before c₁ (s.request c.store line) := by
  unfold ImapSession.request
  rcases hs with hs | ⟨hs, drop, hdrop⟩
  · simp only [hs]
    exact unauthenticated_completing (ha.list hs) hunknown htag
  · simp only [hs]
    exact authenticated_completing hdrop (ha.login hs) hunknown htag

/-- A line that the state does not accept is refused without its tag. -/
theorem refused_bad {line : Text} (hs : s.state = .unauthenticated ∨ s.state = .authenticated)
    (hclass : (imapParseRequest line).1 = .unknown ∨
      (s.state = .unauthenticated ∧ (imapParseRequest line).1 = .list) ∨
      (s.state = .authenticated ∧ (imapParseRequest line).1 = .login)) :
    ∃ state, s.request c.store line = s.reply bad (.next state) ∧
      (state = .unauthenticated ∨ state = .authenticated) := by
  unfold ImapSession.request
  rcases hs with hs | hs
  · simp only [hs] at hclass ⊢
    rcases hclass with hu | ⟨_, hu⟩ | ⟨h, _⟩
    · exact ⟨.unauthenticated, by rw [hu]; rfl, Or.inl rfl⟩
    · exact ⟨.unauthenticated, by rw [hu]; rfl, Or.inl rfl⟩
    · simp at h
  · simp only [hs] at hclass ⊢
    rcases hclass with hu | ⟨h, _⟩ | ⟨_, hu⟩
    · exact ⟨.authenticated, by rw [hu]; rfl, Or.inr rfl⟩
    · simp at h
    · exact ⟨.authenticated, by rw [hu]; rfl, Or.inr rfl⟩

theorem not_completes_bad (hne : tag ≠ []) (hw : ∀ x ∈ tag, wordChar x = true) :
    ¬ Completes tag [.sent bad] := by
  rintro ⟨untagged, status, he, _⟩
  cases untagged with
  | nil =>
    obtain ⟨x, tag, rfl⟩ := List.exists_cons_of_ne_nil hne
    have hx : '*' = x := (List.cons.inj (SessionEvent.sent.inj (List.cons.inj he).1)).1
    have hstar := hw x List.mem_cons_self
    rw [← hx] at hstar
    exact absurd hstar (by decide)
  | cons e untagged => simp at he

end

section

variable {n : Nat} {s : ImapSession} {tag rest : Text} {c : MailConfig}

theorem request_heard (hn : c.threads n = some (.imap s)) (hc : s.control = .reading)
    (line : Text) : ∃ c₁, c.resumed mailServer n (.line line) = some c₁ ∧
      c₁.threads n = some (.imap (s.request c.store line).1) ∧
      c₁.logOf n = (c.logOf n ++ [.heard line]) ++ (s.request c.store line).2 := by
  have hr : mailServer.resume c.store (.imap s) (.line line) =
      some (c.store, .imap (s.request c.store line).1,
        .heard line :: (s.request c.store line).2) := by
    simp [mailServer, mailResume, imapResume, hc]
  obtain ⟨c₁, hc₁, hn₁, _, hlog⟩ := line_heard hn hr
  exact ⟨c₁, hc₁, hn₁, hlog⟩

theorem refused_unanswered (hn : c.threads n = some (.imap s)) (hc : s.control = .reading)
    (hs : s.state = .unauthenticated ∨ s.state = .authenticated) (hne : tag ≠ [])
    (hw : ∀ x ∈ tag, wordChar x = true) (ha : ¬ s.state.Accepts (tag ++ ' ' :: rest)) :
    ¬ TagAnswered n (tag ++ ' ' :: rest) tag c := by
  intro answered
  obtain ⟨c₁, hc₁, hn₁, hlog⟩ := request_heard hn hc (tag ++ ' ' :: rest)
  obtain ⟨bound, hall⟩ := answered c₁ hc₁
  obtain ⟨answer, hanswer, _, hgoes⟩ := hall c₁ .refl
  have hclass : (imapParseRequest (tag ++ ' ' :: rest)).1 = .unknown ∨
      (s.state = .unauthenticated ∧ (imapParseRequest (tag ++ ' ' :: rest)).1 = .list) ∨
      (s.state = .authenticated ∧ (imapParseRequest (tag ++ ' ' :: rest)).1 = .login) := by
    rcases imapParseRequest_tag rest hne hw with ⟨_, hu⟩ | ⟨⟨hnl, hcr⟩, _, _⟩
    · exact Or.inl hu
    · by_contra hno
      simp only [not_or, not_and] at hno
      exact ha ⟨hnl, hcr, hno.2.1, hno.2.2⟩
  obtain ⟨state, hbad, hstate⟩ := refused_bad (c := c) hs hclass
  rw [hbad] at hn₁ hlog
  have hsaid : answer = [.sent bad] := by
    rw [hlog, List.append_assoc, List.append_cancel_left_eq] at hanswer
    exact (List.cons.inj hanswer).2.symm
  rcases hgoes with hcomplete | ⟨_, e, he, hlonger⟩
  · rw [hsaid] at hcomplete
    exact not_completes_bad hne hw hcomplete
  · -- after the line has been written, the session says nothing more
    obtain ⟨l', out, hresume, _, helog⟩ := resumed_cases he hn₁
    have hout : out = [] := by
      rcases hstate with rfl | rfl
      · exact (Prod.mk.inj (Prod.mk.inj (Option.some.inj hresume)).2).2.symm
      · exact (Prod.mk.inj (Prod.mk.inj (Option.some.inj hresume)).2).2.symm
    rw [helog, hout, List.append_nil] at hlonger
    exact absurd hlonger (lt_irrefl _)

theorem accepted_answered (sound : StoreSound c) (hn : c.threads n = some (.imap s))
    (hc : s.control = .reading) (hs : s.state = .unauthenticated ∨ s.state = .authenticated)
    (hne : tag ≠ []) (hw : ∀ x ∈ tag, wordChar x = true)
    (ha : s.state.Accepts (tag ++ ' ' :: rest)) :
    TagAnswered n (tag ++ ' ' :: rest) tag c := by
  obtain ⟨c₁, hc₁, hn₁, hlog⟩ := request_heard hn hc (tag ++ ' ' :: rest)
  intro c₁' hc₁'
  cases Option.some.inj (hc₁.symm.trans hc₁')
  have haccepts : (imapParseRequest (tag ++ ' ' :: rest)).1 ≠ .unknown ∧
      str (imapParseRequest (tag ++ ' ' :: rest)).2 1 = tag := by
    rcases imapParseRequest_tag rest hne hw with ⟨hterm, _⟩ | ⟨_, hu⟩
    · exact absurd hterm (not_or.mpr ⟨ha.noNewline, ha.noReturn⟩)
    · exact hu
  have begins : ∃ total,
      Completing n tag (c.logOf n ++ [.heard (tag ++ ' ' :: rest)]) total c₁ := by
    refine accepts_completing (hs.imp_right fun hauth => ⟨hauth, ?_⟩) ha haccepts.1 haccepts.2 hn₁
      hlog
    exact (storeSound_lookups sound).list n s hn (Or.inl hauth)
  obtain ⟨total, hcompleting⟩ := begins
  refine ⟨total, fun d run => ?_⟩
  have kept : StoreSound d ∧
      Completing n tag (c.logOf n ++ [.heard (tag ++ ' ' :: rest)]) total d :=
    reaches_invariant (P := fun e => StoreSound e ∧
      Completing n tag (c.logOf n ++ [.heard (tag ++ ' ' :: rest)]) total e) run
      ⟨storeSound_step sound (resumed_parallel hc₁), hcompleting⟩
      fun _ _ ⟨he, hm⟩ hstep => ⟨storeSound_step he hstep.step.parallel, completing_step he hm hstep⟩
  obtain ⟨answer, hanswer, hbound, hgoes⟩ := completing_answered kept.1 kept.2
  refine ⟨answer, ?_, hbound, hgoes⟩
  rw [hanswer, List.append_assoc]
  rfl

end

/-- A line that begins with a tag is answered with that tag if and only if the state accepts it. -/
theorem imap_answered_iff {n : Nat} {s : ImapSession} {tag rest : Text} {c : MailConfig}
    (run : ReflTransGen MailStep (Config.init mockData) c) (hn : c.threads n = some (.imap s))
    (hc : s.control = .reading) (hs : s.state = .unauthenticated ∨ s.state = .authenticated)
    (hne : tag ≠ []) (hw : ∀ x ∈ tag, wordChar x = true) :
    TagAnswered n (tag ++ ' ' :: rest) tag c ↔ s.state.Accepts (tag ++ ' ' :: rest) := by
  constructor
  · intro answered
    by_contra ha
    exact refused_unanswered hn hc hs hne hw ha answered
  · exact accepted_answered (storeSound_reaches run) hn hc hs hne hw

def greeted : Option MailConfig := oneImap.replay mailServer [(0, .scheduled), (0, .written)]

theorem greeted_isSome : greeted.isSome = true := by decide

theorem greeted_reached :
    ReflTransGen MailStep (Config.init mockData) (greeted.get greeted_isSome) :=
  .head oneImap_spawned (machine_replay_reaches (fun e he => by cases he; exact oneImap_free)
    (Option.some_get greeted_isSome).symm)

def waitsForLogin : ImapSession := { state := .unauthenticated, control := .reading }

theorem greeted_session :
    (greeted.get greeted_isSome).threads 0 = some (.imap waitsForLogin) := by
  decide

theorem tag_wordChars : ∀ x ∈ ['a'], wordChar x = true :=
  List.forall_mem_singleton.mpr (by decide)

theorem imap_answers_logout :
    TagAnswered 0 (['a'] ++ ' ' :: "logout".toList) ['a'] (greeted.get greeted_isSome) :=
  (imap_answered_iff greeted_reached greeted_session rfl (Or.inl rfl) (by simp)
    tag_wordChars).mpr ⟨by decide, by decide, fun _ => by decide +kernel, fun h => by cases h⟩

/-- A LIST before the login is known, and refused without its tag. -/
theorem imap_list_unanswered : ∃ n s tag rest c,
    ReflTransGen MailStep (Config.init mockData) c ∧ c.threads n = some (.imap s) ∧
    s.control = .reading ∧ s.state = .unauthenticated ∧ tag ≠ [] ∧
    (∀ x ∈ tag, wordChar x = true) ∧ ¬ TagAnswered n (tag ++ ' ' :: rest) tag c := by
  have refused : ¬ waitsForLogin.state.Accepts (['a'] ++ ' ' :: "list / *".toList) :=
    fun h => h.list rfl (by decide +kernel)
  exact ⟨0, waitsForLogin, ['a'], "list / *".toList, greeted.get greeted_isSome, greeted_reached,
    greeted_session, rfl, rfl, by simp, tag_wordChars,
    refused_unanswered greeted_session rfl (Or.inl rfl) (by simp) tag_wordChars refused⟩

end Protocols
