import Protocols.MailServer
import Protocols.Pop3List

namespace Protocols

open Relation

/-- The mails have come into the maildrops of their local recipients, in this order, and no other
mail has come or gone. -/
structure MailsFlow (before after : MailStorage) (mails : List Mail) : Prop where
  inbox : ∀ user, after.inbox user = before.inbox user ++
    mails.filter fun mail => user ∈ mail.recipients.toList ∧ isLocal user
  mailbox : ∀ user box, box ≠ inboxName → after.mailbox user box = before.mailbox user box

/-- What may be told of an `INBOX` in answer to a LIST: how many mails it had at some time, and the
number and the size of one of them. -/
inductive ListingLine (mails : List Mail) : Text → Prop
  | count (k : Nat) : k ≤ mails.length → ListingLine mails (listOk (mails.take k))
  | entry {i : Nat} {mail : Mail} : mails[i]? = some mail → ListingLine mails (listEntry i mail)
  | one {i : Nat} {mail : Mail} : mails[i]? = some mail → ListingLine mails (listOne (i + 1) mail)

/-- A POP3 session says nothing but replies, and what is true of its user's `INBOX`. -/
def TellsTruly (storage : MailStorage) (s : Pop3Session) (o : Pop3Outcome) : Prop :=
  ∀ e ∈ o.2.2, (∃ line, e = .sent line) ∨
    ∃ line, e = .listed s.user line ∧ ListingLine (storage.inbox s.user) line

theorem mailsFlow_refl (storage : MailStorage) : MailsFlow storage storage [] :=
  ⟨by simp, fun _ _ _ => rfl⟩

theorem MailsFlow.trans {a b c : MailStorage} {mails mails' : List Mail} (h : MailsFlow a b mails)
    (h' : MailsFlow b c mails') : MailsFlow a c (mails ++ mails') := by
  constructor
  · intro user
    rw [h'.inbox, h.inbox, List.filter_append, List.append_assoc]
  · intro user box hbox
    rw [h'.mailbox user box hbox, h.mailbox user box hbox]

theorem DeliversExactly.flow {before after : MailStorage} {mails : List Mail}
    (h : DeliversExactly before after mails) : MailsFlow before after mails :=
  ⟨h.inbox, h.mailbox⟩

theorem KeepsMails.flow {storage storage' : MailStorage} (h : KeepsMails storage storage') :
    MailsFlow storage storage' [] :=
  ⟨fun user => by simp [MailStorage.inbox, h user inboxName], fun user box _ => h user box⟩

theorem MailsFlow.grows {before after : MailStorage} {mails : List Mail}
    (h : MailsFlow before after mails) (user : Text) : before.inbox user <+: after.inbox user := by
  rw [h.inbox user]
  exact List.prefix_append _ _

theorem ListingLine.mono {mails mails' : List Mail} {line : Text} (h : ListingLine mails line)
    (hm : mails <+: mails') : ListingLine mails' line := by
  obtain ⟨rest, rfl⟩ := hm
  cases h with
  | count k hk =>
    have htake : (mails ++ rest).take k = mails.take k := List.take_append_of_le_length hk
    rw [← htake]
    exact .count k (by rw [List.length_append]; omega)
  | entry hi => exact .entry (List.getElem?_append_left (List.getElem?_eq_some_iff.mp hi).1 ▸ hi)
  | one hi => exact .one (List.getElem?_append_left (List.getElem?_eq_some_iff.mp hi).1 ▸ hi)

section

variable {storage storage₁ : MailStorage} {s t : Pop3Session}

theorem tellsTruly_silent (o : MailStorage × Pop3Session) : TellsTruly storage s (o.1, o.2, []) := by
  simp [TellsTruly]

theorem tellsTruly_reply (line : Text) (after : Pop3After) :
    TellsTruly storage s (t.reply storage₁ line after) := by
  simp [TellsTruly, Pop3Session.reply]

theorem tellsTruly_finish : TellsTruly storage s (t.finish storage₁) := tellsTruly_silent (_, _)

theorem tellsTruly_tell {line : Text} (h : ListingLine (storage.inbox s.user) line)
    (after : Pop3After) : TellsTruly storage s (s.tell storage₁ line after) := by
  simp [TellsTruly, Pop3Session.tell, h]

theorem tellsTruly_enter (state : Pop3State) : TellsTruly storage s (t.enter storage₁ state) := by
  cases state with
  | greeting => exact tellsTruly_reply _ _
  | quit => exact tellsTruly_finish
  | _ => exact tellsTruly_silent (_, _)

theorem tellsTruly_scan (i : Nat) : TellsTruly storage s (s.scan storage i) := by
  unfold Pop3Session.scan
  split
  next => exact tellsTruly_finish
  next mails hm =>
    split
    next mail hi =>
      apply tellsTruly_tell
      rw [MailStorage.inbox, hm]
      exact .entry hi
    next => exact tellsTruly_reply _ _

theorem tellsTruly_list (arguments : List Text) : TellsTruly storage s (s.list storage arguments) := by
  have hindex : KeepsMails storage (storage.index s.user) := keepsMails_modify fun _ => rfl
  unfold Pop3Session.list
  dsimp only
  split
  next => exact tellsTruly_finish
  next mails hm =>
    rw [hindex s.user inboxName] at hm
    have hinbox : storage.inbox s.user = mails := by rw [MailStorage.inbox, hm]; rfl
    split
    next =>
      split
      next => exact tellsTruly_finish
      next messageNum _ =>
        split
        next => exact tellsTruly_reply _ _
        next hrange =>
          have hle : mails.length % 2 ^ 32 ≤ mails.length := Nat.mod_le _ _
          have hlt : messageNum - 1 < mails.length := by omega
          apply tellsTruly_tell
          rw [hinbox, List.getElem?_eq_getElem hlt]
          have hone := ListingLine.one (List.getElem?_eq_getElem hlt)
          rwa [show messageNum - 1 + 1 = messageNum by omega] at hone
    next =>
      apply tellsTruly_tell
      rw [hinbox]
      simpa using ListingLine.count mails.length (Nat.le_refl _)

theorem tellsTruly_authorization (command : Pop3Command) (arguments : List Text) :
    TellsTruly storage s (s.authorization storage command arguments) := by
  cases command with
  | user =>
    simp only [Pop3Session.authorization]
    split
    next => exact tellsTruly_reply _ _
    next =>
      split
      next => exact tellsTruly_reply _ _
      next => exact tellsTruly_reply _ _
  | pass =>
    simp only [Pop3Session.authorization]
    split
    next => exact tellsTruly_reply _ _
    next =>
      split
      next => exact tellsTruly_finish
      next =>
        split
        next => exact tellsTruly_reply _ _
        next => exact tellsTruly_reply _ _
  | _ => exact tellsTruly_reply _ _

theorem tellsTruly_request (request : Text) : TellsTruly storage s (s.request storage request) := by
  unfold Pop3Session.request
  obtain ⟨command, arguments⟩ := pop3ParseRequest request
  cases s.state with
  | authorization => exact tellsTruly_authorization command arguments
  | transaction =>
    cases command with
    | list => exact tellsTruly_list arguments
    | _ => exact tellsTruly_reply _ _
  | _ => exact tellsTruly_silent (_, _)

theorem tellsTruly_replied (after : Pop3After) : TellsTruly storage s (s.replied storage after) := by
  cases after with
  | next state => exact tellsTruly_enter state
  | begin => exact tellsTruly_enter _
  | scan i => exact tellsTruly_scan i

theorem pop3Resume_tells {wake : MailWake} {out : List SessionEvent}
    (h : pop3Resume storage s wake = some (storage₁, t, out)) {e : SessionEvent} (he : e ∈ out) :
    (∃ line, e = .heard line ∨ e = .sent line) ∨
      ∃ line, e = .listed s.user line ∧ ListingLine (storage.inbox s.user) line := by
  have truly : ∀ {o : Pop3Outcome} {out : List SessionEvent}, TellsTruly storage s o → e ∈ out →
      out = o.2.2 → (∃ line, e = .heard line ∨ e = .sent line) ∨
        ∃ line, e = .listed s.user line ∧ ListingLine (storage.inbox s.user) line := by
    rintro o _ ho hm rfl
    rcases ho e hm with ⟨line, hl⟩ | hl
    · exact Or.inl ⟨line, Or.inr hl⟩
    · exact Or.inr hl
  cases pop3Resume_step h with
  | greeted _ _ ho => exact truly (tellsTruly_enter .greeting) he (congrArg (fun o => o.2.2) ho)
  | heard request _ _ ho =>
    cases ho
    rcases List.mem_cons.mp he with rfl | he
    · exact Or.inl ⟨request, Or.inl rfl⟩
    · exact truly (tellsTruly_request request) he rfl
  | written after _ _ ho =>
    exact truly (tellsTruly_replied after) he (congrArg (fun o => o.2.2) ho)
  | dropped _ _ ho => exact truly tellsTruly_finish he (congrArg (fun o => o.2.2) ho)

end

/-- What is not the body of a mail completes none. -/
theorem completed_nil {d : Dialogue} {out : List SessionEvent}
    (h : ∀ lines, SessionEvent.heardBody lines ∉ out) : d.completed out = [] := by
  induction out generalizing d with
  | nil => rfl
  | cons e out ih =>
    rw [Dialogue.completed, ih fun lines hm => h lines (List.mem_cons_of_mem e hm)]
    cases e with
    | heardBody lines => exact absurd List.mem_cons_self (h lines)
    | _ => rfl

theorem pop3_hears_no_body {storage storage' : MailStorage} {s t : Pop3Session} {wake : MailWake}
    {out : List SessionEvent} (h : pop3Resume storage s wake = some (storage', t, out))
    (lines : List Text) : SessionEvent.heardBody lines ∉ out := by
  intro hm
  rcases pop3Resume_tells h hm with ⟨_, he | he⟩ | ⟨_, he, _⟩
  · cases he
  · cases he
  · cases he

theorem imap_hears_no_body {storage : MailStorage} {s t : ImapSession} {wake : MailWake}
    {out : List SessionEvent} (h : imapResume storage s wake = some (t, out))
    (lines : List Text) : SessionEvent.heardBody lines ∉ out := by
  rcases imapResume_speaks h with (rfl | ⟨_, rfl⟩) | ⟨_, rest, rfl, rfl | ⟨_, rfl⟩⟩
  · simp
  · simp
  · simp
  · simp

/-- What holds of the sessions and of the storage after every run that started with the storage. -/
structure MailFlowing (storage : MailStorage) (c : MailConfig) : Prop where
  related : ∀ n s, c.threads n = some (.smtp s) → Related s ((observed c.log).1 n)
  unheard : ∀ n, c.threads n = none → (observed c.log).1 n = {}
  flows : MailsFlow storage c.store (completedMails c.log)
  listed : ∀ n user line, (n, SessionEvent.listed user line) ∈ c.log →
    ListingLine (c.store.inbox user) line

/-- A resumption lets flow what it completes, and tells nothing but the truth. -/
theorem mailResume_flows {storage storage' : MailStorage} {l l' : MailSession} {wake : MailWake}
    {out : List SessionEvent} {d : Dialogue} (hd : ∀ s, l = .smtp s → Related s d)
    (h : mailResume storage l wake = some (storage', l', out)) :
    (∀ s, l' = .smtp s → Related s (out.foldl Dialogue.observe d)) ∧
      MailsFlow storage storage' (d.completed out) ∧
      ∀ user line, SessionEvent.listed user line ∈ out → ListingLine (storage.inbox user) line := by
  rcases mailResume_cases h with ⟨s, t, rfl, rfl, ht⟩ | ⟨s, t, rfl, rfl, ht⟩ |
    ⟨s, t, rfl, rfl, ht, rfl⟩
  · obtain ⟨hrel, hdel⟩ := smtpResume_delivers (hd s rfl) ht
    refine ⟨?_, hdel.flow, fun user line hm => absurd hm (smtp_lists_nothing ht user line)⟩
    rintro _ ⟨⟩
    exact hrel
  · rw [completed_nil (pop3_hears_no_body ht)]
    refine ⟨?_, (pop3Resume_keeps ht).flow, fun user line hm => ?_⟩
    · rintro _ ⟨⟩
    · rcases pop3Resume_tells ht hm with ⟨_, he | he⟩ | ⟨_, he, hline⟩
      · cases he
      · cases he
      · cases he
        exact hline
  · rw [completed_nil (imap_hears_no_body ht)]
    refine ⟨?_, mailsFlow_refl _, fun user line hm => absurd hm (imap_lists_nothing ht user line)⟩
    rintro _ ⟨⟩

theorem mailFlowing_step {storage : MailStorage} {c d : MailConfig} (h : MailFlowing storage c)
    (hs : MailStep c d) : MailFlowing storage d := by
  cases hs with
  | @spawn n l hn hl =>
    refine ⟨fun k s hk => ?_, fun k hk => ?_, h.flows, h.listed⟩
    · by_cases hkn : k = n
      · subst hkn
        simp only [Function.update_self, Option.some.injEq] at hk
        subst hk
        rcases hl with hl | hl | hl
        · cases hl
          rw [h.unheard k hn]
          exact ⟨by simp, fun _ => rfl, by simp [SmtpSession.transaction]⟩
        · cases hl
        · cases hl
      · simp only [Function.update_of_ne hkn] at hk
        exact h.related k s hk
    · by_cases hkn : k = n
      · subst hkn
        simp at hk
      · simp only [Function.update_of_ne hkn] at hk
        exact h.unheard k hk
  | @resume n l wake storage' l' out hn hr =>
    obtain ⟨hrel, hflow, hlisted⟩ := mailResume_flows (fun s hl => h.related n s (hl ▸ hn)) hr
    have ho := observed_append c.log n out
    refine ⟨fun k s hk => ?_, fun k hk => ?_, ?_, fun k user line hm => ?_⟩
    · rw [ho]
      by_cases hkn : k = n
      · subst hkn
        simp only [Function.update_self, Option.some.injEq] at hk ⊢
        exact hrel s hk
      · simp only [Function.update_of_ne hkn] at hk ⊢
        exact h.related k s hk
    · rw [ho]
      by_cases hkn : k = n
      · subst hkn
        simp at hk
      · simp only [Function.update_of_ne hkn] at hk ⊢
        exact h.unheard k hk
    · rw [completedMails, ho]
      exact h.flows.trans hflow
    · rcases List.mem_append.mp hm with hm | hm
      · exact (h.listed k user line hm).mono (hflow.grows user)
      · obtain ⟨e, he, heq⟩ := List.mem_map.mp hm
        cases heq
        exact (hlisted user line he).mono (hflow.grows user)

/-- From the body that an SMTP session reads to the lines that a POP3 session lists, however the
sessions of the three protocols are interleaved: the mails completed come into the maildrops of their
local recipients in the order of completion, nothing else happens to a mailbox, and every line that
was ever listed for a user is true of the mails that the maildrop had at the start and of those that
have come since. -/
theorem mail_reaches_listings {storage : MailStorage} {c : MailConfig}
    (run : ReflTransGen MailStep (Config.init storage) c) :
    MailsFlow storage c.store (completedMails c.log) ∧
      ∀ n user line, (n, SessionEvent.listed user line) ∈ c.log →
        ListingLine (storage.inbox user ++ (completedMails c.log).filter
          fun mail => user ∈ mail.recipients.toList ∧ isLocal user) line := by
  have h : MailFlowing storage c := reaches_invariant run
    ⟨by simp [Config.init], fun _ _ => rfl, mailsFlow_refl storage, by simp [Config.init]⟩
    fun _ _ => mailFlowing_step
  refine ⟨h.flows, fun n user line hm => ?_⟩
  have hline := h.listed n user line hm
  rwa [h.flows.inbox user] at hline

/-- The mail that comes during a LIST is listed in it. -/
theorem mail_reaches_listings_busy : ∃ c : MailConfig,
    (completedMails c.log).length = 1 ∧
    (0, SessionEvent.listed liia "2 3".toList) ∈ c.log ∧
    ListingLine (mockData.inbox liia ++ (completedMails c.log).filter
      fun mail => liia ∈ mail.recipients.toList ∧ isLocal liia) "2 3".toList := by
  obtain ⟨heard, listing, ended⟩ := busyList_run
  have listed : (0, SessionEvent.listed liia "2 3".toList) ∈
      ((afterList busyList).get busyList_isSome).2.2.log := by decide +kernel
  refine ⟨((afterList busyList).get busyList_isSome).2.2, by decide +kernel, listed, ?_⟩
  exact (mail_reaches_listings ((listReady_reached.tail heard).trans (listing.tail ended))).2 0 liia
    _ listed

end Protocols
