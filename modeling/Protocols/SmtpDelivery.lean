import Protocols.SmtpSession

namespace Protocols

open Relation

/-- A mail transaction: the address of its MAIL, and the addresses of its RCPTs. -/
structure Transaction where
  sender : Text
  recipients : Recipients
  deriving DecidableEq

/-- What can be told from what a session has heard and said: the request that it has not answered
yet, and the transaction that it has accepted and not completed. -/
structure Dialogue where
  asked : Option Text := none
  transaction : Option Transaction := none
  deriving DecidableEq

/-- A MAIL that is accepted opens a transaction, and a RCPT adds to it. -/
def Dialogue.accepted (d : Dialogue) (request : Text) : Option Transaction :=
  match smtpParseRequest request with
  | (.mail, arguments) => some ⟨str arguments 1, .empty⟩
  | (.rcpt, arguments) =>
    d.transaction.map fun t => { t with recipients := t.recipients.insert (str arguments 1) }
  | _ => d.transaction

def Dialogue.observe (d : Dialogue) : SessionEvent → Dialogue
  | .heard line => { d with asked := some line }
  | .sent reply =>
    if reply = makeReply 250 [] then ⟨none, (d.asked.map d.accepted).getD d.transaction⟩
    else { d with asked := none }
  | .heardBody _ => { d with transaction := none }
  | .listed _ _ => d

/-- The mail whose body has been read, with the data of its transaction. -/
def Dialogue.completes (d : Dialogue) : SessionEvent → Option Mail
  | .heardBody lines => d.transaction.map fun t => ⟨t.sender, t.recipients, lines⟩
  | _ => none

def Dialogue.completed (d : Dialogue) : List SessionEvent → List Mail
  | [] => []
  | e :: events => (d.completes e).toList ++ (d.observe e).completed events

/-- The dialogues of all sessions, and the mails completed in them, in order. -/
def observe (o : (Nat → Dialogue) × List Mail) (e : Nat × SessionEvent) :
    (Nat → Dialogue) × List Mail :=
  (Function.update o.1 e.1 ((o.1 e.1).observe e.2), o.2 ++ ((o.1 e.1).completes e.2).toList)

def observed (log : List (Nat × SessionEvent)) : (Nat → Dialogue) × List Mail :=
  log.foldl observe (fun _ => {}, [])

/-- The mails whose bodies have been read, in the order of completion. -/
def completedMails (log : List (Nat × SessionEvent)) : List Mail := (observed log).2

/-- Nothing has changed but that the local recipients of the mails have got one copy of each. -/
structure DeliversExactly (before after : MailStorage) (mails : List Mail) : Prop where
  inbox : ∀ r, after.inbox r = before.inbox r ++
    mails.filter fun mail => r ∈ mail.recipients.toList ∧ isLocal r
  mailbox : ∀ r box, box ≠ inboxName → after.mailbox r box = before.mailbox r box
  locked : ∀ r, after.locked r = before.locked r
  untouched : ∀ r, (∀ mail ∈ mails, ¬ (r ∈ mail.recipients.toList ∧ isLocal r)) →
    after.maildrops.lookup r = before.maildrops.lookup r

theorem lookup_push_self (storage : MailStorage) (user box : Text) (mail : Mail) :
    (storage.push user box mail).maildrops.lookup user =
      some (((storage.maildrops.lookup user).getD {}).push box mail) :=
  lookup_modify_self _ _ _ _

theorem lookup_push_ne {r user : Text} (storage : MailStorage) (box : Text) (mail : Mail)
    (h : r ≠ user) :
    (storage.push user box mail).maildrops.lookup r = storage.maildrops.lookup r :=
  lookup_modify_ne _ _ _ h

theorem lookup_push_each {recipients : List Text} (h : recipients.Nodup) (storage : MailStorage)
    (box : Text) (mail : Mail) (r : Text) :
    (recipients.foldl (fun storage r => storage.push r box mail) storage).maildrops.lookup r =
      if r ∈ recipients then some (((storage.maildrops.lookup r).getD {}).push box mail)
      else storage.maildrops.lookup r := by
  induction recipients generalizing storage with
  | nil => simp
  | cons a recipients ih =>
    obtain ⟨ha, hrest⟩ := List.nodup_cons.mp h
    rw [List.foldl_cons, ih hrest]
    by_cases hr : r = a
    · subst hr
      rw [if_neg ha, if_pos List.mem_cons_self, lookup_push_self]
    · rw [lookup_push_ne _ _ _ hr]
      simp [hr]

theorem lookup_deliver (storage : MailStorage) (mail : Mail) (r : Text) :
    (storage.deliver mail).maildrops.lookup r =
      if r ∈ mail.recipients.toList ∧ isLocal r then
        some (((storage.maildrops.lookup r).getD {}).push inboxName mail)
      else storage.maildrops.lookup r := by
  simp only [MailStorage.deliver, lookup_push_each (mail.recipients.nodup.filter _),
    List.mem_filter]

theorem deliversExactly_refl (storage : MailStorage) : DeliversExactly storage storage [] :=
  ⟨by simp, fun _ _ _ => rfl, fun _ => rfl, fun _ _ => rfl⟩

theorem deliver_exactly (storage : MailStorage) (mail : Mail) :
    DeliversExactly storage (storage.deliver mail) [mail] := by
  constructor
  · intro r
    by_cases hr : r ∈ mail.recipients.toList ∧ isLocal r
    · simp only [MailStorage.inbox, MailStorage.mailbox, lookup_deliver, if_pos hr,
        Option.bind_some, Maildrop.push, lookup_modify_self, Option.getD_some]
      cases storage.maildrops.lookup r with
      | none => simp [hr]
      | some drop => simp [hr]
    · simp only [MailStorage.inbox, MailStorage.mailbox, lookup_deliver, if_neg hr]
      simp [hr]
  · intro r box hbox
    by_cases hr : r ∈ mail.recipients.toList ∧ isLocal r
    · simp only [MailStorage.mailbox, lookup_deliver, if_pos hr, Option.bind_some, Maildrop.push,
        lookup_modify_ne _ _ _ hbox]
      cases storage.maildrops.lookup r with
      | none => rfl
      | some drop => rfl
    · simp only [MailStorage.mailbox, lookup_deliver, if_neg hr]
  · intro r
    by_cases hr : r ∈ mail.recipients.toList ∧ isLocal r
    · simp only [MailStorage.locked, lookup_deliver, if_pos hr]
      cases storage.maildrops.lookup r with
      | none => rfl
      | some drop => rfl
    · simp only [MailStorage.locked, lookup_deliver, if_neg hr]
  · intro r hr
    rw [lookup_deliver, if_neg (hr mail List.mem_cons_self)]

theorem DeliversExactly.trans {a b c : MailStorage} {mails mails' : List Mail}
    (h : DeliversExactly a b mails) (h' : DeliversExactly b c mails') :
    DeliversExactly a c (mails ++ mails') := by
  constructor
  · intro r
    rw [h'.inbox, h.inbox, List.filter_append, List.append_assoc]
  · intro r box hbox
    rw [h'.mailbox r box hbox, h.mailbox r box hbox]
  · intro r
    rw [h'.locked, h.locked]
  · intro r hr
    rw [h'.untouched r fun mail hm => hr mail (List.mem_append_right _ hm),
      h.untouched r fun mail hm => hr mail (List.mem_append_left _ hm)]

/-- The transaction that a session is in, as its reply has it or will have it. -/
def SmtpSession.transaction (s : SmtpSession) : Option Transaction :=
  match s.control with
  | .reading =>
    if s.state = .recipients then some ⟨s.currentMail.sender, s.currentMail.recipients⟩ else none
  | .writing (.next .recipients) | .writing (.next .data) | .writing .readBody | .readingBody =>
    some ⟨s.currentMail.sender, s.currentMail.recipients⟩
  | .writing (.sender address) => some ⟨address, s.currentMail.recipients⟩
  | .writing (.recipient address) =>
    some ⟨s.currentMail.sender, s.currentMail.recipients.insert address⟩
  | _ => none

/-- A session and the dialogue that it has led. -/
structure Related (s : SmtpSession) (d : Dialogue) : Prop where
  reads : s.control = .reading →
    s.state = .waitHelo ∨ s.state = .initTransaction ∨ s.state = .recipients
  answered : s.control ≠ .ended → d.asked = none
  tracked : ∀ t, s.transaction = some t → d.transaction = some t

/-- What a session says next keeps it and its dialogue together, and completes no mail. -/
def Leads (d : Dialogue) (r : SmtpSession × List SessionEvent) : Prop :=
  Related r.1 (r.2.foldl Dialogue.observe d) ∧ d.completed r.2 = []

theorem Leads.delivers {d : Dialogue} {r : SmtpSession × List SessionEvent} (h : Leads d r)
    (storage : MailStorage) :
    Related r.1 (r.2.foldl Dialogue.observe d) ∧
      DeliversExactly storage storage (d.completed r.2) := by
  rw [h.2]
  exact ⟨h.1, deliversExactly_refl storage⟩

theorem observe_sent_ne {d : Dialogue} {reply : Text} (h : reply ≠ makeReply 250 []) :
    d.observe (.sent reply) = { d with asked := none } := by
  simp [Dialogue.observe, h]

theorem leads_reply {s : SmtpSession} {d : Dialogue} {reply : Text} {after : SmtpAfter}
    (h : ∀ t, (s.reply reply after).1.transaction = some t →
      (d.observe (.sent reply)).transaction = some t) :
    Leads d (s.reply reply after) := by
  refine ⟨⟨by simp [SmtpSession.reply], fun _ => ?_, h⟩, rfl⟩
  simp only [SmtpSession.reply, List.foldl_cons, List.foldl_nil, Dialogue.observe]
  split <;> rfl

theorem leads_refusal {s : SmtpSession} {d : Dialogue} {reply : Text} {after : SmtpAfter}
    (hr : reply ≠ makeReply 250 [])
    (h : ∀ t, (s.reply reply after).1.transaction = some t → d.transaction = some t) :
    Leads d (s.reply reply after) := by
  apply leads_reply
  rw [observe_sent_ne hr]
  exact h

theorem leads_enter {s : SmtpSession} {d : Dialogue} {state : SmtpState}
    (ha : d.asked = none ∨ state = .data ∨ state = .quit)
    (h : state = .recipients ∨ state = .data →
      d.transaction = some ⟨s.currentMail.sender, s.currentMail.recipients⟩) :
    Leads d (s.enter state) := by
  cases state with
  | greet => exact leads_refusal (by decide) (by simp [SmtpSession.reply, SmtpSession.transaction])
  | waitHelo =>
    exact ⟨⟨by simp [SmtpSession.enter], fun _ => by simpa [SmtpSession.enter] using ha,
      by simp [SmtpSession.enter, SmtpSession.transaction]⟩, rfl⟩
  | initTransaction =>
    exact ⟨⟨by simp [SmtpSession.enter], fun _ => by simpa [SmtpSession.enter] using ha,
      by simp [SmtpSession.enter, SmtpSession.transaction]⟩, rfl⟩
  | recipients =>
    refine ⟨⟨by simp [SmtpSession.enter], fun _ => by simpa [SmtpSession.enter] using ha, ?_⟩, rfl⟩
    intro t ht
    exact (h (Or.inl rfl)).trans ht
  | data =>
    apply leads_refusal (by decide)
    intro t ht
    exact (h (Or.inr rfl)).trans ht
  | quit => exact leads_refusal (by decide) (by simp [SmtpSession.reply, SmtpSession.transaction])

theorem observe_accepted {d : Dialogue} {request : Text} (h : d.asked = some request) :
    (d.observe (.sent (makeReply 250 []))).transaction = d.accepted request := by
  simp [Dialogue.observe, h]

theorem waitHelo_leads (s : SmtpSession) (d : Dialogue) (command : SmtpCommand)
    (arguments : List Text) : Leads d (s.waitHelo command arguments) := by
  have refuse : ∀ reply state, reply ≠ makeReply 250 [] →
      state = .waitHelo ∨ state = .initTransaction → Leads d (s.reply reply (.next state)) := by
    rintro reply state hr (rfl | rfl)
    · exact leads_refusal hr (by simp [SmtpSession.reply, SmtpSession.transaction])
    · exact leads_refusal hr (by simp [SmtpSession.reply, SmtpSession.transaction])
  cases command with
  | helo =>
    simp only [SmtpSession.waitHelo]
    split
    next => exact refuse _ _ (by decide) (Or.inl rfl)
    next => exact refuse _ _ (by decide) (Or.inr rfl)
  | mail => exact refuse _ _ (by decide) (Or.inl rfl)
  | rcpt => exact refuse _ _ (by decide) (Or.inl rfl)
  | data => exact refuse _ _ (by decide) (Or.inl rfl)
  | quit => exact leads_enter (Or.inr (Or.inr rfl)) (by simp)
  | unknown => exact refuse _ _ (by decide) (Or.inl rfl)

theorem initTransaction_leads {d : Dialogue} {request : Text} {command : SmtpCommand}
    {arguments : List Text} (s : SmtpSession) (ha : d.asked = some request)
    (hp : smtpParseRequest request = (command, arguments)) :
    Leads d (s.initTransaction command arguments) := by
  have refuse : ∀ s : SmtpSession, ∀ reply, reply ≠ makeReply 250 [] →
      Leads d (s.reply reply (.next .initTransaction)) := fun s reply hr =>
    leads_refusal hr (by simp [SmtpSession.reply, SmtpSession.transaction])
  cases command with
  | helo =>
    simp only [SmtpSession.initTransaction]
    split
    next => exact refuse _ _ (by decide)
    next => exact refuse _ _ (by decide)
  | mail =>
    simp only [SmtpSession.initTransaction]
    split
    next => exact refuse _ _ (by decide)
    next =>
      apply leads_reply
      intro t ht
      rw [observe_accepted ha, Dialogue.accepted, hp]
      exact ht
  | rcpt => exact refuse _ _ (by decide)
  | data => exact refuse _ _ (by decide)
  | quit => exact leads_enter (Or.inr (Or.inr rfl)) (by simp)
  | unknown => exact refuse _ _ (by decide)

theorem recipients_leads {s : SmtpSession} {d : Dialogue} {request : Text} {command : SmtpCommand}
    {arguments : List Text} (ha : d.asked = some request)
    (ht : d.transaction = some ⟨s.currentMail.sender, s.currentMail.recipients⟩)
    (hp : smtpParseRequest request = (command, arguments)) :
    Leads d (s.recipients command arguments) := by
  have refuse : ∀ reply, reply ≠ makeReply 250 [] →
      Leads d (s.reply reply (.next .recipients)) := fun reply hr =>
    leads_refusal hr fun t h => ht.trans h
  cases command with
  | helo => exact refuse _ (by decide)
  | mail => exact refuse _ (by decide)
  | rcpt =>
    simp only [SmtpSession.recipients]
    split
    next => exact refuse _ (by decide)
    next =>
      apply leads_reply
      intro t h
      rw [observe_accepted ha, Dialogue.accepted, hp]
      simp only [ht, Option.map_some]
      exact h
  | data =>
    simp only [SmtpSession.recipients]
    split
    next => exact refuse _ (by decide)
    next => exact leads_enter (Or.inr (Or.inl rfl)) fun _ => ht
  | quit => exact leads_enter (Or.inr (Or.inr rfl)) (by simp)
  | unknown => exact refuse _ (by decide)

theorem request_leads {s : SmtpSession} {d : Dialogue} (h : Related s d)
    (hc : s.control = .reading) (request : Text) :
    Leads (d.observe (.heard request)) (s.request request) := by
  have heard : (d.observe (.heard request)).asked = some request := rfl
  unfold SmtpSession.request
  rcases h.reads hc with hs | hs | hs
  · simp only [hs]
    exact waitHelo_leads _ _ _ _
  · simp only [hs]
    exact initTransaction_leads _ heard rfl
  · simp only [hs]
    exact recipients_leads heard (h.tracked _ (by simp [SmtpSession.transaction, hc, hs])) rfl

theorem replied_leads {s : SmtpSession} {d : Dialogue} {after : SmtpAfter} (h : Related s d)
    (hc : s.control = .writing after) : Leads d (s.replied after) := by
  have ha : d.asked = none := h.answered (by simp [hc])
  cases after with
  | next state =>
    apply leads_enter (Or.inl ha)
    rintro (rfl | rfl)
    · exact h.tracked _ (by simp [SmtpSession.transaction, hc])
    · exact h.tracked _ (by simp [SmtpSession.transaction, hc])
  | sender address =>
    apply leads_enter (Or.inl ha)
    intro _
    exact h.tracked _ (by simp [SmtpSession.transaction, hc])
  | recipient address =>
    apply leads_enter (Or.inl ha)
    intro _
    exact h.tracked _ (by simp [SmtpSession.transaction, hc])
  | readBody =>
    have ht : s.transaction = some ⟨s.currentMail.sender, s.currentMail.recipients⟩ := by
      simp [SmtpSession.transaction, hc]
    exact ⟨⟨by simp [SmtpSession.replied], fun _ => ha, fun t hb => h.tracked t (ht.trans hb)⟩, rfl⟩
  | close =>
    exact ⟨⟨by simp [SmtpSession.replied], by simp [SmtpSession.replied],
      by simp [SmtpSession.replied, SmtpSession.transaction]⟩, rfl⟩

/-- The mail completed is the one that the session has, with the lines that it has read. -/
theorem deliver_completes {s : SmtpSession} {d : Dialogue} (h : Related s d)
    (hc : s.control = .readingBody) (storage : MailStorage) (lines : List Text) :
    d.completed (s.deliver storage lines).2.2 = [{ s.currentMail with message := lines }] := by
  have ht : d.transaction = some ⟨s.currentMail.sender, s.currentMail.recipients⟩ :=
    h.tracked _ (by simp [SmtpSession.transaction, hc])
  simp [SmtpSession.deliver, SmtpSession.reply, Dialogue.completed, Dialogue.completes, ht]

theorem deliver_leads {s : SmtpSession} {d : Dialogue} (h : Related s d)
    (hc : s.control = .readingBody) (storage : MailStorage) (lines : List Text) :
    Related (s.deliver storage lines).2.1
      ((s.deliver storage lines).2.2.foldl Dialogue.observe d) ∧
    DeliversExactly storage (s.deliver storage lines).1
      (d.completed (s.deliver storage lines).2.2) := by
  have hl : Leads (d.observe (.heardBody lines))
      (({ s with currentMail := { s.currentMail with message := lines } } : SmtpSession).reply
        (makeReply 250 []) (.next .initTransaction)) :=
    leads_reply (by simp [SmtpSession.reply, SmtpSession.transaction])
  refine ⟨hl.1, ?_⟩
  rw [deliver_completes h hc]
  exact deliver_exactly _ _

/-- One resumption of a session delivers exactly the mail that it completes. -/
theorem smtpResume_delivers {storage storage' : MailStorage} {s t : SmtpSession} {d : Dialogue}
    {wake : MailWake} {out : List SessionEvent} (h : Related s d)
    (hr : smtpResume storage s wake = some (storage', t, out)) :
    Related t (out.foldl Dialogue.observe d) ∧
      DeliversExactly storage storage' (d.completed out) := by
  cases smtpResume_step hr with
  | greeted hc _ he =>
    cases he
    have hl : Leads d (s.enter .greet) := leads_enter (Or.inl (h.answered (by simp [hc]))) (by simp)
    exact hl.delivers storage
  | heard request hc _ he =>
    cases he
    exact (request_leads h hc request).delivers storage
  | heardBody lines hc _ _ he =>
    have hd := deliver_leads h hc storage lines
    rw [← he] at hd
    exact hd
  | written after hc _ he =>
    have hd := (replied_leads h hc).delivers storage
    rw [← (Prod.mk.inj he).2] at hd
    rw [(Prod.mk.inj he).1]
    exact hd
  | dropped _ _ he =>
    cases he
    exact ⟨⟨by simp, by simp, by simp [SmtpSession.transaction]⟩, deliversExactly_refl _⟩

theorem foldl_observe (o : (Nat → Dialogue) × List Mail) (n : Nat) (out : List SessionEvent) :
    (out.map fun e => (n, e)).foldl observe o =
      (Function.update o.1 n (out.foldl Dialogue.observe (o.1 n)),
        o.2 ++ (o.1 n).completed out) := by
  induction out generalizing o with
  | nil => simp [Dialogue.completed]
  | cons e out ih =>
    rw [List.map_cons, List.foldl_cons, ih]
    simp [observe, Dialogue.completed]

/-- The dialogues of the other sessions stay, and the mails completed are this one's. -/
theorem observed_append (log : List (Nat × SessionEvent)) (n : Nat) (out : List SessionEvent) :
    observed (log ++ out.map fun e => (n, e)) =
      (Function.update (observed log).1 n (out.foldl Dialogue.observe ((observed log).1 n)),
        (observed log).2 ++ ((observed log).1 n).completed out) := by
  rw [observed, List.foldl_append, foldl_observe]
  rfl

abbrev SmtpConfig := Config MailStorage SmtpSession SessionEvent

/-- What holds of the sessions and of the storage after every run that started with the storage. -/
structure Delivering (storage : MailStorage) (c : SmtpConfig) : Prop where
  related : ∀ n s, c.threads n = some s → Related s ((observed c.log).1 n)
  unheard : ∀ n, c.threads n = none → (observed c.log).1 n = {}
  delivers : DeliversExactly storage c.store (completedMails c.log)

theorem delivering_step {storage : MailStorage} {c d : SmtpConfig} (h : Delivering storage c)
    (hs : MachineStep smtpServer c d) : Delivering storage d := by
  cases hs with
  | @spawn n s hn hstart _ =>
    refine ⟨fun k s' hk => ?_, fun k hk => ?_, h.delivers⟩
    · by_cases hkn : k = n
      · subst hkn
        simp only [Function.update_self, Option.some.injEq] at hk
        subst hk
        rw [show s = {} from hstart, h.unheard k hn]
        exact ⟨by simp, fun _ => rfl, by simp [SmtpSession.transaction]⟩
      · simp only [Function.update_of_ne hkn] at hk
        exact h.related k s' hk
    · by_cases hkn : k = n
      · subst hkn
        simp at hk
      · simp only [Function.update_of_ne hkn] at hk
        exact h.unheard k hk
  | @resume n s wake storage' t out hn hr _ =>
    obtain ⟨hrel, hdel⟩ := smtpResume_delivers (h.related n s hn) hr
    have ho := observed_append c.log n out
    refine ⟨fun k s' hk => ?_, fun k hk => ?_, ?_⟩
    · rw [ho]
      by_cases hkn : k = n
      · subst hkn
        simp only [Function.update_self, Option.some.injEq] at hk ⊢
        subst hk
        exact hrel
      · simp only [Function.update_of_ne hkn] at hk ⊢
        exact h.related k s' hk
    · rw [ho]
      by_cases hkn : k = n
      · subst hkn
        simp at hk
      · simp only [Function.update_of_ne hkn] at hk ⊢
        exact h.unheard k hk
    · rw [completedMails, ho]
      exact h.delivers.trans hdel

theorem delivering_reaches {storage : MailStorage} {c : SmtpConfig}
    (run : ReflTransGen (MachineStep smtpServer) (Config.init storage) c) : Delivering storage c :=
  reaches_invariant run ⟨by simp [Config.init], fun _ _ => rfl, deliversExactly_refl storage⟩
    fun _ _ => delivering_step

/-- In every interleaving of the sessions, the mails completed are delivered, and nothing else. -/
theorem smtp_delivers_exactly {storage : MailStorage} {c : SmtpConfig}
    (run : ReflTransGen (MachineStep smtpServer) (Config.init storage) c) :
    DeliversExactly storage c.store (completedMails c.log) :=
  (delivering_reaches run).delivers

def oneSession : SmtpConfig := ⟨{}, Function.update (fun _ => none) 0 (some {}), []⟩

theorem oneSession_spawned : MachineStep smtpServer (Config.init {}) oneSession :=
  .spawn rfl rfl (free_init {} 0)

theorem oneSession_free : oneSession.Free smtpServer 0 :=
  free_update {} [] (free_init {} 0) (Or.inl rfl)

def oneMail : List (Nat × MailWake) :=
  [.scheduled, .written, .line "HELO ab".toList, .written, .line "mail from:<a@bc>".toList, .written,
    .line "rcpt to:<liia@localhost>".toList, .written, .line "data".toList, .written,
    .body ["hi".toList, ".".toList]].map fun wake => (0, wake)

def oneMailDelivered : Option SmtpConfig := oneSession.replay smtpServer oneMail

theorem oneMailDelivered_isSome : oneMailDelivered.isSome = true := by decide +kernel

theorem smtp_delivers_one_mail :
    (oneMailDelivered.get oneMailDelivered_isSome).store.inbox "liia@localhost".toList =
      [⟨"a@bc".toList, Recipients.insert .empty "liia@localhost".toList,
        ["hi".toList, ".".toList]⟩] := by
  have run := machine_replay_reaches (fun e he => by cases he; exact oneSession_free)
    (Option.some_get oneMailDelivered_isSome).symm
  rw [(smtp_delivers_exactly (.head oneSession_spawned run)).inbox]
  decide +kernel

end Protocols
