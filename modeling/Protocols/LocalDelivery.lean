import Protocols.SmtpDelivery
import Protocols.SmtpEnvelope

namespace Protocols

open Relation Regex

/-- The domain of the address is the server's, in letters of any case. -/
def HasHostName (address : Text) : Prop :=
  (domainPart address).map Char.toLower = hostName.toList.map Char.toLower

instance (address : Text) : Decidable (HasHostName address) := inferInstanceAs (Decidable (_ = _))

/-- The domain of the address is a longer one, that begins with the server's. -/
def ExtendsHostName (address : Text) : Prop :=
  hostName.toList.map Char.toLower <+: (domainPart address).map Char.toLower ∧
    ¬ HasHostName address

/-- Mails go to the maildrops of the server's own domain, and no maildrops are made of others. -/
structure DeliversLocally (before after : MailStorage) (mails : List Mail) : Prop where
  inbox : ∀ address, after.inbox address = before.inbox address ++
    mails.filter fun mail => address ∈ mail.recipients.toList ∧ HasHostName address
  created : ∀ address, address ∈ after.maildrops →
    address ∈ before.maildrops ∨ HasHostName address

def Mail.RecipientsAccepted (mail : Mail) : Prop :=
  ∀ recipient ∈ mail.recipients.toList, IsSmtpAddress recipient

/-- Every recipient of the transaction that a session is in has been accepted. -/
def SmtpSession.RecipientsAccepted (s : SmtpSession) : Prop :=
  ∀ t, s.transaction = some t → ∀ recipient ∈ t.recipients.toList, IsSmtpAddress recipient

theorem at_not_mem_lowered {w : Text} (h : '@' ∉ w) : '@' ∉ w.map Char.toLower := by
  intro hmem
  obtain ⟨c, hc, hlow⟩ := List.mem_map.mp hmem
  rw [toLower_eq_of_not_letter hlow (by decide)] at hc
  exact h hc

/-- The search finds the name of the server only where the domain begins. -/
theorem isLocal_iff {address : Text} (h : IsSmtpAddress address) : isLocal address = true ↔
    hostName.toList.map Char.toLower <+: (domainPart address).map Char.toLower := by
  obtain ⟨haddress, huser⟩ := at_of_parts h.separated
  have hhost : '@' ∉ domainPart address :=
    words_avoid (domain_words.mpr h.host) (by decide) (by decide)
  have hname : ("@" ++ hostName).toList.map Char.toLower =
      '@' :: hostName.toList.map Char.toLower := by decide
  have hlow : address.map Char.toLower =
      (localPart address).map Char.toLower ++ '@' :: (domainPart address).map Char.toLower := by
    rw [haddress, List.map_append, List.map_cons, ← haddress]
    rfl
  rw [isLocal, regexSearch_lit, hname, hlow]
  constructor
  · intro hfound
    obtain ⟨front, back, hs⟩ := hfound
    rw [List.append_assoc, List.cons_append] at hs
    have hparts := (List.append_cons_inj_of_notMem (at_not_mem_lowered huser)
      (at_not_mem_lowered hhost)).mp hs.symm
    exact ⟨back, hparts.2.2.symm⟩
  · intro hbegins
    obtain ⟨back, hback⟩ := hbegins
    rw [← hback]
    exact ⟨(localPart address).map Char.toLower, back, by simp⟩

theorem isLocal_or_extends {address : Text} (h : IsSmtpAddress address) :
    isLocal address = true ↔ HasHostName address ∨ ExtendsHostName address := by
  rw [isLocal_iff h, ExtendsHostName]
  constructor
  · intro hbegins
    by_cases hname : HasHostName address
    · exact Or.inl hname
    · exact Or.inr ⟨hbegins, hname⟩
  · intro hor
    rcases hor with hname | hext
    · rw [show (domainPart address).map Char.toLower = _ from hname]
    · exact hext.1

section

variable {s t : SmtpSession}

theorem accepted_enter {state : SmtpState}
    (h : state = .recipients ∨ state = .data → s.currentMail.RecipientsAccepted) :
    (s.enter state).1.RecipientsAccepted := by
  intro t ht
  cases state with
  | greet => cases ht
  | waitHelo => cases ht
  | initTransaction => cases ht
  | recipients =>
    cases ht
    exact h (Or.inl rfl)
  | data =>
    cases ht
    exact h (Or.inr rfl)
  | quit => cases ht

theorem accepted_waitHelo (command : SmtpCommand) (arguments : List Text) :
    (s.waitHelo command arguments).1.RecipientsAccepted := by
  intro t ht
  cases command with
  | helo =>
    simp only [SmtpSession.waitHelo] at ht
    split at ht
    next => cases ht
    next => cases ht
  | _ => cases ht

theorem accepted_initTransaction (command : SmtpCommand) (arguments : List Text) :
    (s.initTransaction command arguments).1.RecipientsAccepted := by
  intro t ht
  cases command with
  | helo =>
    simp only [SmtpSession.initTransaction] at ht
    split at ht
    next => cases ht
    next => cases ht
  | mail =>
    simp only [SmtpSession.initTransaction] at ht
    split at ht
    next => cases ht
    next =>
      -- the new transaction has no recipients
      cases ht
      intro recipient hr
      cases hr
  | _ => cases ht

theorem mem_insert_recipient {recipients : Recipients} {address recipient : Text}
    (h : recipient ∈ (recipients.insert address).toList) :
    recipient ∈ recipients.toList ∨ recipient = address := by
  unfold Recipients.insert at h
  split at h
  next => exact Or.inl h
  next =>
    rcases List.mem_append.mp h with h | h
    · exact Or.inl h
    · exact Or.inr (List.mem_singleton.mp h)

theorem accepted_recipients {request : Text} (h : s.currentMail.RecipientsAccepted) :
    (s.recipients (smtpParseRequest request).1 (smtpParseRequest request).2).1.RecipientsAccepted := by
  have stay : ∀ reply, (s.reply reply (.next .recipients)).1.RecipientsAccepted := by
    intro reply t ht
    cases ht
    exact h
  cases hc : (smtpParseRequest request).1 with
  | rcpt =>
    simp only [SmtpSession.recipients]
    split
    next => exact stay _
    next hvalid =>
      intro t ht recipient hr
      cases ht
      rcases mem_insert_recipient hr with hr | hr
      · exact h recipient hr
      · rw [hr]
        exact rcpt_accepted_iff.mp ⟨request, hc, by simpa using hvalid, rfl⟩
  | data =>
    simp only [SmtpSession.recipients]
    split
    next => exact stay _
    next => exact accepted_enter fun _ => h
  | quit => exact accepted_enter (by simp)
  | _ => exact stay _

/-- A session that ends is in no transaction. -/
theorem accepted_ended (s : SmtpSession) :
    ({ s with control := .ended } : SmtpSession).RecipientsAccepted := by
  intro t ht
  cases ht

theorem accepted_replied {after : SmtpAfter} (h : s.RecipientsAccepted)
    (hc : s.control = .writing after) : (s.replied after).1.RecipientsAccepted := by
  cases after with
  | next state =>
    refine accepted_enter fun hstate => ?_
    rcases hstate with rfl | rfl
    · exact h ⟨_, s.currentMail.recipients⟩ (by rw [SmtpSession.transaction, hc])
    · exact h ⟨_, s.currentMail.recipients⟩ (by rw [SmtpSession.transaction, hc])
  | sender address =>
    apply accepted_enter
    intro _
    exact h ⟨address, s.currentMail.recipients⟩ (by rw [SmtpSession.transaction, hc])
  | recipient address =>
    apply accepted_enter
    intro _
    exact h ⟨_, s.currentMail.recipients.insert address⟩ (by rw [SmtpSession.transaction, hc])
  | readBody =>
    intro t ht
    cases ht
    exact h ⟨s.currentMail.sender, s.currentMail.recipients⟩ (by simp [SmtpSession.transaction, hc])
  | close => exact accepted_ended s

theorem accepted_request {d : Dialogue} (h : s.RecipientsAccepted) (hd : Related s d)
    (hc : s.control = .reading) (request : Text) : (s.request request).1.RecipientsAccepted := by
  unfold SmtpSession.request
  rcases hd.reads hc with hs | hs | hs
  · simp only [hs]
    exact accepted_waitHelo _ _
  · simp only [hs]
    exact accepted_initTransaction _ _
  · simp only [hs]
    exact accepted_recipients
      (h ⟨s.currentMail.sender, s.currentMail.recipients⟩ (by simp [SmtpSession.transaction, hc, hs]))

/-- The mail that a body completes has the recipients of the transaction. -/
theorem accepted_deliver {d : Dialogue} (h : s.RecipientsAccepted) (hd : Related s d)
    (hc : s.control = .readingBody) (storage : MailStorage) (lines : List Text) :
    (s.deliver storage lines).2.1.RecipientsAccepted ∧
      ∀ mail ∈ d.completed (s.deliver storage lines).2.2, mail.RecipientsAccepted := by
  constructor
  · intro tr htr
    cases htr
  · intro mail hmail
    rw [deliver_completes hd hc storage lines, List.mem_singleton] at hmail
    rw [hmail]
    exact h ⟨_, s.currentMail.recipients⟩ (by rw [SmtpSession.transaction, hc])

/-- A session goes on with accepted recipients, and so does the mail that it completes. -/
theorem smtpResume_accepted {storage storage' : MailStorage} {d : Dialogue} {wake : MailWake}
    {out : List SessionEvent} (h : s.RecipientsAccepted) (hd : Related s d)
    (hr : smtpResume storage s wake = some (storage', t, out)) :
    t.RecipientsAccepted ∧ ∀ mail ∈ d.completed out, mail.RecipientsAccepted := by
  have nothing : ∀ {r : SmtpSession × List SessionEvent} {d : Dialogue}, Leads d r →
      ∀ mail ∈ d.completed r.2, mail.RecipientsAccepted := by
    intro r d hl mail hmail
    rw [hl.2] at hmail
    cases hmail
  cases smtpResume_step hr with
  | greeted hc _ he =>
    cases he
    have hl : Leads d (s.enter .greet) :=
      leads_enter (Or.inl (hd.answered (by simp [hc]))) (by simp)
    have ha : (s.enter .greet).1.RecipientsAccepted := accepted_enter (by simp)
    exact ⟨ha, nothing hl⟩
  | heard request hc _ he =>
    cases he
    exact ⟨accepted_request h hd hc request, nothing (request_leads hd hc request)⟩
  | heardBody lines hc _ _ he =>
    have hdelivered := accepted_deliver h hd hc storage lines
    rw [← he] at hdelivered
    exact hdelivered
  | written after hc _ he =>
    have ha := accepted_replied h hc
    have hn := nothing (replied_leads hd hc)
    rw [← (Prod.mk.inj he).2] at ha hn
    exact ⟨ha, hn⟩
  | dropped _ _ he =>
    cases he
    exact ⟨accepted_ended s, nofun⟩

end

/-- In every run, only addresses that have been accepted are recipients. -/
structure AcceptedOnly (c : SmtpConfig) : Prop where
  sessions : ∀ n s, c.threads n = some s → s.RecipientsAccepted
  mails : ∀ mail ∈ completedMails c.log, mail.RecipientsAccepted

theorem acceptedOnly_step {storage : MailStorage} {c d : SmtpConfig} (hd : Delivering storage c)
    (h : AcceptedOnly c) (hs : MachineStep smtpServer c d) : AcceptedOnly d := by
  cases hs with
  | @spawn n s hn hstart =>
    refine ⟨fun k s' hk => ?_, h.mails⟩
    by_cases hkn : k = n
    · subst hkn
      simp only [Function.update_self, Option.some.injEq] at hk
      rw [← hk, show s = {} from hstart]
      intro tr ht
      cases ht
    · simp only [Function.update_of_ne hkn] at hk
      exact h.sessions k s' hk
  | @resume n s wake storage' t out hn hr =>
    obtain ⟨ht, hmails⟩ := smtpResume_accepted (h.sessions n s hn) (hd.related n s hn) hr
    refine ⟨fun k s' hk => ?_, fun mail hmail => ?_⟩
    · by_cases hkn : k = n
      · subst hkn
        simp only [Function.update_self, Option.some.injEq] at hk
        rw [← hk]
        exact ht
      · simp only [Function.update_of_ne hkn] at hk
        exact h.sessions k s' hk
    · rw [completedMails, observed_append] at hmail
      rcases List.mem_append.mp hmail with hmail | hmail
      · exact h.mails mail hmail
      · exact hmails mail hmail

theorem acceptedOnly_reaches {storage : MailStorage} {c : SmtpConfig}
    (run : ReflTransGen (MachineStep smtpServer) (Config.init storage) c) : AcceptedOnly c := by
  have start : AcceptedOnly (Config.init storage : SmtpConfig) := by
    refine ⟨fun n s hn => ?_, fun mail hmail => ?_⟩
    · cases hn
    · cases hmail
  have h := reaches_invariant (P := fun c => Delivering storage c ∧ AcceptedOnly c) run
    ⟨delivering_reaches .refl, start⟩ fun _ _ hc hs =>
      ⟨delivering_step hc.1 hs, acceptedOnly_step hc.1 hc.2 hs⟩
  exact h.2

theorem delivered_created {before after : MailStorage} {mails : List Mail}
    (h : DeliversExactly before after mails) {address : Text} (ha : address ∈ after.maildrops) :
    address ∈ before.maildrops ∨
      ∃ mail ∈ mails, address ∈ mail.recipients.toList ∧ isLocal address := by
  by_cases hmail : ∃ mail ∈ mails, address ∈ mail.recipients.toList ∧ isLocal address
  · exact Or.inr hmail
  · have hsame := h.untouched address fun mail hm hr => hmail ⟨mail, hm, hr⟩
    rw [← AList.lookup_isSome, hsame, AList.lookup_isSome] at ha
    exact Or.inl ha

/-- Mails are delivered to the local domain only if and only if none comes to a recipient whose
domain is longer, and begins with the name of the server. -/
theorem delivers_locally_iff {storage : MailStorage} {c : SmtpConfig}
    (run : ReflTransGen (MachineStep smtpServer) (Config.init storage) c) :
    DeliversLocally storage c.store (completedMails c.log) ↔
      ∀ mail ∈ completedMails c.log, ∀ recipient ∈ mail.recipients.toList,
        ¬ ExtendsHostName recipient := by
  have hdel := (delivering_reaches run).delivers
  have haccepted := (acceptedOnly_reaches run).mails
  constructor
  · intro h mail hmail recipient hr hext
    have hkept : mail ∈ (completedMails c.log).filter fun mail =>
        recipient ∈ mail.recipients.toList ∧ isLocal recipient := by
      have hlocal := (isLocal_or_extends (haccepted mail hmail recipient hr)).mpr (Or.inr hext)
      simp [hmail, hr, hlocal]
    have hnone : ((completedMails c.log).filter fun mail =>
        recipient ∈ mail.recipients.toList ∧ HasHostName recipient) = [] := by
      simp [hext.2]
    have hinbox := (hdel.inbox recipient).symm.trans (h.inbox recipient)
    rw [hnone, List.append_nil, List.append_right_eq_self] at hinbox
    rw [hinbox] at hkept
    cases hkept
  · intro h
    have hsame : ∀ mail ∈ completedMails c.log, ∀ address ∈ mail.recipients.toList,
        isLocal address = true ↔ HasHostName address := by
      intro mail hmail address ha
      rw [isLocal_or_extends (haccepted mail hmail address ha)]
      exact or_iff_left (h mail hmail address ha)
    constructor
    · intro address
      rw [hdel.inbox address]
      congr 1
      refine List.filter_congr fun mail hmail => ?_
      by_cases ha : address ∈ mail.recipients.toList
      · simp [ha, hsame mail hmail address ha]
      · simp [ha]
    · intro address ha
      rcases delivered_created hdel ha with hbefore | ⟨mail, hmail, hr, hlocal⟩
      · exact Or.inl hbefore
      · exact Or.inr ((hsame mail hmail address hr).mp hlocal)

/-- One session, and one mail to one recipient. -/
def mailTo (recipient : String) : Option SmtpConfig :=
  oneSession.replay smtpServer <|
    [.scheduled, .written, .line "helo ab".toList, .written, .line "mail from:<a@bc>".toList,
      .written, .line ("rcpt to:<" ++ recipient ++ ">").toList, .written, .line "data".toList, .written,
      .body ["hi".toList, ".".toList]].map fun wake => (0, wake)

theorem mailTo_reached {recipient : String} (h : (mailTo recipient).isSome = true) :
    ReflTransGen (MachineStep smtpServer) (Config.init {}) ((mailTo recipient).get h) :=
  .head oneSession_spawned (machine_replay_reaches (fun e he => by cases he; exact oneSession_free)
    (Option.some_get h).symm)

theorem mailTo_local_isSome : (mailTo "liia@LocalHost").isSome = true := by decide +kernel

theorem delivers_locally_one : DeliversLocally {}
    ((mailTo "liia@LocalHost").get mailTo_local_isSome).store
    (completedMails ((mailTo "liia@LocalHost").get mailTo_local_isSome).log) := by
  refine (delivers_locally_iff (mailTo_reached mailTo_local_isSome)).mpr ?_
  have hmails : completedMails ((mailTo "liia@LocalHost").get mailTo_local_isSome).log =
      [⟨"a@bc".toList, Recipients.insert .empty "liia@LocalHost".toList,
        ["hi".toList, ".".toList]⟩] := by decide +kernel
  rw [hmails]
  intro mail hmail recipient hr
  rw [List.mem_singleton.mp hmail] at hr
  rw [show recipient = "liia@LocalHost".toList from List.mem_singleton.mp hr]
  exact fun h => h.2 (by decide)

theorem mailTo_longer_isSome : (mailTo "liia@localhost.example").isSome = true := by
  decide +kernel

/-- A mail to another domain makes a maildrop. -/
theorem delivers_elsewhere : ∃ c : SmtpConfig,
    ReflTransGen (MachineStep smtpServer) (Config.init {}) c ∧
    "liia@localhost.example".toList ∈ c.store.maildrops ∧
    ¬ HasHostName "liia@localhost.example".toList ∧
    ¬ DeliversLocally {} c.store (completedMails c.log) := by
  have hmem : "liia@localhost.example".toList ∈
      ((mailTo "liia@localhost.example").get mailTo_longer_isSome).store.maildrops := by
    rw [← AList.lookup_isSome]
    decide +kernel
  have hother : ¬ HasHostName "liia@localhost.example".toList := by decide
  refine ⟨_, mailTo_reached mailTo_longer_isSome, hmem, hother, fun h => ?_⟩
  rcases h.created _ hmem with hbefore | hname
  · cases hbefore
  · exact hother hname

end Protocols
