import Protocols.MailInvariant
import Protocols.MaildropAccess

namespace Protocols

/-- Two addresses that differ in the case of their domains at most. -/
structure SameButDomainCase (a b : Text) : Prop where
  user : localPart a = localPart b
  host : (domainPart a).map Char.toLower = (domainPart b).map Char.toLower

/-- USER with the address opens the maildrop of the user. -/
def OpensByPop3 (storage : MailStorage) (address user : Text) : Prop :=
  ∀ s : Pop3Session, s.control = .reading → s.state = .authorization → s.user = [] →
    ∃ t, pop3Resume storage s (.line (userRequest address)) =
      some (storage, t, [.heard (userRequest address), .sent positive]) ∧ t.user = user

/-- LOGIN with the address opens the maildrop of the user. -/
def OpensByImap (storage : MailStorage) (address user : Text) : Prop :=
  ∀ (s : ImapSession) tag password, s.control = .reading → s.state = .unauthenticated →
    IsTag tag → IsToken password →
    ∃ t, imapResume storage s (.line (loginRequest tag address password)) =
      some (t, [.heard (loginRequest tag address password), .sent (ok tag)]) ∧ t.user = user

/-- The mails to the two addresses come into one maildrop, and both addresses open it. -/
def OneMailbox (a b : Text) : Prop :=
  ∀ (storage : MailStorage) (mail mail' : Mail), a ∈ mail.recipients.toList →
    b ∈ mail'.recipients.toList → ∃ user,
      mail ∈ ((storage.deliver mail).deliver mail').inbox user ∧
      mail' ∈ ((storage.deliver mail).deliver mail').inbox user ∧
      ∀ address, address = a ∨ address = b →
        OpensByPop3 ((storage.deliver mail).deliver mail') address user ∧
        OpensByImap ((storage.deliver mail).deliver mail') address user

section

variable {storage : MailStorage} {address user : Text}

theorem user_answered {s : Pop3Session} {arguments : List Text} (hu : s.user = [])
    (ha : str arguments 1 = address) : s.authorization storage .user arguments =
      if address ∈ storage.maildrops then
        { s with user := address }.reply storage positive (.next .authorization)
      else s.reply storage noUser (.next .authorization) := by
  subst ha
  simp only [Pop3Session.authorization, hu, ne_eq, not_true_eq_false, if_false]
  cases hm : storage.maildrops.lookup (str arguments 1) with
  | none => rw [if_neg (AList.lookup_eq_none.mp hm)]
  | some drop => rw [if_pos (AList.lookup_isSome.mp (by simp [hm]))]

theorem user_opens (hr : RecognisedByPop3 address) (hm : address ∈ storage.maildrops) :
    OpensByPop3 storage address address := by
  intro s hc hs hu
  refine ⟨{ s with user := address, control := .writing (.next .authorization) }, ?_, rfl⟩
  simp only [pop3Resume, hc, Pop3Session.request, hs, hr.1, user_answered hu hr.2, if_pos hm,
    Pop3Session.reply]

/-- Only a USER that is recognised is answered so. -/
theorem user_opens_recognised (h : OpensByPop3 storage address user) : RecognisedByPop3 address := by
  apply pop3_recognises
  apply pop3Address_of_user
  obtain ⟨t, ht, _⟩ := h { state := .authorization, control := .reading } rfl rfl rfl
  simp only [pop3Resume, Pop3Session.request, Option.some.injEq, Prod.mk.injEq, List.cons.injEq]
    at ht
  have hsaid := ht.2.2.2
  have hnegative : [SessionEvent.sent negative] ≠ [.sent positive] := by decide
  have hquitting : [SessionEvent.sent quitting] ≠ [.sent positive] := by decide
  cases hcommand : (pop3ParseRequest (userRequest address)).1 with
  | user => rfl
  | quit =>
    rw [hcommand] at hsaid
    exact absurd hsaid hquitting
  | _ =>
    rw [hcommand] at hsaid
    exact absurd hsaid hnegative

theorem login_answered {s : ImapSession} {arguments : List Text} (hd : '@' ∈ address)
    (ha : str arguments 2 = address) : s.unauthenticated storage .login arguments =
      if address ∈ storage.maildrops then
        { s with user := address }.reply (ok (str arguments 1)) (.next .authenticated)
      else s.reply (no (str arguments 1)) (.next .unauthenticated) := by
  have hdomain : ImapSession.withDomain (str arguments 2) = address := by
    rw [ha]
    exact if_pos hd
  subst hdomain
  simp only [ImapSession.unauthenticated]
  cases hm : storage.maildrops.lookup (ImapSession.withDomain (str arguments 2)) with
  | none => rw [if_neg (AList.lookup_eq_none.mp hm)]
  | some drop => rw [if_pos (AList.lookup_isSome.mp (by simp [hm]))]

theorem login_opens (hr : RecognisedByImap address) (hd : '@' ∈ address)
    (hm : address ∈ storage.maildrops) : OpensByImap storage address address := by
  intro s tag password hc hs ht hp
  obtain ⟨hlogin, htag, huser⟩ := hr tag password ht hp
  refine ⟨{ s with user := address, control := .writing (.next .authenticated) }, ?_, rfl⟩
  simp only [imapResume, hc, ImapSession.request, hs, hlogin, login_answered hd huser, if_pos hm,
    htag, ImapSession.reply]

theorem login_opens_unique (h : OpensByImap storage address user) (hr : RecognisedByImap address)
    (hd : '@' ∈ address) (hm : address ∈ storage.maildrops) : user = address := by
  have htoken : IsToken ['a'] := ⟨by decide, List.forall_mem_singleton.mpr (by decide)⟩
  have htag : IsTag ['a'] := ⟨by decide, List.forall_mem_singleton.mpr (by decide)⟩
  obtain ⟨t, ht, rfl⟩ :=
    h { state := .unauthenticated, control := .reading } _ _ rfl rfl htag htoken
  obtain ⟨t', ht', ht'user⟩ :=
    login_opens hr hd hm { state := .unauthenticated, control := .reading } _ _ rfl rfl htag htoken
  rw [ht', Option.some.injEq, Prod.mk.injEq] at ht
  rw [← ht.1, ht'user]

theorem delivered_inbox {mail : Mail} (hr : address ∈ mail.recipients.toList)
    (hl : isLocal address = true) : mail ∈ (storage.deliver mail).inbox address := by
  rw [(deliver_exactly storage mail).inbox]
  simp [hr, hl]

theorem delivered_stays {mail m : Mail} (h : m ∈ storage.inbox address) :
    m ∈ (storage.deliver mail).inbox address := by
  rw [(deliver_exactly storage mail).inbox]
  exact List.mem_append_left _ h

theorem oneMailbox_same {a b : Text} (ha : IsKept a) (hb : IsKept b) (h : OneMailbox a b) :
    a = b ∧ HasLetterLabels a := by
  have hsmtp := rcpt_accepted_iff.mp ha.accepted
  have hsmtp' := rcpt_accepted_iff.mp hb.accepted
  -- one mail to each of them
  obtain ⟨user, _, _, hopens⟩ := h {} { recipients := Recipients.insert .empty a }
    { recipients := Recipients.insert .empty b } (List.mem_singleton_self a)
    (List.mem_singleton_self b)
  obtain ⟨hpop3, himap⟩ := hopens a (Or.inl rfl)
  obtain ⟨_, himap'⟩ := hopens b (Or.inr rfl)
  have hmem : a ∈ ((MailStorage.deliver {} { recipients := Recipients.insert .empty a }).deliver
      { recipients := Recipients.insert .empty b }).maildrops :=
    mem_deliver.mpr (Or.inr (mem_deliver.mpr (Or.inl ⟨List.mem_singleton_self a, ha.isLocal⟩)))
  have hmem' : b ∈ ((MailStorage.deliver {} { recipients := Recipients.insert .empty a }).deliver
      { recipients := Recipients.insert .empty b }).maildrops :=
    mem_deliver.mpr (Or.inl ⟨List.mem_singleton_self b, hb.isLocal⟩)
  have huser := login_opens_unique himap (imap_recognises (smtpAddress_token hsmtp))
    hsmtp.separated hmem
  have huser' := login_opens_unique himap' (imap_recognises (smtpAddress_token hsmtp'))
    hsmtp'.separated hmem'
  have hrecognised := user_opens_recognised hpop3
  exact ⟨huser.symm.trans huser',
    (pop3Address_iff hsmtp).mp (pop3_recognises_iff.mp hrecognised)⟩

/-- Spellings of an address have one mailbox if and only if they are the same, and POP3 takes it. -/
theorem one_mailbox_iff {a b : Text} (ha : IsKept a) (hb : IsKept b) (h : SameButDomainCase a b) :
    OneMailbox a b ↔ a = b ∧ HasLetterLabels a := by
  constructor
  · intro hone
    exact oneMailbox_same ha hb hone
  · intro hsame storage mail mail' hr hr'
    obtain ⟨rfl, hlabels⟩ := hsame
    have hsmtp := rcpt_accepted_iff.mp ha.accepted
    have hmem : a ∈ ((storage.deliver mail).deliver mail').maildrops :=
      mem_deliver.mpr (Or.inl ⟨hr', ha.isLocal⟩)
    refine ⟨a, delivered_stays (delivered_inbox hr ha.isLocal), delivered_inbox hr' ha.isLocal,
      fun address haddress => ?_⟩
    rw [or_self] at haddress
    rw [haddress]
    exact ⟨user_opens (pop3_recognises ((pop3Address_iff hsmtp).mpr hlabels)) hmem,
      login_opens (imap_recognises (smtpAddress_token hsmtp)) hsmtp.separated hmem⟩

end

theorem one_mailbox_liia : OneMailbox "liia@localhost".toList "liia@localhost".toList :=
  (one_mailbox_iff kept_liia kept_liia ⟨rfl, rfl⟩).mpr ⟨rfl, letterLabels_liia⟩

/-- Two spellings of the server's own domain. -/
theorem mailbox_split : IsKept "liia@localhost".toList ∧ IsKept "liia@LOCALHOST".toList ∧
    SameButDomainCase "liia@localhost".toList "liia@LOCALHOST".toList ∧
    ¬ OneMailbox "liia@localhost".toList "liia@LOCALHOST".toList := by
  have hkept : IsKept "liia@LOCALHOST".toList :=
    ⟨⟨"rcpt to:<liia@LOCALHOST>".toList, by decide +kernel⟩, by decide +kernel⟩
  refine ⟨kept_liia, hkept, ⟨by decide, by decide⟩, fun h => ?_⟩
  exact absurd (oneMailbox_same kept_liia hkept h).1 (by decide)

end Protocols
