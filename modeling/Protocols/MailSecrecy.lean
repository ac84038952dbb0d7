import Protocols.MailServer
import Protocols.Unwinding

namespace Protocols

open Relation

/-- Two maildrops that differ in nothing but what their mails say. -/
structure SameShape (drop drop' : Maildrop) : Prop where
  transaction : drop'.transaction = drop.transaction
  keys : drop'.mails.keys = drop.mails.keys
  lengths : ∀ box, (drop'.mails.lookup box).map List.length =
    (drop.mails.lookup box).map List.length

/-- The storages differ in nothing but what the mails of the user say. -/
structure Hides (user : Text) (storage storage' : MailStorage) : Prop where
  others : ∀ name, name ≠ user → storage'.maildrops.lookup name = storage.maildrops.lookup name
  shape : Option.Rel SameShape (storage.maildrops.lookup user) (storage'.maildrops.lookup user)

/-- The events that may differ are the lines that tell of the user's mails, and the bodies. -/
inductive SameEvent (user : Text) : SessionEvent → SessionEvent → Prop
  | same (e : SessionEvent) : SameEvent user e e
  | listed (line line' : Text) : SameEvent user (.listed user line) (.listed user line')
  | heardBody (lines lines' : List Text) : SameEvent user (.heardBody lines) (.heardBody lines')

def SmtpSession.withMessage (s : SmtpSession) (message : List Text) : SmtpSession :=
  { s with currentMail := { s.currentMail with message := message } }

/-- The sessions are the same but for the lines of a mail that has been delivered. -/
inductive AlikeSession : MailSession → MailSession → Prop
  | smtp (s : SmtpSession) (message : List Text) :
      AlikeSession (.smtp s) (.smtp (s.withMessage message))
  | pop3 (s : Pop3Session) : AlikeSession (.pop3 s) (.pop3 s)
  | imap (s : ImapSession) : AlikeSession (.imap s) (.imap s)

/-- A mail may differ that goes into no maildrop but the user's. -/
inductive SameWake (user : Text) : MailSession → MailWake → MailWake → Prop
  | same (l : MailSession) (wake : MailWake) : SameWake user l wake wake
  | body (s : SmtpSession) (lines lines' : List Text) :
      (∀ r ∈ s.currentMail.recipients.toList, isLocal r → r = user) → IsBody lines' →
      SameWake user (.smtp s) (.body lines) (.body lines')

def blind (user : Text) : Blur MailStorage MailSession MailWake SessionEvent :=
  ⟨Hides user, AlikeSession, SameWake user, SameEvent user⟩

theorem sameShape_refl (drop : Maildrop) : SameShape drop drop := ⟨rfl, rfl, fun _ => rfl⟩

theorem hides_refl (user : Text) (storage : MailStorage) : Hides user storage storage := by
  refine ⟨fun _ _ => rfl, ?_⟩
  cases storage.maildrops.lookup user with
  | none => exact .none
  | some drop => exact .some (sameShape_refl drop)

theorem sameEvents_refl (user : Text) (out : List SessionEvent) :
    List.Forall₂ (SameEvent user) out out :=
  List.forall₂_same.mpr fun e _ => .same e

theorem keys_modify_congr {t t' : Table Text (List Mail)} (h : t'.keys = t.keys) (box : Text)
    (d d' : List Mail) (f f' : List Mail → List Mail) :
    (t'.modify box d' f').keys = (t.modify box d f).keys := by
  by_cases hbox : box ∈ t
  · have hbox' : box ∈ t' := by
      rw [AList.mem_keys, h, ← AList.mem_keys]
      exact hbox
    rw [keys_modify hbox, keys_modify hbox', h]
  · have hbox' : box ∉ t' := by
      rw [AList.mem_keys, h, ← AList.mem_keys]
      exact hbox
    rw [Table.modify, Table.modify, AList.lookup_eq_none.mpr hbox, AList.lookup_eq_none.mpr hbox',
      AList.keys_insert, AList.keys_insert, h]

theorem SameShape.push {drop drop' : Maildrop} (h : SameShape drop drop') (box : Text)
    (mail mail' : Mail) : SameShape (drop.push box mail) (drop'.push box mail') := by
  refine ⟨h.transaction, keys_modify_congr h.keys box _ _ _ _, fun name => ?_⟩
  by_cases hname : name = box
  · subst hname
    have hl := h.lengths name
    simp only [Maildrop.push, lookup_modify_self, Option.map_some]
    cases ha : drop.mails.lookup name with
    | none =>
      rw [ha] at hl
      rw [Option.map_eq_none_iff.mp hl]
      rfl
    | some mails =>
      rw [ha] at hl
      obtain ⟨mails', hb, hlen⟩ := Option.map_eq_some_iff.mp hl
      rw [hb]
      simp [hlen]
  · simp only [Maildrop.push, lookup_modify_ne _ _ _ hname]
    exact h.lengths name

section

variable {user : Text} {storage storage' : MailStorage}

theorem Hides.lookup (h : Hides user storage storage') (name : Text) :
    Option.Rel SameShape (storage.maildrops.lookup name) (storage'.maildrops.lookup name) := by
  by_cases hn : name = user
  · subst hn
    exact h.shape
  · rw [h.others name hn]
    cases storage.maildrops.lookup name with
    | none => exact .none
    | some drop => exact .some (sameShape_refl drop)

theorem Hides.isNone (h : Hides user storage storage') {name : Text}
    (hn : storage.maildrops.lookup name = none) : storage'.maildrops.lookup name = none := by
  have hl := h.lookup name
  rw [hn] at hl
  cases he : storage'.maildrops.lookup name with
  | none => rfl
  | some _ => rw [he] at hl; cases hl

theorem Hides.isSome (h : Hides user storage storage') {name : Text} {drop : Maildrop}
    (hn : storage.maildrops.lookup name = some drop) :
    ∃ drop', storage'.maildrops.lookup name = some drop' ∧ SameShape drop drop' := by
  have hl := h.lookup name
  rw [hn] at hl
  cases he : storage'.maildrops.lookup name with
  | none => rw [he] at hl; cases hl
  | some drop' =>
    rw [he] at hl
    cases hl with
    | some hs => exact ⟨drop', rfl, hs⟩

theorem Hides.noMailbox (h : Hides user storage storage') {name box : Text}
    (hn : storage.mailbox name box = none) : storage'.mailbox name box = none := by
  unfold MailStorage.mailbox at *
  cases hl : storage.maildrops.lookup name with
  | none => rw [h.isNone hl]; rfl
  | some drop =>
    obtain ⟨drop', hl', hs⟩ := h.isSome hl
    have hlen := hs.lengths box
    rw [hl, Option.bind_some] at hn
    rw [hn] at hlen
    rw [hl', Option.bind_some]
    exact Option.map_eq_none_iff.mp hlen

theorem Hides.mailbox (h : Hides user storage storage') {name box : Text} {mails : List Mail}
    (hn : storage.mailbox name box = some mails) : ∃ mails', storage'.mailbox name box = some mails' ∧
      mails'.length = mails.length ∧ (name = user ∨ mails' = mails) := by
  by_cases hname : name = user
  · obtain ⟨drop, hl, hbox⟩ := Option.bind_eq_some_iff.mp hn
    obtain ⟨drop', hl', hs⟩ := h.isSome hl
    have hlen := hs.lengths box
    rw [hbox] at hlen
    obtain ⟨mails', hbox', hlen⟩ := Option.map_eq_some_iff.mp hlen
    exact ⟨mails', Option.bind_eq_some_iff.mpr ⟨drop', hl', hbox'⟩, hlen, Or.inl hname⟩
  · refine ⟨mails, ?_, rfl, Or.inr rfl⟩
    rw [MailStorage.mailbox, h.others name hname]
    exact hn

theorem Hides.names (h : Hides user storage storage') (name : Text) :
    storage'.mailboxNames name = storage.mailboxNames name := by
  unfold MailStorage.mailboxNames
  cases hl : storage.maildrops.lookup name with
  | none => rw [h.isNone hl]
  | some drop =>
    obtain ⟨drop', hl', hs⟩ := h.isSome hl
    rw [hl']
    exact hs.keys

/-- A maildrop is changed alike in both storages. -/
theorem Hides.modify (h : Hides user storage storage') {f f' : Maildrop → Maildrop} (name : Text)
    (hf : ∀ drop drop', SameShape drop drop' → SameShape (f drop) (f' drop'))
    (hne : name ≠ user → f' = f) :
    Hides user ⟨storage.maildrops.modify name {} f⟩ ⟨storage'.maildrops.modify name {} f'⟩ := by
  constructor
  · intro other hother
    by_cases hn : other = name
    · subst hn
      simp only [lookup_modify_self, h.others other hother, hne hother]
    · simp only [lookup_modify_ne _ _ _ hn, h.others other hother]
  · by_cases hn : user = name
    · subst hn
      simp only [lookup_modify_self]
      cases hl : storage.maildrops.lookup user with
      | none =>
        rw [h.isNone hl]
        exact .some (hf _ _ (sameShape_refl _))
      | some drop =>
        obtain ⟨drop', hl', hs⟩ := h.isSome hl
        rw [hl']
        exact .some (hf _ _ hs)
    · simp only [lookup_modify_ne _ _ _ hn]
      exact h.shape

theorem Hides.setTransaction (h : Hides user storage storage') (name : Text) (held : Bool) :
    Hides user (storage.setTransaction name held) (storage'.setTransaction name held) :=
  h.modify name (fun _ _ hs => ⟨rfl, hs.keys, hs.lengths⟩) fun _ => rfl

theorem Hides.release (h : Hides user storage storage') (lock : Option Text) :
    Hides user (storage.release lock) (storage'.release lock) := by
  cases lock with
  | none => exact h
  | some name => exact h.setTransaction name false

theorem Hides.index (h : Hides user storage storage') (name : Text) :
    Hides user (storage.index name) (storage'.index name) :=
  h.modify name (fun _ _ hs => hs) fun _ => rfl

theorem Hides.push (h : Hides user storage storage') {name : Text} {mail mail' : Mail}
    (hne : name ≠ user → mail' = mail) (box : Text) :
    Hides user (storage.push name box mail) (storage'.push name box mail') :=
  h.modify name (fun _ _ hs => hs.push box mail mail') fun hn => by rw [hne hn]

theorem Hides.pushEach (h : Hides user storage storage') {mail mail' : Mail} {recipients : List Text}
    (hne : mail' = mail ∨ ∀ r ∈ recipients, r = user) (box : Text) :
    Hides user (recipients.foldl (fun storage r => storage.push r box mail) storage)
      (recipients.foldl (fun storage r => storage.push r box mail') storage') := by
  induction recipients generalizing storage storage' with
  | nil => exact h
  | cons r recipients ih =>
    refine ih (h.push (fun hr => ?_) box) ?_
    · rcases hne with he | hall
      · exact he
      · exact absurd (hall r List.mem_cons_self) hr
    · exact hne.imp_right fun hall s hs => hall s (List.mem_cons_of_mem r hs)

theorem Hides.deliver (h : Hides user storage storage') {mail mail' : Mail}
    (hr : mail'.recipients = mail.recipients)
    (hne : mail' = mail ∨ ∀ r ∈ mail.recipients.toList, isLocal r → r = user) :
    Hides user (storage.deliver mail) (storage'.deliver mail') := by
  unfold MailStorage.deliver
  rw [hr]
  refine h.pushEach (hne.imp_right fun hall r hm => ?_) inboxName
  obtain ⟨hm, hlocal⟩ := List.mem_filter.mp hm
  exact hall r hm hlocal

/-- Two outcomes of a POP3 session that the observer takes for the same. -/
structure SameOutcome (user : Text) (o o' : Pop3Outcome) : Prop where
  storage : Hides user o.1 o'.1
  session : o'.2.1 = o.2.1
  out : List.Forall₂ (SameEvent user) o.2.2 o'.2.2

section

variable (s : Pop3Session) (h : Hides user storage storage')

include h

theorem sameOutcome_reply (line : Text) (after : Pop3After) :
    SameOutcome user (s.reply storage line after) (s.reply storage' line after) :=
  ⟨h, rfl, sameEvents_refl _ _⟩

theorem sameOutcome_tell {line line' : Text} (hline : s.user = user ∨ line' = line)
    (after : Pop3After) :
    SameOutcome user (s.tell storage line after) (s.tell storage' line' after) := by
  refine ⟨h, rfl, .cons ?_ .nil⟩
  rcases hline with rfl | rfl
  · exact .listed _ _
  · exact .same _

theorem sameOutcome_finish : SameOutcome user (s.finish storage) (s.finish storage') :=
  ⟨(h.release _).release _, rfl, .nil⟩

theorem sameOutcome_enter (state : Pop3State) :
    SameOutcome user (s.enter storage state) (s.enter storage' state) := by
  cases state with
  | greeting => exact sameOutcome_reply _ h _ _
  | authorization => exact ⟨h, rfl, .nil⟩
  | transaction => exact ⟨h, rfl, .nil⟩
  | quit => exact sameOutcome_finish _ h

theorem sameOutcome_authorization (command : Pop3Command) (arguments : List Text) :
    SameOutcome user (s.authorization storage command arguments)
      (s.authorization storage' command arguments) := by
  cases command with
  | user =>
    by_cases hu : s.user ≠ []
    · simp only [Pop3Session.authorization, if_pos hu]
      exact sameOutcome_reply s h _ _
    · simp only [Pop3Session.authorization, if_neg hu]
      cases hl : storage.maildrops.lookup (str arguments 1) with
      | none =>
        rw [h.isNone hl]
        exact sameOutcome_reply s h _ _
      | some drop =>
        obtain ⟨drop', hl', _⟩ := h.isSome hl
        rw [hl']
        exact sameOutcome_reply _ h _ _
  | pass =>
    by_cases hu : s.user = []
    · simp only [Pop3Session.authorization, if_pos hu]
      exact sameOutcome_reply s h _ _
    · simp only [Pop3Session.authorization, if_neg hu]
      cases hl : storage.maildrops.lookup s.user with
      | none =>
        rw [h.isNone hl]
        exact sameOutcome_finish s h
      | some drop =>
        obtain ⟨drop', hl', hs⟩ := h.isSome hl
        rw [hl']
        simp only [hs.transaction]
        split
        next => exact sameOutcome_reply s h _ _
        next => exact sameOutcome_reply _ (h.setTransaction _ _) _ _
  | quit => exact sameOutcome_reply s h _ _
  | list => exact sameOutcome_reply s h _ _
  | unknown => exact sameOutcome_reply s h _ _

theorem sameOutcome_scan (i : Nat) :
    SameOutcome user (s.scan storage i) (s.scan storage' i) := by
  unfold Pop3Session.scan
  cases hm : storage.mailbox s.user inboxName with
  | none =>
    rw [h.noMailbox hm]
    exact sameOutcome_finish s h
  | some mails =>
    obtain ⟨mails', hm', hlen, hsame⟩ := h.mailbox hm
    rw [hm']
    by_cases hi : i < mails.length
    · have hi' : i < mails'.length := by omega
      simp only [List.getElem?_eq_getElem hi, List.getElem?_eq_getElem hi']
      refine sameOutcome_tell s h (hsame.imp_right fun he => ?_) _
      subst he
      rfl
    · simp only [List.getElem?_eq_none (Nat.not_lt.mp hi),
        List.getElem?_eq_none (show mails'.length ≤ i by omega)]
      exact sameOutcome_reply s h _ _

theorem sameOutcome_list (arguments : List Text) :
    SameOutcome user (s.list storage arguments) (s.list storage' arguments) := by
  have hi := h.index s.user
  unfold Pop3Session.list
  dsimp only
  cases hm : (storage.index s.user).mailbox s.user inboxName with
  | none =>
    rw [hi.noMailbox hm]
    exact sameOutcome_finish s hi
  | some mails =>
    obtain ⟨mails', hm', hlen, hsame⟩ := hi.mailbox hm
    rw [hm']
    dsimp only
    split
    next =>
      cases stoi (str arguments 1) with
      | none => exact sameOutcome_finish s hi
      | some messageNum =>
        dsimp only
        rw [hlen]
        split
        next => exact sameOutcome_reply s hi _ _
        next => exact sameOutcome_tell s hi (hsame.imp_right fun he => by rw [he]) _
    next => exact sameOutcome_tell s hi (hsame.imp_right fun he => by rw [he]) _

theorem sameOutcome_request (request : Text) :
    SameOutcome user (s.request storage request) (s.request storage' request) := by
  unfold Pop3Session.request
  obtain ⟨command, arguments⟩ := pop3ParseRequest request
  cases s.state with
  | authorization => exact sameOutcome_authorization s h command arguments
  | transaction =>
    cases command with
    | list => exact sameOutcome_list s h arguments
    | quit => exact sameOutcome_reply s h _ _
    | user => exact sameOutcome_reply s h _ _
    | pass => exact sameOutcome_reply s h _ _
    | unknown => exact sameOutcome_reply s h _ _
  | greeting => exact ⟨h, rfl, .nil⟩
  | quit => exact ⟨h, rfl, .nil⟩

theorem sameOutcome_replied (after : Pop3After) :
    SameOutcome user (s.replied storage after) (s.replied storage' after) := by
  cases after with
  | next state => exact sameOutcome_enter s h state
  | begin =>
    unfold Pop3Session.replied Pop3Session.begin
    exact sameOutcome_enter _ (h.release _) _
  | scan i => exact sameOutcome_scan s h i

theorem pop3_blind {wake : MailWake} {o : Pop3Outcome} (hr : pop3Resume storage s wake = some o) :
    ∃ o', pop3Resume storage' s wake = some o' ∧ SameOutcome user o o' := by
  cases pop3Resume_step hr with
  | greeted hc hw he =>
    subst hw he
    exact ⟨_, by simp only [pop3Resume, hc], sameOutcome_enter s h _⟩
  | heard request hc hw he =>
    subst hw he
    have hs := sameOutcome_request s h request
    exact ⟨((s.request storage' request).1, (s.request storage' request).2.1,
      .heard request :: (s.request storage' request).2.2), by simp only [pop3Resume, hc],
      hs.storage, hs.session, .cons (.same _) hs.out⟩
  | written after hc hw he =>
    subst hw he
    exact ⟨_, by simp only [pop3Resume, hc], sameOutcome_replied s h after⟩
  | dropped hc hw he =>
    subst hw he
    refine ⟨s.finish storage', ?_, sameOutcome_finish s h⟩
    rcases hc with hc | ⟨after, hc⟩
    · simp only [pop3Resume, hc]
    · simp only [pop3Resume, hc]

end

theorem imap_list_blind (s : ImapSession) (h : Hides user storage storage')
    (arguments : List Text) : s.list storage' arguments = s.list storage arguments := by
  unfold ImapSession.list
  cases hl : storage.maildrops.lookup s.user with
  | none => rw [h.isNone hl]
  | some drop =>
    obtain ⟨drop', hl', hs⟩ := h.isSome hl
    simp only [hl', AList.mem_keys, hs.keys]

theorem imap_request_blind (s : ImapSession) (h : Hides user storage storage') (request : Text) :
    s.request storage' request = s.request storage request := by
  unfold ImapSession.request
  obtain ⟨command, arguments⟩ := imapParseRequest request
  cases s.state with
  | unauthenticated =>
    cases command with
    | login =>
      simp only [ImapSession.unauthenticated]
      cases hl : storage.maildrops.lookup (ImapSession.withDomain (str arguments 2)) with
      | none => rw [h.isNone hl]
      | some drop =>
        obtain ⟨drop', hl', _⟩ := h.isSome hl
        rw [hl']
    | _ => rfl
  | authenticated =>
    cases command with
    | list => exact imap_list_blind s h arguments
    | _ => rfl
  | _ => rfl

/-- An IMAP session tells nothing of what a mail says. -/
theorem imap_blind (s : ImapSession) (h : Hides user storage storage') (wake : MailWake) :
    imapResume storage' s wake = imapResume storage s wake := by
  have hreplied : ∀ after, s.replied storage' after = s.replied storage after := by
    intro after
    cases after with
    | list tag keys mailboxes => simp only [ImapSession.replied, h.names]
    | _ => rfl
  simp only [imapResume, imap_request_blind s h, hreplied]

/-- What a session does that holds another message. -/
def SameAnswer (r r' : SmtpSession × List SessionEvent) : Prop :=
  ∃ message, r' = (r.1.withMessage message, r.2)

theorem sameAnswer_refl (r : SmtpSession × List SessionEvent) : SameAnswer r r :=
  ⟨r.1.currentMail.message, rfl⟩

theorem sameAnswer_enter (s : SmtpSession) (message : List Text) (state : SmtpState) :
    SameAnswer (s.enter state) ((s.withMessage message).enter state) := by
  cases state with
  | greet => exact ⟨message, rfl⟩
  | waitHelo => exact ⟨message, rfl⟩
  | initTransaction => exact ⟨message, rfl⟩
  | recipients => exact ⟨message, rfl⟩
  | data => exact ⟨message, rfl⟩
  | quit => exact ⟨message, rfl⟩

theorem sameAnswer_reply (s : SmtpSession) (message : List Text) (line : Text) (after : SmtpAfter) :
    SameAnswer (s.reply line after) ((s.withMessage message).reply line after) := ⟨message, rfl⟩

theorem sameAnswer_ite {p : Prop} [Decidable p] {a a' b b' : SmtpSession × List SessionEvent}
    (ha : SameAnswer a a') (hb : SameAnswer b b') :
    SameAnswer (if p then a else b) (if p then a' else b') := by
  split
  next => exact ha
  next => exact hb

theorem smtp_request_blind (s : SmtpSession) (message : List Text) (request : Text) :
    SameAnswer (s.request request) ((s.withMessage message).request request) := by
  have hstate : (s.withMessage message).state = s.state := rfl
  unfold SmtpSession.request
  rw [hstate]
  obtain ⟨command, arguments⟩ := smtpParseRequest request
  cases s.state with
  | waitHelo =>
    cases command with
    | helo => exact sameAnswer_ite (sameAnswer_reply s _ _ _) (sameAnswer_reply s _ _ _)
    | quit => exact sameAnswer_enter s message .quit
    | _ => exact sameAnswer_reply s message _ _
  -- a new mail is begun, whatever the last one said
  | initTransaction => exact sameAnswer_refl _
  | recipients =>
    cases command with
    | rcpt => exact sameAnswer_ite (sameAnswer_reply s _ _ _) (sameAnswer_reply s _ _ _)
    | data => exact sameAnswer_ite (sameAnswer_reply s _ _ _) (sameAnswer_enter s _ _)
    | quit => exact sameAnswer_enter s message .quit
    | _ => exact sameAnswer_reply s message _ _
  | _ => exact ⟨message, rfl⟩

theorem smtp_replied_blind (s : SmtpSession) (after : SmtpAfter) (message : List Text) :
    SameAnswer (s.replied after) ((s.withMessage message).replied after) := by
  cases after with
  | next state => exact sameAnswer_enter s message state
  | sender address => exact ⟨message, rfl⟩
  | recipient address => exact ⟨message, rfl⟩
  | readBody => exact ⟨message, rfl⟩
  | close => exact ⟨message, rfl⟩

theorem smtp_blind {s t : SmtpSession} {wake wake' : MailWake} {out : List SessionEvent}
    {stored : MailStorage} (h : Hides user storage storage') (message : List Text)
    (hw : SameWake user (.smtp s) wake wake')
    (hr : smtpResume storage s wake = some (stored, t, out)) :
    ∃ stored' message' out', smtpResume storage' (s.withMessage message) wake' =
        some (stored', t.withMessage message', out') ∧
      Hides user stored stored' ∧ List.Forall₂ (SameEvent user) out out' := by
  have hcontrol : (s.withMessage message).control = s.control := rfl
  cases smtpResume_step hr with
  | greeted hc hwake he =>
    subst hwake
    cases hw
    cases he
    exact ⟨storage', message, _, by simp only [smtpResume, hcontrol, hc]; rfl, h,
      sameEvents_refl _ _⟩
  | heard request hc hwake he =>
    subst hwake
    cases hw
    cases he
    obtain ⟨message', hm⟩ := smtp_request_blind s message request
    exact ⟨storage', message', _, by simp only [smtpResume, hcontrol, hc, hm], h,
      sameEvents_refl _ _⟩
  | heardBody lines hc hwake hbody he =>
    subst hwake
    cases he
    cases hw with
    | same =>
      exact ⟨((s.withMessage message).deliver storage' lines).1, lines, _,
        by simp only [smtpResume, hcontrol, hc, if_pos hbody]; rfl,
        h.deliver rfl (Or.inl rfl), sameEvents_refl _ _⟩
    | body _ _ lines' honly hbody' =>
      exact ⟨((s.withMessage message).deliver storage' lines').1, lines',
        ((s.withMessage message).deliver storage' lines').2.2,
        by simp only [smtpResume, hcontrol, hc, if_pos hbody']; rfl,
        h.deliver rfl (Or.inr honly), .cons (.heardBody _ _) (sameEvents_refl _ _)⟩
  | written after hc hwake he =>
    subst hwake
    cases hw
    obtain ⟨rfl, hanswer⟩ := Prod.mk.inj he
    obtain ⟨message', hm⟩ := smtp_replied_blind s after message
    rw [← hanswer] at hm
    exact ⟨storage', message', out, by simp only [smtpResume, hcontrol, hc, hm], h,
      sameEvents_refl _ _⟩
  | dropped hc hwake he =>
    subst hwake
    cases hw
    cases he
    refine ⟨storage', message, _, ?_, h, sameEvents_refl _ _⟩
    rcases hc with hc | ⟨after, hc⟩ | hc
    · simp only [smtpResume, hcontrol, hc]
      rfl
    · simp only [smtpResume, hcontrol, hc]
      rfl
    · simp only [smtpResume, hcontrol, hc]
      rfl

end

theorem mailServer_blind (user : Text) : (blind user).Unwinds mailServer := by
  constructor
  · rintro l (rfl | rfl | rfl)
    · exact .smtp {} []
    · exact .pop3 {}
    · exact .imap {}
  · intro l l' hl
    cases hl with
    | smtp | pop3 | imap => rfl
  · intro storage storage' l l' wake wake' stored k out h hl hw hr
    cases hl with
    | smtp s message =>
      obtain ⟨t, rfl, ht⟩ := mailResume_smtp hr
      obtain ⟨stored', message', out', hr', hs, hout⟩ := smtp_blind h message hw ht
      exact ⟨stored', _, out', Option.map_eq_some_iff.mpr ⟨_, hr', rfl⟩, hs, .smtp t message', hout⟩
    | pop3 s =>
      cases hw
      obtain ⟨t, rfl, ht⟩ := mailResume_pop3 hr
      obtain ⟨o', hr', hs⟩ := pop3_blind s h ht
      refine ⟨o'.1, .pop3 o'.2.1, o'.2.2, Option.map_eq_some_iff.mpr ⟨o', hr', rfl⟩, hs.storage, ?_,
        hs.out⟩
      rw [hs.session]
      exact .pop3 t
    | imap s =>
      cases hw
      obtain ⟨t, rfl, ht, rfl⟩ := mailResume_imap hr
      exact ⟨storage', _, out,
        Option.map_eq_some_iff.mpr ⟨(t, out), (imap_blind s h wake).trans ht, rfl⟩, h, .imap t,
        sameEvents_refl _ _⟩

/-- What the mails of a user say reaches nobody but through the lines that tell of them: beside every
run of the server there is one with other mails, in which every session hears and says the same, and
the same happens to all else. -/
theorem mails_stay_secret {user : Text} {storage storage' : MailStorage}
    {events events' : List (Happening MailSession MailWake)} {c : MailConfig}
    (h : Hides user storage storage')
    (run : (blind user).Beside mailServer events events' (Config.init storage) c) :
    ReflTransGen MailStep (Config.init storage) c ∧
    ∃ d, History mailServer events' (Config.init storage') d ∧
      ReflTransGen MailStep (Config.init storage') d ∧ Hides user c.store d.store ∧
      ∀ n, List.Forall₂ (SameEvent user) (c.logOf n) (d.logOf n) := by
  obtain ⟨d, hd, hcd⟩ := (mailServer_blind user).history run
    (d := Config.init storage') ⟨h, fun _ => .none, fun _ => .nil⟩
  exact ⟨machine_reaches_iff_history.mpr ⟨_, run.history⟩, d, hd,
    machine_reaches_iff_history.mpr ⟨_, hd⟩, hcd.store, hcd.log⟩

/-- A session that has read the envelope of a mail, and reads its body. -/
def envelopeRead : List (Nat × MailWake) :=
  [.scheduled, .written, .line "helo ab".toList, .written, .line "mail from:<a@bc>".toList, .written,
    .line "rcpt to:<liia@localhost>".toList, .written, .line "data".toList, .written].map
    fun wake => (0, wake)

def envelopeStart : MailConfig :=
  ⟨mockData, Function.update (fun _ => none) 0 (some (.smtp {})), []⟩

def enveloped : Option MailConfig := envelopeStart.replay mailServer envelopeRead

theorem enveloped_isSome : enveloped.isSome = true := by decide +kernel

/-- Two mails to one user, of whom nobody hears. -/
theorem mails_stay_secret_two_bodies : ∃ c d,
    History mailServer (.spawn 0 (.smtp {}) :: (envelopeRead.map fun e => .resume e.1 e.2) ++
      [.resume 0 (.body ["hi".toList, ".".toList])]) (Config.init mockData) c ∧
    History mailServer (.spawn 0 (.smtp {}) :: (envelopeRead.map fun e => .resume e.1 e.2) ++
      [.resume 0 (.body ["bye".toList, ".".toList])]) (Config.init mockData) d ∧
    Hides "liia@localhost".toList c.store d.store ∧
    ∀ n, List.Forall₂ (SameEvent "liia@localhost".toList) (c.logOf n) (d.logOf n) := by
  let s : SmtpSession := ⟨.data,
    ⟨"a@bc".toList, Recipients.insert .empty "liia@localhost".toList, []⟩, .readingBody⟩
  have hs : (enveloped.get enveloped_isSome).threads 0 = some (.smtp s) := by decide +kernel
  have free : envelopeStart.Free mailServer 0 :=
    free_update mockData [] (free_init mockData 0) (Or.inl rfl)
  have first : History mailServer _ _ _ :=
    replay_history (fun e he => by cases he; exact free) (Option.some_get enveloped_isSome).symm
  have same : ∀ l i, (blind "liia@localhost".toList).input l i i := fun l i => .same l i
  have body : IsBody ["bye".toList, ".".toList] := by decide
  have spawned : Happens mailServer (.spawn 0 (.smtp {})) (Config.init mockData) envelopeStart :=
    .spawn rfl (Or.inl rfl) (free_init mockData 0)
  have before := Blur.beside_self same (.cons spawned first)
  have bodies : ∀ l, (enveloped.get enveloped_isSome).threads 0 = some l →
      SameWake "liia@localhost".toList l (.body ["hi".toList, ".".toList])
        (.body ["bye".toList, ".".toList]) := by
    intro l hl
    rw [hs] at hl
    cases hl
    exact .body s _ _ (by decide +kernel) body
  have after : (enveloped.get enveloped_isSome).Free mailServer 0 :=
    replay_free (List.cons_ne_nil _ _) (fun e he => by cases he; exact free)
      (Option.some_get enveloped_isSome).symm (by decide +kernel)
  have run := before.append (.cons (.resume hs rfl after) (.resume 0 _ _ bodies) (.nil _))
  obtain ⟨_, d, hd, _, hides, hlog⟩ := mails_stay_secret (hides_refl _ mockData) run
  exact ⟨_, d, run.history, hd, hides, hlog⟩

end Protocols
