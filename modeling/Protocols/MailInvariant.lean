import Protocols.Pop3List

namespace Protocols

open Relation

/-- Every maildrop has an `INBOX`. -/
def MailStorage.HasInboxes (storage : MailStorage) : Prop :=
  ∀ user drop, storage.maildrops.lookup user = some drop → inboxName ∈ drop.mails

/-- The maildrops and their mailboxes are the same, whoever holds the mutexes. -/
def SameMaildrops (storage storage' : MailStorage) : Prop :=
  ∀ user, (storage'.maildrops.lookup user).map Maildrop.mails =
    (storage.maildrops.lookup user).map Maildrop.mails

/-- A session whose user has been accepted, from the line that tells so on. -/
def Pop3Session.PastAuthorization (s : Pop3Session) : Prop :=
  s.state = .transaction ∨ s.control = .writing .begin ∨
    s.control = .writing (.next .transaction) ∨ ∃ i, s.control = .writing (.scan i)

def ImapAfter.Authenticated : ImapAfter → Prop
  | .next state | .complete _ state => state = .authenticated
  | .list _ _ _ => True

def ImapSession.PastAuthorization (s : ImapSession) : Prop :=
  s.state = .authenticated ∨ ∃ after : ImapAfter, s.control = .writing after ∧ after.Authenticated

/-- The user of a session has a maildrop, and so have those whose mutexes it owns. -/
structure Pop3Session.Grounded (storage : MailStorage) (s : Pop3Session) : Prop where
  known : s.user ≠ [] → s.user ∈ storage.maildrops
  past : s.PastAuthorization → s.user ≠ []
  owns : ∀ r, s.Owns r → r ∈ storage.maildrops

/-- The user of a session has a maildrop, and the map that it iterates over is the one that it began
with. -/
structure ImapSession.Grounded (storage : MailStorage) (s : ImapSession) : Prop where
  known : s.user ≠ [] → s.user ∈ storage.maildrops
  past : s.PastAuthorization → s.user ≠ []
  iterates : ∀ tag keys mailboxes, s.control = .writing (.list tag keys mailboxes) →
    storage.mailboxNames s.user = keys
  defined : s.control ≠ .undefined

theorem mem_maildrops_iff {storage : MailStorage} {user : Text} :
    user ∈ storage.maildrops ↔ ∃ drop, storage.maildrops.lookup user = some drop := by
  rw [← AList.lookup_isSome, Option.isSome_iff_exists]

theorem sameMaildrops_refl (storage : MailStorage) : SameMaildrops storage storage := fun _ => rfl

theorem SameMaildrops.trans {a b c : MailStorage} (h : SameMaildrops a b)
    (h' : SameMaildrops b c) : SameMaildrops a c :=
  fun user => (h' user).trans (h user)

theorem SameMaildrops.mem {storage storage' : MailStorage} (h : SameMaildrops storage storage')
    {user : Text} : user ∈ storage'.maildrops ↔ user ∈ storage.maildrops := by
  rw [← AList.lookup_isSome, ← AList.lookup_isSome, ← Option.isSome_map, h user, Option.isSome_map]

theorem SameMaildrops.names {storage storage' : MailStorage} (h : SameMaildrops storage storage')
    (user : Text) : storage'.mailboxNames user = storage.mailboxNames user := by
  have hkeys := congrArg (Option.map AList.keys) (h user)
  rw [Option.map_map, Option.map_map] at hkeys
  exact congrArg (fun names => names.getD []) hkeys

theorem SameMaildrops.hasInboxes {storage storage' : MailStorage}
    (h : SameMaildrops storage storage') (hi : storage.HasInboxes) : storage'.HasInboxes := by
  intro user drop' hdrop'
  have hs := h user
  rw [hdrop'] at hs
  obtain ⟨drop, hdrop, he⟩ := Option.map_eq_some_iff.mp hs.symm
  rw [← he]
  exact hi user drop hdrop

theorem sameMaildrops_modify {storage : MailStorage} {user : Text} {f : Maildrop → Maildrop}
    (hu : user ∈ storage.maildrops) (hf : ∀ drop, (f drop).mails = drop.mails) :
    SameMaildrops storage ⟨storage.maildrops.modify user {} f⟩ := by
  intro r
  by_cases hr : r = user
  · subst hr
    obtain ⟨drop, hdrop⟩ := mem_maildrops_iff.mp hu
    simp [hdrop, hf]
  · rw [lookup_modify_ne _ _ _ hr]

theorem sameMaildrops_release {storage : MailStorage} {lock : Option Text}
    (h : ∀ r, lock = some r → r ∈ storage.maildrops) :
    SameMaildrops storage (storage.release lock) := by
  cases lock with
  | none => exact sameMaildrops_refl storage
  | some user => exact sameMaildrops_modify (h user rfl) fun _ => rfl

/-- A maildrop that is there is not made anew. -/
theorem index_eq {storage : MailStorage} {user : Text} (h : user ∈ storage.maildrops) :
    storage.index user = storage := by
  rw [MailStorage.index, modify_id h]

theorem mem_deliver {storage : MailStorage} {mail : Mail} {user : Text} :
    user ∈ (storage.deliver mail).maildrops ↔
      (user ∈ mail.recipients.toList ∧ isLocal user) ∨ user ∈ storage.maildrops := by
  rw [← AList.lookup_isSome, ← AList.lookup_isSome, lookup_deliver]
  split
  next hr => simp [hr]
  next hr => simp [hr]

theorem deliver_hasInboxes {storage : MailStorage} (h : storage.HasInboxes) (mail : Mail) :
    (storage.deliver mail).HasInboxes := by
  intro user drop hdrop
  rw [lookup_deliver] at hdrop
  split at hdrop
  next =>
    cases hdrop
    exact (mem_modify _ _ _).mpr (Or.inl rfl)
  next => exact h user drop hdrop

/-- A delivery inserts no mailbox into a maildrop that is there. -/
theorem deliver_names {storage : MailStorage} (h : storage.HasInboxes) (mail : Mail) {user : Text}
    (hu : user ∈ storage.maildrops) :
    (storage.deliver mail).mailboxNames user = storage.mailboxNames user := by
  obtain ⟨drop, hdrop⟩ := mem_maildrops_iff.mp hu
  unfold MailStorage.mailboxNames
  rw [lookup_deliver]
  split
  next => simp [hdrop, Maildrop.push, keys_modify (h user drop hdrop)]
  next => rfl

/-- The mailbox that POP3 looks into is there. -/
theorem HasInboxes.inbox {storage : MailStorage} (h : storage.HasInboxes) {user : Text}
    (hu : user ∈ storage.maildrops) : ∃ mails, storage.mailbox user inboxName = some mails := by
  obtain ⟨drop, hdrop⟩ := mem_maildrops_iff.mp hu
  have hbox := AList.lookup_isSome.mpr (h user drop hdrop)
  obtain ⟨mails, hm⟩ := Option.isSome_iff_exists.mp hbox
  exact ⟨mails, by rw [MailStorage.mailbox, hdrop, Option.bind_some, hm]⟩

theorem Pop3Session.Grounded.mono {storage storage' : MailStorage} {s : Pop3Session}
    (h : s.Grounded storage) (hm : ∀ user, user ∈ storage.maildrops → user ∈ storage'.maildrops) :
    s.Grounded storage' :=
  ⟨fun hu => hm _ (h.known hu), h.past, fun r hr => hm r (h.owns r hr)⟩

theorem ImapSession.Grounded.mono {storage storage' : MailStorage} {s : ImapSession}
    (h : s.Grounded storage) (hm : ∀ user, user ∈ storage.maildrops → user ∈ storage'.maildrops)
    (hn : ∀ user, user ∈ storage.maildrops →
      storage'.mailboxNames user = storage.mailboxNames user) : s.Grounded storage' := by
  refine ⟨fun hu => hm _ (h.known hu), h.past, fun tag keys mailboxes hc => ?_, h.defined⟩
  have hpast : s.PastAuthorization := Or.inr ⟨_, hc, trivial⟩
  rw [hn _ (h.known (h.past hpast))]
  exact h.iterates tag keys mailboxes hc

/-- What a resumption of a POP3 session keeps: the maildrops, and that the session has one. -/
structure Keeps (storage : MailStorage) (o : Pop3Outcome) : Prop where
  same : SameMaildrops storage o.1
  grounded : o.2.1.Grounded storage

section

variable {storage storage₁ : MailStorage} {s : Pop3Session}

theorem keeps_reply {after : Pop3After} (h : s.Grounded storage)
    (hs : SameMaildrops storage storage₁) (line : Text)
    (ha : after = .begin ∨ after = .next .transaction ∨ (∃ i, after = .scan i) →
      s.PastAuthorization) : Keeps storage (s.reply storage₁ line after) := by
  refine ⟨hs, h.known, fun hpast => h.past ?_, h.owns⟩
  rcases hpast with ht | hb | hn | ⟨i, hi⟩
  · exact Or.inl ht
  · exact ha (Or.inl (Pop3Control.writing.inj hb))
  · exact ha (Or.inr (Or.inl (Pop3Control.writing.inj hn)))
  · exact ha (Or.inr (Or.inr ⟨i, Pop3Control.writing.inj hi⟩))

theorem keeps_tell {after : Pop3After} (h : s.Grounded storage)
    (hs : SameMaildrops storage storage₁) (line : Text) (ha : s.PastAuthorization) :
    Keeps storage (s.tell storage₁ line after) := by
  have hreply : Keeps storage (s.reply storage₁ line after) := keeps_reply h hs line fun _ => ha
  exact ⟨hreply.same, hreply.grounded⟩

theorem keeps_finish (h : s.Grounded storage) (hs : SameMaildrops storage storage₁) :
    Keeps storage (s.finish storage₁) := by
  have hown : ∀ r, s.Owns r → r ∈ storage₁.maildrops := fun r hr => hs.mem.mpr (h.owns r hr)
  have htry := sameMaildrops_release fun r hr => hown r (Or.inl hr)
  have hcur : SameMaildrops (storage₁.release s.tryTransaction)
      ((storage₁.release s.tryTransaction).release s.currentTransaction) :=
    sameMaildrops_release fun r hr => htry.mem.mpr (hown r (Or.inr hr))
  refine ⟨(hs.trans htry).trans hcur, h.known, fun hpast => h.past ?_, ?_⟩
  · rcases hpast with ht | hb | hn | ⟨i, hi⟩
    · exact Or.inl ht
    · simp [Pop3Session.finish] at hb
    · simp [Pop3Session.finish] at hn
    · simp [Pop3Session.finish] at hi
  · simp [Pop3Session.finish, Pop3Session.Owns]

theorem keeps_enter {state : Pop3State} (h : s.Grounded storage)
    (hs : SameMaildrops storage storage₁) (ht : state = .transaction → s.PastAuthorization) :
    Keeps storage (s.enter storage₁ state) := by
  have moved : ({ s with state := state } : Pop3Session).Grounded storage := by
    refine ⟨h.known, fun hpast => h.past ?_, h.owns⟩
    rcases hpast with hstate | hcontrol
    · exact ht hstate
    · exact Or.inr hcontrol
  have reads : ({ s with state := state, control := .reading } : Pop3Session).Grounded storage :=
    ⟨h.known, fun hpast => h.past (ht (by simpa [Pop3Session.PastAuthorization] using hpast)),
      h.owns⟩
  cases state with
  | greeting => exact keeps_reply moved hs _ (by simp)
  | authorization => exact ⟨hs, reads⟩
  | transaction => exact ⟨hs, reads⟩
  | quit => exact keeps_finish moved hs

theorem keeps_scan (h : s.Grounded storage) {i : Nat} (hc : s.control = .writing (.scan i)) :
    Keeps storage (s.scan storage i) := by
  have hpast : s.PastAuthorization := Or.inr (Or.inr (Or.inr ⟨i, hc⟩))
  unfold Pop3Session.scan
  split
  next => exact keeps_finish h (sameMaildrops_refl _)
  next =>
    split
    next => exact keeps_tell h (sameMaildrops_refl _) _ hpast
    next => exact keeps_reply h (sameMaildrops_refl _) _ fun _ => hpast

theorem keeps_list (h : s.Grounded storage) (ht : s.state = .transaction) (arguments : List Text) :
    Keeps storage (s.list storage arguments) := by
  have hpast : s.PastAuthorization := Or.inl ht
  have hindex : storage.index s.user = storage := index_eq (h.known (h.past hpast))
  unfold Pop3Session.list
  simp only [hindex]
  split
  next => exact keeps_finish h (sameMaildrops_refl _)
  next =>
    split
    next =>
      split
      next => exact keeps_finish h (sameMaildrops_refl _)
      next =>
        split
        next => exact keeps_reply h (sameMaildrops_refl _) _ fun _ => hpast
        next => exact keeps_tell h (sameMaildrops_refl _) _ hpast
    next => exact keeps_tell h (sameMaildrops_refl _) _ hpast

theorem keeps_authorization (h : s.Grounded storage) (ht : s.state = .authorization)
    (hc : s.control = .reading) (command : Pop3Command) (arguments : List Text) :
    Keeps storage (s.authorization storage command arguments) := by
  have refuse : ∀ line state, state ≠ .transaction →
      Keeps storage (s.reply storage line (.next state)) := fun line state hstate =>
    keeps_reply h (sameMaildrops_refl _) line (by simp [hstate])
  cases command with
  | user =>
    simp only [Pop3Session.authorization]
    split
    next => exact refuse _ _ (by simp)
    next =>
      split
      next => exact refuse _ _ (by simp)
      next drop hdrop =>
        have hmem : str arguments 1 ∈ storage.maildrops := mem_maildrops_iff.mpr ⟨drop, hdrop⟩
        have accepted : ({ s with user := str arguments 1 } : Pop3Session).Grounded storage :=
          ⟨fun _ => hmem, by simp [Pop3Session.PastAuthorization, ht, hc], h.owns⟩
        exact keeps_reply accepted (sameMaildrops_refl _) _ (by simp)
  | pass =>
    simp only [Pop3Session.authorization]
    split
    next => exact refuse _ _ (by simp)
    next huser =>
      have hmem := h.known huser
      split
      next => exact keeps_finish h (sameMaildrops_refl _)
      next =>
        split
        next => exact refuse _ _ (by simp)
        next =>
          refine ⟨sameMaildrops_modify hmem fun _ => rfl, h.known, fun _ => huser, ?_⟩
          rintro r (hr | hr)
          · cases Option.some.inj hr
            exact hmem
          · exact h.owns r (Or.inr hr)
  | quit => exact refuse _ _ (by simp)
  | list => exact refuse _ _ (by simp)
  | unknown => exact refuse _ _ (by simp)

theorem keeps_request (h : s.Grounded storage) (hc : s.control = .reading) (request : Text) :
    Keeps storage (s.request storage request) := by
  unfold Pop3Session.request
  obtain ⟨command, arguments⟩ := pop3ParseRequest request
  cases ht : s.state with
  | authorization => exact keeps_authorization h ht hc command arguments
  | transaction =>
    have refuse : Keeps storage (s.reply storage negative (.next .transaction)) :=
      keeps_reply h (sameMaildrops_refl _) _ fun _ => Or.inl ht
    cases command with
    | list => exact keeps_list h ht arguments
    | quit => exact keeps_reply h (sameMaildrops_refl _) _ (by simp)
    | user => exact refuse
    | pass => exact refuse
    | unknown => exact refuse
  | greeting => exact ⟨sameMaildrops_refl _, h⟩
  | quit => exact ⟨sameMaildrops_refl _, h⟩

theorem keeps_begin (h : s.Grounded storage) (hc : s.control = .writing .begin) :
    Keeps storage (s.begin storage) := by
  have hpast : s.PastAuthorization := Or.inr (Or.inl hc)
  have swapped : ({ s with tryTransaction := none, currentTransaction := s.tryTransaction } :
      Pop3Session).Grounded storage := by
    refine ⟨h.known, fun _ => h.past hpast, fun r hr => h.owns r (Or.inl ?_)⟩
    simpa [Pop3Session.Owns] using hr
  exact keeps_enter swapped (sameMaildrops_release fun r hr => h.owns r (Or.inr hr)) fun _ => hpast

theorem pop3Resume_grounded {t : Pop3Session} {wake : MailWake} {out : List SessionEvent}
    (h : s.Grounded storage) (hr : pop3Resume storage s wake = some (storage₁, t, out)) :
    Keeps storage (storage₁, t, out) := by
  have same := sameMaildrops_refl storage
  cases pop3Resume_step hr with
  | greeted _ _ he =>
    rw [he]
    exact keeps_enter h same (by simp)
  | heard request hc _ he =>
    obtain ⟨hsame, hgrounded⟩ := keeps_request h hc request
    rw [he]
    exact ⟨hsame, hgrounded⟩
  | written after hc _ he =>
    rw [he]
    cases after with
    | next state =>
      refine keeps_enter h same fun ht => Or.inr (Or.inr (Or.inl ?_))
      rw [hc, ht]
    | begin => exact keeps_begin h hc
    | scan i => exact keeps_scan h hc
  | dropped _ _ he =>
    rw [he]
    exact keeps_finish h same

end

theorem withDomain_ne_nil (user : Text) : ImapSession.withDomain user ≠ [] := by
  unfold ImapSession.withDomain
  split
  next h => exact List.ne_nil_of_mem h
  next => simp [format]

section

variable {storage : MailStorage} {s : ImapSession}

theorem imap_grounded_writing {after : ImapAfter} (h : s.Grounded storage) (line : Text)
    (ha : after.Authenticated → s.user ≠ [])
    (hi : ∀ tag keys mailboxes, after = .list tag keys mailboxes →
      storage.mailboxNames s.user = keys) : (s.reply line after).1.Grounded storage := by
  refine ⟨h.known, ?_, fun tag keys mailboxes hc => ?_, by simp [ImapSession.reply]⟩
  · rintro (hs | ⟨after', hc, ha'⟩)
    · exact h.past (Or.inl hs)
    · cases ImapControl.writing.inj hc
      exact ha ha'
  · exact hi tag keys mailboxes (ImapControl.writing.inj hc)

theorem imap_grounded_reply {state : ImapState} (h : s.Grounded storage) (line : Text)
    (ha : state = .authenticated → s.user ≠ []) :
    (s.reply line (.next state)).1.Grounded storage :=
  imap_grounded_writing h line ha (by simp)

theorem imap_grounded_silent (h : s.Grounded storage) {state : ImapState} {control : ImapControl}
    (hc : ∀ after, control ≠ .writing after) (hd : control ≠ .undefined)
    (hs : state = .authenticated → s.user ≠ []) :
    ({ s with state := state, control := control } : ImapSession).Grounded storage := by
  refine ⟨h.known, ?_, fun tag keys mailboxes hcontrol => absurd hcontrol (hc _), hd⟩
  rintro (hstate | ⟨after, hcontrol, _⟩)
  · exact hs hstate
  · exact absurd hcontrol (hc after)

theorem imap_grounded_enter {state : ImapState} (h : s.Grounded storage)
    (hs : state = .authenticated → s.user ≠ []) : (s.enter state).1.Grounded storage := by
  cases state with
  | greeting =>
    refine ⟨h.known, ?_, by simp [ImapSession.enter, ImapSession.reply],
      by simp [ImapSession.enter, ImapSession.reply]⟩
    rintro (hstate | ⟨after, hcontrol, ha⟩)
    · simp [ImapSession.enter, ImapSession.reply] at hstate
    · cases ImapControl.writing.inj hcontrol
      simp [ImapAfter.Authenticated] at ha
  | unauthenticated => exact imap_grounded_silent h (by simp) (by simp) hs
  | authenticated => exact imap_grounded_silent h (by simp) (by simp) hs
  | quit => exact imap_grounded_silent h (by simp) (by simp) hs

theorem imap_grounded_walk (h : s.Grounded storage) (hu : s.user ≠ []) (tag : Text)
    {keys : List Text} (hk : storage.mailboxNames s.user = keys) (mailboxes : List Text) :
    (s.walk tag keys mailboxes).1.Grounded storage := by
  cases mailboxes with
  | nil => exact imap_grounded_reply h _ fun _ => hu
  | cons mailbox mailboxes =>
    refine imap_grounded_writing h _ (fun _ => hu) fun _ _ _ he => ?_
    rw [hk]
    exact (ImapAfter.list.inj he).2.1

theorem imap_grounded_list (h : s.Grounded storage) (hu : s.user ≠ []) (arguments : List Text) :
    (s.list storage arguments).1.Grounded storage := by
  unfold ImapSession.list
  extract_lets tag reference mailboxName
  split
  next => exact imap_grounded_reply h _ fun _ => hu
  next =>
    split
    next => exact imap_grounded_silent h (by simp) (by simp) fun _ => hu
    next drop hdrop =>
      split
      next => exact imap_grounded_walk h hu _ (by simp [MailStorage.mailboxNames, hdrop]) _
      next =>
        split
        next => exact imap_grounded_writing h _ (fun _ => hu) (by simp)
        next => exact imap_grounded_reply h _ fun _ => hu

theorem imap_grounded_request (h : s.Grounded storage) (hc : s.control = .reading)
    (request : Text) :
    (s.request storage request).1.Grounded storage := by
  unfold ImapSession.request
  obtain ⟨command, arguments⟩ := imapParseRequest request
  cases hs : s.state with
  | unauthenticated =>
    have refuse : ∀ line, (s.reply line (.next .unauthenticated)).1.Grounded storage :=
      fun line => imap_grounded_reply h line (by simp)
    cases command with
    | login =>
      simp only [ImapSession.unauthenticated]
      split
      next => exact refuse _
      next drop hdrop =>
        have hu := withDomain_ne_nil (str arguments 2)
        have accepted : ({ s with user := ImapSession.withDomain (str arguments 2) } :
            ImapSession).Grounded storage := by
          exact ⟨fun _ => mem_maildrops_iff.mpr ⟨drop, hdrop⟩, fun _ => hu, by simp [hc], h.defined⟩
        exact imap_grounded_reply accepted _ fun _ => hu
    | logout => exact imap_grounded_writing h _ (by simp [ImapAfter.Authenticated]) (by simp)
    | tagUnknown => exact refuse _
    | list => exact refuse _
    | unknown => exact refuse _
  | authenticated =>
    have hu : s.user ≠ [] := h.past (Or.inl hs)
    have reply : ∀ line, (s.reply line (.next .authenticated)).1.Grounded storage :=
      fun line => imap_grounded_reply h line fun _ => hu
    cases command with
    | list => exact imap_grounded_list h hu arguments
    | logout => exact imap_grounded_writing h _ (fun _ => hu) (by simp)
    | tagUnknown => exact reply _
    | login => exact reply _
    | unknown => exact reply _
  | greeting => exact h
  | quit => exact h

theorem imapResume_grounded {t : ImapSession} {wake : MailWake} {out : List SessionEvent}
    (h : s.Grounded storage) (hr : imapResume storage s wake = some (t, out)) :
    t.Grounded storage := by
  have dropped : ({ s with control := .ended } : ImapSession).Grounded storage :=
    imap_grounded_silent h (by simp) (by simp) fun hs => h.past (Or.inl hs)
  cases imapResume_step hr with
  | greeted _ _ he =>
    rw [show t = (s.enter .greeting).1 by rw [← he]]
    exact imap_grounded_enter h (by simp)
  | heard request hc _ he =>
    cases he
    exact imap_grounded_request h hc request
  | written after hc _ he =>
    have hu : after.Authenticated → s.user ≠ [] := fun ha => h.past (Or.inr ⟨after, hc, ha⟩)
    rw [show t = (s.replied storage after).1 by rw [← he]]
    cases after with
    | next state => exact imap_grounded_enter h hu
    | list tag keys mailboxes =>
      have hkeys := h.iterates tag keys mailboxes hc
      rw [ImapSession.replied, if_pos hkeys]
      exact imap_grounded_walk h (hu trivial) _ hkeys _
    | complete tag state => exact imap_grounded_reply h _ hu
  | dropped _ _ he =>
    cases he
    exact dropped

end

/-- What holds of the storage, and of the sessions that look into it, after every run. -/
structure StoreSound (c : MailConfig) : Prop where
  inboxes : c.store.HasInboxes
  pop3 : ∀ n s, c.threads n = some (.pop3 s) → s.Grounded c.store
  imap : ∀ n s, c.threads n = some (.imap s) → s.Grounded c.store

section

variable {c d : MailConfig}

/-- Of the storage, a step changes no more than a delivery does. -/
theorem storeSound_effect (h : StoreSound c) (hs : MachineStep mailServer.parallel c d) :
    SameMaildrops c.store d.store ∨ ∃ mail, d.store = c.store.deliver mail := by
  cases hs with
  | spawn => exact Or.inl (sameMaildrops_refl _)
  | @resume n l wake storage l' out hn hr _ =>
    rcases mailResume_cases hr with ⟨s, t, rfl, rfl, hsmtp⟩ | ⟨s, t, rfl, rfl, hpop3⟩ |
      ⟨s, t, rfl, rfl, _, rfl⟩
    · rcases smtpResume_storage hsmtp with rfl | ⟨mail, rfl⟩
      · exact Or.inl (sameMaildrops_refl _)
      · exact Or.inr ⟨mail, rfl⟩
    · exact Or.inl (pop3Resume_grounded (h.pop3 n s hn) hpop3).same
    · exact Or.inl (sameMaildrops_refl _)

theorem maildrops_stay (h : StoreSound c) (hs : MachineStep mailServer.parallel c d) {user : Text}
    (hu : user ∈ c.store.maildrops) : user ∈ d.store.maildrops := by
  rcases storeSound_effect h hs with hsame | ⟨mail, hd⟩
  · exact hsame.mem.mpr hu
  · rw [hd]
    exact mem_deliver.mpr (Or.inr hu)

theorem mailboxNames_stay (h : StoreSound c) (hs : MachineStep mailServer.parallel c d) {user : Text}
    (hu : user ∈ c.store.maildrops) : d.store.mailboxNames user = c.store.mailboxNames user := by
  rcases storeSound_effect h hs with hsame | ⟨mail, hd⟩
  · exact hsame.names user
  · rw [hd]
    exact deliver_names h.inboxes mail hu

theorem storeSound_step (h : StoreSound c) (hs : MachineStep mailServer.parallel c d) :
    StoreSound d := by
  have stay : ∀ user, user ∈ c.store.maildrops → user ∈ d.store.maildrops :=
    fun _ => maildrops_stay h hs
  have names : ∀ user, user ∈ c.store.maildrops →
      d.store.mailboxNames user = c.store.mailboxNames user := fun _ => mailboxNames_stay h hs
  constructor
  · rcases storeSound_effect h hs with hsame | ⟨mail, hd⟩
    · exact hsame.hasInboxes h.inboxes
    · rw [hd]
      exact deliver_hasInboxes h.inboxes mail
  · intro n s hn
    rcases machineStep_thread_cases hs hn with ⟨_, hstart, _⟩ | ⟨l, wake, out, hl, hr, _⟩ | ⟨hl, _⟩
    · have hs : s = {} := by simpa [mailServer, Machine.parallel] using hstart
      rw [hs]
      exact ⟨by simp, by simp [Pop3Session.PastAuthorization], by simp [Pop3Session.Owns]⟩
    · rcases mailResume_cases hr with ⟨_, _, _, ht, _⟩ | ⟨s₀, t, rfl, ht, hr⟩ | ⟨_, _, _, ht, _⟩
      · cases ht
      · cases ht
        exact (pop3Resume_grounded (h.pop3 n s₀ hl) hr).grounded.mono stay
      · cases ht
    · exact (h.pop3 n s hl).mono stay
  · intro n s hn
    rcases machineStep_thread_cases hs hn with ⟨_, hstart, _⟩ | ⟨l, wake, out, hl, hr, _⟩ | ⟨hl, _⟩
    · have hs : s = {} := by simpa [mailServer, Machine.parallel] using hstart
      rw [hs]
      exact ⟨by simp, by simp [ImapSession.PastAuthorization], by simp, by simp⟩
    · rcases mailResume_cases hr with ⟨_, _, _, ht, _⟩ | ⟨_, _, _, ht, _⟩ | ⟨s₀, t, rfl, ht, hr, _⟩
      · cases ht
      · cases ht
      · cases ht
        exact (imapResume_grounded (h.imap n s₀ hl) hr).mono stay names
    · exact (h.imap n s hl).mono stay names

theorem storeSound_reaches (run : ReflTransGen MailStep (Config.init mockData) c) :
    StoreSound c := by
  have start : StoreSound (Config.init mockData) := by
    refine ⟨fun user drop hdrop => ?_, by simp [Config.init], by simp [Config.init]⟩
    have hall : ∀ e ∈ mockData.maildrops.entries, inboxName ∈ e.2.mails := by decide
    exact hall ⟨user, drop⟩ (AList.mem_lookup_iff.mp hdrop)
  exact reaches_invariant run start fun _ _ hc hs => storeSound_step hc hs.parallel

theorem maildrops_stay_reaches (h : StoreSound c) (run : ReflTransGen MailStep c d) {user : Text}
    (hu : user ∈ c.store.maildrops) : user ∈ d.store.maildrops := by
  have both : StoreSound d ∧ user ∈ d.store.maildrops :=
    reaches_invariant (P := fun e => StoreSound e ∧ user ∈ e.store.maildrops) run ⟨h, hu⟩
      fun _ _ ⟨he, hm⟩ hs => ⟨storeSound_step he hs.parallel, maildrops_stay he hs.parallel hm⟩
  exact both.2

theorem mails_grow_reaches (run : ReflTransGen MailStep c d) : MailsGrow c.store d.store := by
  refine reaches_invariant (P := fun e => MailsGrow c.store e.store) run
    (keepsMails_refl c.store).grow fun e f he hs user box mails hm => ?_
  obtain ⟨mails', hm', hp⟩ := he user box mails hm
  obtain ⟨mails'', hm'', hp'⟩ := mails_grow hs user box mails' hm'
  exact ⟨mails'', hm'', hp.trans hp'⟩

end

/-- What the sessions look for in the storage is there: in PASS, in the LIST of POP3, with the
message of every number that is not refused, and in the LIST of IMAP. -/
structure LookupsSucceed (c : MailConfig) : Prop where
  pass : ∀ n s, c.threads n = some (.pop3 s) → s.user ≠ [] →
    ∃ drop, c.store.maildrops.lookup s.user = some drop
  inbox : ∀ n s, c.threads n = some (.pop3 s) → s.PastAuthorization →
    ∃ mails, c.store.mailbox s.user inboxName = some mails ∧
      ∀ messageNum, ¬ (messageNum < 1 ∨ mails.length % 2 ^ 32 < messageNum) →
        messageNum - 1 < mails.length
  index : ∀ n s, c.threads n = some (.pop3 s) → s.PastAuthorization →
    c.store.index s.user = c.store
  list : ∀ n s, c.threads n = some (.imap s) → s.PastAuthorization →
    ∃ drop, c.store.maildrops.lookup s.user = some drop

theorem storeSound_lookups {c : MailConfig} (h : StoreSound c) : LookupsSucceed c := by
  constructor
  · intro n s hn hu
    exact mem_maildrops_iff.mp ((h.pop3 n s hn).known hu)
  · intro n s hn hpast
    have hg := h.pop3 n s hn
    obtain ⟨mails, hm⟩ := HasInboxes.inbox h.inboxes (hg.known (hg.past hpast))
    refine ⟨mails, hm, fun messageNum hnum => ?_⟩
    have hle := Nat.mod_le mails.length (2 ^ 32)
    omega
  · intro n s hn hpast
    have hg := h.pop3 n s hn
    exact index_eq (hg.known (hg.past hpast))
  · intro n s hn hpast
    have hg := h.imap n s hn
    exact mem_maildrops_iff.mp (hg.known (hg.past hpast))

/-- The invariant of the storage, whatever the sessions of the three protocols do. -/
theorem mail_store_invariant {c : MailConfig}
    (run : ReflTransGen MailStep (Config.init mockData) c) :
    c.store.HasInboxes ∧
    (∀ d, ReflTransGen MailStep c d →
      (∀ user, user ∈ c.store.maildrops → user ∈ d.store.maildrops) ∧
        MailsGrow c.store d.store) ∧
    (∀ n s, c.threads n = some (.pop3 s) → (s.user ≠ [] → s.user ∈ c.store.maildrops) ∧
      (s.PastAuthorization → s.user ≠ [])) ∧
    (∀ n s, c.threads n = some (.imap s) → (s.user ≠ [] → s.user ∈ c.store.maildrops) ∧
      (s.PastAuthorization → s.user ≠ [])) ∧
    LookupsSucceed c := by
  have h := storeSound_reaches run
  refine ⟨h.inboxes, fun d run' => ?_, fun n s hn => ?_, fun n s hn => ?_, storeSound_lookups h⟩
  · exact ⟨fun _ hu => maildrops_stay_reaches h run' hu, mails_grow_reaches run'⟩
  · exact ⟨(h.pop3 n s hn).known, (h.pop3 n s hn).past⟩
  · exact ⟨(h.imap n s hn).known, (h.imap n s hn).past⟩

theorem mail_store_invariant_listing :
    ∃ mails, (listReady.get listReady_isSome).store.mailbox liia inboxName = some mails := by
  obtain ⟨_, _, _, _, lookups⟩ := mail_store_invariant listReady_reached
  obtain ⟨mails, hm, _⟩ := lookups.inbox 0 loggedIn listReady_session (Or.inl rfl)
  exact ⟨mails, hm⟩

end Protocols
