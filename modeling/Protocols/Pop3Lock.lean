import Protocols.MailServer

namespace Protocols

open Relation

/-- The session owns the mutex of the user's maildrop by one of its locks. -/
def Pop3Session.Owns (s : Pop3Session) (user : Text) : Prop :=
  s.tryTransaction = some user ∨ s.currentTransaction = some user

/-- What can be told from what a session has heard and said: the request before the line it says
now, the user that it has accepted, and whether it has accepted a PASS. -/
structure Pop3Login where
  asked : Option Text := none
  user : Text := []
  passed : Bool := false
  deriving DecidableEq

def Pop3Login.accepted (d : Pop3Login) (request : Text) : Pop3Login :=
  match pop3ParseRequest request with
  | (.user, arguments) => { d with user := str arguments 1 }
  | (.pass, _) => { d with passed := true }
  | _ => d

def Pop3Login.observe (d : Pop3Login) : SessionEvent → Pop3Login
  | .heard line => { d with asked := some line }
  | .sent reply =>
    if reply = positive then { (d.asked.map d.accepted).getD d with asked := none }
    else { d with asked := none }
  | .heardBody _ | .listed _ _ => d

/-- Where a session can be suspended in a state. -/
def Pop3Control.Fits (state : Pop3State) : Pop3Control → Prop
  | .spawned => state = .greeting
  | .reading => state = .authorization ∨ state = .transaction
  | .writing (.next .greeting) => False
  | .writing (.next .authorization) | .writing .begin => state ≠ .transaction
  | .writing (.next .transaction) | .writing (.scan _) => state = .transaction
  | .writing (.next .quit) | .ended => True

/-- A session owns the mutex of its user's maildrop from an accepted PASS to its end. -/
structure Pop3Session.Valid (s : Pop3Session) : Prop where
  tryLock : s.tryTransaction = if s.control = .writing .begin then some s.user else none
  lock : s.currentTransaction =
    if s.state = .transaction ∧ s.control ≠ .ended then some s.user else none
  fits : s.control.Fits s.state

/-- A session and what can be told of its login. -/
structure Tracked (s : Pop3Session) (d : Pop3Login) : Prop where
  valid : s.Valid
  user : s.user = d.user
  passed : s.control ≠ .ended → (d.passed = true ↔ ∃ r, s.Owns r)

/-- What a resumption does to the mutexes: the session holds those that it owns, and leaves those of
the others alone. -/
structure Guards (storage : MailStorage) (s : Pop3Session) (d : Pop3Login) (o : Pop3Outcome) :
    Prop where
  tracked : Tracked o.2.1 (o.2.2.foldl Pop3Login.observe d)
  held : ∀ r, o.1.locked r = true ↔ o.2.1.Owns r ∨ (storage.locked r = true ∧ ¬ s.Owns r)
  fresh : ∀ r, o.2.1.Owns r → s.Owns r ∨ storage.locked r = false
  listed : ∀ r line, SessionEvent.listed r line ∈ o.2.2 → s.Owns r

theorem locked_setTransaction (storage : MailStorage) (user : Text) (held : Bool) (r : Text) :
    (storage.setTransaction user held).locked r = if r = user then held else storage.locked r := by
  unfold MailStorage.locked MailStorage.setTransaction
  by_cases hr : r = user
  · subst hr
    simp
  · rw [lookup_modify_ne _ _ _ hr, if_neg hr]

theorem locked_release (storage : MailStorage) (lock : Option Text) (r : Text) :
    (storage.release lock).locked r = if lock = some r then false else storage.locked r := by
  cases lock with
  | none => rfl
  | some user =>
    simp only [MailStorage.release, locked_setTransaction, Option.some.injEq, eq_comm]

theorem locked_index (storage : MailStorage) (user r : Text) :
    (storage.index user).locked r = storage.locked r := by
  unfold MailStorage.locked MailStorage.index
  by_cases hr : r = user
  · subst hr
    rw [lookup_modify_self]
    cases storage.maildrops.lookup r with
    | none => rfl
    | some drop => rfl
  · rw [lookup_modify_ne _ _ _ hr]

theorem valid_owns {s : Pop3Session} (h : s.Valid) (r : Text) : s.Owns r ↔
    (s.control = .writing .begin ∨ (s.state = .transaction ∧ s.control ≠ .ended)) ∧
      r = s.user := by
  rw [Pop3Session.Owns, h.tryLock, h.lock]
  constructor
  · rintro (ho | ho)
    · split at ho
      next hb => exact ⟨Or.inl hb, (Option.some.inj ho).symm⟩
      next => simp at ho
    · split at ho
      next ht => exact ⟨Or.inr ht, (Option.some.inj ho).symm⟩
      next => simp at ho
  · rintro ⟨hb | ht, rfl⟩
    · exact Or.inl (if_pos hb)
    · exact Or.inr (if_pos ht)

theorem valid_writing {s : Pop3Session} {after : Pop3After} (h : s.Valid)
    (hb : s.control ≠ .writing .begin) (he : s.control ≠ .ended) (ha : after ≠ .begin)
    (hf : (Pop3Control.writing after).Fits s.state) :
    ({ s with control := .writing after } : Pop3Session).Valid := by
  refine ⟨?_, ?_, hf⟩
  · rw [h.tryLock]
    simp [hb, ha]
  · rw [h.lock]
    simp [he]

section

variable {storage storage₁ : MailStorage} {s : Pop3Session} {d : Pop3Login}

/-- What keeps the session's user and its locks, and says nothing new about the login. -/
theorem guards_stay {o : Pop3Outcome} (h : Tracked s d)
    (hl : ∀ r, s.Owns r → storage.locked r = true) (hc : s.control ≠ .ended) (hv : o.2.1.Valid)
    (hu : o.2.1.user = s.user) (ho : ∀ r, o.2.1.Owns r ↔ s.Owns r)
    (hs : ∀ r, o.1.locked r = storage.locked r)
    (hd : (o.2.2.foldl Pop3Login.observe d).user = d.user ∧
      (o.2.2.foldl Pop3Login.observe d).passed = d.passed)
    (ht : ∀ r line, SessionEvent.listed r line ∈ o.2.2 → s.Owns r) : Guards storage s d o := by
  refine ⟨⟨hv, ?_, fun _ => ?_⟩, fun r => ?_, fun r hr => Or.inl ((ho r).mp hr), ht⟩
  · rw [hu, hd.1, h.user]
  · rw [hd.2, h.passed hc]
    simp only [ho]
  · rw [hs, ho]
    constructor
    · intro hlocked
      by_cases hr : s.Owns r
      · exact Or.inl hr
      · exact Or.inr ⟨hlocked, hr⟩
    · rintro (hr | ⟨hlocked, _⟩)
      · exact hl r hr
      · exact hlocked

theorem guards_reply {line : Text} {after : Pop3After} (h : Tracked s d)
    (hl : ∀ r, s.Owns r → storage.locked r = true) (hb : s.control ≠ .writing .begin)
    (he : s.control ≠ .ended) (hs : ∀ r, storage₁.locked r = storage.locked r)
    (hp : line ≠ positive) (ha : after ≠ .begin) (hf : (Pop3Control.writing after).Fits s.state) :
    Guards storage s d (s.reply storage₁ line after) := by
  refine guards_stay h hl he (valid_writing h.valid hb he ha hf) rfl (fun _ => Iff.rfl) hs ?_ ?_
  · simp [Pop3Session.reply, Pop3Login.observe, hp]
  · simp [Pop3Session.reply]

theorem guards_tell {line : Text} {after : Pop3After} (h : Tracked s d)
    (hl : ∀ r, s.Owns r → storage.locked r = true) (hb : s.control ≠ .writing .begin)
    (he : s.control ≠ .ended) (hs : ∀ r, storage₁.locked r = storage.locked r)
    (ht : s.state = .transaction) (ha : after ≠ .begin)
    (hf : (Pop3Control.writing after).Fits s.state) :
    Guards storage s d (s.tell storage₁ line after) := by
  refine guards_stay h hl he (valid_writing h.valid hb he ha hf) rfl (fun _ => Iff.rfl) hs
    ⟨rfl, rfl⟩ ?_
  intro r l hm
  simp only [Pop3Session.tell, List.mem_singleton, SessionEvent.listed.injEq] at hm
  exact (valid_owns h.valid r).mpr ⟨Or.inr ⟨ht, he⟩, hm.1⟩

theorem guards_finish (hu : s.user = d.user)
    (hs : ∀ r, storage₁.locked r = storage.locked r) :
    Guards storage s d (s.finish storage₁) := by
  refine ⟨⟨⟨rfl, ?_, trivial⟩, hu, fun he => absurd rfl he⟩, fun r => ?_, ?_, by
    simp [Pop3Session.finish]⟩
  · simp [Pop3Session.finish]
  · simp only [Pop3Session.finish, locked_release, hs, Pop3Session.Owns]
    by_cases hcur : s.currentTransaction = some r
    · simp [hcur]
    · by_cases htry : s.tryTransaction = some r
      · simp [hcur, htry]
      · simp [hcur, htry]
  · simp [Pop3Session.finish, Pop3Session.Owns]

theorem guards_enter {state : Pop3State} (h : Tracked s d)
    (hl : ∀ r, s.Owns r → storage.locked r = true) (hc : s.control = .writing (.next state)) :
    Guards storage s d (s.enter storage state) := by
  have hfits := h.valid.fits
  rw [hc] at hfits
  have htry : s.tryTransaction = none := by simp [h.valid.tryLock, hc]
  have hlock : s.currentTransaction = if s.state = .transaction then some s.user else none := by
    simp [h.valid.lock, hc]
  cases state with
  | greeting => exact hfits.elim
  | authorization =>
    refine guards_stay h hl (by simp [hc]) ⟨?_, ?_, Or.inl rfl⟩ rfl (fun _ => Iff.rfl)
      (fun _ => rfl) ⟨rfl, rfl⟩ (by simp [Pop3Session.enter])
    · simpa [Pop3Session.enter] using htry
    · simpa [Pop3Session.enter, show s.state ≠ .transaction from hfits] using hlock
  | transaction =>
    refine guards_stay h hl (by simp [hc]) ⟨?_, ?_, Or.inr rfl⟩ rfl (fun _ => Iff.rfl)
      (fun _ => rfl) ⟨rfl, rfl⟩ (by simp [Pop3Session.enter])
    · simpa [Pop3Session.enter] using htry
    · simpa [Pop3Session.enter, show s.state = .transaction from hfits] using hlock
  | quit =>
    have hg : Guards storage { s with state := .quit } d
        (({ s with state := .quit } : Pop3Session).finish storage) :=
      guards_finish h.user fun _ => rfl
    exact ⟨hg.tracked, hg.held, hg.fresh, hg.listed⟩

theorem guards_begin (h : Tracked s d) (hl : ∀ r, s.Owns r → storage.locked r = true)
    (hc : s.control = .writing .begin) : Guards storage s d (s.begin storage) := by
  have hfits : s.state ≠ .transaction := by
    have := h.valid.fits
    rwa [hc] at this
  have htry : s.tryTransaction = some s.user := by simp [h.valid.tryLock, hc]
  have hlock : s.currentTransaction = none := by simp [h.valid.lock, hfits]
  refine guards_stay h hl (by simp [hc]) ⟨?_, ?_, Or.inr rfl⟩ rfl (fun r => ?_) (fun r => ?_)
    ⟨rfl, rfl⟩ (by simp [Pop3Session.begin, Pop3Session.enter])
  · simp [Pop3Session.begin, Pop3Session.enter]
  · simp [Pop3Session.begin, Pop3Session.enter, htry]
  · simp [Pop3Session.Owns, Pop3Session.begin, Pop3Session.enter, hlock]
  · simp [Pop3Session.begin, Pop3Session.enter, hlock, MailStorage.release]

theorem guards_scan (h : Tracked s d) (hl : ∀ r, s.Owns r → storage.locked r = true) {i : Nat}
    (hc : s.control = .writing (.scan i)) : Guards storage s d (s.scan storage i) := by
  have ht : s.state = .transaction := by
    have := h.valid.fits
    rwa [hc] at this
  unfold Pop3Session.scan
  split
  next => exact guards_finish h.user fun _ => rfl
  next =>
    split
    next =>
      exact guards_tell h hl (by simp [hc]) (by simp [hc]) (fun _ => rfl) ht (by simp) ht
    next =>
      exact guards_reply h hl (by simp [hc]) (by simp [hc]) (fun _ => rfl) (by decide) (by simp) ht

theorem guards_list (h : Tracked s d) (hl : ∀ r, s.Owns r → storage.locked r = true)
    (hc : s.control = .reading) (ht : s.state = .transaction) (arguments : List Text) :
    Guards storage s d (s.list storage arguments) := by
  have hb : s.control ≠ .writing .begin := by simp [hc]
  have he : s.control ≠ .ended := by simp [hc]
  have hs := fun r => locked_index storage s.user r
  unfold Pop3Session.list
  dsimp only
  split
  next => exact guards_finish h.user hs
  next =>
    split
    next =>
      split
      next => exact guards_finish h.user hs
      next =>
        split
        next => exact guards_reply h hl hb he hs (by decide) (by simp) ht
        next => exact guards_tell h hl hb he hs ht (by simp) ht
    next => exact guards_tell h hl hb he hs ht (by simp) ht

theorem guards_transaction (h : Tracked s d) (hl : ∀ r, s.Owns r → storage.locked r = true)
    (hc : s.control = .reading) (ht : s.state = .transaction) (command : Pop3Command)
    (arguments : List Text) : Guards storage s d (s.transaction storage command arguments) := by
  have refuse : Guards storage s d (s.reply storage negative (.next .transaction)) :=
    guards_reply h hl (by simp [hc]) (by simp [hc]) (fun _ => rfl) (by decide) (by simp) ht
  cases command with
  | list => exact guards_list h hl hc ht arguments
  | quit =>
    exact guards_reply h hl (by simp [hc]) (by simp [hc]) (fun _ => rfl) (by decide) (by simp)
      trivial
  | user => exact refuse
  | pass => exact refuse
  | unknown => exact refuse

theorem guards_user {request : Text} {arguments : List Text} (h : Tracked s d)
    (hc : s.control = .reading) (ht : s.state = .authorization) (ha : d.asked = some request)
    (hp : pop3ParseRequest request = (.user, arguments)) :
    Guards storage s d
      ({ s with user := str arguments 1 }.reply storage positive (.next .authorization)) := by
  have htry : s.tryTransaction = none := by simp [h.valid.tryLock, hc]
  have hlock : s.currentTransaction = none := by simp [h.valid.lock, ht]
  have hnone : ∀ r, ¬ s.Owns r := by simp [Pop3Session.Owns, htry, hlock]
  have hpassed : d.passed = false := by simpa [hnone] using h.passed (by simp [hc])
  refine ⟨⟨⟨?_, ?_, ?_⟩, ?_, fun _ => ?_⟩, fun r => ?_, fun r hr => absurd hr (hnone r), ?_⟩
  · simpa [Pop3Session.reply] using htry
  · simpa [Pop3Session.reply, ht] using hlock
  · simp [Pop3Session.reply, Pop3Control.Fits, ht]
  · simp [Pop3Session.reply, Pop3Login.observe, ha, Pop3Login.accepted, hp]
  · simpa [Pop3Session.reply, Pop3Login.observe, ha, Pop3Login.accepted, hp, hpassed,
      Pop3Session.Owns] using hnone
  · simp [Pop3Session.reply, Pop3Session.Owns, htry, hlock]
  · simp [Pop3Session.reply]

/-- An accepted PASS acquires the mutex, which was free. -/
theorem guards_pass {request : Text} {arguments : List Text} (h : Tracked s d)
    (hc : s.control = .reading) (ht : s.state = .authorization) (ha : d.asked = some request)
    (hp : pop3ParseRequest request = (.pass, arguments)) (hfree : storage.locked s.user = false) :
    Guards storage s d ({ s with tryTransaction := some s.user }.reply
      (storage.setTransaction s.user true) positive .begin) := by
  have htry : s.tryTransaction = none := by simp [h.valid.tryLock, hc]
  have hlock : s.currentTransaction = none := by simp [h.valid.lock, ht]
  refine ⟨⟨⟨?_, ?_, ?_⟩, ?_, fun _ => ?_⟩, fun r => ?_, fun r hr => Or.inr ?_, ?_⟩
  · simp [Pop3Session.reply]
  · simpa [Pop3Session.reply, ht] using hlock
  · simp [Pop3Session.reply, Pop3Control.Fits, ht]
  · simp [Pop3Session.reply, Pop3Login.observe, ha, Pop3Login.accepted, hp, h.user]
  · simp [Pop3Session.reply, Pop3Login.observe, ha, Pop3Login.accepted, hp, Pop3Session.Owns]
  · simp only [Pop3Session.reply, locked_setTransaction, Pop3Session.Owns, htry, hlock]
    by_cases hr : r = s.user
    · simp [hr]
    · simp [hr, Ne.symm hr]
  · simp only [Pop3Session.reply, Pop3Session.Owns, hlock, Option.some.injEq, reduceCtorEq,
      or_false] at hr
    rw [← hr]
    exact hfree
  · simp [Pop3Session.reply]

theorem guards_authorization {request : Text} {command : Pop3Command} {arguments : List Text}
    (h : Tracked s d) (hl : ∀ r, s.Owns r → storage.locked r = true) (hc : s.control = .reading)
    (ht : s.state = .authorization) (ha : d.asked = some request)
    (hp : pop3ParseRequest request = (command, arguments)) :
    Guards storage s d (s.authorization storage command arguments) := by
  have refuse : ∀ line after, line ≠ positive → after = .next .authorization ∨ after = .next .quit →
      Guards storage s d (s.reply storage line after) := by
    rintro line after hline (rfl | rfl)
    · exact guards_reply h hl (by simp [hc]) (by simp [hc]) (fun _ => rfl) hline (by simp)
        (by simp [Pop3Control.Fits, ht])
    · exact guards_reply h hl (by simp [hc]) (by simp [hc]) (fun _ => rfl) hline (by simp) trivial
  cases command with
  | user =>
    simp only [Pop3Session.authorization]
    split
    next => exact refuse _ _ (by decide) (Or.inl rfl)
    next =>
      split
      next => exact refuse _ _ (by decide) (Or.inl rfl)
      next => exact guards_user h hc ht ha hp
  | pass =>
    simp only [Pop3Session.authorization]
    split
    next => exact refuse _ _ (by decide) (Or.inl rfl)
    next =>
      split
      next => exact guards_finish h.user fun _ => rfl
      next drop hdrop =>
        split
        next => exact refuse _ _ (by decide) (Or.inl rfl)
        next hfree =>
          exact guards_pass h hc ht ha hp (by simpa [MailStorage.locked, hdrop] using hfree)
  | quit => exact refuse _ _ (by decide) (Or.inr rfl)
  | list => exact refuse _ _ (by decide) (Or.inl rfl)
  | unknown => exact refuse _ _ (by decide) (Or.inl rfl)

end

theorem tracked_heard {s : Pop3Session} {d : Pop3Login} (h : Tracked s d) (request : Text) :
    Tracked s (d.observe (.heard request)) :=
  { h with }

theorem pop3Resume_guards {storage storage' : MailStorage} {s t : Pop3Session} {d : Pop3Login}
    {wake : MailWake} {out : List SessionEvent} (h : Tracked s d)
    (hl : ∀ r, s.Owns r → storage.locked r = true)
    (hr : pop3Resume storage s wake = some (storage', t, out)) :
    Guards storage s d (storage', t, out) := by
  have hfits := h.valid.fits
  cases pop3Resume_step hr with
  | greeted hc _ he =>
    rw [he]
    rw [hc] at hfits
    have hs : ({ s with state := .greeting } : Pop3Session) = s := by
      rw [← show s.state = .greeting from hfits]
    have hgreet : s.enter storage .greeting = s.reply storage pop3Greeting (.next .authorization) := by
      rw [Pop3Session.enter, hs]
    rw [hgreet]
    exact guards_reply h hl (by simp [hc]) (by simp [hc]) (fun _ => rfl) (by decide) (by simp)
      (by simp [Pop3Control.Fits, show s.state = .greeting from hfits])
  | heard request hc _ he =>
    rw [hc] at hfits
    have hg : Guards storage s (d.observe (.heard request)) (s.request storage request) := by
      unfold Pop3Session.request
      rcases hfits with ht | ht
      · simp only [ht]
        exact guards_authorization (tracked_heard h request) hl hc ht rfl rfl
      · simp only [ht]
        exact guards_transaction (tracked_heard h request) hl hc ht _ _
    rw [he]
    refine ⟨hg.tracked, hg.held, hg.fresh, fun r line hm => hg.listed r line ?_⟩
    rcases List.mem_cons.mp hm with hheard | hm
    · simp at hheard
    · exact hm
  | written after hc _ he =>
    rw [he]
    cases after with
    | next state => exact guards_enter h hl hc
    | begin => exact guards_begin h hl hc
    | scan i => exact guards_scan h hl hc
  | dropped _ _ he =>
    rw [he]
    exact guards_finish h.user fun _ => rfl

/-- What can be told of the login of a session. -/
def loginOf (c : MailConfig) (n : Nat) : Pop3Login := (c.logOf n).foldl Pop3Login.observe {}

def Owner (c : MailConfig) (n : Nat) (user : Text) : Prop :=
  ∃ s, c.threads n = some (.pop3 s) ∧ s.Owns user

/-- What holds of the sessions and of the mutexes after every run. -/
structure LocksHeld (c : MailConfig) : Prop where
  fresh : ∀ n, c.threads n = none → c.logOf n = []
  tracked : ∀ n s, c.threads n = some (.pop3 s) → Tracked s (loginOf c n)
  held : ∀ user, c.store.locked user = true ↔ ∃ n, Owner c n user
  unique : ∀ n m user, Owner c n user → Owner c m user → n = m

theorem locked_smtp {storage storage' : MailStorage} {s t : SmtpSession} {wake : MailWake}
    {out : List SessionEvent} (h : smtpResume storage s wake = some (storage', t, out)) (r : Text) :
    storage'.locked r = storage.locked r := by
  rcases smtpResume_storage h with rfl | ⟨mail, rfl⟩
  · rfl
  · exact (deliver_exactly storage mail).locked r

theorem owner_update {c : MailConfig} {n k : Nat} {storage : MailStorage} {l : MailSession}
    {log : List (Nat × SessionEvent)} {user : Text} :
    Owner ⟨storage, Function.update c.threads n (some l), log⟩ k user ↔
      if k = n then ∃ s, l = .pop3 s ∧ s.Owns user else Owner c k user := by
  unfold Owner
  by_cases hk : k = n
  · subst hk
    simp
  · simp [hk]

theorem locks_unchanged {c : MailConfig} {n : Nat} {storage : MailStorage} (l : MailSession)
    (log : List (Nat × SessionEvent)) (h : LocksHeld c) (hn : ∀ user, ¬ Owner c n user)
    (hl : ∀ user s, l = .pop3 s → ¬ s.Owns user)
    (hs : ∀ user, storage.locked user = c.store.locked user) :
    (∀ user, storage.locked user = true ↔
      ∃ k, Owner ⟨storage, Function.update c.threads n (some l), log⟩ k user) ∧
    (∀ k m user, Owner ⟨storage, Function.update c.threads n (some l), log⟩ k user →
      Owner ⟨storage, Function.update c.threads n (some l), log⟩ m user → k = m) := by
  have same : ∀ k user, Owner ⟨storage, Function.update c.threads n (some l), log⟩ k user ↔
      Owner c k user := by
    intro k user
    rw [owner_update]
    by_cases hk : k = n
    · subst hk
      simp only [if_true, hn, iff_false]
      rintro ⟨s, hp, ho⟩
      exact hl user s hp ho
    · rw [if_neg hk]
  constructor
  · intro user
    simp only [same, hs, h.held]
  · intro k m user hk hm
    exact h.unique k m user ((same k user).mp hk) ((same m user).mp hm)

theorem locks_guarded {c : MailConfig} {n : Nat} {storage : MailStorage} {s t : Pop3Session}
    {out : List SessionEvent} {log : List (Nat × SessionEvent)} (h : LocksHeld c)
    (hn : c.threads n = some (.pop3 s)) (hg : Guards c.store s (loginOf c n) (storage, t, out)) :
    (∀ user, storage.locked user = true ↔
      ∃ k, Owner ⟨storage, Function.update c.threads n (some (.pop3 t)), log⟩ k user) ∧
    (∀ k m user, Owner ⟨storage, Function.update c.threads n (some (.pop3 t)), log⟩ k user →
      Owner ⟨storage, Function.update c.threads n (some (.pop3 t)), log⟩ m user → k = m) := by
  have own : ∀ user, s.Owns user → Owner c n user := fun user ho => ⟨s, hn, ho⟩
  have after : ∀ k user,
      Owner ⟨storage, Function.update c.threads n (some (.pop3 t)), log⟩ k user ↔
        if k = n then t.Owns user else Owner c k user := by
    intro k user
    rw [owner_update]
    simp
  -- nobody else owns what the session has acquired
  have alone : ∀ k user, k ≠ n → Owner c k user → ¬ t.Owns user := by
    intro k user hk ho ht
    rcases hg.fresh user ht with hs | hfree
    · exact hk (h.unique k n user ho (own user hs))
    · simp [(h.held user).mpr ⟨k, ho⟩] at hfree
  constructor
  · intro user
    rw [hg.held user]
    constructor
    · rintro (ht | ⟨hlocked, hs⟩)
      · exact ⟨n, (after n user).mpr (by simpa using ht)⟩
      · obtain ⟨k, hk⟩ := (h.held user).mp hlocked
        have hkn : k ≠ n := by
          rintro rfl
          obtain ⟨s', hs', ho⟩ := hk
          rw [hn] at hs'
          cases hs'
          exact hs ho
        exact ⟨k, (after k user).mpr (by rwa [if_neg hkn])⟩
    · rintro ⟨k, hk⟩
      have hk' := (after k user).mp hk
      by_cases hkn : k = n
      · exact Or.inl (by rwa [if_pos hkn] at hk')
      · rw [if_neg hkn] at hk'
        refine Or.inr ⟨(h.held user).mpr ⟨k, hk'⟩, fun hs => ?_⟩
        exact hkn (h.unique k n user hk' (own user hs))
  · intro k m user hk hm
    have hk' := (after k user).mp hk
    have hm' := (after m user).mp hm
    by_cases hkn : k = n
    · by_cases hmn : m = n
      · rw [hkn, hmn]
      · rw [if_pos hkn] at hk'
        rw [if_neg hmn] at hm'
        exact absurd hk' (alone m user hmn hm')
    · rw [if_neg hkn] at hk'
      by_cases hmn : m = n
      · rw [if_pos hmn] at hm'
        exact absurd hm' (alone k user hkn hk')
      · rw [if_neg hmn] at hm'
        exact h.unique k m user hk' hm'

theorem locks_logs {c : MailConfig} (n : Nat) (storage : MailStorage) (l : MailSession)
    (out : List SessionEvent) (h : LocksHeld c)
    (hl : ∀ s, l = .pop3 s → Tracked s (out.foldl Pop3Login.observe (loginOf c n))) :
    (∀ k, Function.update c.threads n (some l) k = none →
      (Config.mk storage (Function.update c.threads n (some l))
        (c.log ++ out.map fun e => (n, e))).logOf k = []) ∧
    ∀ k s, Function.update c.threads n (some l) k = some (.pop3 s) →
      Tracked s (loginOf ⟨storage, Function.update c.threads n (some l),
        c.log ++ out.map fun e => (n, e)⟩ k) := by
  constructor
  · intro k hk
    by_cases hkn : k = n
    · subst hkn
      simp at hk
    · rw [logOf_append_ne _ _ _ _ (Ne.symm hkn)]
      exact h.fresh k (by simpa only [Function.update_of_ne hkn] using hk)
  · intro k s hk
    unfold loginOf
    by_cases hkn : k = n
    · subst hkn
      rw [logOf_append_self, List.foldl_append]
      exact hl s (by simpa using hk)
    · rw [logOf_append_ne _ _ _ _ (Ne.symm hkn)]
      exact h.tracked k s (by simpa only [Function.update_of_ne hkn] using hk)

theorem locksHeld_step {c d : MailConfig} (h : LocksHeld c) (hs : MailStep c d) : LocksHeld d := by
  have other : ∀ n l, c.threads n = some l → (∀ s, l ≠ .pop3 s) → ∀ user, ¬ Owner c n user := by
    rintro n l hn hl user ⟨s, hs, _⟩
    rw [hn] at hs
    exact hl s (Option.some.inj hs)
  cases hs with
  | @spawn n l hn hstart =>
    -- a new session owns nothing and has said nothing
    have hnew : ∀ s, l = .pop3 s → s = {} := by
      rintro s rfl
      rcases hstart with h | h | h <;> cases h
      rfl
    have hnone : ∀ user, ¬ Owner c n user := by
      rintro user ⟨s, hs, _⟩
      simp [hn] at hs
    have hlogs := locks_logs n c.store l [] h fun s hl => by
      rw [hnew s hl, loginOf, h.fresh n hn]
      exact ⟨⟨rfl, rfl, rfl⟩, rfl, fun _ => by simp [Pop3Session.Owns]⟩
    simp only [List.map_nil, List.append_nil] at hlogs
    obtain ⟨hheld, hunique⟩ := locks_unchanged l c.log h hnone
      (fun user s hl => by simp [hnew s hl, Pop3Session.Owns]) (fun _ => rfl)
    exact ⟨hlogs.1, hlogs.2, hheld, hunique⟩
  | @resume n l wake storage l' out hn hr =>
    rcases mailResume_cases hr with ⟨s, t, rfl, rfl, ht⟩ | ⟨s, t, rfl, rfl, ht⟩ |
      ⟨s, t, rfl, rfl, ht, rfl⟩
    · obtain ⟨hfresh, htracked⟩ := locks_logs n storage (.smtp t) out h (by simp)
      obtain ⟨hheld, hunique⟩ := locks_unchanged (.smtp t) _ h (other n _ hn (by simp))
        (by simp) (locked_smtp ht)
      exact ⟨hfresh, htracked, hheld, hunique⟩
    · have hg := pop3Resume_guards (h.tracked n s hn)
        (fun r ho => (h.held r).mpr ⟨n, s, hn, ho⟩) ht
      obtain ⟨hfresh, htracked⟩ := locks_logs n storage (.pop3 t) out h (by
        rintro _ ⟨⟩
        exact hg.tracked)
      obtain ⟨hheld, hunique⟩ := locks_guarded h hn hg
      exact ⟨hfresh, htracked, hheld, hunique⟩
    · obtain ⟨hfresh, htracked⟩ := locks_logs n c.store (.imap t) out h (by simp)
      obtain ⟨hheld, hunique⟩ := locks_unchanged (.imap t) _ h (other n _ hn (by simp))
        (by simp) fun _ => rfl
      exact ⟨hfresh, htracked, hheld, hunique⟩

theorem locksHeld_reaches {storage : MailStorage} {c : MailConfig}
    (unlocked : ∀ user, storage.locked user = false)
    (run : ReflTransGen MailStep (Config.init storage) c) : LocksHeld c :=
  reaches_invariant run
    ⟨fun _ _ => rfl, by simp [Config.init], by simp [Config.init, Owner, unlocked],
      by simp [Config.init, Owner]⟩
    fun _ _ => locksHeld_step

/-- The session has not ended, and it has accepted a PASS for the user. -/
def HasPassed (c : MailConfig) (n : Nat) (user : Text) : Prop :=
  (∃ s, c.threads n = some (.pop3 s) ∧ s.control ≠ .ended) ∧
    (loginOf c n).passed = true ∧ (loginOf c n).user = user

theorem hasPassed_iff {c : MailConfig} (h : LocksHeld c) (n : Nat) (user : Text) :
    HasPassed c n user ↔ Owner c n user := by
  constructor
  · rintro ⟨⟨s, hs, he⟩, hpassed, huser⟩
    have ht := h.tracked n s hs
    obtain ⟨r, hr⟩ := (ht.passed he).mp hpassed
    have hru := ((valid_owns ht.valid r).mp hr).2
    rw [hru, ht.user, huser] at hr
    exact ⟨s, hs, hr⟩
  · rintro ⟨s, hs, ho⟩
    have ht := h.tracked n s hs
    obtain ⟨hplace, huser⟩ := (valid_owns ht.valid user).mp ho
    have he : s.control ≠ .ended := by
      rcases hplace with hb | ⟨_, he⟩
      · simp [hb]
      · exact he
    exact ⟨⟨s, hs, he⟩, (ht.passed he).mpr ⟨user, ho⟩, by rw [← ht.user, huser]⟩

/-- The session runs, and is in the transaction state of the user's maildrop. -/
def InTransaction (c : MailConfig) (n : Nat) (user : Text) : Prop :=
  ∃ s, c.threads n = some (.pop3 s) ∧ s.control ≠ .ended ∧ s.state = .transaction ∧ s.user = user

structure MaildropsExclusive (c : MailConfig) : Prop where
  one : ∀ n m user, InTransaction c n user → InTransaction c m user → n = m
  held : ∀ user, c.store.locked user = true ↔ ∃! n, HasPassed c n user
  released : ∀ d n s user, MailStep c d → HasPassed c n user → d.threads n = some (.pop3 s) →
    s.control = .ended → d.store.locked user = false
  listed : ∀ d n user line, MailStep c d →
    (n, SessionEvent.listed user line) ∈ d.log.drop c.log.length → HasPassed c n user

theorem inTransaction_owner {c : MailConfig} {n : Nat} {user : Text} (h : LocksHeld c)
    (ht : InTransaction c n user) : Owner c n user := by
  obtain ⟨s, hs, he, hstate, huser⟩ := ht
  exact ⟨s, hs, (valid_owns (h.tracked n s hs).valid user).mpr ⟨Or.inr ⟨hstate, he⟩, huser.symm⟩⟩

/-- An ended session owns nothing, so what it has owned is free: nobody else has owned it. -/
theorem ended_releases {c d : MailConfig} {n : Nat} {s : Pop3Session} {user : Text}
    (h : LocksHeld c) (hs : MailStep c d) (ho : Owner c n user)
    (hd : d.threads n = some (.pop3 s)) (he : s.control = .ended) : d.store.locked user = false := by
  have h' := locksHeld_step h hs
  obtain ⟨s₀, hs₀, ho₀⟩ := ho
  rcases machineStep_thread_cases hs hd with ⟨hnone, _⟩ | ⟨l₀, wake, out, hl₀, hr, _⟩ | ⟨hl₀, _⟩
  · simp [hs₀] at hnone
  · rw [hs₀] at hl₀
    cases hl₀
    obtain ⟨_, hl, ht⟩ := mailResume_pop3 hr
    cases hl
    have hg := pop3Resume_guards (h.tracked n s₀ hs₀)
      (fun r ho => (h.held r).mpr ⟨n, s₀, hs₀, ho⟩) ht
    have hnone : ¬ s.Owns user := by
      rw [valid_owns hg.tracked.valid]
      simp [he]
    rw [Bool.eq_false_iff, ne_eq, hg.held user]
    simp [hnone, ho₀]
  · rw [hs₀] at hl₀
    cases hl₀
    exact absurd ho₀ (by simp [valid_owns (h.tracked n s hs₀).valid, he])

theorem listed_owner {c d : MailConfig} {n : Nat} {user line : Text} (h : LocksHeld c)
    (hs : MailStep c d) (hm : (n, SessionEvent.listed user line) ∈ d.log.drop c.log.length) :
    Owner c n user := by
  cases hs with
  | spawn => simp at hm
  | @resume k l wake storage l' out hk hr =>
    simp only [List.drop_left, List.mem_map, Prod.mk.injEq] at hm
    obtain ⟨e, he, rfl, rfl⟩ := hm
    rcases mailResume_cases hr with ⟨s, t, rfl, rfl, ht⟩ | ⟨s, t, rfl, rfl, ht⟩ |
      ⟨s, t, rfl, rfl, ht, rfl⟩
    · exact absurd he (smtp_lists_nothing ht user line)
    · have hg := pop3Resume_guards (h.tracked k s hk)
        (fun r ho => (h.held r).mpr ⟨k, s, hk, ho⟩) ht
      exact ⟨s, hk, hg.listed user line he⟩
    · exact absurd he (imap_lists_nothing ht user line)

/-- In every interleaving of the sessions, a maildrop is one session's, from its PASS to its end. -/
theorem maildrops_exclusive {storage : MailStorage} {c : MailConfig}
    (unlocked : ∀ user, storage.locked user = false)
    (run : ReflTransGen MailStep (Config.init storage) c) : MaildropsExclusive c := by
  have h := locksHeld_reaches unlocked run
  constructor
  · intro n m user hn hm
    exact h.unique n m user (inTransaction_owner h hn) (inTransaction_owner h hm)
  · intro user
    simp only [h.held, hasPassed_iff h]
    constructor
    · rintro ⟨n, hn⟩
      exact ⟨n, hn, fun m hm => h.unique m n user hm hn⟩
    · rintro ⟨n, hn, _⟩
      exact ⟨n, hn⟩
  · intro d n s user hs hp hd he
    exact ended_releases h hs ((hasPassed_iff h n user).mp hp) hd he
  · intro d n user line hs hm
    exact (hasPassed_iff h n user).mpr (listed_owner h hs hm)

theorem locked_push (storage : MailStorage) (user box : Text) (mail : Mail) (r : Text) :
    (storage.push user box mail).locked r = storage.locked r := by
  unfold MailStorage.locked
  by_cases hr : r = user
  · subst hr
    rw [lookup_push_self]
    cases storage.maildrops.lookup r with
    | none => rfl
    | some drop => rfl
  · rw [lookup_push_ne _ _ _ hr]

theorem mockData_unlocked (user : Text) : mockData.locked user = false := by
  simp only [mockData, locked_push]
  rfl

def oneLogin : MailConfig := ⟨mockData, Function.update (fun _ => none) 0 (some (.pop3 {})), []⟩

theorem oneLogin_spawned : MailStep (Config.init mockData) oneLogin :=
  .spawn rfl (Or.inr (Or.inl rfl)) (free_init mockData 0)

theorem oneLogin_free : oneLogin.Free mailServer 0 :=
  free_update mockData [] (free_init mockData 0) (Or.inl rfl)

def oneLoggedIn : Option MailConfig :=
  oneLogin.replay mailServer [(0, .scheduled), (0, .written),
    (0, .line "user liia@localhost".toList), (0, .written), (0, .line "pass x".toList)]

theorem oneLoggedIn_isSome : oneLoggedIn.isSome = true := by decide +kernel

theorem maildrops_exclusive_one :
    ∃! n, HasPassed (oneLoggedIn.get oneLoggedIn_isSome) n "liia@localhost".toList := by
  have run := machine_replay_reaches (fun e he => by cases he; exact oneLogin_free)
    (Option.some_get oneLoggedIn_isSome).symm
  have h := maildrops_exclusive mockData_unlocked (.head oneLogin_spawned run)
  exact (h.held "liia@localhost".toList).mp (by decide +kernel)

end Protocols
