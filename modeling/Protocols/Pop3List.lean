import Protocols.Pop3Lock
import Mathlib.Data.List.Infix

namespace Protocols

open Relation

def scanLines (user : Text) (mails : List Mail) : List SessionEvent :=
  mails.mapIdx fun i mail => .listed user (listEntry i mail)

/-- The answer to a LIST that announces the mails, and then has one line for each of them. -/
def listAnswer (user : Text) (mails : List Mail) : List SessionEvent :=
  .listed user (listOk mails) :: (scanLines user mails ++ [.sent listEnd])

/-- A resumption changes no mail. -/
def KeepsMails (storage storage' : MailStorage) : Prop :=
  ∀ user box, storage'.mailbox user box = storage.mailbox user box

/-- Mails that stay where they are, perhaps with others after them. -/
def MailsGrow (storage storage' : MailStorage) : Prop :=
  ∀ user box mails, storage.mailbox user box = some mails →
    ∃ mails', storage'.mailbox user box = some mails' ∧ mails <+: mails'

theorem keepsMails_refl (storage : MailStorage) : KeepsMails storage storage := fun _ _ => rfl

theorem KeepsMails.trans {a b c : MailStorage} (h : KeepsMails a b) (h' : KeepsMails b c) :
    KeepsMails a c :=
  fun user box => (h' user box).trans (h user box)

theorem KeepsMails.grow {storage storage' : MailStorage} (h : KeepsMails storage storage') :
    MailsGrow storage storage' :=
  fun user box mails hm => ⟨mails, (h user box).trans hm, List.prefix_refl _⟩

theorem keepsMails_modify {storage : MailStorage} {user : Text} {f : Maildrop → Maildrop}
    (hf : ∀ drop, (f drop).mails = drop.mails) :
    KeepsMails storage ⟨storage.maildrops.modify user {} f⟩ := by
  intro r box
  unfold MailStorage.mailbox
  by_cases hr : r = user
  · subst hr
    rw [lookup_modify_self, Option.bind_some, hf]
    cases storage.maildrops.lookup r with
    | none => rfl
    | some drop => rfl
  · rw [lookup_modify_ne _ _ _ hr]

theorem keepsMails_release (storage : MailStorage) (lock : Option Text) :
    KeepsMails storage (storage.release lock) := by
  cases lock with
  | none => exact keepsMails_refl storage
  | some user => exact keepsMails_modify fun _ => rfl

theorem deliver_grows (storage : MailStorage) (mail : Mail) :
    MailsGrow storage (storage.deliver mail) := by
  intro user box mails hm
  obtain ⟨drop, hdrop, hbox⟩ := Option.bind_eq_some_iff.mp hm
  unfold MailStorage.mailbox
  rw [lookup_deliver]
  split
  next =>
    simp only [hdrop, Option.getD_some, Option.bind_some, Maildrop.push]
    by_cases hb : box = inboxName
    · subst hb
      exact ⟨_, lookup_modify_self _ _ _ _, by rw [hbox]; exact List.prefix_append _ _⟩
    · exact ⟨mails, by rw [lookup_modify_ne _ _ _ hb, hbox], List.prefix_refl _⟩
  next => exact ⟨mails, by rw [hdrop]; exact hbox, List.prefix_refl _⟩

section

variable {storage storage₁ : MailStorage}

theorem finish_keeps (s : Pop3Session) (h : KeepsMails storage storage₁) :
    KeepsMails storage (s.finish storage₁).1 :=
  (h.trans (keepsMails_release _ _)).trans (keepsMails_release _ _)

theorem pop3_enter_keeps (s : Pop3Session) (state : Pop3State) (h : KeepsMails storage storage₁) :
    KeepsMails storage (s.enter storage₁ state).1 := by
  cases state with
  | quit => exact finish_keeps _ h
  | _ => exact h

theorem scan_keeps (s : Pop3Session) (i : Nat) : KeepsMails storage (s.scan storage i).1 := by
  unfold Pop3Session.scan
  split
  next => exact finish_keeps _ (keepsMails_refl _)
  next =>
    split
    next => exact keepsMails_refl _
    next => exact keepsMails_refl _

theorem list_keeps (s : Pop3Session) (arguments : List Text) :
    KeepsMails storage (s.list storage arguments).1 := by
  have hi : KeepsMails storage (storage.index s.user) := keepsMails_modify fun _ => rfl
  unfold Pop3Session.list
  dsimp only
  split
  next => exact finish_keeps _ hi
  next =>
    split
    next =>
      split
      next => exact finish_keeps _ hi
      next =>
        split
        next => exact hi
        next => exact hi
    next => exact hi

theorem authorization_keeps (s : Pop3Session) (command : Pop3Command) (arguments : List Text) :
    KeepsMails storage (s.authorization storage command arguments).1 := by
  cases command with
  | user =>
    simp only [Pop3Session.authorization]
    split
    next => exact keepsMails_refl _
    next =>
      split
      next => exact keepsMails_refl _
      next => exact keepsMails_refl _
  | pass =>
    simp only [Pop3Session.authorization]
    split
    next => exact keepsMails_refl _
    next =>
      split
      next => exact finish_keeps _ (keepsMails_refl _)
      next =>
        split
        next => exact keepsMails_refl _
        next => exact keepsMails_modify fun _ => rfl
  | _ => exact keepsMails_refl _

theorem pop3_request_keeps (s : Pop3Session) (request : Text) :
    KeepsMails storage (s.request storage request).1 := by
  unfold Pop3Session.request
  obtain ⟨command, arguments⟩ := pop3ParseRequest request
  cases s.state with
  | authorization => exact authorization_keeps s command arguments
  | transaction =>
    cases command with
    | list => exact list_keeps s arguments
    | _ => exact keepsMails_refl _
  | _ => exact keepsMails_refl _

theorem pop3Resume_keeps {s t : Pop3Session} {wake : MailWake} {out : List SessionEvent}
    (h : pop3Resume storage s wake = some (storage₁, t, out)) : KeepsMails storage storage₁ := by
  cases pop3Resume_step h with
  | greeted _ _ he =>
    have hk := pop3_enter_keeps s .greeting (keepsMails_refl storage)
    rw [← he] at hk
    exact hk
  | heard request _ _ he =>
    cases he
    exact pop3_request_keeps s request
  | written after _ _ he =>
    have hk : KeepsMails storage (s.replied storage after).1 := by
      cases after with
      | next state => exact pop3_enter_keeps s state (keepsMails_refl _)
      | begin => exact pop3_enter_keeps _ _ (keepsMails_release _ _)
      | scan i => exact scan_keeps s i
    rw [← he] at hk
    exact hk
  | dropped _ _ he =>
    have hk := finish_keeps s (keepsMails_refl storage)
    rw [← he] at hk
    exact hk

end

/-- No session of any protocol ever takes a mail out of a mailbox. -/
theorem mails_grow {c d : MailConfig} (h : MailStep c d) : MailsGrow c.store d.store := by
  cases h with
  | spawn => exact (keepsMails_refl _).grow
  | @resume n l wake storage l' out _ hr =>
    rcases mailResume_cases hr with ⟨_, _, _, _, hs⟩ | ⟨_, _, _, _, hs⟩ | ⟨_, _, _, _, _, rfl⟩
    · rcases smtpResume_storage hs with rfl | ⟨mail, rfl⟩
      · exact (keepsMails_refl _).grow
      · exact deliver_grows c.store mail
    · exact (pop3Resume_keeps hs).grow
    · exact (keepsMails_refl _).grow

theorem scanLines_take {user : Text} {mails : List Mail} {i : Nat} {mail : Mail}
    (h : mails[i]? = some mail) : scanLines user (mails.take (i + 1)) =
      scanLines user (mails.take i) ++ [.listed user (listEntry i mail)] := by
  obtain ⟨hi, hm⟩ := List.getElem?_eq_some_iff.mp h
  rw [List.take_succ_eq_append_getElem hi, hm, scanLines, List.mapIdx_append]
  simp [scanLines, List.length_take, Nat.min_eq_left hi.le]

/-- A session that answers a LIST: it has announced `announced`, and told of the first `i` messages
of what is a longer mailbox by now. -/
def Listing (n : Nat) (user : Text) (announced : List Mail) (before : List SessionEvent) (i : Nat)
    (mails : List Mail) (c : MailConfig) : Prop :=
  ∃ s, c.threads n = some (.pop3 s) ∧ s.user = user ∧ s.control = .writing (.scan i) ∧
    c.store.mailbox user inboxName = some mails ∧ announced <+: mails ∧ i ≤ mails.length ∧
    c.logOf n = before ++ .listed user (listOk announced) :: scanLines user (mails.take i)

/-- The session has ended. -/
def HasEnded (n : Nat) (c : MailConfig) : Prop :=
  ∃ s, c.threads n = some (.pop3 s) ∧ s.control = .ended

theorem listing_step {n i : Nat} {user : Text} {announced mails : List Mail}
    {before : List SessionEvent} {c d : MailConfig}
    (h : Listing n user announced before i mails c) (hs : MailStep c d) :
    (∃ j mails', Listing n user announced before j mails' d) ∨
    (d.logOf n = before ++ .listed user (listOk announced) :: (scanLines user mails ++
        [.sent listEnd]) ∧ d.store.mailbox user inboxName = some mails) ∨
    (d.logOf n = c.logOf n ∧ HasEnded n d) := by
  obtain ⟨s, hn, hu, hc, hm, hann, hi, hlog⟩ := h
  rcases machineStep_running_cases hs hn with ⟨wake, l', out, hr, hd, hdlog⟩ | ⟨hd, hdlog⟩
  · obtain ⟨t, rfl, ht⟩ := mailResume_pop3 hr
    have hkeep := pop3Resume_keeps ht user inboxName
    rw [hm] at hkeep
    cases pop3Resume_step ht with
    | greeted hspawned => cases hc.symm.trans hspawned
    | heard _ hreading => cases hc.symm.trans hreading
    | dropped _ _ he =>
      simp only [Pop3Session.finish, Prod.mk.injEq] at he
      obtain ⟨_, rfl, rfl⟩ := he
      exact Or.inr (Or.inr ⟨by rw [hdlog, List.append_nil], _, hd, rfl⟩)
    | written after hwriting _ he =>
      cases hc.symm.trans hwriting
      simp only [Pop3Session.replied, Pop3Session.scan, hu, hm] at he
      cases hget : mails[i]? with
      | some mail =>
        simp only [hget, Pop3Session.tell, Prod.mk.injEq] at he
        obtain ⟨_, rfl, rfl⟩ := he
        refine Or.inl ⟨i + 1, mails, _, hd, hu, rfl, hkeep, hann, ?_, ?_⟩
        · exact (List.getElem?_eq_some_iff.mp hget).1
        · rw [hdlog, hlog, scanLines_take hget, hu]
          simp
      | none =>
        simp only [hget, Pop3Session.reply, Prod.mk.injEq] at he
        obtain ⟨_, rfl, rfl⟩ := he
        refine Or.inr (Or.inl ⟨?_, hkeep⟩)
        have htake : mails.take i = mails := List.take_of_length_le (List.getElem?_eq_none_iff.mp hget)
        rw [hdlog, hlog, htake]
        simp
  · obtain ⟨mails', hm', hp⟩ := mails_grow hs user inboxName mails hm
    refine Or.inl ⟨i, mails', s, hd, hu, hc, hm', hann.trans hp, hi.trans hp.length_le, ?_⟩
    obtain ⟨new, rfl⟩ := hp
    rw [hdlog, hlog, List.take_append_of_le_length hi]

theorem hasEnded_step {n : Nat} {c d : MailConfig} (h : HasEnded n c) (hs : MailStep c d) :
    HasEnded n d ∧ d.logOf n = c.logOf n := by
  obtain ⟨s, hn, hc⟩ := h
  rcases machineStep_running_cases hs hn with ⟨wake, l', out, hr, _, _⟩ | ⟨hd, hdlog⟩
  · obtain ⟨_, _, ht⟩ := mailResume_pop3 hr
    simp [pop3Resume, hc] at ht
  · exact ⟨⟨s, hd, hc⟩, hdlog⟩

/-- A LIST without an argument is heard in `c` by a session in the transaction state, and the end of
its answer has just been said in `d`. -/
structure ListAnswered (n : Nat) (s : Pop3Session) (line : Text) (c d : MailConfig)
    (answer : List SessionEvent) : Prop where
  session : c.threads n = some (.pop3 s)
  reading : s.control = .reading
  transaction : s.state = .transaction
  request : ∃ arguments, pop3ParseRequest line = (.list, arguments) ∧ str arguments 1 = []
  run : ∃ c₁ c₂ out, MailStep c c₁ ∧ c₁.logOf n = c.logOf n ++ .heard line :: out ∧
    ReflTransGen MailStep c₁ c₂ ∧ MailStep c₂ d ∧ c₂.logOf n ≠ d.logOf n
  said : d.logOf n = c.logOf n ++ .heard line :: answer
  complete : answer.getLast? = some (.sent listEnd)
  first : .sent listEnd ∉ answer.dropLast

/-- The request is answered with what it has found in the mailbox, or ends the session. -/
theorem list_requested {n : Nat} {s : Pop3Session} {line : Text} {c c₁ : MailConfig}
    {arguments : List Text} {out : List SessionEvent} (hn : c.threads n = some (.pop3 s))
    (hc : s.control = .reading) (ht : s.state = .transaction)
    (hp : pop3ParseRequest line = (.list, arguments)) (ha : str arguments 1 = [])
    (hs : MailStep c c₁) (hlog : c₁.logOf n = c.logOf n ++ .heard line :: out) :
    Listing n s.user (c.store.inbox s.user) (c.logOf n ++ [.heard line]) 0
      (c.store.inbox s.user) c₁ ∨ HasEnded n c₁ := by
  rcases machineStep_running_cases hs hn with ⟨wake, l', out', hr, hd, hdlog⟩ | ⟨_, hdlog⟩
  · obtain ⟨t, rfl, hp3⟩ := mailResume_pop3 hr
    have hkeep := pop3Resume_keeps hp3 s.user inboxName
    rw [hdlog, List.append_cancel_left_eq] at hlog
    cases pop3Resume_step hp3 with
    | greeted hspawned => cases hc.symm.trans hspawned
    | written _ hwriting => cases hc.symm.trans hwriting
    | dropped _ _ he =>
      simp only [Pop3Session.finish, Prod.mk.injEq] at he
      rw [he.2.2] at hlog
      cases hlog
    | heard request _ _ he =>
      have hreq : request = line := by
        rw [(Prod.mk.inj (Prod.mk.inj he).2).2] at hlog
        simpa using (List.cons.inj hlog).1
      subst hreq
      have hkeeps : KeepsMails c.store (c.store.index s.user) := keepsMails_modify fun _ => rfl
      have hindex := hkeeps s.user inboxName
      simp only [Pop3Session.request, hp, ht, Pop3Session.transaction, Pop3Session.list, hindex,
        ha, ne_eq, not_true_eq_false, if_false] at he
      cases hm : c.store.mailbox s.user inboxName with
      -- no such mailbox: `at` throws, and the session ends
      | none =>
        simp only [hm, Pop3Session.finish, Prod.mk.injEq] at he
        obtain ⟨_, rfl, _⟩ := he
        exact Or.inr ⟨_, hd, rfl⟩
      | some mails =>
        simp only [hm, Pop3Session.tell, Prod.mk.injEq] at he
        obtain ⟨_, rfl, rfl⟩ := he
        have hin : c.store.inbox s.user = mails := by simp [MailStorage.inbox, hm]
        rw [hin]
        refine Or.inl ⟨_, hd, rfl, rfl, hkeep.trans hm, List.prefix_refl _, Nat.zero_le _, ?_⟩
        rw [hdlog]
        simp [scanLines]
  · rw [hdlog] at hlog
    simp at hlog

/-- Where the answer to a LIST can be: it goes on, it is complete, or the session has ended. -/
def Answering (n : Nat) (user : Text) (announced : List Mail) (before : List SessionEvent)
    (c : MailConfig) : Prop :=
  (∃ i mails, Listing n user announced before i mails c) ∨
  (∃ said, before ++ said ++ [.sent listEnd] <+: c.logOf n) ∨ HasEnded n c

theorem answering_step {n : Nat} {user : Text} {announced : List Mail}
    {before : List SessionEvent} {c d : MailConfig} (h : Answering n user announced before c)
    (hs : MailStep c d) : Answering n user announced before d := by
  rcases h with ⟨i, mails, h⟩ | ⟨said, h⟩ | h
  · rcases listing_step h hs with h | ⟨hlog, _⟩ | ⟨_, h⟩
    · exact Or.inl h
    · refine Or.inr (Or.inl ⟨.listed user (listOk announced) :: scanLines user mails, ?_⟩)
      rw [hlog]
      simp
    · exact Or.inr (Or.inr h)
  · exact Or.inr (Or.inl ⟨said, h.trans (machineStep_log_grows n hs)⟩)
  · exact Or.inr (Or.inr (hasEnded_step h hs).1)

/-- The answer announces the mails that were there, and tells of those that are there in the end. -/
theorem list_answer {n : Nat} {s : Pop3Session} {line : Text} {c d : MailConfig}
    {answer : List SessionEvent} (h : ListAnswered n s line c d answer) :
    answer = .listed s.user (listOk (c.store.inbox s.user)) ::
      (scanLines s.user (d.store.inbox s.user) ++ [.sent listEnd]) ∧
    c.store.inbox s.user <+: d.store.inbox s.user := by
  obtain ⟨arguments, hp, ha⟩ := h.request
  obtain ⟨c₁, c₂, out, hs, hlog, run, hlast, hnew⟩ := h.run
  have start : Answering n s.user (c.store.inbox s.user) (c.logOf n ++ [.heard line]) c₁ := by
    rcases list_requested h.session h.reading h.transaction hp ha hs hlog with hl | he
    · exact Or.inl ⟨_, _, hl⟩
    · exact Or.inr (Or.inr he)
  have hsaid : d.logOf n = c.logOf n ++ [.heard line] ++ answer := by
    rw [h.said]
    simp
  rcases reaches_invariant run start fun _ _ => answering_step with ⟨i, mails, hl⟩ | ⟨said, hl⟩ | he
  · rcases listing_step hl hlast with ⟨j, mails', hl'⟩ | ⟨hdlog, hm⟩ | ⟨hsame, _⟩
    · -- the last line said would not be the end
      obtain ⟨_, _, _, _, _, _, _, hdlog⟩ := hl'
      rw [hsaid, List.append_cancel_left_eq] at hdlog
      have hend := List.mem_of_getLast? h.complete
      rw [hdlog] at hend
      simp [scanLines] at hend
    · have hin : d.store.inbox s.user = mails := by simp [MailStorage.inbox, hm]
      obtain ⟨_, _, _, _, _, hann, _⟩ := hl
      rw [hsaid, List.append_cancel_left_eq] at hdlog
      rw [hin]
      exact ⟨hdlog, hann⟩
    · exact absurd hsame.symm hnew
  · -- the end would have been said before
    obtain ⟨rest, hrest⟩ := hl
    obtain ⟨new, hd⟩ := machineStep_log_grows n hlast
    have hne : new ≠ [] := by
      rintro rfl
      exact hnew (by simpa using hd)
    rw [hsaid, ← hrest] at hd
    simp only [List.append_assoc, List.append_cancel_left_eq] at hd
    refine absurd ?_ h.first
    rw [← hd, List.dropLast_append_of_ne_nil (by simp),
      List.dropLast_append_of_ne_nil (by simp [hne])]
    simp
  · exact absurd (hasEnded_step he hlast).2.symm hnew

/-- The answer is consistent if and only if no mail has come for the user before its end. -/
theorem list_consistent_iff {n : Nat} {s : Pop3Session} {line : Text} {c d : MailConfig}
    {answer : List SessionEvent} (h : ListAnswered n s line c d answer) :
    answer = listAnswer s.user (c.store.inbox s.user) ↔
      d.store.inbox s.user = c.store.inbox s.user := by
  obtain ⟨hanswer, hp⟩ := list_answer h
  constructor
  · intro he
    rw [hanswer, listAnswer] at he
    have hlen := congrArg List.length he
    simp only [scanLines, List.length_cons, List.length_append, List.length_mapIdx] at hlen
    exact (hp.eq_of_length (by omega)).symm
  · intro he
    rw [hanswer, he]
    rfl

def liia : Text := "liia@localhost".toList

/-- A POP3 session, and an SMTP session that comes while it runs. -/
def twoSessions : MailConfig :=
  ⟨mockData, Function.update (Function.update (fun _ => none) 0 (some (.pop3 {}))) 1
    (some (.smtp {})), []⟩

/-- The POP3 session has logged in, and the SMTP session is about to get the text of a mail. -/
def listReady : Option MailConfig :=
  twoSessions.replay mailServer <|
    ([.scheduled, .written, .line ("user ".toList ++ liia), .written, .line "pass x".toList,
      .written].map fun wake => (0, wake)) ++
    ([.scheduled, .written, .line "helo ab".toList, .written, .line "mail from:<a@bc>".toList,
      .written, .line "rcpt to:<liia@localhost>".toList, .written, .line "data".toList].map
      fun wake => (1, wake))

theorem listReady_isSome : listReady.isSome = true := by decide +kernel

theorem twoSessions_free : twoSessions.Free mailServer 0 :=
  free_update mockData [] (free_update mockData [] (free_init mockData 0) (Or.inr rfl)) (Or.inr rfl)

theorem listReady_free : (listReady.get listReady_isSome).Free mailServer 0 :=
  replay_free (List.cons_ne_nil _ _) (fun e he => by cases he; exact twoSessions_free)
    (Option.some_get listReady_isSome).symm (by decide +kernel)

theorem listReady_reached :
    ReflTransGen MailStep (Config.init mockData) (listReady.get listReady_isSome) := by
  have second : MailStep oneLogin twoSessions :=
    .spawn rfl (Or.inl rfl) (free_update mockData [] (free_init mockData 0) (Or.inr rfl))
  exact .head oneLogin_spawned (.head second (machine_replay_reaches
    (fun e he => by cases he; exact twoSessions_free) (Option.some_get listReady_isSome).symm))

def loggedIn : Pop3Session :=
  { state := .transaction, user := liia, currentTransaction := some liia, control := .reading }

/-- The configurations after the request, before the last line and after it. -/
def afterList (events : List (Nat × MailWake)) : Option (MailConfig × MailConfig × MailConfig) :=
  ((listReady.get listReady_isSome).resumed mailServer 0 (.line "list".toList)).bind fun c₁ =>
    (c₁.replay mailServer events).bind fun c₂ =>
      (c₂.resumed mailServer 0 .written).map fun d => (c₁, c₂, d)

theorem afterList_run {events : List (Nat × MailWake)} {r : MailConfig × MailConfig × MailConfig}
    (h : some r = afterList events) (hne : events ≠ [])
    (hfirst : ∀ e ∈ events.head?, r.1.lets mailServer 0 e.1 = true)
    (hlast : ∀ e ∈ events.getLast?, r.2.1.lets mailServer e.1 0 = true) :
    MailStep (listReady.get listReady_isSome) r.1 ∧ ReflTransGen MailStep r.1 r.2.1 ∧
      MailStep r.2.1 r.2.2 := by
  obtain ⟨c, hc, h⟩ := Option.bind_eq_some_iff.mp h.symm
  obtain ⟨c', hc', h⟩ := Option.bind_eq_some_iff.mp h
  obtain ⟨d, hd, he⟩ := Option.map_eq_some_iff.mp h
  cases he
  have free : ∀ e ∈ events.head?, c.Free mailServer e.1 := fun e he =>
    resumed_free hc listReady_free (hfirst e he)
  exact ⟨resumed_step hc listReady_free, machine_replay_reaches free hc',
    resumed_step hd (replay_free hne free hc' hlast)⟩

/-- What the session has said since it has heard the request. -/
def answerIn (c : MailConfig) : List SessionEvent :=
  (c.logOf 0).drop (((listReady.get listReady_isSome).logOf 0).length + 1)

theorem list_parsed : pop3ParseRequest "list".toList = (.list, ["list".toList, []]) := by
  decide +kernel

theorem listReady_session :
    (listReady.get listReady_isSome).threads 0 = some (.pop3 loggedIn) := by
  decide +kernel

theorem afterList_answered {c₁ c₂ d : MailConfig}
    (run : MailStep (listReady.get listReady_isSome) c₁ ∧ ReflTransGen MailStep c₁ c₂ ∧
      MailStep c₂ d)
    (checks : c₁.logOf 0 =
        (listReady.get listReady_isSome).logOf 0 ++ .heard "list".toList :: answerIn c₁ ∧
      c₂.logOf 0 ≠ d.logOf 0 ∧
      d.logOf 0 =
        (listReady.get listReady_isSome).logOf 0 ++ .heard "list".toList :: answerIn d ∧
      (answerIn d).getLast? = some (.sent listEnd) ∧
      .sent listEnd ∉ (answerIn d).dropLast) :
    ListAnswered 0 loggedIn "list".toList (listReady.get listReady_isSome) d (answerIn d) := by
  obtain ⟨heard, new, said, complete, first⟩ := checks
  exact ⟨listReady_session, rfl, rfl, ⟨_, list_parsed, rfl⟩,
    ⟨c₁, c₂, answerIn c₁, run.1, heard, run.2.1, run.2.2, new⟩, said, complete, first⟩

def quietList : List (Nat × MailWake) := [(0, .written)]

theorem quietList_isSome : (afterList quietList).isSome = true := by decide +kernel

theorem quietList_answered : ListAnswered 0 loggedIn "list".toList
    (listReady.get listReady_isSome) ((afterList quietList).get quietList_isSome).2.2
    (answerIn ((afterList quietList).get quietList_isSome).2.2) :=
  afterList_answered (afterList_run (Option.some_get quietList_isSome) (List.cons_ne_nil _ _)
    (by decide +kernel) (by decide +kernel)) (by decide +kernel)

theorem list_consistent_quiet :
    answerIn ((afterList quietList).get quietList_isSome).2.2 =
      listAnswer loggedIn.user ((listReady.get listReady_isSome).store.inbox loggedIn.user) :=
  (list_consistent_iff quietList_answered).mpr (by decide +kernel)

/-- The mail comes while the session tells of the first message. -/
def busyList : List (Nat × MailWake) :=
  [(1, .written), (1, .body ["hi".toList, ".".toList]), (0, .written), (0, .written)]

theorem busyList_isSome : (afterList busyList).isSome = true := by decide +kernel

theorem busyList_run :
    MailStep (listReady.get listReady_isSome) ((afterList busyList).get busyList_isSome).1 ∧
    ReflTransGen MailStep ((afterList busyList).get busyList_isSome).1
      ((afterList busyList).get busyList_isSome).2.1 ∧
    MailStep ((afterList busyList).get busyList_isSome).2.1
      ((afterList busyList).get busyList_isSome).2.2 :=
  afterList_run (Option.some_get busyList_isSome) (List.cons_ne_nil _ _) (by decide +kernel)
    (by decide +kernel)

theorem list_inconsistent : ∃ n s line c d answer,
    ReflTransGen MailStep (Config.init mockData) c ∧ ListAnswered n s line c d answer ∧
    answer ≠ listAnswer s.user (c.store.inbox s.user) := by
  have answered := afterList_answered busyList_run (by decide +kernel)
  exact ⟨0, loggedIn, "list".toList, _, _, _, listReady_reached, answered, by decide +kernel⟩

end Protocols
