import Protocols.MailInvariant

namespace Protocols

open Relation

def statusLine : SessionEvent → Bool
  | .sent line | .listed _ line => "+OK".toList.isPrefixOf line || "-ERR".toList.isPrefixOf line
  | .heard _ | .heardBody _ => false

def refusal : SessionEvent → Bool
  | .sent line | .listed _ line => "-ERR".toList.isPrefixOf line
  | .heard _ | .heardBody _ => false

/-- The sessions differ at most in what they are waiting for. -/
structure SameSession (s t : Pop3Session) : Prop where
  state : t.state = s.state
  user : t.user = s.user
  tryTransaction : t.tryTransaction = s.tryTransaction
  currentTransaction : t.currentTransaction = s.currentTransaction

/-- The line is answered with one status line, whatever the other sessions do. Neither the request
nor what the session does after it has any effect if it is refused, and the session ends only if it
is a QUIT. -/
def Disciplined (n : Nat) (s : Pop3Session) (line : Text) (c : MailConfig) : Prop :=
  ∀ c₁ d, c.resumed mailServer n (.line line) = some c₁ →
    ReflTransGen (StepWith mailServer n (· = .written)) c₁ d →
    ∃ t answer, d.threads n = some (.pop3 t) ∧ d.logOf n = c.logOf n ++ .heard line :: answer ∧
      answer.countP statusLine = 1 ∧
      (answer.any refusal = true → c₁.store = c.store ∧ SameSession s t ∧
        ∀ e, d.resumed mailServer n .written = some e → e.store = d.store) ∧
      (t.control = .ended → (pop3ParseRequest line).1 = .quit)

/-- A LIST with a number that does not fit into an `int`. -/
def Pop3Session.Overflows (s : Pop3Session) (line : Text) : Prop :=
  s.state = .transaction ∧ (pop3ParseRequest line).1 = .list ∧
    str (pop3ParseRequest line).2 1 ≠ [] ∧ stoi (str (pop3ParseRequest line).2 1) = none

/-- Where a session can be while it answers the line, and after it. -/
def Pop3Control.GoesOn (line : Text) : Pop3Control → Prop
  | .spawned | .writing (.next .greeting) => False
  | .writing (.next .quit) | .ended => (pop3ParseRequest line).1 = .quit
  | _ => True

/-- What a request does that is answered with one status line. -/
structure RepliesOnce (storage : MailStorage) (s : Pop3Session) (line : Text) (o : Pop3Outcome) :
    Prop where
  one : o.2.2.countP statusLine = 1
  refused : o.2.2.any refusal = true →
    o.1 = storage ∧ SameSession s o.2.1 ∧ o.2.1.control = .writing (.next s.state)
  goesOn : o.2.1.control.GoesOn line

theorem sameSession_refl (s : Pop3Session) (control : Pop3Control) :
    SameSession s { s with control := control } :=
  ⟨rfl, rfl, rfl, rfl⟩

theorem listEntry_no_status (user : Text) (i : Nat) (mail : Mail) :
    statusLine (.listed user (listEntry i mail)) = false ∧
      refusal (.listed user (listEntry i mail)) = false := by
  obtain ⟨digit, digits, hdigits⟩ :=
    List.exists_cons_of_ne_nil (decimal_ne_nil (i + 1))
  have hdigit : digit.isDigit = true := by
    apply Nat.isDigit_of_mem_toDigits (n := i + 1) (by decide) le_rfl
    rw [show Nat.toDigits 10 (i + 1) = _ from hdigits]
    exact List.mem_cons_self
  have hplus : ('+' == digit) = false := by
    rw [beq_eq_false_iff_ne]
    rintro rfl
    simp at hdigit
  have hminus : ('-' == digit) = false := by
    rw [beq_eq_false_iff_ne]
    rintro rfl
    simp at hdigit
  simp [statusLine, refusal, listEntry, format, hdigits, List.isPrefixOf, hplus, hminus]

section

variable {storage : MailStorage} {s : Pop3Session} {line : Text}

theorem repliesOnce_refuse {reply : Text} (hr : refusal (.sent reply) = true)
    (hs : s.state = .authorization ∨ s.state = .transaction) :
    RepliesOnce storage s line (s.reply storage reply (.next s.state)) := by
  have hstatus : statusLine (.sent reply) = true := by
    rw [refusal] at hr
    rw [statusLine, hr, Bool.or_true]
  refine ⟨by simp [Pop3Session.reply, hstatus], fun _ => ⟨rfl, sameSession_refl _ _, rfl⟩, ?_⟩
  rcases hs with hs | hs
  · rw [hs]
    trivial
  · rw [hs]
    trivial

theorem repliesOnce_accept {o : Pop3Outcome} {e : SessionEvent} (ho : o.2.2 = [e])
    (hs : statusLine e = true) (hr : refusal e = false) (hg : o.2.1.control.GoesOn line) :
    RepliesOnce storage s line o := by
  refine ⟨by simp [ho, hs], fun h => ?_, hg⟩
  simp [ho, hr] at h

theorem authorization_replies (hs : s.state = .authorization)
    (hknown : s.user ≠ [] → s.user ∈ storage.maildrops) {command : Pop3Command}
    {arguments : List Text} (hp : pop3ParseRequest line = (command, arguments)) :
    RepliesOnce storage s line (s.authorization storage command arguments) := by
  have refuse : ∀ reply, refusal (.sent reply) = true →
      RepliesOnce storage s line (s.reply storage reply (.next .authorization)) := by
    intro reply hr
    rw [← hs]
    exact repliesOnce_refuse hr (Or.inl hs)
  cases command with
  | user =>
    simp only [Pop3Session.authorization]
    split
    next => exact refuse _ rfl
    next =>
      split
      next => exact refuse _ rfl
      next => exact repliesOnce_accept rfl rfl rfl trivial
  | pass =>
    simp only [Pop3Session.authorization]
    split
    next => exact refuse _ rfl
    next huser =>
      split
      next hnone =>
        obtain ⟨drop, hdrop⟩ := mem_maildrops_iff.mp (hknown huser)
        rw [hdrop] at hnone
        cases hnone
      next =>
        split
        next => exact refuse _ rfl
        next => exact repliesOnce_accept rfl rfl rfl trivial
  | quit =>
    exact repliesOnce_accept rfl rfl rfl (show (pop3ParseRequest line).1 = .quit by rw [hp])
  | list => exact refuse _ rfl
  | unknown => exact refuse _ rfl

theorem list_replies (hs : s.state = .transaction) (hindex : storage.index s.user = storage)
    {mails : List Mail} (hm : storage.mailbox s.user inboxName = some mails)
    {arguments : List Text}
    (ho : str arguments 1 ≠ [] → stoi (str arguments 1) ≠ none) :
    RepliesOnce storage s line (s.list storage arguments) := by
  unfold Pop3Session.list
  simp only [hindex, hm]
  split
  next hnumber =>
    split
    next hnone => exact absurd hnone (ho hnumber)
    next =>
      split
      next =>
        rw [← hs]
        exact repliesOnce_refuse rfl (Or.inr hs)
      next => exact repliesOnce_accept rfl rfl rfl trivial
  next => exact repliesOnce_accept rfl rfl rfl trivial

theorem transaction_replies (hs : s.state = .transaction)
    (hindex : storage.index s.user = storage) {mails : List Mail}
    (hm : storage.mailbox s.user inboxName = some mails) {command : Pop3Command}
    {arguments : List Text} (hp : pop3ParseRequest line = (command, arguments))
    (ho : ¬ s.Overflows line) :
    RepliesOnce storage s line (s.transaction storage command arguments) := by
  have refuse : RepliesOnce storage s line (s.reply storage negative (.next .transaction)) := by
    rw [← hs]
    exact repliesOnce_refuse rfl (Or.inr hs)
  cases command with
  | list =>
    refine list_replies hs hindex hm fun hne hnone => ho ⟨hs, ?_⟩
    rw [hp]
    exact ⟨rfl, hne, hnone⟩
  | quit =>
    exact repliesOnce_accept rfl rfl rfl (show (pop3ParseRequest line).1 = .quit by rw [hp])
  | user => exact refuse
  | pass => exact refuse
  | unknown => exact refuse

end

/-- Where a session can be while it answers the line: it has said one status line, and if that was a
refusal, the session and what it has found unchanged are as they were. -/
def Replying (n : Nat) (s : Pop3Session) (line : Text) (before : List SessionEvent)
    (unchanged : Prop) (c : MailConfig) : Prop :=
  ∃ t answer, c.threads n = some (.pop3 t) ∧ c.logOf n = before ++ answer ∧
    answer.countP statusLine = 1 ∧ t.control.GoesOn line ∧
    (answer.any refusal = true → unchanged ∧ SameSession s t ∧
      (t.control = .writing (.next s.state) ∨ t.control = .reading))

/-- What the session does once a line has been written. -/
theorem replied_goes_on {n : Nat} {c : MailConfig} {t : Pop3Session} {line : Text} {after : Pop3After}
    (sound : StoreSound c) (hn : c.threads n = some (.pop3 t)) (hc : t.control = .writing after)
    (hg : t.control.GoesOn line) :
    (t.replied c.store after).2.1.control.GoesOn line ∧
      (t.replied c.store after).2.2.countP statusLine = 0 ∧
      (t.replied c.store after).2.2.any refusal = false := by
  rw [hc] at hg
  cases after with
  | next state =>
    cases state with
    | greeting => exact hg.elim
    | authorization => exact ⟨trivial, rfl, rfl⟩
    | transaction => exact ⟨trivial, rfl, rfl⟩
    | quit => exact ⟨hg, rfl, rfl⟩
  | begin => exact ⟨trivial, rfl, rfl⟩
  | scan i =>
    have hpast : t.PastAuthorization := Or.inr (Or.inr (Or.inr ⟨i, hc⟩))
    obtain ⟨mails, hm, _⟩ := (storeSound_lookups sound).inbox n t hn hpast
    simp only [Pop3Session.replied, Pop3Session.scan, hm]
    split
    next mail hmail =>
      obtain ⟨hstatus, hrefusal⟩ := listEntry_no_status t.user i mail
      refine ⟨trivial, ?_, ?_⟩
      · simp [Pop3Session.tell, hstatus]
      · simp [Pop3Session.tell, hrefusal]
    next => exact ⟨trivial, rfl, rfl⟩

theorem replying_step {n : Nat} {s : Pop3Session} {line : Text} {before : List SessionEvent}
    {unchanged : Prop} {c d : MailConfig} (sound : StoreSound c)
    (hs : s.state = .authorization ∨ s.state = .transaction)
    (h : Replying n s line before unchanged c)
    (hstep : StepWith mailServer n (· = .written) c d) : Replying n s line before unchanged d := by
  obtain ⟨t, answer, hn, hlog, hone, hgoes, hrefused⟩ := h
  rcases stepWith_running_cases hstep hn with ⟨wake, l', out, rfl, hr, hd, hdlog⟩ | ⟨hd, hdlog⟩
  · obtain ⟨t', rfl, ht⟩ := mailResume_pop3 hr
    rw [hlog, List.append_assoc] at hdlog
    obtain ⟨after, hc, he⟩ := pop3Resume_written ht
    obtain ⟨hgoes', hzero, hnone⟩ := replied_goes_on sound hn hc hgoes
    rw [← he] at hgoes' hzero hnone
    refine ⟨t', answer ++ out, hd, hdlog, ?_, hgoes', fun hany => ?_⟩
    · rw [List.countP_append, hone, hzero]
    · rw [List.any_append, hnone, Bool.or_false] at hany
      obtain ⟨hunchanged, hsame, hwriting | hreading⟩ := hrefused hany
      · cases hwriting.symm.trans hc
        have ht' : t' = { t with state := s.state, control := .reading } := by
          rcases hs with hs | hs
          · rw [hs] at he ⊢
            exact (Prod.mk.inj (Prod.mk.inj he).2).1
          · rw [hs] at he ⊢
            exact (Prod.mk.inj (Prod.mk.inj he).2).1
        rw [ht']
        exact ⟨hunchanged, ⟨rfl, hsame.user, hsame.tryTransaction, hsame.currentTransaction⟩,
          Or.inr rfl⟩
      · cases hreading.symm.trans hc
  · exact ⟨t, answer, hd, hdlog.trans hlog, hone, hgoes, hrefused⟩

/-- A refusal has no effect when its line has been written, either. -/
theorem refused_keeps {n : Nat} {c d : MailConfig} {t : Pop3Session} {state : Pop3State}
    (hs : state = .authorization ∨ state = .transaction) (hn : c.threads n = some (.pop3 t))
    (hc : t.control = .writing (.next state) ∨ t.control = .reading)
    (hd : c.resumed mailServer n .written = some d) : d.store = c.store := by
  obtain ⟨l', out, hr, _⟩ := resumed_cases hd hn
  obtain ⟨t', _, ht⟩ := mailResume_pop3 hr
  obtain ⟨after, hwriting, he⟩ := pop3Resume_written ht
  rcases hc with hc | hc <;> cases hc.symm.trans hwriting
  rcases hs with rfl | rfl
  · exact (Prod.mk.inj he).1
  · exact (Prod.mk.inj he).1

section

variable {n : Nat} {s : Pop3Session} {line : Text} {c : MailConfig}

theorem pop3_request_heard (hn : c.threads n = some (.pop3 s)) (hc : s.control = .reading)
    (line : Text) : ∃ c₁, c.resumed mailServer n (.line line) = some c₁ ∧
      c₁.threads n = some (.pop3 (s.request c.store line).2.1) ∧
      c₁.store = (s.request c.store line).1 ∧
      c₁.logOf n = (c.logOf n ++ [.heard line]) ++ (s.request c.store line).2.2 := by
  have hr : mailServer.resume c.store (.pop3 s) (.line line) =
      some ((s.request c.store line).1, .pop3 (s.request c.store line).2.1,
        .heard line :: (s.request c.store line).2.2) := by
    simp [mailServer, mailResume, pop3Resume, hc]
  exact line_heard hn hr

theorem request_replies (sound : StoreSound c) (hn : c.threads n = some (.pop3 s))
    (hs : s.state = .authorization ∨ s.state = .transaction) (ho : ¬ s.Overflows line) :
    RepliesOnce c.store s line (s.request c.store line) := by
  have hg := sound.pop3 n s hn
  unfold Pop3Session.request
  rcases hs with hs | hs
  · simp only [hs]
    exact authorization_replies hs hg.known rfl
  · have lookups := storeSound_lookups sound
    obtain ⟨mails, hm, _⟩ := lookups.inbox n s hn (Or.inl hs)
    simp only [hs]
    exact transaction_replies hs (lookups.index n s hn (Or.inl hs)) hm rfl ho

theorem fitting_disciplined (sound : StoreSound c) (hn : c.threads n = some (.pop3 s))
    (hc : s.control = .reading) (hs : s.state = .authorization ∨ s.state = .transaction)
    (ho : ¬ s.Overflows line) : Disciplined n s line c := by
  intro c₁ d hc₁ run
  obtain ⟨c₁', hc₁', hn₁, hstore, hlog⟩ := pop3_request_heard hn hc line
  cases Option.some.inj (hc₁.symm.trans hc₁')
  have once := request_replies sound hn hs ho
  have start : Replying n s line (c.logOf n ++ [.heard line]) (c₁.store = c.store) c₁ := by
    refine ⟨_, _, hn₁, hlog, once.one, once.goesOn, fun hany => ?_⟩
    obtain ⟨hsame, hsession, hplace⟩ := once.refused hany
    exact ⟨hstore.trans hsame, hsession, Or.inl hplace⟩
  have kept : StoreSound d ∧
      Replying n s line (c.logOf n ++ [.heard line]) (c₁.store = c.store) d :=
    reaches_invariant (P := fun e => StoreSound e ∧
      Replying n s line (c.logOf n ++ [.heard line]) (c₁.store = c.store) e) run
      ⟨storeSound_step sound (resumed_parallel hc₁), start⟩
      fun _ _ ⟨he, hm⟩ hstep => ⟨storeSound_step he hstep.step.parallel, replying_step he hs hm hstep⟩
  obtain ⟨t, answer, hd, hdlog, hone, hgoes, hrefused⟩ := kept.2
  refine ⟨t, answer, hd, by rw [hdlog, List.append_assoc]; rfl, hone, fun hany => ?_, fun he => ?_⟩
  · obtain ⟨hunchanged, hsame, hplace⟩ := hrefused hany
    exact ⟨hunchanged, hsame, fun e he => refused_keeps hs hd hplace he⟩
  · rw [he] at hgoes
    exact hgoes

/-- Where the number does not fit, the session ends without an answer. -/
theorem overflows_undisciplined (sound : StoreSound c) (hn : c.threads n = some (.pop3 s))
    (hc : s.control = .reading) (ho : s.Overflows line) : ¬ Disciplined n s line c := by
  intro disciplined
  obtain ⟨hs, hlist, hne, hnone⟩ := ho
  obtain ⟨c₁, hc₁, _, _, hlog⟩ := pop3_request_heard hn hc line
  have lookups := storeSound_lookups sound
  obtain ⟨mails, hm, _⟩ := lookups.inbox n s hn (Or.inl hs)
  have hsilent : (s.request c.store line).2.2 = [] := by
    unfold Pop3Session.request
    simp only [hs, hlist, Pop3Session.transaction, Pop3Session.list,
      lookups.index n s hn (Or.inl hs), hm, if_pos hne, hnone]
    rfl
  obtain ⟨_, answer, _, hanswer, hone, _⟩ := disciplined c₁ c₁ hc₁ .refl
  rw [hlog, hsilent, List.append_nil, List.append_cancel_left_eq] at hanswer
  rw [← (List.cons.inj hanswer).2] at hone
  simp at hone

end

/-- A request line is answered as it should be if and only if it is no LIST with a number that does
not fit into an `int`. -/
theorem pop3_disciplined_iff {n : Nat} {s : Pop3Session} {line : Text} {c : MailConfig}
    (run : ReflTransGen MailStep (Config.init mockData) c) (hn : c.threads n = some (.pop3 s))
    (hc : s.control = .reading) : Disciplined n s line c ↔ ¬ s.Overflows line := by
  have sound := storeSound_reaches run
  have hs : s.state = .authorization ∨ s.state = .transaction := by
    have hfits := ((locksHeld_reaches mockData_unlocked run).tracked n s hn).valid.fits
    rwa [hc] at hfits
  constructor
  · exact fun disciplined ho => overflows_undisciplined sound hn hc ho disciplined
  · exact fitting_disciplined sound hn hc hs

theorem pop3_disciplined_list :
    Disciplined 0 loggedIn "list".toList (listReady.get listReady_isSome) := by
  refine (pop3_disciplined_iff listReady_reached listReady_session rfl).mpr ?_
  rintro ⟨_, _, hne, _⟩
  rw [list_parsed] at hne
  exact hne rfl

/-- A LIST with the number 2147483648 ends the session without an answer. -/
theorem pop3_list_undisciplined : ∃ n s line c,
    ReflTransGen MailStep (Config.init mockData) c ∧ c.threads n = some (.pop3 s) ∧
    s.control = .reading ∧ ¬ Disciplined n s line c :=
  ⟨0, loggedIn, "list 2147483648".toList, _, listReady_reached, listReady_session, rfl,
    overflows_undisciplined (storeSound_reaches listReady_reached) listReady_session rfl
      ⟨rfl, by decide +kernel⟩⟩

end Protocols
