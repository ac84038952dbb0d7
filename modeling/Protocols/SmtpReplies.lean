import Protocols.MailServer

namespace Protocols

open Relation

/-- What may come next in a dialogue: the greeting, a request, the reply to it, the body of a mail,
the reply to that, or nothing more. -/
inductive SmtpPhase
  | fresh
  | idle
  | asked (request : Text)
  | body
  | delivered
  | closed
  deriving DecidableEq

/-- What a dialogue has come to: whether a HELO has been accepted, and the transaction that is
pending. -/
structure SmtpMonitor where
  phase : SmtpPhase := .fresh
  greeted : Bool := false
  transaction : Option Transaction := none
  deriving DecidableEq

namespace SmtpMonitor

/-- The code of a reply begins with a 5. -/
def Refusal (reply : Text) : Prop := reply.head? = some '5'

instance (reply : Text) : Decidable (Refusal reply) := inferInstanceAs (Decidable (_ = _))

/-- A refusal changes nothing. -/
def refuse (m : SmtpMonitor) (reply : Text) : Option SmtpMonitor :=
  if Refusal reply then some { m with phase := .idle } else none

/-- What a dialogue comes to when the request is answered with the reply, if it may be. -/
def answer (m : SmtpMonitor) (request reply : Text) : Option SmtpMonitor :=
  match smtpParseRequest request with
  | (.helo, _) =>
    if reply = makeReply 250 [hostName.toList] then some { m with phase := .idle, greeted := true }
    else m.refuse reply
  | (.mail, arguments) =>
    if reply = makeReply 250 [] then
      if m.greeted ∧ m.transaction = none then
        some { m with phase := .idle, transaction := some ⟨str arguments 1, .empty⟩ }
      else none
    else m.refuse reply
  | (.rcpt, arguments) =>
    if reply = makeReply 250 [] then
      m.transaction.map fun t => { m with
        phase := .idle,
        transaction := some { t with recipients := t.recipients.insert (str arguments 1) } }
    else m.refuse reply
  | (.data, _) =>
    if reply = makeReply 354 [] then
      if ∃ t, m.transaction = some t ∧ t.recipients.toList ≠ [] then some { m with phase := .body }
      else none
    else m.refuse reply
  | (.quit, _) =>
    if reply = makeReply 221 [hostName.toList] then
      some { m with phase := .closed, transaction := none }
    else none
  | (.unknown, _) => m.refuse reply

/-- What a dialogue comes to with one more event, if that is one that may come next. -/
def next (m : SmtpMonitor) (e : SessionEvent) : Option SmtpMonitor :=
  match m.phase, e with
  | .fresh, .sent reply =>
    if reply = makeReply 220 [hostName.toList] then some { m with phase := .idle } else none
  | .idle, .heard request => some { m with phase := .asked request }
  | .asked request, .sent reply => m.answer request reply
  | .body, .heardBody _ => some { m with phase := .delivered }
  | .delivered, .sent reply =>
    if reply = makeReply 250 [] then some { m with phase := .idle, transaction := none } else none
  | _, _ => none

def run (m : SmtpMonitor) : List SessionEvent → Option SmtpMonitor
  | [] => some m
  | e :: events => (m.next e).bind fun m => m.run events

end SmtpMonitor

open SmtpMonitor

theorem monitor_run_append (m : SmtpMonitor) (events events' : List SessionEvent) :
    m.run (events ++ events') = (m.run events).bind fun m => m.run events' := by
  induction events generalizing m with
  | nil => rfl
  | cons e events ih =>
    rw [List.cons_append, SmtpMonitor.run, SmtpMonitor.run]
    cases m.next e with
    | none => rfl
    | some m => exact ih m

/-- The phase of the dialogue of a session between two resumptions. -/
def SmtpSession.phase (s : SmtpSession) : SmtpPhase :=
  match s.control with
  | .spawned => .fresh
  | .writing .readBody | .readingBody => .body
  | .writing .close | .ended => .closed
  | _ => .idle

/-- The state that a session reads its next request in, as its reply has it or will have it. -/
def SmtpSession.readsIn (s : SmtpSession) : Option SmtpState :=
  match s.control with
  | .reading => some s.state
  | .writing (.next state) => some state
  | .writing (.sender _) | .writing (.recipient _) => some .recipients
  | .writing .readBody | .readingBody => some .initTransaction
  | .spawned => some .waitHelo
  | .writing .close | .ended => none

/-- A session and what its dialogue has come to. -/
structure Agrees (s : SmtpSession) (m : SmtpMonitor) : Prop where
  phase : s.control ≠ .ended → m.phase = s.phase
  transaction : s.control ≠ .ended → m.transaction = s.transaction
  greeted : s.readsIn = some .initTransaction ∨ s.readsIn = some .recipients → m.greeted = true
  reads : ∀ state, s.readsIn = some state →
    state = .waitHelo ∨ state = .initTransaction ∨ state = .recipients

/-- What a session says next is what may come next, and the dialogue comes to where the session is. -/
def Follows (m : SmtpMonitor) (o : SmtpSession × List SessionEvent) : Prop :=
  ∃ m', m.run o.2 = some m' ∧ Agrees o.1 m'

theorem follows_sent {s : SmtpSession} {m : SmtpMonitor} (m' : SmtpMonitor) {reply : Text}
    {after : SmtpAfter}
    (hm : m.next (.sent reply) = some m') (ha : Agrees (s.reply reply after).1 m') :
    Follows m (s.reply reply after) :=
  ⟨m', by simp [SmtpSession.reply, SmtpMonitor.run, hm], ha⟩

/-- The transaction that a session is in when it reads its next request in the state. -/
def SmtpSession.pending (s : SmtpSession) (state : SmtpState) : Option Transaction :=
  if state = .recipients then some ⟨s.currentMail.sender, s.currentMail.recipients⟩ else none

theorem agrees_next {s : SmtpSession} {m : SmtpMonitor} {state : SmtpState}
    (hs : state = .waitHelo ∨ state = .initTransaction ∨ state = .recipients)
    (hp : m.phase = .idle) (ht : m.transaction = s.pending state)
    (hg : state ≠ .waitHelo → m.greeted = true) :
    Agrees { s with control := .writing (.next state) } m ∧
      Agrees { s with state := state, control := .reading } m := by
  have greets : state = .initTransaction ∨ state = .recipients → m.greeted = true := by
    rintro (rfl | rfl)
    · exact hg (by simp)
    · exact hg (by simp)
  refine ⟨⟨fun _ => hp, fun _ => ht.trans ?_, fun h => greets ?_, fun state' h => ?_⟩,
    ⟨fun _ => hp, fun _ => ht, fun h => greets ?_, fun state' h => ?_⟩⟩
  · rcases hs with rfl | rfl | rfl
    · rfl
    · rfl
    · rfl
  · exact h.imp Option.some.inj Option.some.inj
  · rwa [← Option.some.inj h]
  · exact h.imp Option.some.inj Option.some.inj
  · rwa [← Option.some.inj h]

theorem answer_refused {m : SmtpMonitor} {request reply : Text} (hr : Refusal reply)
    (hq : (smtpParseRequest request).1 ≠ .quit) :
    m.answer request reply = some { m with phase := .idle } := by
  have other : ∀ r, ¬ Refusal r → reply ≠ r := fun r hnot he => hnot (he ▸ hr)
  have refused : m.refuse reply = some { m with phase := .idle } := if_pos hr
  unfold SmtpMonitor.answer
  rcases hp : smtpParseRequest request with ⟨command, arguments⟩
  cases command with
  | helo => exact (if_neg (other _ (by decide))).trans refused
  | mail => exact (if_neg (other _ (by decide))).trans refused
  | rcpt => exact (if_neg (other _ (by decide))).trans refused
  | data => exact (if_neg (other _ (by decide))).trans refused
  | quit =>
    rw [hp] at hq
    exact absurd rfl hq
  | unknown => exact refused

section

variable {s : SmtpSession} {m : SmtpMonitor} {request : Text} {command : SmtpCommand}
  {arguments : List Text}

theorem follows_refusal {reply : Text} {state : SmtpState} (hr : Refusal reply)
    (hq : (smtpParseRequest request).1 ≠ .quit)
    (hs : state = .waitHelo ∨ state = .initTransaction ∨ state = .recipients)
    (ht : m.transaction = s.pending state) (hg : state ≠ .waitHelo → m.greeted = true) :
    Follows { m with phase := .asked request } (s.reply reply (.next state)) :=
  follows_sent _ (answer_refused hr hq)
    (agrees_next (m := { m with phase := .idle }) hs rfl ht hg).1

theorem follows_quit (hp : smtpParseRequest request = (.quit, arguments)) :
    Follows { m with phase := .asked request } (s.enter .quit) := by
  refine follows_sent { m with phase := .closed, transaction := none } ?_ ?_
  · simp [SmtpMonitor.next, SmtpMonitor.answer, hp]
  · exact ⟨fun _ => rfl, fun _ => rfl, by simp [SmtpSession.reply, SmtpSession.readsIn],
      by simp [SmtpSession.reply, SmtpSession.readsIn]⟩

theorem follows_helo (hp : smtpParseRequest request = (.helo, arguments))
    (ht : m.transaction = none) : Follows { m with phase := .asked request }
      (s.reply (makeReply 250 [hostName.toList]) (.next .initTransaction)) := by
  refine follows_sent { m with phase := .idle, greeted := true } ?_ ?_
  · simp [SmtpMonitor.next, SmtpMonitor.answer, hp]
  · exact (agrees_next (m := { m with phase := .idle, greeted := true }) (Or.inr (Or.inl rfl)) rfl
      ht fun _ => rfl).1

theorem waitHelo_follows (ht : m.transaction = none)
    (hp : smtpParseRequest request = (command, arguments)) :
    Follows { m with phase := .asked request } (s.waitHelo command arguments) := by
  have refuse : ∀ reply, Refusal reply → command ≠ .quit →
      Follows { m with phase := .asked request } (s.reply reply (.next .waitHelo)) :=
    fun reply hr hq => follows_refusal hr (by rw [hp]; exact hq) (Or.inl rfl) ht (by simp)
  cases command with
  | helo =>
    simp only [SmtpSession.waitHelo]
    split
    next => exact refuse _ (by decide) (by simp)
    next => exact follows_helo hp ht
  | mail => exact refuse _ (by decide) (by simp)
  | rcpt => exact refuse _ (by decide) (by simp)
  | data => exact refuse _ (by decide) (by simp)
  | quit => exact follows_quit hp
  | unknown => exact refuse _ (by decide) (by simp)

theorem initTransaction_follows (ht : m.transaction = none) (hg : m.greeted = true)
    (hp : smtpParseRequest request = (command, arguments)) :
    Follows { m with phase := .asked request } (s.initTransaction command arguments) := by
  have refuse : ∀ s : SmtpSession, ∀ reply, Refusal reply → command ≠ .quit →
      Follows { m with phase := .asked request } (s.reply reply (.next .initTransaction)) :=
    fun s reply hr hq => follows_refusal hr (by rw [hp]; exact hq) (Or.inr (Or.inl rfl)) ht
      fun _ => hg
  cases command with
  | helo =>
    simp only [SmtpSession.initTransaction]
    split
    next => exact refuse _ _ (by decide) (by simp)
    next => exact follows_helo hp ht
  | mail =>
    simp only [SmtpSession.initTransaction]
    split
    next => exact refuse _ _ (by decide) (by simp)
    next =>
      refine follows_sent
        { m with phase := .idle, transaction := some ⟨str arguments 1, .empty⟩ } ?_ ?_
      · simp [SmtpMonitor.next, SmtpMonitor.answer, hp, hg, ht]
      · exact ⟨fun _ => rfl, fun _ => rfl, fun _ => hg,
          by simp [SmtpSession.reply, SmtpSession.readsIn]⟩
  | rcpt => exact refuse _ _ (by decide) (by simp)
  | data => exact refuse _ _ (by decide) (by simp)
  | quit => exact follows_quit hp
  | unknown => exact refuse _ _ (by decide) (by simp)

theorem recipients_follows (hg : m.greeted = true)
    (ht : m.transaction = some ⟨s.currentMail.sender, s.currentMail.recipients⟩)
    (hp : smtpParseRequest request = (command, arguments)) :
    Follows { m with phase := .asked request } (s.recipients command arguments) := by
  have refuse : ∀ reply, Refusal reply → command ≠ .quit →
      Follows { m with phase := .asked request } (s.reply reply (.next .recipients)) :=
    fun reply hr hq => follows_refusal hr (by rw [hp]; exact hq) (Or.inr (Or.inr rfl)) ht
      fun _ => hg
  cases command with
  | helo => exact refuse _ (by decide) (by simp)
  | mail => exact refuse _ (by decide) (by simp)
  | rcpt =>
    simp only [SmtpSession.recipients]
    split
    next => exact refuse _ (by decide) (by simp)
    next =>
      refine follows_sent { m with
        phase := .idle,
        transaction := some ⟨s.currentMail.sender,
          s.currentMail.recipients.insert (str arguments 1)⟩ } ?_ ?_
      · simp [SmtpMonitor.next, SmtpMonitor.answer, hp, ht]
      · exact ⟨fun _ => rfl, fun _ => rfl, fun _ => hg,
          by simp [SmtpSession.reply, SmtpSession.readsIn]⟩
  | data =>
    simp only [SmtpSession.recipients]
    split
    next => exact refuse _ (by decide) (by simp)
    next hne =>
      refine follows_sent { m with phase := .body } ?_ ?_
      · simp [SmtpMonitor.next, SmtpMonitor.answer, hp, ht, hne]
      · exact ⟨fun _ => rfl, fun _ => ht, fun _ => hg,
          by simp [SmtpSession.reply, SmtpSession.readsIn]⟩
  | quit => exact follows_quit hp
  | unknown => exact refuse _ (by decide) (by simp)

end

theorem request_follows {s : SmtpSession} {m : SmtpMonitor} (h : Agrees s m)
    (hc : s.control = .reading) (request : Text) :
    Follows { m with phase := .asked request } (s.request request) := by
  have reads : s.readsIn = some s.state := by rw [SmtpSession.readsIn, hc]
  have ht : m.transaction = s.pending s.state := by
    rw [h.transaction (by simp [hc]), SmtpSession.transaction, hc, SmtpSession.pending]
  unfold SmtpSession.request
  rcases h.reads _ reads with hs | hs | hs
  · rw [hs] at ht
    simp only [hs]
    exact waitHelo_follows ht rfl
  · rw [hs] at ht reads
    simp only [hs]
    exact initTransaction_follows ht (h.greeted (Or.inl reads)) rfl
  · rw [hs] at ht reads
    simp only [hs]
    exact recipients_follows (h.greeted (Or.inr reads)) ht rfl

/-- The loop goes round in a state that reads a request. -/
theorem enter_agrees {s : SmtpSession} {m : SmtpMonitor} {state : SmtpState}
    (hs : state = .waitHelo ∨ state = .initTransaction ∨ state = .recipients)
    (hp : m.phase = .idle) (ht : m.transaction = s.pending state)
    (hg : state ≠ .waitHelo → m.greeted = true) : Follows m (s.enter state) := by
  have reading := (agrees_next hs hp ht hg).2
  rcases hs with rfl | rfl | rfl
  · exact ⟨m, rfl, reading⟩
  · exact ⟨m, rfl, reading⟩
  · exact ⟨m, rfl, reading⟩

theorem replied_follows {s : SmtpSession} {m : SmtpMonitor} {after : SmtpAfter} (h : Agrees s m)
    (hc : s.control = .writing after) : Follows m (s.replied after) := by
  have hp : m.phase = s.phase := h.phase (by simp [hc])
  have ht : m.transaction = s.transaction := h.transaction (by simp [hc])
  have greets : s.readsIn = some .recipients → m.greeted = true := fun hi => h.greeted (Or.inr hi)
  rw [SmtpSession.phase, hc] at hp
  rw [SmtpSession.transaction, hc] at ht
  cases after with
  | next state =>
    have hreads : s.readsIn = some state := by rw [SmtpSession.readsIn, hc]
    have hs := h.reads state hreads
    refine enter_agrees hs hp (ht.trans ?_) fun hne => h.greeted ?_
    · rcases hs with rfl | rfl | rfl
      · rfl
      · rfl
      · rfl
    · exact (hs.resolve_left hne).imp (fun he => by rw [hreads, he]) fun he => by rw [hreads, he]
  | sender address =>
    exact enter_agrees (Or.inr (Or.inr rfl)) hp ht fun _ => greets (by rw [SmtpSession.readsIn, hc])
  | recipient address =>
    exact enter_agrees (Or.inr (Or.inr rfl)) hp ht fun _ => greets (by rw [SmtpSession.readsIn, hc])
  | readBody =>
    have hreads : s.readsIn = some .initTransaction := by simp [SmtpSession.readsIn, hc]
    exact ⟨m, rfl, fun _ => hp, fun _ => ht, fun _ => h.greeted (Or.inl hreads),
      fun state hs => h.reads state (hreads.trans hs)⟩
  | close =>
    exact ⟨m, rfl, by simp [SmtpSession.replied], by simp [SmtpSession.replied],
      by simp [SmtpSession.replied, SmtpSession.readsIn],
      by simp [SmtpSession.replied, SmtpSession.readsIn]⟩

theorem deliver_follows {s : SmtpSession} {m : SmtpMonitor} (h : Agrees s m)
    (hc : s.control = .readingBody) (storage : MailStorage) (lines : List Text) :
    Follows m ((s.deliver storage lines).2.1, (s.deliver storage lines).2.2) := by
  have hp : m.phase = .body := by
    rw [h.phase (by simp [hc]), SmtpSession.phase, hc]
  have hg : m.greeted = true := h.greeted (Or.inl (by simp [SmtpSession.readsIn, hc]))
  refine ⟨{ m with phase := .idle, transaction := none }, ?_, ?_⟩
  · simp [SmtpSession.deliver, SmtpSession.reply, SmtpMonitor.run, SmtpMonitor.next, hp]
  · exact (agrees_next (m := { m with phase := .idle, transaction := none })
      (s := { s with currentMail := { s.currentMail with message := lines } })
      (Or.inr (Or.inl rfl)) rfl rfl fun _ => hg).1

/-- One resumption of a session says what may come next. -/
theorem smtpResume_follows {storage storage' : MailStorage} {s t : SmtpSession} {m : SmtpMonitor}
    {wake : MailWake} {out : List SessionEvent} (h : Agrees s m)
    (hr : smtpResume storage s wake = some (storage', t, out)) : Follows m (t, out) := by
  have ended : Agrees { s with control := .ended } m :=
    ⟨by simp, by simp, by simp [SmtpSession.readsIn], by simp [SmtpSession.readsIn]⟩
  cases smtpResume_step hr with
  | greeted hc _ he =>
    cases he
    have hp : m.phase = .fresh := by rw [h.phase (by simp [hc]), SmtpSession.phase, hc]
    have ht : m.transaction = none := by
      rw [h.transaction (by simp [hc]), SmtpSession.transaction, hc]
    refine follows_sent { m with phase := .idle } (by simp [SmtpMonitor.next, hp]) ?_
    exact (agrees_next (m := { m with phase := .idle }) (Or.inl rfl) rfl ht (by simp)).1
  | heard request hc _ he =>
    cases he
    have hp : m.phase = .idle := by rw [h.phase (by simp [hc]), SmtpSession.phase, hc]
    obtain ⟨m', hm', ha⟩ := request_follows h hc request
    exact ⟨m', by simpa [SmtpMonitor.run, SmtpMonitor.next, hp] using hm', ha⟩
  | heardBody lines hc _ _ he =>
    have hf := deliver_follows h hc storage lines
    rw [← he] at hf
    exact hf
  | written after hc _ he =>
    rw [(Prod.mk.inj he).2]
    exact replied_follows h hc
  | dropped _ _ he =>
    cases he
    exact ⟨m, rfl, ended⟩

/-- A refusal leaves the session where it was. -/
def RefusesQuietly (s : SmtpSession) (o : SmtpSession × List SessionEvent) : Prop :=
  ∃ reply, o.2 = [.sent reply] ∧ (Refusal reply → o.1.control = .writing (.next s.state) ∧
    o.1.state = s.state ∧ o.1.pending s.state = s.pending s.state)

section

variable {s : SmtpSession}

theorem quiet_accept {s' : SmtpSession} {reply : Text} {after : SmtpAfter} (h : ¬ Refusal reply) :
    RefusesQuietly s (s'.reply reply after) :=
  ⟨reply, rfl, fun hr => absurd hr h⟩

theorem quiet_refuse {reply : Text} {state : SmtpState} (h : s.state = state) :
    RefusesQuietly s (s.reply reply (.next state)) := by
  subst h
  exact ⟨reply, rfl, fun _ => ⟨rfl, rfl, rfl⟩⟩

theorem quiet_refuse_init {reply : Text} (h : s.state = .initTransaction) :
    RefusesQuietly s (({ s with currentMail := {} } : SmtpSession).reply reply
      (.next .initTransaction)) :=
  ⟨reply, rfl, fun _ => by
    rw [h]
    exact ⟨rfl, rfl, rfl⟩⟩

theorem waitHelo_quiet (h : s.state = .waitHelo) (command : SmtpCommand) (arguments : List Text) :
    RefusesQuietly s (s.waitHelo command arguments) := by
  cases command with
  | helo =>
    simp only [SmtpSession.waitHelo]
    split
    next => exact quiet_refuse h
    next => exact quiet_accept (by decide)
  | quit => exact quiet_accept (by decide)
  | mail => exact quiet_refuse h
  | rcpt => exact quiet_refuse h
  | data => exact quiet_refuse h
  | unknown => exact quiet_refuse h

theorem initTransaction_quiet (h : s.state = .initTransaction) (command : SmtpCommand)
    (arguments : List Text) : RefusesQuietly s (s.initTransaction command arguments) := by
  cases command with
  | helo =>
    simp only [SmtpSession.initTransaction]
    split
    next => exact quiet_refuse_init h
    next => exact quiet_accept (by decide)
  | mail =>
    simp only [SmtpSession.initTransaction]
    split
    next => exact quiet_refuse_init h
    next => exact quiet_accept (by decide)
  | quit => exact quiet_accept (by decide)
  | rcpt => exact quiet_refuse_init h
  | data => exact quiet_refuse_init h
  | unknown => exact quiet_refuse_init h

theorem recipients_quiet (h : s.state = .recipients) (command : SmtpCommand)
    (arguments : List Text) : RefusesQuietly s (s.recipients command arguments) := by
  cases command with
  | rcpt =>
    simp only [SmtpSession.recipients]
    split
    next => exact quiet_refuse h
    next => exact quiet_accept (by decide)
  | data =>
    simp only [SmtpSession.recipients]
    split
    next => exact quiet_refuse h
    next => exact quiet_accept (by decide)
  | quit => exact quiet_accept (by decide)
  | helo => exact quiet_refuse h
  | mail => exact quiet_refuse h
  | unknown => exact quiet_refuse h

theorem request_quiet (h : s.state = .waitHelo ∨ s.state = .initTransaction ∨ s.state = .recipients)
    (request : Text) : RefusesQuietly s (s.request request) := by
  unfold SmtpSession.request
  rcases h with h | h | h
  · simp only [h]
    exact waitHelo_quiet h _ _
  · simp only [h]
    exact initTransaction_quiet h _ _
  · simp only [h]
    exact recipients_quiet h _ _

end

/-- The line is answered at once, with one reply. If that is a refusal, neither the request nor what
the session does after it has any effect, whatever the other sessions do. -/
def AnsweredOnce (n : Nat) (s : SmtpSession) (line : Text) (c : MailConfig) : Prop :=
  ∃ c₁ reply, c.resumed mailServer n (.line line) = some c₁ ∧
    c₁.logOf n = c.logOf n ++ [.heard line, .sent reply] ∧
    (Refusal reply → c₁.store = c.store ∧
      ∀ d, ReflTransGen (StepWith mailServer n (· = .written)) c₁ d →
        ∃ t, d.threads n = some (.smtp t) ∧ t.state = s.state ∧
          t.pending s.state = s.pending s.state ∧
          ∀ e, d.resumed mailServer n .written = some e → e.store = d.store)

/-- Where a session is that has refused a request of the given one. -/
def Refused (n : Nat) (s : SmtpSession) (c : MailConfig) : Prop :=
  ∃ t, c.threads n = some (.smtp t) ∧ t.state = s.state ∧ t.pending s.state = s.pending s.state ∧
    (t.control = .writing (.next s.state) ∨ t.control = .reading)

theorem refused_step {n : Nat} {s : SmtpSession} {c d : MailConfig}
    (hs : s.state = .waitHelo ∨ s.state = .initTransaction ∨ s.state = .recipients)
    (h : Refused n s c) (hstep : StepWith mailServer n (· = .written) c d) : Refused n s d := by
  obtain ⟨t, hn, hstate, hpending, hc⟩ := h
  rcases stepWith_running_cases hstep hn with ⟨wake, l', out, rfl, hr, hd, _⟩ | ⟨hd, _⟩
  · obtain ⟨t', rfl, ht⟩ := mailResume_smtp hr
    obtain ⟨after, hwriting, he⟩ := smtpResume_written ht
    rcases hc with hc | hc <;> cases hc.symm.trans hwriting
    have ht' : t' = { t with state := s.state, control := .reading } := by
      rcases hs with hs | hs | hs
      · rw [hs] at he ⊢
        exact (Prod.mk.inj (Prod.mk.inj he).2).1
      · rw [hs] at he ⊢
        exact (Prod.mk.inj (Prod.mk.inj he).2).1
      · rw [hs] at he ⊢
        exact (Prod.mk.inj (Prod.mk.inj he).2).1
    rw [ht'] at hd
    exact ⟨_, hd, rfl, hpending, Or.inr rfl⟩
  · exact ⟨t, hd, hstate, hpending, hc⟩

/-- Only a body that has been read changes the storage. -/
theorem smtp_written_keeps {n : Nat} {s : SmtpSession} {c d : MailConfig}
    (hn : c.threads n = some (.smtp s)) (h : c.resumed mailServer n .written = some d) :
    d.store = c.store := by
  obtain ⟨l', out, hr, _⟩ := resumed_cases h hn
  obtain ⟨t, _, ht⟩ := mailResume_smtp hr
  obtain ⟨_, _, he⟩ := smtpResume_written ht
  exact (Prod.mk.inj he).1

theorem smtp_answers {n : Nat} {s : SmtpSession} {c : MailConfig}
    (hn : c.threads n = some (.smtp s)) (hc : s.control = .reading)
    (hs : s.state = .waitHelo ∨ s.state = .initTransaction ∨ s.state = .recipients) (line : Text) :
    AnsweredOnce n s line c := by
  have hr : mailServer.resume c.store (.smtp s) (.line line) =
      some (c.store, .smtp (s.request line).1, .heard line :: (s.request line).2) := by
    simp [mailServer, mailResume, smtpResume, hc]
  obtain ⟨c₁, hc₁, hn₁, hstore, hlog⟩ := resumed_some hn hr
  obtain ⟨reply, hout, hquiet⟩ := request_quiet hs line
  refine ⟨c₁, reply, hc₁, by rw [hlog, hout], fun hrefusal => ⟨hstore, fun d run => ?_⟩⟩
  obtain ⟨hcontrol, hstate, hpending⟩ := hquiet hrefusal
  obtain ⟨t, hd, hstate', hpending', _⟩ := reaches_invariant (P := Refused n s) run
    ⟨_, hn₁, hstate, hpending, Or.inl hcontrol⟩ fun _ _ => refused_step hs
  exact ⟨t, hd, hstate', hpending', fun e he => smtp_written_keeps hd he⟩

theorem monitored_reaches {storage : MailStorage} {c : MailConfig}
    (run : ReflTransGen MailStep (Config.init storage) c) {n : Nat} {s : SmtpSession}
    (hn : c.threads n = some (.smtp s)) :
    ∃ m, SmtpMonitor.run {} (c.logOf n) = some m ∧ Agrees s m := by
  have follows := machine_threads_invariant (m := mailServer) (I := fun _ => True)
    (T := fun _ _ l log => ∀ s, l = .smtp s → ∃ m, SmtpMonitor.run {} log = some m ∧ Agrees s m)
    (c := c) (fun _ _ => trivial) (fun _ _ => rfl) (by simp [Config.init])
    ?_ ?_ ?_ run
  · exact follows.2 n _ hn s rfl
  · rintro k storage' l _ hstart s rfl
    have hs : s = {} := by simpa [mailServer] using hstart
    rw [hs]
    exact ⟨{}, rfl, fun _ => rfl, fun _ => rfl, by simp [SmtpSession.readsIn],
      by simp [SmtpSession.readsIn]⟩
  · rintro d k l wake storage' l' out _ _ hl hr s rfl
    rcases mailResume_cases hr with ⟨s₀, t, rfl, ht, hr⟩ | ⟨_, _, _, ht, _⟩ | ⟨_, _, _, ht, _⟩
    · cases ht
      obtain ⟨m, hm, ha⟩ := hl s₀ rfl
      obtain ⟨m', hm', ha'⟩ := smtpResume_follows ha hr
      exact ⟨m', by rw [monitor_run_append, hm]; exact hm', ha'⟩
    · cases ht
    · cases ht
  · exact fun _ _ _ _ _ _ _ hl => hl

/-- The discipline of commands and replies: what a session has said is what may be said, every
request is answered once, and so is every body, which a session reads that has accepted a DATA. -/
theorem smtp_disciplined {storage : MailStorage} {c : MailConfig}
    (run : ReflTransGen MailStep (Config.init storage) c) {n : Nat} {s : SmtpSession}
    (hn : c.threads n = some (.smtp s)) :
    (∃ m, SmtpMonitor.run {} (c.logOf n) = some m ∧ Agrees s m) ∧
    (s.control = .reading → ∀ line, AnsweredOnce n s line c) ∧
    (s.control = .writing .readBody → ∃ c₁, c.resumed mailServer n .written = some c₁ ∧
      c₁.threads n = some (.smtp { s with control := .readingBody }) ∧ c₁.logOf n = c.logOf n) ∧
    (s.control = .readingBody → ∀ lines, IsBody lines →
      ∃ c₁, c.resumed mailServer n (.body lines) = some c₁ ∧
        c₁.logOf n = c.logOf n ++ [.heardBody lines, .sent (makeReply 250 [])]) := by
  obtain ⟨m, hm, ha⟩ := monitored_reaches run hn
  refine ⟨⟨m, hm, ha⟩, fun hc line => ?_, fun hc => ?_, fun hc lines hbody => ?_⟩
  · exact smtp_answers hn hc (ha.reads _ (by rw [SmtpSession.readsIn, hc])) line
  · have hr : mailServer.resume c.store (.smtp s) .written =
        some (c.store, .smtp { s with control := .readingBody }, []) := by
      simp [mailServer, mailResume, smtpResume, hc, SmtpSession.replied]
    obtain ⟨c₁, hc₁, hn₁, _, hlog⟩ := resumed_some hn hr
    exact ⟨c₁, hc₁, hn₁, hlog.trans (List.append_nil _)⟩
  · have hr : mailServer.resume c.store (.smtp s) (.body lines) =
        some ((s.deliver c.store lines).1, .smtp (s.deliver c.store lines).2.1,
          (s.deliver c.store lines).2.2) := by
      simp [mailServer, mailResume, smtpResume, hc, hbody]
    obtain ⟨c₁, hc₁, _, _, hlog⟩ := resumed_some hn hr
    exact ⟨c₁, hc₁, hlog⟩

def oneSmtp : MailConfig := ⟨{}, Function.update (fun _ => none) 0 (some (.smtp {})), []⟩

/-- A session that has accepted a DATA. -/
def dataAccepted : Option MailConfig :=
  oneSmtp.replay mailServer
    ([.scheduled, .written, .line "HELO ab".toList, .written, .line "mail from:<a@bc>".toList,
      .written, .line "rcpt to:<liia@localhost>".toList, .written, .line "data".toList, .written].map
      fun wake => (0, wake))

theorem dataAccepted_isSome : dataAccepted.isSome = true := by decide +kernel

def waitsForBody : SmtpSession :=
  ⟨.data, ⟨"a@bc".toList, Recipients.insert .empty "liia@localhost".toList, []⟩, .readingBody⟩

theorem smtp_disciplined_body :
    ∃ m, SmtpMonitor.run {} ((dataAccepted.get dataAccepted_isSome).logOf 0) = some m ∧
      m.phase = .body := by
  have start : MailStep (Config.init {}) oneSmtp := .spawn rfl (Or.inl rfl) (free_init {} 0)
  have free : oneSmtp.Free mailServer 0 := free_update {} [] (free_init {} 0) (Or.inl rfl)
  have run : ReflTransGen MailStep (Config.init {}) (dataAccepted.get dataAccepted_isSome) :=
    .head start (machine_replay_reaches (fun e he => by cases he; exact free)
      (Option.some_get dataAccepted_isSome).symm)
  have hn : (dataAccepted.get dataAccepted_isSome).threads 0 = some (.smtp waitsForBody) := by
    decide +kernel
  obtain ⟨⟨m, hm, ha⟩, _⟩ := smtp_disciplined run hn
  exact ⟨m, hm, ha.phase (by simp [waitsForBody])⟩

end Protocols
