import Protocols.TftpTermination
import Protocols.TftpWire
import Protocols.WatchedSends

namespace Protocols

open WatchedLoop

/-- The endpoint that a loop is about to turn away. -/
def LoopControl.stranger : LoopControl → Option Endpoint
  | .rejecting stranger => some stranger
  | _ => none

/-- A loop with what it hands to the network at an event. -/
structure EmittingLoop (σ : Type) where
  loop : WatchedLoop σ (Disk × Wake)
  control : σ → LoopControl
  out : σ → Disk × Wake → Outgoing

def emittingSend (loop : Endpoint → InputFile → SendLoop → Wake → Option (SendLoop × Outgoing))
    (peer : Endpoint) (file : List UInt8) : EmittingLoop (SendLoop × Nat) where
  loop := watchedSend loop peer file
  control s := s.1.control
  out s event := ((loop peer ⟨file, event.1.readFault⟩ s.1 event.2).map Prod.snd).getD []

def emittingReceive {μ : Type}
    (loop : Endpoint → Disk → ReceiveLoop μ → Wake → Option (ReceiveLoop μ × Outgoing))
    (peer : Endpoint) : EmittingLoop (ReceiveLoop μ) where
  loop := watchedReceive loop peer
  control s := s.control
  out s event := ((loop peer event.1 s event.2).map Prod.snd).getD []

namespace EmittingLoop

variable {σ : Type} (l : EmittingLoop σ) (s : σ) (arrivals : Nat → Option (Nat × Disk × Wake))
  (events : List (Nat × Waking (Disk × Wake)))

/-- All that the loop hands to the network in a run. -/
def emitted : Outgoing :=
  l.loop.collected (transferTiming arrivals) (fun s event _ => l.out s event)
    (start (transferTiming arrivals) s) events

/-- How many datagrams of an endpoint the loop has read. -/
def heardFrom (e : Endpoint) : Nat :=
  (l.loop.collected (transferTiming arrivals) (fun _ event _ => event.2.sender.toList)
    (start (transferTiming arrivals) s) events).count e

end EmittingLoop

def sentTo (e : Endpoint) (out : Outgoing) : Nat := out.countP fun q => q.1 = e

/-- A loop sends small packets only, to its peer six times at most for what it asks for, six times for
each packet that it accepts and once for each other arrival that it reads, and to a stranger never
more often than the stranger to it. -/
structure Restrained {σ : Type} (l : EmittingLoop σ) (peer : Endpoint) (s : σ)
    (arrivals : Nat → Option (Nat × Disk × Wake)) (events : List (Nat × Waking (Disk × Wake)))
    (y : Timed σ) : Prop where
  own : sentTo peer (l.emitted s arrivals events) ≤
    6 + y.read + 5 * (l.loop.progress y.state - l.loop.progress s)
  strangers : ∀ e, e ≠ peer →
    sentTo e (l.emitted s arrivals events) ≤ l.heardFrom s arrivals events e
  small : ∀ q ∈ l.emitted s arrivals events, q.2.length ≤ dataChunkSize + 4

/-- What an event of a loop can hand to the network. -/
inductive Emits (peer : Endpoint) (c : LoopControl) (wake : Wake) (c' : LoopControl) :
    Outgoing → Prop
  | sent (bytes : List UInt8) : c = .sending → wake = .sent none → c'.stranger = none →
      bytes.length ≤ dataChunkSize + 4 → Emits peer c wake c' [(peer, bytes)]
  | answered (e : Endpoint) (bytes : List UInt8) : c = .rejecting e → c'.stranger = none →
      bytes.length ≤ dataChunkSize + 4 → Emits peer c wake c' [(e, bytes)]
  | turned (e : Endpoint) (bytes : List UInt8) : wake = .datagram e bytes → e ≠ peer →
      c.stranger = none → c' = .rejecting e → Emits peer c wake c' []
  | kept : c'.stranger = c.stranger → Emits peer c wake c' []
  | quiet : c'.stranger = none → Emits peer c wake c' []

theorem unknownTransfer_small : (unknownTransfer "Unknown transfer ID").length ≤ dataChunkSize + 4 ∧
    (unknownTransfer "Unknown transfer ID.").length ≤ dataChunkSize + 4 := by
  decide +kernel

theorem sendLoop_head_stranger (s : SendLoop) : s.loopHead.control.stranger = none := by
  cases hc : s.loopHead.control with
  | rejecting stranger => exact absurd hc (sendLoop_head_polite s stranger)
  | sending | receiving | finished _ => rfl

theorem receiveLoop_head_stranger {μ : Type} (s : ReceiveLoop μ) :
    s.loopHead.control.stranger = none := by
  cases hc : s.loopHead.control with
  | rejecting stranger => exact absurd hc (receiveLoop_head_rejecting s stranger)
  | sending | receiving | finished _ => rfl

theorem sendLoop_emits {msg : String} {peer : Endpoint} {file : List UInt8} {f : InputFile}
    {s t : SendLoop} {n : Nat} {wake : Wake} {out : Outgoing}
    (hmsg : (unknownTransfer msg).length ≤ dataChunkSize + 4) (hs : SendCounted file (s, n))
    (h : sendLoopResume msg peer f s wake = some (t, out)) :
    Emits peer s.control wake t.control out := by
  have head := sendLoop_head_stranger
  cases sendLoopResume_step h with
  | expired => exact .kept rfl
  | sent hc hw =>
    have hsmall := (hs.running (by simp [hc])).1.small
    refine .sent _ hc hw rfl ?_
    rw [data_toBuffer_length]
    exact Nat.add_le_add_right hsmall 4
  | unsent => exact .quiet rfl
  | unheard => exact .quiet (head s)
  | stranger sender bytes hc hw hne => exact .turned sender bytes hw hne (by rw [hc]; rfl) rfl
  | ignored => exact .quiet (head s)
  | acknowledged => exact .quiet (head _)
  | answered sender hc hw => exact .answered sender _ hc (head s) hmsg
  | unanswered => exact .quiet (head s)

theorem receiveLoop_emits {μ : Type} {mem : ReceiveMemory μ} {peer : Endpoint} {disk : Disk}
    {s t : ReceiveLoop μ} {wake : Wake} {out : Outgoing}
    (hmsg : (unknownTransfer mem.errorMsg).length ≤ dataChunkSize + 4)
    (h : receiveLoopResume mem peer disk s wake = some (t, out)) :
    Emits peer s.control wake t.control out := by
  have head := @receiveLoop_head_stranger μ
  cases receiveLoopResume_step h with
  | expired => exact .kept rfl
  | sent hc hw => exact .sent _ hc hw rfl (by rw [ack_toBuffer_length]; decide)
  | unsent => exact .quiet rfl
  | ended | spoiled => exact .quiet rfl
  | unheard => exact .quiet (head s)
  | stranger sender bytes hc hw hne => exact .turned sender bytes hw hne (by rw [hc]; rfl) rfl
  | ignored => exact .quiet (head s)
  | accepted => exact .quiet (head _)
  | answered sender hc hw => exact .answered sender _ hc (head s) hmsg
  | unanswered => exact .quiet (head s)

/-- A loop of which every event hands out what its control allows. -/
structure EmittingLoop.Honest {σ : Type} (l : EmittingLoop σ) (inv : σ → Prop) (peer : Endpoint) :
    Prop where
  signal : ∀ event, l.loop.signal event = event.2.signal
  phase : ∀ s, l.loop.phase s = (l.control s).phase
  emits : ∀ {s event t}, inv s → l.loop.step s event = some t →
    Emits peer (l.control s) event.2 (l.control t) (l.out s event)

/-- What has been handed out is paid for by the sends that have ended, or by what a stranger has sent,
who is owed a packet while it is turned away. -/
structure EmittingLoop.Counted {σ : Type} (l : EmittingLoop σ) (peer : Endpoint) (s : σ)
    (arrivals : Nat → Option (Nat × Disk × Wake)) (events : List (Nat × Waking (Disk × Wake)))
    (y : Timed σ) : Prop where
  own : sentTo peer (l.emitted s arrivals events) ≤
    l.loop.sends (transferTiming arrivals) (start (transferTiming arrivals) s) events
  strangers : ∀ e, e ≠ peer → sentTo e (l.emitted s arrivals events) +
      (if (l.control y.state).stranger = some e then 1 else 0) ≤ l.heardFrom s arrivals events e
  foreign : (l.control y.state).stranger ≠ some peer
  small : ∀ q ∈ l.emitted s arrivals events, q.2.length ≤ dataChunkSize + 4

theorem sentTo_append (e : Endpoint) (out out' : Outgoing) :
    sentTo e (out ++ out') = sentTo e out + sentTo e out' := List.countP_append

theorem sentTo_other {e receiver : Endpoint} (h : e ≠ receiver) (bytes : List UInt8) :
    sentTo e [(receiver, bytes)] = 0 := by
  simp [sentTo, h.symm]

theorem sentTo_self (e : Endpoint) (bytes : List UInt8) : sentTo e [(e, bytes)] = 1 := by
  simp [sentTo]

namespace EmittingLoop

variable {σ : Type} {l : EmittingLoop σ} {s : σ} {arrivals : Nat → Option (Nat × Disk × Wake)}
  {inv : σ → Prop} {peer : Endpoint} {bound : Nat} {events : List (Nat × Waking (Disk × Wake))}
  {event : Nat × Waking (Disk × Wake)} {i : Disk × Wake} {y z : Timed σ}

section

variable (run : events.foldlM (l.loop.next (transferTiming arrivals))
    (start (transferTiming arrivals) s) = some y)
  (hz : l.loop.next (transferTiming arrivals) y event = some z)
  (hw : l.loop.Woken (transferTiming arrivals) y event i z)
include run hz hw

theorem emitted_concat : l.emitted s arrivals (events ++ [event]) =
    l.emitted s arrivals events ++ l.out y.state i :=
  collected_concat run hz hw

theorem heardFrom_concat (e : Endpoint) : l.heardFrom s arrivals (events ++ [event]) e =
    l.heardFrom s arrivals events e + i.2.sender.toList.count e := by
  rw [heardFrom, collected_concat run hz hw, List.count_append, heardFrom]

theorem heardFrom_datagram {e : Endpoint} {bytes : List UInt8} (h : i.2 = .datagram e bytes) :
    l.heardFrom s arrivals (events ++ [event]) e = l.heardFrom s arrivals events e + 1 := by
  rw [heardFrom_concat run hz hw, h]
  simp [Wake.sender]

/-- A waking that hands out nothing. -/
theorem Counted.silent (h : l.Counted peer s arrivals events y) (hout : l.out y.state i = [])
    (hstranger : ∀ e, (l.control z.state).stranger = some e → e ≠ peer ∧
      ((l.control y.state).stranger = some e ∨
        l.heardFrom s arrivals (events ++ [event]) e = l.heardFrom s arrivals events e + 1)) :
    l.Counted peer s arrivals (events ++ [event]) z := by
  have hemitted : l.emitted s arrivals (events ++ [event]) = l.emitted s arrivals events := by
    rw [emitted_concat run hz hw, hout, List.append_nil]
  have hsends := sends_concat run hz hw
  refine ⟨?_, fun e he => ?_, fun hpeer => (hstranger peer hpeer).1 rfl, hemitted ▸ h.small⟩
  · have hown := h.own
    rw [hemitted]
    omega
  · have hbefore := h.strangers e he
    have hmore := heardFrom_concat run hz hw e
    rw [hemitted]
    split
    next hs =>
      rcases (hstranger e hs).2 with hkept | hheard
      · rw [if_pos hkept] at hbefore
        omega
      · omega
    next => omega

theorem Counted.next (h : l.Counted peer s arrivals events y) (hl : l.Honest inv peer)
    (hi : inv y.state) : l.Counted peer s arrivals (events ++ [event]) z := by
  have hemits := hl.emits hi hw.step
  have hconcat := emitted_concat run hz hw
  have hsends := sends_concat run hz hw
  have hheard := heardFrom_concat run hz hw
  generalize hout : l.out y.state i = out at hemits hconcat
  cases hemits with
  | sent bytes hc hwake hnone hsmall =>
    have hdone : l.loop.signal i = .done ∧ l.loop.phase y.state = .sending := by
      rw [hl.signal, hwake, hl.phase, hc]
      exact ⟨rfl, rfl⟩
    rw [if_pos hdone] at hsends
    refine ⟨?_, fun e he => ?_, ?_, ?_⟩
    · rw [hconcat, sentTo_append, sentTo_self, hsends]
      exact Nat.add_le_add_right h.own 1
    · have hbefore := h.strangers e he
      have hmore := hheard e
      rw [hconcat, sentTo_append, sentTo_other he, hnone, if_neg (by simp)]
      omega
    · rw [hnone]
      exact (Option.some_ne_none peer).symm
    · rw [hconcat]
      exact List.forall_mem_append.mpr ⟨h.small, List.forall_mem_singleton.mpr hsmall⟩
  | answered e bytes hc hnone hsmall =>
    have howed : (l.control y.state).stranger = some e := by
      rw [hc]
      rfl
    have hne : e ≠ peer := fun hpeer => h.foreign (hpeer ▸ howed)
    refine ⟨?_, fun e' he' => ?_, ?_, ?_⟩
    · have hown := h.own
      rw [hconcat, sentTo_append, sentTo_other hne.symm]
      omega
    · have hbefore := h.strangers e' he'
      have hmore := hheard e'
      rw [howed] at hbefore
      rw [hconcat, sentTo_append, hnone, if_neg (by simp)]
      by_cases hsame : e' = e
      · rw [hsame, sentTo_self]
        rw [hsame, if_pos rfl] at hbefore
        rw [hsame] at hmore
        omega
      · rw [sentTo_other hsame]
        omega
    · rw [hnone]
      exact (Option.some_ne_none peer).symm
    · rw [hconcat]
      exact List.forall_mem_append.mpr ⟨h.small, List.forall_mem_singleton.mpr hsmall⟩
  | turned e bytes hwake hne _ hc' =>
    refine h.silent run hz hw hout fun e' he' => ?_
    rw [hc'] at he'
    obtain rfl : e = e' := Option.some.inj he'
    exact ⟨hne, .inr (heardFrom_datagram run hz hw hwake)⟩
  | kept hc' =>
    refine h.silent run hz hw hout fun e he => ?_
    rw [hc'] at he
    exact ⟨fun hpeer => h.foreign (hpeer ▸ he), .inl he⟩
  | quiet hnone =>
    refine h.silent run hz hw hout fun e he => ?_
    rw [hnone] at he
    cases he

end

/-- Whatever arrives when, an honest loop that starts with a send is restrained. -/
theorem Honest.restrained (hl : l.Honest inv peer) (hlaw : l.loop.Lawful inv bound) (hs : inv s)
    (hc : (l.control s).phase ≠ .waiting) (hstranger : (l.control s).stranger = none)
    (hstill : ∀ {s i t}, l.loop.step s i = some t → l.loop.signal i ≠ .message →
      l.loop.progress t = l.loop.progress s)
    (ha : SparseArrivals arrivals)
    (run : events.foldlM (l.loop.next (transferTiming arrivals))
      (start (transferTiming arrivals) s) = some y) : Restrained l peer s arrivals events y := by
  have hcounted : l.Counted peer s arrivals events y := by
    refine foldlM_history run (P := fun events y => l.Counted peer s arrivals events y) ?_ ?_
    · refine ⟨Nat.zero_le _, fun e _ => ?_, ?_, fun q hq => absurd hq List.not_mem_nil⟩
      · rw [show (start (transferTiming arrivals) s).state = s from rfl, hstranger, if_neg (by simp)]
        exact Nat.zero_le _
      · rw [show (start (transferTiming arrivals) s).state = s from rfl, hstranger]
        exact (Option.some_ne_none peer).symm
    · intro before u event v _ hrun ih hv
      obtain ⟨i, hw⟩ := next_woken hv
      exact ih.next hrun hv hw hl (hlaw.inTime hs hrun).inv
  have hp : l.loop.phase s ≠ .waiting := by rwa [hl.phase]
  have hsparse : (transferTiming arrivals).Sparse l.loop.signal := (funext hl.signal).symm ▸ ha
  have hsends := hlaw.sends_le hs hp hsparse (Nat.succ_pos 1999) hstill run
  have hquotient : (transferTiming arrivals).patience / (transferTiming arrivals).wait = 5 :=
    show maxWaitTime / maxReceiveWaitTime = 5 from rfl
  rw [hquotient] at hsends
  refine ⟨?_, fun e he => ?_, hcounted.small⟩
  · have hown := hcounted.own
    have hgrows := hlaw.progress_le hs run
    omega
  · exact (Nat.le_add_right _ _).trans (hcounted.strangers e he)

end EmittingLoop

theorem emittingSend_honest {msg : String} {peer : Endpoint} {file : List UInt8}
    (hmsg : (unknownTransfer msg).length ≤ dataChunkSize + 4) :
    (emittingSend (sendLoopResume msg) peer file).Honest (SendCounted file) peer where
  signal _ := rfl
  phase _ := rfl
  emits {s event t} hs h := by
    obtain ⟨r, hr, rfl⟩ := Option.map_eq_some_iff.mp h
    simp only [emittingSend, hr, Option.map_some, Option.getD_some]
    exact sendLoop_emits hmsg hs hr

theorem emittingReceive_honest {μ : Type} {mem : ReceiveMemory μ} {peer : Endpoint}
    (hmsg : (unknownTransfer mem.errorMsg).length ≤ dataChunkSize + 4) :
    (emittingReceive (receiveLoopResume mem) peer).Honest (fun _ => True) peer where
  signal _ := rfl
  phase _ := rfl
  emits {s event t} _ h := by
    obtain ⟨r, hr, rfl⟩ := Option.map_eq_some_iff.mp h
    simp only [emittingReceive, hr, Option.map_some, Option.getD_some]
    exact receiveLoop_emits hmsg hr

/-- The loop is restrained at every moment of every run. -/
def RestrainedOn {σ : Type} (l : EmittingLoop σ) (peer : Endpoint) (s : σ)
    (arrivals : Nat → Option (Nat × Disk × Wake)) : Prop :=
  ∀ events y, events.foldlM (l.loop.next (transferTiming arrivals))
    (start (transferTiming arrivals) s) = some y → Restrained l peer s arrivals events y

theorem sendLoop_restrained {msg : String} {peer : Endpoint} {file : List UInt8}
    (hmsg : (unknownTransfer msg).length ≤ dataChunkSize + 4) (fault : Nat → Bool)
    {arrivals : Nat → Option (Nat × Disk × Wake)} (ha : SparseArrivals arrivals) :
    RestrainedOn (emittingSend (sendLoopResume msg) peer file) peer
      (SendLoop.start ⟨file, fault⟩ {}, 0) arrivals := by
  intro events y run
  have hstart : SendCounted file (SendLoop.start ⟨file, fault⟩ {}, 0) :=
    (senderCounts_start (f := ⟨file, fault⟩) rfl).counted (Nat.zero_le _)
  refine (emittingSend_honest hmsg).restrained (watchedSend_lawful msg peer file) hstart ?_
    (sendLoop_head_stranger _) ?_ ha run
  · intro hw
    rcases sendLoop_head_turn _ with h | ⟨h, _⟩
    · cases h.symm.trans hw
    · cases h.symm.trans hw
  · intro s event t hs hsig
    obtain ⟨r, hr, rfl⟩ := Option.map_eq_some_iff.mp hs
    rcases sendLoop_resume_block hr with hb | ⟨bytes, hd, _⟩
    · simp [emittingSend, watchedSend, hb]
    · exact absurd (congrArg Wake.signal hd) hsig

theorem receiveLoop_restrained {μ : Type} {mem : ReceiveMemory μ} {peer : Endpoint}
    (hmsg : (unknownTransfer mem.errorMsg).length ≤ dataChunkSize + 4) (s : ReceiveLoop μ)
    {arrivals : Nat → Option (Nat × Disk × Wake)} (ha : SparseArrivals arrivals) :
    RestrainedOn (emittingReceive (receiveLoopResume mem) peer) peer s.loopHead arrivals := by
  intro events y run
  refine (emittingReceive_honest hmsg).restrained (watchedReceive_lawful mem peer) trivial ?_
    (receiveLoop_head_stranger s) ?_ ha run
  · intro hw
    rcases receiveLoop_head_turn s with h | ⟨h, _⟩
    · cases h.symm.trans hw
    · cases h.symm.trans hw
  · intro s event t hs hsig
    obtain ⟨r, hr, rfl⟩ := Option.map_eq_some_iff.mp hs
    rcases receiveLoop_takes hr with ⟨_, hb, _⟩ | ⟨bytes, hnext, _⟩
    · simp [emittingReceive, watchedReceive, hb]
    · exact absurd (congrArg Wake.signal hnext.2.1) hsig

/-- None of the four loops can be made to send much: whatever arrives when, each is restrained. -/
theorem loops_restrained (peer : Endpoint) (file : List UInt8) (fault : Nat → Bool)
    (disk : Disk) (stream : OfStream) (response : List UInt8)
    (arrivals : Nat → Option (Nat × Disk × Wake)) (ha : SparseArrivals arrivals) :
    RestrainedOn (emittingSend serverSendLoop peer file) peer (SendLoop.start ⟨file, fault⟩ {}, 0)
      arrivals ∧
    RestrainedOn (emittingSend clientSendLoop peer file) peer (SendLoop.start ⟨file, fault⟩ {}, 0)
      arrivals ∧
    RestrainedOn (emittingReceive serverReceiveLoop peer) peer (serverReceiveStart stream) arrivals ∧
    RestrainedOn (emittingReceive clientReceiveLoop peer) peer
      (clientReceiveStart disk stream response) arrivals := by
  obtain ⟨hserver, hothers⟩ := unknownTransfer_small
  exact ⟨sendLoop_restrained hserver fault ha, sendLoop_restrained hothers fault ha,
    @receiveLoop_restrained _ serverMemory peer hothers _ arrivals ha,
    @receiveLoop_restrained _ clientMemory peer hothers _ arrivals ha⟩

/-- A file of one byte that is sent to a client that says nothing. -/
def unansweredLoop : EmittingLoop (SendLoop × Nat) := emittingSend serverSendLoop ⟨1, 69⟩ [7]

def unansweredStart : SendLoop × Nat := (SendLoop.start ⟨[7], fun _ => false⟩ {}, 0)

/-- The six packets for a request that nobody stands behind. -/
theorem loops_restrained_unanswered :
    sentTo ⟨1, 69⟩ (unansweredLoop.emitted unansweredStart noArrivals unanswered) = 6 ∧
    (leftUnanswered unansweredLoop.loop unansweredStart).isSome = true ∧
    RestrainedOn unansweredLoop ⟨1, 69⟩ unansweredStart noArrivals :=
  ⟨by decide +kernel, by decide +kernel,
    (loops_restrained ⟨1, 69⟩ [7] (fun _ => false) {} {} [] noArrivals sparse_noArrivals).1⟩

end Protocols
