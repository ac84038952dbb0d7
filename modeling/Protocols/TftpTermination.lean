import Protocols.TftpCounting
import Protocols.TftpStorage
import Protocols.WatchedLoop

namespace Protocols

open WatchedLoop

def maxReceiveWaitTime : Nat := 2000

def maxWaitTime : Nat := 10000

def Wake.signal : Wake → WatchSignal
  | .scheduled | .sent _ => .done
  | .timeout => .timeout
  | .datagram _ _ => .message
  | .watchdog => .watchdog

def LoopControl.phase : LoopControl → WatchPhase
  | .sending => .sending
  | .receiving => .waiting
  | .rejecting _ => .replying
  | .finished _ => .stopped

theorem phase_stopped_iff {c : LoopControl} :
    c.phase = .stopped ↔ ∃ error, c = .finished error := by
  cases c <;> simp [LoopControl.phase]

theorem Wake.signal_watchdog_iff {wake : Wake} : wake.signal = .watchdog ↔ wake = .watchdog := by
  cases wake <;> simp [Wake.signal]

/-- A send loop with the number of blocks that have been acknowledged: each acknowledgement resets
the watchdog. -/
def watchedSend (loop : Endpoint → InputFile → SendLoop → Wake → Option (SendLoop × Outgoing))
    (peer : Endpoint) (file : List UInt8) : WatchedLoop (SendLoop × Nat) (Disk × Wake) where
  step s event := (loop peer ⟨file, event.1.readFault⟩ s.1 event.2).map fun r =>
    (r.1, if r.1.dataPacket.block = s.1.dataPacket.block then s.2 else s.2 + 1)
  signal event := event.2.signal
  phase s := s.1.control.phase
  expired s := s.1.watchdogExpired
  progress s := s.2

/-- A receive loop: each block it accepts resets the watchdog. -/
def watchedReceive {μ : Type}
    (loop : Endpoint → Disk → ReceiveLoop μ → Wake → Option (ReceiveLoop μ × Outgoing))
    (peer : Endpoint) : WatchedLoop (ReceiveLoop μ) (Disk × Wake) where
  step s event := (loop peer event.1 s event.2).map fun r => r.1
  signal event := event.2.signal
  phase s := s.control.phase
  expired s := s.watchdogExpired
  progress s := s.currentBlock.toNat

theorem sendLoop_head_turn (s : SendLoop) : s.loopHead.control.phase = .stopped ∨
    (s.loopHead.control.phase = .sending ∧ s.watchdogExpired = false) := by
  unfold SendLoop.loopHead
  split
  next =>
    split
    next => exact Or.inl rfl
    next he => exact Or.inr ⟨rfl, by simpa using he⟩
  next => split <;> exact Or.inl rfl

/-- How a resumption turns the loop, and that only the watchdog expires it. -/
theorem sendLoop_turns {msg : String} {peer : Endpoint} {f : InputFile} {s t : SendLoop}
    {wake : Wake} {out : Outgoing} (hs : sendLoopResume msg peer f s wake = some (t, out)) :
    Turn s.watchdogExpired wake.signal s.control.phase t.control.phase ∧
      t.watchdogExpired = (s.watchdogExpired || decide (wake = .watchdog)) := by
  cases sendLoopResume_step hs with
  | expired _ hw => exact ⟨by rw [hw]; rfl, by simp [hw]⟩
  | sent hc hw => exact ⟨by rw [hc, hw]; exact Or.inl ⟨rfl, Or.inl rfl⟩, by simp [hw]⟩
  | unsent error hc hw => exact ⟨by rw [hc, hw]; exact Or.inl ⟨rfl, Or.inr rfl⟩, by simp [hw]⟩
  | unheard hc hw =>
    exact ⟨by rw [hc, hw]; exact ⟨rfl, Or.inr (sendLoop_head_turn s)⟩, by simp [hw]⟩
  | stranger sender bytes hc hw =>
    exact ⟨by rw [hc, hw]; exact ⟨rfl, Or.inl rfl⟩, by simp [hw]⟩
  | ignored bytes hc hw =>
    exact ⟨by rw [hc, hw]; exact ⟨rfl, Or.inr (sendLoop_head_turn s)⟩, by simp [hw]⟩
  | acknowledged bytes hc hw =>
    exact ⟨by rw [hc, hw]; exact ⟨rfl, Or.inr (sendLoop_head_turn _)⟩,
      by simp [hw, SendLoop.acknowledged]⟩
  | answered stranger hc hw =>
    exact ⟨by rw [hc, hw]; exact Or.inr ⟨rfl, sendLoop_head_turn s⟩, by simp [hw]⟩
  | unanswered stranger error hc hw =>
    exact ⟨by rw [hc, hw]; exact Or.inr ⟨rfl, sendLoop_head_turn s⟩, by simp [hw]⟩

section

variable {μ : Type} {mem : ReceiveMemory μ} {peer : Endpoint} {disk : Disk}

@[simp] theorem receiveLoop_head_watchdogExpired (s : ReceiveLoop μ) :
    s.loopHead.watchdogExpired = s.watchdogExpired := by
  unfold ReceiveLoop.loopHead
  split
  next => split <;> rfl
  next => rfl

theorem receiveLoop_head_turn (s : ReceiveLoop μ) : s.loopHead.control.phase = .stopped ∨
    (s.loopHead.control.phase = .sending ∧ s.watchdogExpired = false) := by
  unfold ReceiveLoop.loopHead
  split
  next =>
    split
    next => exact Or.inl rfl
    next he => exact Or.inr ⟨rfl, by simpa using he⟩
  next => exact Or.inl rfl

theorem receiveLoop_turns {s t : ReceiveLoop μ} {wake : Wake} {out : Outgoing}
    (hs : receiveLoopResume mem peer disk s wake = some (t, out)) :
    Turn s.watchdogExpired wake.signal s.control.phase t.control.phase ∧
      t.watchdogExpired = (s.watchdogExpired || decide (wake = .watchdog)) := by
  cases receiveLoopResume_step hs with
  | expired _ hw => exact ⟨by rw [hw]; rfl, by simp [hw]⟩
  | sent hc hw => exact ⟨by rw [hc, hw]; exact Or.inl ⟨rfl, Or.inl rfl⟩, by simp [hw]⟩
  | unsent error hc hw => exact ⟨by rw [hc, hw]; exact Or.inl ⟨rfl, Or.inr rfl⟩, by simp [hw]⟩
  | ended hc hw => exact ⟨by rw [hc, hw]; exact ⟨rfl, Or.inr (Or.inl rfl)⟩, by simp [hw]⟩
  | spoiled hc hw => exact ⟨by rw [hc, hw]; exact ⟨rfl, Or.inr (Or.inl rfl)⟩, by simp [hw]⟩
  | unheard hc hw =>
    exact ⟨by rw [hc, hw]; exact ⟨rfl, Or.inr (receiveLoop_head_turn s)⟩, by simp [hw]⟩
  | stranger sender bytes hc hw =>
    exact ⟨by rw [hc, hw]; exact ⟨rfl, Or.inl rfl⟩, by simp [hw]⟩
  | ignored bytes hc hw =>
    exact ⟨by rw [hc, hw]; exact ⟨rfl, Or.inr (receiveLoop_head_turn s)⟩, by simp [hw]⟩
  | accepted bytes hc hw =>
    exact ⟨by rw [hc, hw]; exact ⟨rfl, Or.inr (receiveLoop_head_turn _)⟩,
      by simp [hw, ReceiveLoop.accept]⟩
  | answered stranger hc hw =>
    exact ⟨by rw [hc, hw]; exact Or.inr ⟨rfl, receiveLoop_head_turn s⟩, by simp [hw]⟩
  | unanswered stranger error hc hw =>
    exact ⟨by rw [hc, hw]; exact Or.inr ⟨rfl, receiveLoop_head_turn s⟩, by simp [hw]⟩

end

/-- A send loop that has heard `n` acknowledgements reads a file of more than `n` blocks. -/
structure SendCounted (file : List UInt8) (s : SendLoop × Nat) : Prop where
  running : (∀ error, s.1.control ≠ .finished error) → SenderReads file (s.2 + 1) s.1 ∧
    s.1.dataPacket.data.length = s.1.fileBytesRead ∧ s.2 + 1 ≤ chunkCount dataChunkSize file
  count : s.2 ≤ chunkCount dataChunkSize file

theorem SenderCounts.counted {file : List UInt8} {n : Nat} {s : SendLoop}
    (h : SenderCounts file (n + 1) s) (hn : n ≤ chunkCount dataChunkSize file) :
    SendCounted file (s, n) :=
  ⟨h.running, hn⟩

theorem sendCounted_step {file : List UInt8} {n : Nat} {s t : SendLoop} {f : InputFile}
    {msg : String} {peer : Endpoint} {wake : Wake} {out : Outgoing} (h : SendCounted file (s, n))
    (hf : f.bytes = file) (hs : sendLoopResume msg peer f s wake = some (t, out)) :
    SendCounted file (t, if t.dataPacket.block = s.dataPacket.block then n else n + 1) := by
  have hr : ∀ error, s.control ≠ .finished error := by
    intro error hc
    simp [sendLoopResume, hc] at hs
  obtain ⟨reads, hsize, hle⟩ := h.running hr
  have hhead := reads.loopHead.counted h.count
  cases sendLoopResume_step hs with
  | expired => rw [if_pos rfl]; exact ⟨fun _ => ⟨{ reads with }, hsize, hle⟩, h.count⟩
  | sent => rw [if_pos rfl]; exact ⟨fun _ => ⟨{ reads with }, hsize, hle⟩, h.count⟩
  | unsent => rw [if_pos rfl]; exact ⟨fun hr => absurd rfl (hr _), h.count⟩
  | unheard => rwa [if_pos (sendLoop_head_block s)]
  | stranger => rw [if_pos rfl]; exact ⟨fun _ => ⟨{ reads with }, hsize, hle⟩, h.count⟩
  | ignored => rwa [if_pos (sendLoop_head_block s)]
  | acknowledged bytes hc =>
    have hcounts : SenderCounts file (n + 1) s := ⟨reads.pos, by simp [hc], fun _ => h.running hr⟩
    rw [if_neg (by simp [SendLoop.acknowledged, sendLoop_head_block])]
    exact (hcounts.acknowledged hr hf).counted hle
  | answered => rwa [if_pos (sendLoop_head_block s)]
  | unanswered => rwa [if_pos (sendLoop_head_block s)]

theorem sendLoop_told {msg : String} {peer : Endpoint} {f : InputFile} {s : SendLoop} {wake : Wake}
    (hs : s.control.phase = .waiting) (hw : wake.signal = .message ∨ wake.signal = .timeout) :
    ∃ r, sendLoopResume msg peer f s wake = some r := by
  cases hc : s.control <;> rw [hc] at hs <;> cases hs
  cases wake <;> simp [Wake.signal] at hw <;> simp [sendLoopResume, hc]

theorem sendLoop_sends {msg : String} {peer : Endpoint} {f : InputFile} {s : SendLoop}
    (hs : s.control.phase = .sending ∨ s.control.phase = .replying) :
    ∃ r, sendLoopResume msg peer f s (.sent none) = some r := by
  cases hc : s.control <;> simp [hc, LoopControl.phase] at hs <;> simp [sendLoopResume, hc]

theorem sendLoop_fires {msg : String} {peer : Endpoint} {f : InputFile} {s : SendLoop}
    (hs : s.control.phase ≠ .stopped) : ∃ r, sendLoopResume msg peer f s .watchdog = some r := by
  cases hc : s.control <;> simp [hc, LoopControl.phase] at hs <;> simp [sendLoopResume, hc]

theorem watchedSend_lawful (msg : String) (peer : Endpoint) (file : List UInt8) :
    (watchedSend (sendLoopResume msg) peer file).Lawful (SendCounted file)
      (chunkCount dataChunkSize file) where
  keeps {s event t} h hs := by
    obtain ⟨r, hr, rfl⟩ := Option.map_eq_some_iff.mp hs
    exact sendCounted_step h rfl hr
  bounded h := h.count
  advances {s event t} _ hs := by
    obtain ⟨r, hr, rfl⟩ := Option.map_eq_some_iff.mp hs
    simp only [watchedSend]
    split <;> omega
  turns {s event t} hs := by
    obtain ⟨r, hr, rfl⟩ := Option.map_eq_some_iff.mp hs
    exact (sendLoop_turns hr).1
  expires {s event t} hs he := by
    obtain ⟨r, hr, rfl⟩ := Option.map_eq_some_iff.mp hs
    have hexpired : s.1.watchdogExpired = true := he
    exact (sendLoop_turns hr).2.trans (by rw [hexpired, Bool.true_or])
  watchdog {s event t} hs hw := by
    obtain ⟨r, hr, rfl⟩ := Option.map_eq_some_iff.mp hs
    have hwake := Wake.signal_watchdog_iff.mp hw
    refine ⟨(sendLoop_turns hr).2.trans (by simp [hwake]), ?_⟩
    rcases sendLoop_resume_block hr with hb | ⟨bytes, hd, _⟩
    · simp [watchedSend, hb]
    · rw [hwake] at hd
      cases hd
  stops {s event} hs := by
    obtain ⟨error, hc⟩ := phase_stopped_iff.mp hs
    simp [watchedSend, sendLoopResume, hc]
  hears {s event} hs hw := by
    obtain ⟨r, hr⟩ := sendLoop_told hs hw
    exact ⟨_, Option.map_eq_some_iff.mpr ⟨r, hr, rfl⟩⟩
  sends {s} hs := by
    obtain ⟨r, hr⟩ := sendLoop_sends hs
    exact ⟨({}, .sent none), _, rfl, Option.map_eq_some_iff.mpr ⟨r, hr, rfl⟩⟩
  fires {s} hs := by
    obtain ⟨r, hr⟩ := sendLoop_fires hs
    exact ⟨({}, .watchdog), _, rfl, Option.map_eq_some_iff.mpr ⟨r, hr, rfl⟩⟩
  times := ⟨({}, .timeout), rfl⟩

section

variable {μ : Type} {mem : ReceiveMemory μ} {peer : Endpoint} {disk : Disk} {s : ReceiveLoop μ}

theorem receiveLoop_told {wake : Wake} (hs : s.control.phase = .waiting)
    (hw : wake.signal = .message ∨ wake.signal = .timeout) :
    ∃ r, receiveLoopResume mem peer disk s wake = some r := by
  cases hc : s.control <;> rw [hc] at hs <;> cases hs
  cases wake <;> simp [Wake.signal] at hw <;> simp [receiveLoopResume, hc]

theorem receiveLoop_sends (hs : s.control.phase = .sending ∨ s.control.phase = .replying) :
    ∃ r, receiveLoopResume mem peer disk s (.sent none) = some r := by
  cases hc : s.control <;> simp [hc, LoopControl.phase] at hs <;> simp [receiveLoopResume, hc]

theorem receiveLoop_fires (hs : s.control.phase ≠ .stopped) :
    ∃ r, receiveLoopResume mem peer disk s .watchdog = some r := by
  cases hc : s.control <;> simp [hc, LoopControl.phase] at hs <;> simp [receiveLoopResume, hc]

end

theorem watchedReceive_lawful {μ : Type} (mem : ReceiveMemory μ) (peer : Endpoint) :
    (watchedReceive (receiveLoopResume mem) peer).Lawful (fun _ => True) 65535 where
  keeps _ _ := trivial
  bounded {s} _ := by
    have := s.currentBlock.toNat_lt
    simp only [watchedReceive]
    omega
  advances {s event t} _ hs := by
    obtain ⟨r, hr, rfl⟩ := Option.map_eq_some_iff.mp hs
    simp only [watchedReceive]
    rcases receiveLoop_takes hr with ⟨_, hb, _⟩ | ⟨bytes, hnext, _, _, ht⟩
    · rw [hb]
    · rw [ht, receiveLoop_accept_currentBlock, hnext.count.1]
      exact Nat.le_succ _
  turns {s event t} hs := by
    obtain ⟨r, hr, rfl⟩ := Option.map_eq_some_iff.mp hs
    exact (receiveLoop_turns hr).1
  expires {s event t} hs he := by
    obtain ⟨r, hr, rfl⟩ := Option.map_eq_some_iff.mp hs
    have hexpired : s.watchdogExpired = true := he
    exact (receiveLoop_turns hr).2.trans (by rw [hexpired, Bool.true_or])
  watchdog {s event t} hs hw := by
    obtain ⟨r, hr, rfl⟩ := Option.map_eq_some_iff.mp hs
    have hwake := Wake.signal_watchdog_iff.mp hw
    refine ⟨(receiveLoop_turns hr).2.trans (by simp [hwake]), ?_⟩
    rcases receiveLoop_takes hr with ⟨_, hb, _⟩ | ⟨bytes, hnext, _, _, _⟩
    · simp [watchedReceive, hb]
    · have := hnext.2.1
      rw [hwake] at this
      cases this
  stops {s event} hs := by
    obtain ⟨error, hc⟩ := phase_stopped_iff.mp hs
    simp [watchedReceive, receiveLoopResume, hc]
  hears {s event} hs hw := by
    obtain ⟨r, hr⟩ := receiveLoop_told hs hw
    exact ⟨_, Option.map_eq_some_iff.mpr ⟨r, hr, rfl⟩⟩
  sends {s} hs := by
    obtain ⟨r, hr⟩ := @receiveLoop_sends _ mem peer {} s hs
    exact ⟨({}, .sent none), _, rfl, Option.map_eq_some_iff.mpr ⟨r, hr, rfl⟩⟩
  fires {s} hs := by
    obtain ⟨r, hr⟩ := @receiveLoop_fires _ mem peer {} s hs
    exact ⟨({}, .watchdog), _, rfl, Option.map_eq_some_iff.mpr ⟨r, hr, rfl⟩⟩
  times := ⟨({}, .timeout), rfl⟩

/-- A wait for a packet lasts two seconds, and the watchdog ten. -/
def transferTiming (arrivals : Nat → Option (Nat × Disk × Wake)) : Timing (Disk × Wake) :=
  ⟨maxReceiveWaitTime, maxWaitTime, arrivals⟩

/-- Only finitely many packets, and failures to receive one, arrive in a bounded time. -/
def SparseArrivals (arrivals : Nat → Option (Nat × Disk × Wake)) : Prop :=
  (transferTiming arrivals).Sparse fun event => event.2.signal

/-- The loop, whose watchdog starts at time 0, has no infinite run, and it has left its `while`
wherever a run cannot be continued. -/
def EndsOn {σ : Type} (l : WatchedLoop σ (Disk × Wake)) (control : σ → LoopControl) (s : σ)
    (arrivals : Nat → Option (Nat × Disk × Wake)) : Prop :=
  EndsIn (l.Step (transferTiming arrivals)) (fun y => ∃ error, control y.state = .finished error)
    (start (transferTiming arrivals) s)

/-- In none of its runs does a receive loop accept more blocks than there are numbers above 0. -/
def AcceptsFew {μ : Type} (l : WatchedLoop (ReceiveLoop μ) (Disk × Wake)) (s : ReceiveLoop μ)
    (arrivals : Nat → Option (Nat × Disk × Wake)) : Prop :=
  ∀ events y, events.foldlM (l.next (transferTiming arrivals)) (start (transferTiming arrivals) s) =
      some y →
    (l.collected (transferTiming arrivals) (fun s event t => s.takes t event.2)
      (start (transferTiming arrivals) s) events).length ≤ 65535

theorem WatchedLoop.Lawful.endsOn {σ : Type} {l : WatchedLoop σ (Disk × Wake)} {inv : σ → Prop}
    {bound : Nat} {control : σ → LoopControl} {arrivals : Nat → Option (Nat × Disk × Wake)} {s : σ}
    (h : l.Lawful inv bound) (hp : ∀ s, l.phase s = (control s).phase)
    (hsig : ∀ event, l.signal event = event.2.signal) (ha : SparseArrivals arrivals) (hs : inv s) :
    EndsOn l control s arrivals := by
  have hsparse : (transferTiming arrivals).Sparse l.signal := (funext hsig).symm ▸ ha
  refine ((inTime_start s hs).ends h hsparse (Nat.succ_pos 1999)).mono fun y hy => ?_
  exact phase_stopped_iff.mp ((hp y.state).symm.trans hy)

theorem accepted_le {μ : Type} (mem : ReceiveMemory μ) (peer : Endpoint) (s : ReceiveLoop μ)
    (arrivals : Nat → Option (Nat × Disk × Wake)) :
    AcceptsFew (watchedReceive (receiveLoopResume mem) peer) s arrivals := by
  intro events y run
  have hcount : ((watchedReceive (receiveLoopResume mem) peer).collected (transferTiming arrivals)
      (fun s event t => s.takes t event.2) (start (transferTiming arrivals) s) events).length +
      s.currentBlock.toNat = y.state.currentBlock.toNat := by
    refine foldlM_history run (P := fun events y =>
      ((watchedReceive (receiveLoopResume mem) peer).collected (transferTiming arrivals)
        (fun s event t => s.takes t event.2) (start (transferTiming arrivals) s) events).length +
        s.currentBlock.toNat = y.state.currentBlock.toNat) (Nat.zero_add _) ?_
    intro before u event v _ hrun ih hv
    obtain ⟨i, hw⟩ := next_woken hv
    obtain ⟨r, hr, hstate⟩ := Option.map_eq_some_iff.mp hw.step
    rw [collected_concat hrun hv hw, List.length_append, ← hstate]
    rcases receiveLoop_takes hr with ⟨hnone, hb, _⟩ | ⟨bytes, hhears, _, hone, ht⟩
    · rw [hnone, hb, List.length_nil]
      omega
    · rw [hone, ht, receiveLoop_accept_currentBlock, hhears.count.1, List.length_singleton]
      omega
  have hlt := y.state.currentBlock.toNat_lt
  omega

/-- Each of the four loops ends, whatever arrives, and a receive loop accepts no more blocks than
there are numbers above 0. -/
theorem loops_end (peer : Endpoint) (file : List UInt8) (fault : Nat → Bool) (disk : Disk)
    (stream : OfStream) (response : List UInt8) (arrivals : Nat → Option (Nat × Disk × Wake))
    (ha : SparseArrivals arrivals) :
    EndsOn (watchedSend serverSendLoop peer file) (fun s => s.1.control)
      (SendLoop.start ⟨file, fault⟩ {}, 0) arrivals ∧
    EndsOn (watchedSend clientSendLoop peer file) (fun s => s.1.control)
      (SendLoop.start ⟨file, fault⟩ {}, 0) arrivals ∧
    EndsOn (watchedReceive serverReceiveLoop peer) ReceiveLoop.control (serverReceiveStart stream)
      arrivals ∧
    EndsOn (watchedReceive clientReceiveLoop peer) ReceiveLoop.control
      (clientReceiveStart disk stream response) arrivals ∧
    AcceptsFew (watchedReceive serverReceiveLoop peer) (serverReceiveStart stream) arrivals ∧
    AcceptsFew (watchedReceive clientReceiveLoop peer) (clientReceiveStart disk stream response)
      arrivals := by
  have hstart : SendCounted file (SendLoop.start ⟨file, fault⟩ {}, 0) :=
    (senderCounts_start (f := ⟨file, fault⟩) rfl).counted (Nat.zero_le _)
  refine ⟨?_, ?_, ?_, ?_, accepted_le serverMemory peer _ arrivals,
    accepted_le clientMemory peer _ arrivals⟩
  · exact (watchedSend_lawful _ peer file).endsOn (fun _ => rfl) (fun _ => rfl) ha hstart
  · exact (watchedSend_lawful _ peer file).endsOn (fun _ => rfl) (fun _ => rfl) ha hstart
  · exact (watchedReceive_lawful _ peer).endsOn (fun _ => rfl) (fun _ => rfl) ha trivial
  · exact (watchedReceive_lawful _ peer).endsOn (fun _ => rfl) (fun _ => rfl) ha trivial

/-- Nothing arrives. -/
def noArrivals (_ : Nat) : Option (Nat × Disk × Wake) := none

theorem sparse_noArrivals : SparseArrivals noArrivals :=
  ⟨fun _ _ h => absurd h (Option.not_mem_none _),
    fun _ => Set.finite_empty.subset fun _ ⟨_, h, _⟩ => absurd h (Option.not_mem_none _)⟩

/-- Each wait ends after two seconds, and the last one begins just before the watchdog fires. -/
def unanswered : List (Nat × Waking (Disk × Wake)) :=
  (List.range 5).flatMap (fun k => [(maxReceiveWaitTime * k, .send ({}, .sent none)),
    (maxReceiveWaitTime * (k + 1), .timer ({}, .timeout))]) ++
  [(maxWaitTime, .send ({}, .sent none)), (maxWaitTime, .watchdog ({}, .watchdog)),
    (maxWaitTime + maxReceiveWaitTime, .timer ({}, .timeout))]

/-- Where a loop is left that hears nothing. -/
def leftUnanswered {σ : Type} (l : WatchedLoop σ (Disk × Wake)) (s : σ) : Option σ :=
  (unanswered.foldlM (l.next (transferTiming noArrivals))
    (start (transferTiming noArrivals) s)).map Timed.state

theorem loops_end_unanswered :
    let file : List UInt8 := [7]
    let send : SendLoop × Nat := (SendLoop.start ⟨file, fun _ => false⟩ {}, 0)
    let read := clientReceiveStart {} {}
      (DataPacket.toBuffer { block := 1, data := List.replicate 512 7 })
    ((leftUnanswered (watchedSend serverSendLoop ⟨1, 69⟩ file) send).map fun s => s.1.control) =
        some (.finished (some .timedOut)) ∧
    EndsOn (watchedSend serverSendLoop ⟨1, 69⟩ file) (fun s => s.1.control) send noArrivals ∧
    ((leftUnanswered (watchedSend clientSendLoop ⟨1, 69⟩ file) send).map fun s => s.1.control) =
        some (.finished (some .timedOut)) ∧
    EndsOn (watchedSend clientSendLoop ⟨1, 69⟩ file) (fun s => s.1.control) send noArrivals ∧
    (leftUnanswered (watchedReceive serverReceiveLoop ⟨1, 69⟩) (serverReceiveStart {})).map
        ReceiveLoop.control = some (.finished (some .timedOut)) ∧
    EndsOn (watchedReceive serverReceiveLoop ⟨1, 69⟩) ReceiveLoop.control (serverReceiveStart {})
      noArrivals ∧
    (leftUnanswered (watchedReceive clientReceiveLoop ⟨1, 69⟩) read).map ReceiveLoop.control =
        some (.finished (some .timedOut)) ∧
    EndsOn (watchedReceive clientReceiveLoop ⟨1, 69⟩) ReceiveLoop.control read noArrivals := by
  obtain ⟨hserver, hclient, hreceive, hread, _⟩ := loops_end ⟨1, 69⟩ [7] (fun _ => false) {} {}
    (DataPacket.toBuffer { block := 1, data := List.replicate 512 7 }) noArrivals sparse_noArrivals
  exact ⟨by decide +kernel, hserver, by decide +kernel, hclient, by decide +kernel, hreceive,
    by decide +kernel, hread⟩

end Protocols
