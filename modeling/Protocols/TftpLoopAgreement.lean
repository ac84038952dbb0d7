import Protocols.TftpStorage

namespace Protocols

/-- A receive loop and what it has put out. An event that the loop does not wait for passes it by. -/
structure ReceiveRun (μ : Type) where
  loop : ReceiveLoop μ
  out : Outgoing

def ReceiveRun.take {μ : Type} (mem : ReceiveMemory μ) (peer : Endpoint) (r : ReceiveRun μ)
    (event : Disk × Wake) : ReceiveRun μ :=
  match receiveLoopResume mem peer event.1 r.loop event.2 with
  | some step => ⟨step.1, r.out ++ step.2⟩
  | none => r

/-- The server's loop and the client's, to which the same happens. -/
structure LoopTwins where
  server : ReceiveRun Bool
  client : ReceiveRun Nat

def LoopTwins.take (peer : Endpoint) (p : LoopTwins) (event : Disk × Wake) : LoopTwins :=
  ⟨p.server.take serverMemory peer event, p.client.take clientMemory peer event⟩

/-- The server's loop acknowledges block 0 and receives the datagram; the client's loop starts from
it. -/
def LoopTwins.start (peer : Endpoint) (stream : OfStream) (ready disk : Disk) (first : List UInt8) :
    LoopTwins where
  server := [(ready, Wake.sent none), (disk, .datagram peer first)].foldl
    (ReceiveRun.take serverMemory peer) ⟨serverReceiveStart stream, []⟩
  client := ⟨clientReceiveStart disk stream (receivePacket first), []⟩

def LoopControl.result : LoopControl → Option (Option ErrorCode)
  | .finished error => some error
  | _ => none

/-- The acknowledgements put out, from that of block 1 on. -/
def laterAcks (out : Outgoing) : Outgoing :=
  out.filter fun d => decide (getOpcode d.2 = .ack ∧ getBlockNumber d.2 ≠ 0)

structure LoopTwins.Agree (p : LoopTwins) : Prop where
  contents : p.client.loop.fileStream.contents = p.server.loop.fileStream.contents
  acks : laterAcks p.client.out = laterAcks p.server.out
  result : p.client.loop.control.result = p.server.loop.control.result

/-- No further block comes after a short one has come but was not the last. -/
def LoopTwins.Forgets (p : LoopTwins) (event : Disk × Wake) : Prop :=
  event.2 = .timeout ∧ p.server.loop.control = .receiving ∧ p.server.loop.memory = true ∧
    dataChunkSize ≤ p.client.loop.memory

/-- The loop with another memory. -/
def ReceiveLoop.withMemory {μ ν : Type} (s : ReceiveLoop μ) (m : ν) : ReceiveLoop ν :=
  ⟨s.currentBlock, s.fileStream, m, s.watchdogExpired, s.control⟩

theorem withMemory_loopHead {μ ν : Type} (s : ReceiveLoop μ) (m : ν) :
    (s.withMemory m).loopHead = s.loopHead.withMemory m := by
  cases hg : s.fileStream.good <;> cases hw : s.watchdogExpired <;>
    simp [ReceiveLoop.loopHead, ReceiveLoop.withMemory, hg, hw]

theorem withMemory_accept (s : ReceiveLoop Bool) (m : Nat) (disk : Disk) (data : List UInt8) :
    (s.withMemory m).accept clientMemory disk data =
      (s.accept serverMemory disk data).withMemory data.length := by
  unfold ReceiveLoop.accept
  rw [← withMemory_loopHead]
  rfl

/-- The client's memory is complete only where the server's is. -/
def Recalls (s : ReceiveLoop Bool) (m : Nat) : Prop := m < dataChunkSize → s.memory = true

theorem withMemory_timedOut {s : ReceiveLoop Bool} {m : Nat} (hm : m < dataChunkSize ↔ s.memory = true) :
    (s.withMemory m).timedOut clientMemory = (s.timedOut serverMemory).withMemory m ∧
      (s.timedOut serverMemory).memory = s.memory := by
  have hcomplete : clientMemory.complete (s.withMemory m).memory = s.memory := by
    cases hlast : s.memory <;> simp [clientMemory, ReceiveLoop.withMemory, hm, hlast]
  have hgood : (s.withMemory m).fileStream.good = s.fileStream.good := rfl
  unfold ReceiveLoop.timedOut
  rw [hcomplete, hgood]
  simp only [serverMemory]
  cases hlast : s.memory with
  | true => cases s.fileStream.good <;> exact ⟨rfl, rfl⟩
  | false => exact ⟨withMemory_loopHead s m, (receiveLoop_head_memory s).trans hlast⟩

/-- The two loops do the same, but for a timeout with the one memory complete and the other not. -/
theorem resume_withMemory {s : ReceiveLoop Bool} {m : Nat} {peer : Endpoint} {disk : Disk}
    {wake : Wake} (hm : Recalls s m)
    (hwake : s.control = .receiving → wake = .timeout → s.memory = true → m < dataChunkSize) :
    Option.Rel (fun x y => y.2 = x.2 ∧ ∃ m', y.1 = x.1.withMemory m' ∧ Recalls x.1 m')
      (receiveLoopResume serverMemory peer disk s wake)
      (receiveLoopResume clientMemory peer disk (s.withMemory m) wake) := by
  have hc : (s.withMemory m).control = s.control := rfl
  have again : ∃ m', (s.withMemory m).loopHead = s.loopHead.withMemory m' ∧
      Recalls s.loopHead m' :=
    ⟨m, withMemory_loopHead s m, by rw [Recalls, receiveLoop_head_memory]; exact hm⟩
  cases hs : s.control with
  | finished error =>
    simp only [receiveLoopResume, hc, hs]
    exact .none
  | sending =>
    rcases wake with _ | (_ | error) | _ | _ | _ <;> simp only [receiveLoopResume, hc, hs]
    · exact .none
    · exact .some ⟨rfl, m, rfl, hm⟩
    · exact .some ⟨rfl, m, rfl, hm⟩
    · exact .none
    · exact .none
    · exact .some ⟨rfl, m, rfl, hm⟩
  | receiving =>
    rcases wake with _ | _ | _ | ⟨sender, bytes⟩ | _ <;> simp only [receiveLoopResume, hc, hs]
    · exact .none
    · exact .none
    · obtain ⟨hsame, hmemory⟩ := withMemory_timedOut ⟨hm, hwake hs rfl⟩
      exact .some ⟨rfl, m, hsame, by rw [Recalls, hmemory]; exact hm⟩
    · refine .some ⟨rfl, ?_⟩
      have hblock : (s.withMemory m).currentBlock = s.currentBlock := rfl
      unfold ReceiveLoop.received
      rw [hblock]
      split
      next => exact ⟨m, rfl, hm⟩
      next =>
        split
        next => exact again
        next =>
          refine ⟨_, withMemory_accept s m disk _, fun hshort => ?_⟩
          simp [ReceiveLoop.accept, serverMemory, hshort]
    · exact .some ⟨rfl, m, rfl, hm⟩
  | rejecting stranger =>
    rcases wake with _ | (_ | error) | _ | _ | _ <;> simp only [receiveLoopResume, hc, hs]
    · exact .none
    · exact .some ⟨rfl, again⟩
    · exact .some ⟨rfl, again⟩
    · exact .none
    · exact .none
    · exact .some ⟨rfl, m, rfl, hm⟩

/-- The loops differ in nothing but their memories. -/
structure InStep (p : LoopTwins) : Prop where
  loops : ∃ m, p.client.loop = p.server.loop.withMemory m ∧ Recalls p.server.loop m
  acks : laterAcks p.client.out = laterAcks p.server.out
  begun : 1 ≤ p.client.loop.currentBlock.toNat
  running : (∀ e, p.server.loop.control ≠ .finished e) → p.server.loop.fileStream.good = true

theorem InStep.agree {p : LoopTwins} (h : InStep p) : p.Agree := by
  obtain ⟨m, hm, _⟩ := h.loops
  exact ⟨by rw [hm]; rfl, h.acks, by rw [hm]; rfl⟩

theorem laterAcks_append (out more : Outgoing) :
    laterAcks (out ++ more) = laterAcks out ++ laterAcks more :=
  List.filter_append _ _

/-- The block number never goes back to 0. -/
theorem receiveLoop_resume_begun {μ : Type} {mem : ReceiveMemory μ} {peer : Endpoint} {disk : Disk}
    {s t : ReceiveLoop μ} {wake : Wake} {out : Outgoing}
    (hs : receiveLoopResume mem peer disk s wake = some (t, out))
    (h : 1 ≤ s.currentBlock.toNat) : 1 ≤ t.currentBlock.toNat := by
  rcases receiveLoop_takes hs with ⟨_, hb, _⟩ | ⟨bytes, hears, _, _, rfl⟩
  · rwa [hb]
  · rw [receiveLoop_accept_currentBlock, hears.count.1]
    omega

/-- A loop that goes on has a stream to write to. -/
theorem receiveLoop_resume_writes {μ : Type} {mem : ReceiveMemory μ} {peer : Endpoint} {disk : Disk}
    {s t : ReceiveLoop μ} {wake : Wake} {out : Outgoing}
    (hs : receiveLoopResume mem peer disk s wake = some (t, out))
    (h : (∀ e, s.control ≠ .finished e) → s.fileStream.good = true) :
    (∀ e, t.control ≠ .finished e) → t.fileStream.good = true := by
  have hrun : ∀ e, s.control ≠ .finished e := by
    intro e he
    simp [receiveLoopResume, he] at hs
  rcases receiveLoop_takes hs with ⟨_, _, hfs, _⟩ | ⟨bytes, _, _, _, rfl⟩
  · rw [hfs]
    exact fun _ => h hrun
  · exact receiveLoop_head_running

theorem InStep.take {p : LoopTwins} {peer : Endpoint} {event : Disk × Wake} (h : InStep p)
    (he : ¬ p.Forgets event) : InStep (p.take peer event) := by
  obtain ⟨m, hloop, hm⟩ := h.loops
  have hrel := @resume_withMemory p.server.loop m peer event.1 event.2 hm fun hc hw hs => by
    by_contra hlong
    exact he ⟨hw, hc, hs, by rw [hloop]; exact Nat.not_lt.mp hlong⟩
  rw [← hloop] at hrel
  simp only [LoopTwins.take, ReceiveRun.take]
  cases hs : receiveLoopResume serverMemory peer event.1 p.server.loop event.2 with
  | none =>
    rw [hs] at hrel
    cases hc : receiveLoopResume clientMemory peer event.1 p.client.loop event.2 with
    | none => exact h
    | some y => rw [hc] at hrel; cases hrel
  | some x =>
    rw [hs] at hrel
    cases hc : receiveLoopResume clientMemory peer event.1 p.client.loop event.2 with
    | none => rw [hc] at hrel; cases hrel
    | some y =>
      rw [hc] at hrel
      cases hrel with
      | some hxy =>
        refine ⟨hxy.2, ?_, receiveLoop_resume_begun hc h.begun, receiveLoop_resume_writes hs h.running⟩
        rw [laterAcks_append, laterAcks_append, h.acks, hxy.1]

/-- The server's loop has ended with success, and the client's goes on and acknowledges, or fails. -/
structure Diverged (p : LoopTwins) : Prop where
  ended : p.server.loop.control = .finished none
  begun : 1 ≤ p.client.loop.currentBlock.toNat
  goes : (laterAcks p.server.out).length < (laterAcks p.client.out).length ∨
    ((laterAcks p.server.out).length = (laterAcks p.client.out).length ∧
      (p.client.loop.control = .sending ∨ ∃ e, p.client.loop.control = .finished (some e)))

theorem Diverged.not_agree {p : LoopTwins} (h : Diverged p) : ¬ p.Agree := by
  intro agree
  have hlength := congrArg List.length agree.acks
  have hresult := agree.result
  rw [h.ended] at hresult
  rcases h.goes with hlt | ⟨_, hc | ⟨e, hc⟩⟩
  · omega
  · rw [hc] at hresult
    cases hresult
  · rw [hc] at hresult
    cases hresult

theorem laterAcks_ack {peer : Endpoint} {block : UInt16} (h : 1 ≤ block.toNat) :
    laterAcks [(peer, AckPacket.toBuffer { block })] = [(peer, AckPacket.toBuffer { block })] := by
  have hne : block ≠ 0 := by
    rintro rfl
    simp at h
  simp [laterAcks, hne]

/-- A loop about to acknowledge its block does that next, or fails. -/
theorem receiveLoop_resume_sending {μ : Type} {mem : ReceiveMemory μ} {peer : Endpoint} {disk : Disk}
    {s t : ReceiveLoop μ} {wake : Wake} {out : Outgoing} (hc : s.control = .sending)
    (hs : receiveLoopResume mem peer disk s wake = some (t, out)) :
    out = [(peer, AckPacket.toBuffer { block := s.currentBlock })] ∨
      (out = [] ∧ (t.control = .sending ∨ ∃ e, t.control = .finished (some e))) := by
  rcases wake with _ | (_ | error) | _ | _ | _ <;> simp only [receiveLoopResume, hc] at hs <;> cases hs
  · exact Or.inl rfl
  · exact Or.inr ⟨rfl, Or.inr ⟨error, rfl⟩⟩
  · exact Or.inr ⟨rfl, Or.inl rfl⟩

theorem Diverged.take {p : LoopTwins} {peer : Endpoint} {event : Disk × Wake} (h : Diverged p) :
    Diverged (p.take peer event) := by
  have hserver : p.server.take serverMemory peer event = p.server := by
    simp [ReceiveRun.take, receiveLoopResume, h.ended]
  cases hc : receiveLoopResume clientMemory peer event.1 p.client.loop event.2 with
  | none =>
    have hclient : p.client.take clientMemory peer event = p.client := by
      rw [ReceiveRun.take, hc]
    rw [LoopTwins.take, hserver, hclient]
    exact h
  | some step =>
    have hclient : p.client.take clientMemory peer event = ⟨step.1, p.client.out ++ step.2⟩ := by
      rw [ReceiveRun.take, hc]
    rw [LoopTwins.take, hserver, hclient]
    refine ⟨h.ended, receiveLoop_resume_begun hc h.begun, ?_⟩
    simp only [laterAcks_append, List.length_append]
    rcases h.goes with hlt | ⟨heq, hsending | ⟨e, hended⟩⟩
    · left
      omega
    · rcases receiveLoop_resume_sending hsending hc with hack | ⟨hnone, hgoes⟩
      · left
        rw [hack, laterAcks_ack h.begun, List.length_singleton]
        omega
      · right
        rw [hnone]
        exact ⟨heq, hgoes⟩
    · simp [receiveLoopResume, hended] at hc

/-- A timeout with the server's memory complete and the client's not ends the one loop only. -/
theorem InStep.diverges {p : LoopTwins} {peer : Endpoint} {event : Disk × Wake} (h : InStep p)
    (he : p.Forgets event) : Diverged (p.take peer event) := by
  obtain ⟨m, hloop, _⟩ := h.loops
  obtain ⟨hw, hc, hs, hlong⟩ := he
  have hg := h.running (by simp [hc])
  have hclientControl : p.client.loop.control = .receiving := by rw [hloop]; exact hc
  have hserver : p.server.take serverMemory peer event =
      ⟨{ p.server.loop with control := .finished none }, p.server.out⟩ := by
    simp [ReceiveRun.take, receiveLoopResume, hc, hw, ReceiveLoop.timedOut, serverMemory, hs, hg]
  have hclient : p.client.take clientMemory peer event =
      ⟨p.client.loop.loopHead, p.client.out⟩ := by
    simp [ReceiveRun.take, receiveLoopResume, hclientControl, hw, ReceiveLoop.timedOut, clientMemory,
      hlong.not_gt]
  rw [LoopTwins.take, hserver, hclient]
  refine ⟨rfl, by rw [receiveLoop_head_currentBlock]; exact h.begun, Or.inr ⟨by rw [h.acks], ?_⟩⟩
  unfold ReceiveLoop.loopHead
  split
  next => split <;> simp
  next => simp

def LoopTwins.next (peer : Endpoint) (p : LoopTwins) (event : Disk × Wake) : Option LoopTwins :=
  some (p.take peer event)

theorem loopTwins_run (peer : Endpoint) (p : LoopTwins) (events : List (Disk × Wake)) :
    events.foldlM (LoopTwins.next peer) p = some (events.foldl (LoopTwins.take peer) p) :=
  List.foldlM_pure

theorem inStep_agree_iff {p : LoopTwins} {peer : Endpoint} (events : List (Disk × Wake))
    (start : InStep p) : (events.foldl (LoopTwins.take peer) p).Agree ↔
      ¬ MeetsEvent (LoopTwins.next peer) LoopTwins.Forgets p events := by
  have inv := foldlM_history (P := fun before q =>
    (InStep q ∧ ¬ MeetsEvent (LoopTwins.next peer) LoopTwins.Forgets p before) ∨
      (Diverged q ∧ MeetsEvent (LoopTwins.next peer) LoopTwins.Forgets p before))
    (loopTwins_run peer p events) (Or.inl ⟨start, meetsEvent_nil⟩) ?_
  · rcases inv with ⟨hstep, hno⟩ | ⟨hdiv, hyes⟩
    · exact iff_of_true hstep.agree hno
    · exact iff_of_false hdiv.not_agree (not_not.mpr hyes)
  · rintro before u event v _ hrun hu hv
    cases hv
    rw [meetsEvent_snoc hrun]
    rcases hu with ⟨hstep, hno⟩ | ⟨hdiv, hyes⟩
    · by_cases he : u.Forgets event
      · exact Or.inr ⟨hstep.diverges he, Or.inr he⟩
      · exact Or.inl ⟨hstep.take he, not_or.mpr ⟨hno, he⟩⟩
    · exact Or.inr ⟨hdiv.take, Or.inl hyes⟩

/-- With a stream to write to, the first datagram brings both loops to the same place. -/
theorem inStep_start {peer : Endpoint} {stream : OfStream} {ready disk : Disk} {first : List UInt8}
    (hop : getOpcode (receivePacket first) = .data)
    (hblock : getBlockNumber (receivePacket first) = 1) (hg : stream.good = true) :
    InStep (.start peer stream ready disk first) := by
  have hserver : serverReceiveStart stream = ⟨0, stream, false, false, .sending⟩ := by
    simp [serverReceiveStart, ReceiveLoop.loopHead, hg]
  have hrun : (LoopTwins.start peer stream ready disk first).server =
      ⟨ReceiveLoop.accept serverMemory disk ⟨0, stream, false, false, .receiving⟩
        (getData (receivePacket first)), [(peer, AckPacket.toBuffer { block := 0 })]⟩ := by
    simp only [LoopTwins.start, List.foldl_cons, List.foldl_nil, hserver]
    simp [ReceiveRun.take, receiveLoopResume, ReceiveLoop.received, hop, hblock]
  have hclient : (LoopTwins.start peer stream ready disk first).client.loop =
      (ReceiveLoop.accept serverMemory disk ⟨0, stream, false, false, .receiving⟩
        (getData (receivePacket first))).withMemory (getData (receivePacket first)).length := by
    rw [ReceiveLoop.accept, ← withMemory_loopHead]
    rfl
  refine ⟨⟨_, by rw [hclient, hrun], fun hshort => ?_⟩, ?_, ?_, ?_⟩
  · rw [hrun]
    simp [ReceiveLoop.accept, serverMemory, hshort]
  · rw [hrun]
    simp [LoopTwins.start, laterAcks]
  · rw [hclient]
    simp [ReceiveLoop.withMemory]
  · rw [hrun]
    exact receiveLoop_head_running

/-- Nothing more happens to two loops that have ended. -/
theorem loopTwins_ended {peer : Endpoint} {p : LoopTwins} {e e' : Option ErrorCode}
    (hs : p.server.loop.control = .finished e) (hc : p.client.loop.control = .finished e')
    (events : List (Disk × Wake)) : events.foldl (LoopTwins.take peer) p = p ∧
      ¬ MeetsEvent (LoopTwins.next peer) LoopTwins.Forgets p events := by
  have hstay : ∀ event, p.take peer event = p := by
    intro event
    simp [LoopTwins.take, ReceiveRun.take, receiveLoopResume, hs, hc]
  have hall : ∀ events : List (Disk × Wake), events.foldl (LoopTwins.take peer) p = p := by
    intro events
    induction events with
    | nil => rfl
    | cons event events ih => rw [List.foldl_cons, hstay, ih]
  refine ⟨hall events, ?_⟩
  rintro ⟨before, event, _, t, _, hrun, he⟩
  rw [loopTwins_run, hall] at hrun
  cases hrun
  have hreceiving := he.2.1
  rw [hs] at hreceiving
  cases hreceiving

/-- Without a stream to write to, both loops fail at once. -/
theorem loopTwins_start_failed {peer : Endpoint} {stream : OfStream} {ready disk : Disk}
    {first : List UInt8} (hg : stream.good = false) :
    (LoopTwins.start peer stream ready disk first).server.loop.control = .finished (some .fault) ∧
      (LoopTwins.start peer stream ready disk first).client.loop.control = .finished (some .fault) ∧
      (LoopTwins.start peer stream ready disk first).Agree := by
  have hserver : (LoopTwins.start peer stream ready disk first).server =
      ⟨⟨0, stream, false, false, .finished (some .fault)⟩, []⟩ := by
    simp [LoopTwins.start, ReceiveRun.take, receiveLoopResume, serverReceiveStart,
      ReceiveLoop.loopHead, hg]
  have hclient : (LoopTwins.start peer stream ready disk first).client =
      ⟨⟨1, stream, (getData (receivePacket first)).length, false, .finished (some .fault)⟩, []⟩ := by
    simp [LoopTwins.start, clientReceiveStart, ReceiveLoop.loopHead, OfStream.write, hg]
  refine ⟨by rw [hserver], by rw [hclient], ?_, ?_, ?_⟩
  · rw [hserver, hclient]
  · rw [hserver, hclient]
  · rw [hserver, hclient]

/-- From the same first block the two loops write, acknowledge and return the same, exactly if no
silence follows upon a full block that comes after a short one. -/
theorem receive_loops_agree_iff (peer : Endpoint) (stream : OfStream) (ready disk : Disk)
    (first : List UInt8) (events : List (Disk × Wake)) (hop : getOpcode (receivePacket first) = .data)
    (hblock : getBlockNumber (receivePacket first) = 1) :
    (events.foldl (LoopTwins.take peer) (.start peer stream ready disk first)).Agree ↔
      ¬ MeetsEvent (LoopTwins.next peer) LoopTwins.Forgets (.start peer stream ready disk first)
        events := by
  cases hg : stream.good with
  | true => exact inStep_agree_iff events (inStep_start hop hblock hg)
  | false =>
    obtain ⟨hs, hc, hagree⟩ := @loopTwins_start_failed peer stream ready disk first hg
    obtain ⟨hstay, hno⟩ := loopTwins_ended hs hc events
    rw [hstay]
    exact iff_of_true hagree hno

theorem receive_loops_agree_two_blocks :
    ¬ MeetsEvent (LoopTwins.next ⟨1, 5000⟩) LoopTwins.Forgets
      (.start ⟨1, 5000⟩ {} {} {} (dataBytes twoBlocks 1))
      (untroubled [.sent none, .datagram ⟨1, 5000⟩ (dataBytes twoBlocks 2), .sent none,
        .timeout]) :=
  (receive_loops_agree_iff ⟨1, 5000⟩ {} {} {} (dataBytes twoBlocks 1) _ (by decide +kernel)
    (by decide +kernel)).mp ⟨by decide +kernel, by decide +kernel, by decide +kernel⟩

/-- Both loops after the only block of a file of one byte. -/
def oneBlockTwins : LoopTwins := .start ⟨1, 5000⟩ {} {} {} (dataBytes [7] 1)

/-- A full block comes after the only one, and then nothing more. -/
def fullAfterShort : List (Disk × Wake) :=
  untroubled [.sent none, .datagram ⟨1, 5000⟩
    (DataPacket.toBuffer { block := 2, data := List.replicate dataChunkSize 0 }), .sent none, .timeout]

/-- The server's loop returns success, and the client's acknowledges block 2 again. -/
theorem receive_loops_disagree :
    (fullAfterShort.foldl (LoopTwins.take ⟨1, 5000⟩) oneBlockTwins).server.loop.control =
      .finished none ∧
    (fullAfterShort.foldl (LoopTwins.take ⟨1, 5000⟩) oneBlockTwins).client.loop.control = .sending ∧
    ¬ (fullAfterShort.foldl (LoopTwins.take ⟨1, 5000⟩) oneBlockTwins).Agree := by
  have hs : (fullAfterShort.foldl (LoopTwins.take ⟨1, 5000⟩) oneBlockTwins).server.loop.control =
      .finished none := by decide +kernel
  have hc : (fullAfterShort.foldl (LoopTwins.take ⟨1, 5000⟩) oneBlockTwins).client.loop.control =
      .sending := by decide +kernel
  refine ⟨hs, hc, fun agree => ?_⟩
  have hresult := agree.result
  rw [hs, hc] at hresult
  cases hresult

end Protocols
