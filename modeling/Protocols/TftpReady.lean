import Protocols.TftpRefinement

namespace Protocols

/-- A send loop at block `i` whose time has not run out and whose reads have not failed. -/
structure SenderReady (file : List UInt8) (i : Nat) (control : LoopControl) (s : SendLoop) :
    Prop where
  at_next : SenderAt file i s
  patient : s.watchdogExpired = false
  sound : s.fileStream.bad = false
  control_eq : s.control = control

/-- What a send loop does next at block `i`. -/
def senderGoesOn (file : List UInt8) (i : Nat) : LoopControl :=
  if i ≤ chunkCount dataChunkSize file then .sending else .finished none

theorem senderGoesOn_of_le {file : List UInt8} {i : Nat} (h : i ≤ chunkCount dataChunkSize file) :
    senderGoesOn file i = .sending := if_pos h

theorem senderGoesOn_end (file : List UInt8) :
    senderGoesOn file (chunkCount dataChunkSize file + 1) = .finished none := if_neg (by omega)

theorem SenderCore.ready {file : List UInt8} {i : Nat} {s : SendLoop} (h : SenderCore file i s)
    (hw : s.watchdogExpired = false)
    (hb : s.fileStream.bad = false) : SenderReady file i (senderGoesOn file i) s.loopHead :=
  ⟨h.loopHead, by rw [sendLoop_head_watchdogExpired, hw], by rw [sendLoop_head_fileStream, hb],
    h.loopHead_control hw hb⟩

theorem senderReady_start {file : List UInt8} {f : InputFile} (hf : f.bytes = file)
    (hr : ∀ p, f.readFault p = false) :
    SenderReady file 1 (senderGoesOn file 1) (SendLoop.start f {}) := by
  obtain ⟨u, hu, hcore, hw, hb⟩ := sendLoop_start_core hf (hr 0)
  rw [hu]
  exact hcore.ready hw hb

section

variable {file : List UInt8} {i : Nat} {s : SendLoop} {f : InputFile} {msg : String}
  {peer : Endpoint}

theorem SenderReady.send (h : SenderReady file i .sending s) :
    sendLoopResume msg peer f s (.sent none) =
      some ({ s with control := .receiving }, [(peer, dataBytes file i)]) := by
  have hdata := (h.at_next.running (by simp [h.control_eq])).2
  have hpacket : s.dataPacket = { block := UInt16.ofNat i, data := chunk dataChunkSize file i } := by
    rw [← h.at_next.block, ← hdata, ← h.at_next.op]
  simp [sendLoopResume, h.control_eq, dataBytes, hpacket]

theorem SenderReady.sent (h : SenderReady file i .sending s) :
    SenderReady file i .receiving { s with control := .receiving } :=
  ⟨h.at_next.withControl (by simp [h.control_eq]) _ (by simp) _, h.patient, h.sound, rfl⟩

/-- The acknowledgement of the current block, whatever its age, moves the loop on. -/
theorem SenderReady.advance {b : Nat} (h : SenderReady file i .receiving s)
    (hb : b % 65536 = i % 65536) :
    sendLoopResume msg peer f s (.datagram peer (ackBytes b)) = some (s.acknowledged f, []) := by
  have hnum : UInt16.ofNat b = s.dataPacket.block := by
    rw [h.at_next.block]
    apply UInt16.toNat_inj.mp
    simpa [UInt16.toNat_ofNat'] using hb
  have hrec : s.received peer f peer (receivePacket (ackBytes b)) = s.acknowledged f := by
    rw [receivePacket_ackBytes]
    simp [SendLoop.received, ackBytes, hnum]
  simp [sendLoopResume, h.control_eq, hrec]

theorem SenderReady.advanced (h : SenderReady file i .receiving s) (hf : f.bytes = file)
    (hn : ∀ p, f.readFault p = false) :
    SenderReady file (i + 1) (senderGoesOn file (i + 1)) (s.acknowledged f) := by
  obtain ⟨u, hu, hcore, hw⟩ := h.at_next.acknowledged_core (by simp [h.control_eq]) hf
    (unbroken_of_none hn)
  have hb : u.fileStream.bad = s.fileStream.bad := by
    rw [← sendLoop_head_fileStream, ← hu, SendLoop.acknowledged, sendLoop_head_fileStream]
    exact read_bad _ (hn _)
  rw [hu]
  exact hcore.ready (hw.trans h.patient) (hb.trans h.sound)

theorem SenderReady.ignore {b : Nat} (h : SenderReady file i .receiving s)
    (hb : b % 65536 ≠ i % 65536) :
    sendLoopResume msg peer f s (.datagram peer (ackBytes b)) = some (s.loopHead, []) := by
  have hnum : UInt16.ofNat b ≠ s.dataPacket.block := by
    rw [h.at_next.block]
    intro hh
    exact hb (by simpa [UInt16.toNat_ofNat'] using congrArg UInt16.toNat hh)
  have hrec : s.received peer f peer (receivePacket (ackBytes b)) = s.loopHead := by
    rw [receivePacket_ackBytes]
    simp [SendLoop.received, ackBytes, hnum]
  simp [sendLoopResume, h.control_eq, hrec]

theorem SenderReady.ignored (h : SenderReady file i .receiving s) :
    SenderReady file i .sending s.loopHead := by
  have hle := (h.at_next.running (by simp [h.control_eq])).1
  have hready := h.at_next.toSenderCore.ready h.patient h.sound
  rwa [senderGoesOn_of_le hle] at hready

end

/-- The memory of a receive loop that has not seen the last block yet judges by the next one. -/
def ReceiveMemory.Counts {μ : Type} (mem : ReceiveMemory μ) : Prop :=
  ∀ m size, mem.complete m = false → mem.complete (mem.note m size) = decide (size < dataChunkSize)

theorem serverMemory_counts : serverMemory.Counts := by
  intro m size h
  simp only [serverMemory] at h ⊢
  simp [h]

theorem clientMemory_counts : clientMemory.Counts := fun _ _ _ => rfl

/-- A receive loop that has written the first `c` blocks and whose time has not run out. -/
structure ReceiverReady {μ : Type} (mem : ReceiveMemory μ) (file : List UInt8) (c : Nat)
    (control : LoopControl) (s : ReceiveLoop μ) : Prop where
  count : s.currentBlock = UInt16.ofNat c
  count_lt : c < 65536
  count_le : c ≤ chunkCount dataChunkSize file
  contents : s.fileStream.contents = file.take (dataChunkSize * c)
  opened : s.fileStream.isOpen = true
  good : s.fileStream.good = true
  complete : mem.complete s.memory = decide (c = chunkCount dataChunkSize file)
  patient : s.watchdogExpired = false
  control_eq : s.control = control

theorem chunk_length_lt_iff {file : List UInt8} {j : Nat} (hj : 1 ≤ j)
    (hle : j ≤ chunkCount dataChunkSize file) :
    (chunk dataChunkSize file j).length < dataChunkSize ↔ j = chunkCount dataChunkSize file := by
  rw [chunk_length]
  unfold chunkCount at hle ⊢
  simp only [dataChunkSize] at hle ⊢
  split at hle
  next => omega
  next hne => simp only [hne, if_false]; omega

section

variable {μ : Type} {mem : ReceiveMemory μ} {file : List UInt8} {c : Nat} {s : ReceiveLoop μ}
  {peer : Endpoint} {disk : Disk}

theorem ReceiverReady.loopHead {q : LoopControl} (h : ReceiverReady mem file c q s) :
    ReceiverReady mem file c .sending s.loopHead := by
  rw [receiveLoop_head_good h.good]
  exact { h with control_eq := by simp [h.patient] }

theorem ReceiverReady.confirm (h : ReceiverReady mem file c .sending s) :
    receiveLoopResume mem peer disk s (.sent none) =
      some ({ s with control := .receiving }, [(peer, ackBytes c)]) := by
  simp [receiveLoopResume, h.control_eq, ackBytes, h.count]

theorem ReceiverReady.confirmed (h : ReceiverReady mem file c .sending s) :
    ReceiverReady mem file c .receiving { s with control := .receiving } :=
  { h with control_eq := rfl }

theorem ofStream_write_isOpen (stream : OfStream) (data : List UInt8) :
    (stream.write disk data).isOpen = stream.isOpen := by
  unfold OfStream.write
  split <;> rfl

theorem ReceiverReady.accept (h : ReceiverReady mem file c .receiving s) (hlt : c + 1 < 65536) :
    receiveLoopResume mem peer disk s (.datagram peer (dataBytes file (c + 1))) =
      some (s.accept mem disk (chunk dataChunkSize file (c + 1)), []) := by
  have hcount : s.currentBlock.toNat = c := by
    rw [h.count, UInt16.toNat_ofNat_of_lt' h.count_lt]
  have hnum : (UInt16.ofNat (c + 1)).toNat = c + 1 := UInt16.toNat_ofNat_of_lt' hlt
  have hrec : s.received mem peer disk peer (receivePacket (dataBytes file (c + 1))) =
      s.accept mem disk (chunk dataChunkSize file (c + 1)) := by
    rw [receivePacket_dataBytes]
    simp only [ReceiveLoop.received, dataBytes, getOpcode_data, getBlockNumber_data, getData_data,
      hcount, hnum]
    simp
  simp [receiveLoopResume, h.control_eq, hrec]

theorem ReceiverReady.accepted (h : ReceiverReady mem file c .receiving s) (hm : mem.Counts)
    (hd : disk.Works) (hlt : c + 1 < 65536) (hle : c + 1 ≤ chunkCount dataChunkSize file) :
    ReceiverReady mem file (c + 1) .sending
      (s.accept mem disk (chunk dataChunkSize file (c + 1))) := by
  have hincomplete : mem.complete s.memory = false := by
    rw [h.complete, decide_eq_false_iff_not]
    omega
  refine ReceiverReady.loopHead (q := .receiving)
    ⟨?_, hlt, hle, ?_, ?_, write_good hd h.good _, ?_, h.patient, h.control_eq⟩
  · simp [h.count, UInt16.ofNat_add]
  · simp only [write_contents h.good, h.contents, take_append_chunk]
  · simpa only [ofStream_write_isOpen] using h.opened
  · simp only [hm _ _ hincomplete]
    exact decide_eq_decide.mpr (chunk_length_lt_iff (by omega) hle)

theorem ReceiverReady.again {j : Nat} (h : ReceiverReady mem file c .receiving s)
    (hj : j % 65536 ≠ c + 1) :
    receiveLoopResume mem peer disk s (.datagram peer (dataBytes file j)) =
      some (s.loopHead, []) := by
  have hcount : s.currentBlock.toNat = c := by
    rw [h.count, UInt16.toNat_ofNat_of_lt' h.count_lt]
  have hrec : s.received mem peer disk peer (receivePacket (dataBytes file j)) = s.loopHead := by
    rw [receivePacket_dataBytes]
    simp [ReceiveLoop.received, dataBytes, hcount, UInt16.toNat_ofNat', hj]
  simp [receiveLoopResume, h.control_eq, hrec]

/-- A silence makes the loop acknowledge its current block again, or end after the last one. -/
theorem ReceiverReady.silence (h : ReceiverReady mem file c .receiving s) :
    receiveLoopResume mem peer disk s .timeout = some (s.timedOut mem, []) := by
  simp [receiveLoopResume, h.control_eq]

theorem ReceiverReady.silent (h : ReceiverReady mem file c .receiving s) :
    ReceiverReady mem file c
      (if c = chunkCount dataChunkSize file then .finished none else .sending) (s.timedOut mem) := by
  unfold ReceiveLoop.timedOut
  rw [h.complete]
  by_cases hc : c = chunkCount dataChunkSize file
  · simp only [← hc, decide_true, if_true, h.good, Bool.not_true, Bool.false_eq_true, if_false]
    exact { h with control_eq := rfl }
  · simp only [hc, decide_false, Bool.false_eq_true, if_false]
    exact h.loopHead

end

theorem sendLoop_sending_waits {msg : String} {peer : Endpoint} {f : InputFile} {s : SendLoop}
    {wake : Wake} (h : s.control = .sending) (hw : wake ≠ .watchdog) (hs : ∀ e, wake ≠ .sent e) :
    sendLoopResume msg peer f s wake = none := by
  unfold sendLoopResume
  rw [h]
  cases wake with
  | sent e => exact absurd rfl (hs e)
  | watchdog => exact absurd rfl hw
  | scheduled => rfl
  | timeout => rfl
  | datagram => rfl

theorem receiveLoop_sending_waits {μ : Type} {mem : ReceiveMemory μ} {peer : Endpoint} {disk : Disk}
    {s : ReceiveLoop μ} {wake : Wake} (h : s.control = .sending) (hw : wake ≠ .watchdog)
    (hs : ∀ e, wake ≠ .sent e) : receiveLoopResume mem peer disk s wake = none := by
  unfold receiveLoopResume
  rw [h]
  cases wake with
  | sent e => exact absurd rfl (hs e)
  | watchdog => exact absurd rfl hw
  | scheduled => rfl
  | timeout => rfl
  | datagram => rfl

theorem receiverReady_serverStart {file : List UInt8} {stream : OfStream} (hne : file ≠ [])
    (hc : stream.contents = []) (ho : stream.isOpen = true) (hg : stream.good = true) :
    ReceiverReady serverMemory file 0 .sending (serverReceiveStart stream) := by
  apply ReceiverReady.loopHead (q := .sending)
  refine ⟨rfl, by omega, Nat.zero_le _, by simp [hc], ho, hg, ?_, rfl, rfl⟩
  simp [serverMemory, chunkCount, hne]

theorem receiverReady_clientStart {file : List UInt8} {disk : Disk} {stream : OfStream}
    (hne : file ≠ []) (hd : disk.Works) (hc : stream.contents = []) (ho : stream.isOpen = true)
    (hg : stream.good = true) :
    ReceiverReady clientMemory file 1 .sending
      (clientReceiveStart disk stream (dataBytes file 1)) := by
  have hle : 1 ≤ chunkCount dataChunkSize file := by simp [chunkCount, hne]
  apply ReceiverReady.loopHead (q := .sending)
  have hdata : getData (dataBytes file 1) = chunk dataChunkSize file 1 := by simp [dataBytes]
  rw [hdata]
  refine ⟨rfl, by omega, hle, ?_, ?_, write_good hd hg _, ?_, rfl, rfl⟩
  · simp [write_contents hg, hc, chunk]
  · simpa only [ofStream_write_isOpen] using ho
  · exact decide_eq_decide.mpr (chunk_length_lt_iff le_rfl hle)

end Protocols
