import Protocols.TftpOrigin
import Protocols.TftpServing

namespace Protocols

theorem read_delivers (f : InputFile) (s : IfStream) (n : Nat) :
    (s.read f n).1.length ≤ n ∧ ((s.read f n).1.length < n → (s.read f n).2.good = false) ∧
      (s.good = false → (s.read f n).1 = []) := by
  unfold IfStream.read
  split
  next hg =>
    split
    next => exact ⟨Nat.zero_le _, fun _ => by simp [IfStream.good], fun _ => rfl⟩
    next =>
      refine ⟨List.length_take_le _ _, fun hlt => ?_, by simp [hg]⟩
      simp only [IfStream.good, decide_eq_true hlt, Bool.not_true, Bool.false_and]
  next => simp [IfStream.good]

/-- A send loop that has just read its `i`-th block, on any file system: all blocks before have
been full, and the stream has nothing more after one that is not. -/
structure SenderReads (file : List UInt8) (i : Nat) (s : SendLoop) : Prop where
  pos : 1 ≤ i
  op : s.dataPacket.op = .data
  block : s.dataPacket.block = UInt16.ofNat i
  first : i = 1 → s.lastDataSize = 0
  size : s.fileBytesRead ≤ s.dataPacket.data.length
  small : s.dataPacket.data.length ≤ dataChunkSize
  within : s.fileStream.position ≤ file.length
  full : dataChunkSize * (i - 1) + s.fileBytesRead ≤ s.fileStream.position
  short : s.fileBytesRead < dataChunkSize → s.fileStream.good = false

/-- A send loop at its `i`-th block. -/
structure SenderCounts (file : List UInt8) (i : Nat) (s : SendLoop) : Prop where
  pos : 1 ≤ i
  polite : ∀ stranger, s.control ≠ .rejecting stranger
  running : (∀ error, s.control ≠ .finished error) → SenderReads file i s ∧
    s.dataPacket.data.length = s.fileBytesRead ∧ i ≤ chunkCount dataChunkSize file

theorem SenderReads.le_count {file : List UInt8} {i : Nat} {s : SendLoop}
    (h : SenderReads file i s) (hl : 0 < s.fileBytesRead ∨ s.lastDataSize = dataChunkSize) :
    i ≤ chunkCount dataChunkSize file := by
  have hpos := h.pos
  have hfull := h.full
  have hwithin := h.within
  have hne : file ≠ [] := by
    rintro rfl
    simp only [List.length_nil, dataChunkSize] at hwithin hfull hl
    rcases hl with hl | hl
    · omega
    · have := h.first (by omega)
      omega
  rw [chunkCount, if_neg hne]
  simp only [dataChunkSize] at hfull ⊢
  omega

theorem SenderReads.loopHead {file : List UInt8} {i : Nat} {s : SendLoop}
    (h : SenderReads file i s) : SenderCounts file i s.loopHead := by
  unfold SendLoop.loopHead
  split
  next hl =>
    split
    next => exact ⟨h.pos, by simp, fun hr => absurd rfl (hr _)⟩
    next =>
      have hsize : (s.dataPacket.data.take s.fileBytesRead).length = s.fileBytesRead := by
        rw [List.length_take, Nat.min_eq_left h.size]
      refine ⟨h.pos, by simp, fun _ => ⟨⟨h.pos, h.op, h.block, h.first, hsize.ge, ?_, h.within,
        h.full, h.short⟩, hsize, h.le_count hl⟩⟩
      exact (hsize.le.trans h.size).trans h.small
  next =>
    split
    next => exact ⟨h.pos, by simp, fun hr => absurd rfl (hr _)⟩
    next => exact ⟨h.pos, by simp, fun hr => absurd rfl (hr _)⟩

theorem senderCounts_start {file : List UInt8} {f : InputFile} (hf : f.bytes = file) :
    SenderCounts file 1 (SendLoop.start f {}) := by
  subst hf
  obtain ⟨hle, hshort, _⟩ := read_delivers f {} dataChunkSize
  obtain ⟨hpos, hwithin, _⟩ := read_goes_on (f := f) (s := {}) dataChunkSize (Nat.zero_le _)
  simp only [SendLoop.start, fileReader, List.length_replicate]
  refine SenderReads.loopHead ⟨le_rfl, rfl, rfl, fun _ => rfl, ?_, ?_, hwithin, ?_, hshort⟩
  · simp
  · simp only [List.length_append, List.length_drop, List.length_replicate]
    omega
  · simp only [Nat.sub_self, Nat.mul_zero, Nat.zero_add, hpos]
    exact le_rfl

theorem SenderCounts.acknowledged {file : List UInt8} {i : Nat} {s : SendLoop} {f : InputFile}
    (h : SenderCounts file i s) (hr : ∀ error, s.control ≠ .finished error) (hf : f.bytes = file) :
    SenderCounts file (i + 1) (s.acknowledged f) := by
  subst hf
  obtain ⟨reads, hsize, _⟩ := h.running hr
  have hpos := reads.pos
  obtain ⟨hle, hshort, hnone⟩ := read_delivers f s.fileStream s.dataPacket.data.length
  obtain ⟨hnext, hwithin, _⟩ := read_goes_on (f := f) (s := s.fileStream) s.dataPacket.data.length
    reads.within
  by_cases hfull : s.fileBytesRead = dataChunkSize
  · simp only [SendLoop.acknowledged, fileReader]
    refine SenderReads.loopHead ⟨by omega, reads.op, ?_, fun hi => by omega, ?_, ?_, hwithin, ?_, ?_⟩
    · simp [reads.block, UInt16.ofNat_add]
    · simp
    · simp only [List.length_append, List.length_drop]
      have := reads.small
      omega
    · have := reads.full
      simp only [Nat.add_sub_cancel, hnext]
      simp only [dataChunkSize] at this hfull ⊢
      omega
    · exact fun hlt => hshort (hlt.trans_eq (hsize.trans hfull).symm)
  · -- after a short block there is nothing to read
    have hend := hnone (reads.short (by have := reads.small; omega))
    simp only [SendLoop.acknowledged, fileReader, hend, SendLoop.loopHead, List.length_nil,
      Nat.lt_irrefl, hfull, or_self, if_false]
    split
    next => exact ⟨by omega, by simp, fun hr => absurd rfl (hr _)⟩
    next => exact ⟨by omega, by simp, fun hr => absurd rfl (hr _)⟩

/-- The bytes of a DATA packet of the `j`-th block. -/
def IsData (j : Nat) (bytes : List UInt8) : Prop :=
  ∃ data, data.length ≤ dataChunkSize ∧ bytes = DataPacket.toBuffer { block := UInt16.ofNat j, data }

theorem IsData.receivePacket {j : Nat} {bytes : List UInt8} (h : IsData j bytes) :
    receivePacket bytes = bytes := by
  obtain ⟨data, hlength, rfl⟩ := h
  apply List.take_of_length_le
  rw [data_toBuffer_length]
  simp only [dataChunkSize, maxReceiveSize] at hlength ⊢
  omega

theorem IsData.opcode {j : Nat} {bytes : List UInt8} (h : IsData j bytes) :
    getOpcode bytes = .data := by
  obtain ⟨data, _, rfl⟩ := h
  rw [getOpcode_data]

theorem IsData.block {j : Nat} {bytes : List UInt8} (h : IsData j bytes) (hj : j < 65536) :
    (getBlockNumber bytes).toNat = j := by
  obtain ⟨data, _, rfl⟩ := h
  rw [getBlockNumber_data, UInt16.toNat_ofNat_of_lt' hj]

/-- Neither a datagram nor the end of a wait for one. -/
def Wake.internal : Wake → Bool
  | .scheduled | .sent _ | .watchdog => true
  | .timeout | .datagram _ _ => false

/-- What a send loop does of itself: it sends its block, or it stays or gives up. -/
theorem sendLoop_internal {file : List UInt8} {i : Nat} {s t : SendLoop} {f : InputFile}
    {msg : String} {peer : Endpoint} {wake : Wake} {out : Outgoing} (h : SenderCounts file i s)
    (hw : wake.internal = true) (hs : sendLoopResume msg peer f s wake = some (t, out)) :
    SenderCounts file i t ∧
    ((out = [] ∧ (t.control = .sending → s.control = .sending)) ∨
      (s.control = .sending ∧ t.control = .receiving ∧ i ≤ chunkCount dataChunkSize file ∧
        ∃ bytes, IsData i bytes ∧ out = [(peer, bytes)])) := by
  cases sendLoopResume_step hs with
  | expired =>
    exact ⟨⟨h.pos, h.polite, fun hr => by
      obtain ⟨reads, hsize, hle⟩ := h.running hr
      exact ⟨{ reads with }, hsize, hle⟩⟩, Or.inl ⟨rfl, id⟩⟩
  | sent hc =>
    obtain ⟨reads, hsize, hle⟩ := h.running (by simp [hc])
    refine ⟨⟨h.pos, by simp, fun _ => ⟨{ reads with }, hsize, hle⟩⟩, Or.inr ⟨hc, rfl, hle, ?_⟩⟩
    refine ⟨_, ⟨s.dataPacket.data, reads.small, ?_⟩, rfl⟩
    rw [← reads.block, ← reads.op]
  | unsent =>
    exact ⟨⟨h.pos, by simp, fun hr => absurd rfl (hr _)⟩, Or.inl ⟨rfl, by simp⟩⟩
  | unheard _ hwake => rw [hwake] at hw; cases hw
  | stranger _ _ _ hwake => rw [hwake] at hw; cases hw
  | ignored _ _ hwake => rw [hwake] at hw; cases hw
  | acknowledged _ _ hwake => rw [hwake] at hw; cases hw
  | answered stranger hc => exact absurd hc (h.polite stranger)
  | unanswered stranger _ hc => exact absurd hc (h.polite stranger)

/-- What a send loop does with an acknowledgement of its peer. -/
theorem sendLoop_hears {file : List UInt8} {i a : Nat} {s t : SendLoop} {f : InputFile}
    {msg : String} {peer : Endpoint} {out : Outgoing} (h : SenderCounts file i s)
    (hf : f.bytes = file) (hcount : chunkCount dataChunkSize file < 65536) (ha : a < 65536)
    (hs : sendLoopResume msg peer f s (.datagram peer (ackBytes a)) = some (t, out)) :
    s.control = .receiving ∧ out = [] ∧
      (a = i ∧ SenderCounts file (i + 1) t ∨ a ≠ i ∧ SenderCounts file i t) := by
  cases hc : s.control with
  | finished error => simp [sendLoopResume, hc] at hs
  | sending => simp [sendLoopResume, hc] at hs
  | rejecting stranger => exact absurd hc (h.polite stranger)
  | receiving =>
    have hr : ∀ error, s.control ≠ .finished error := by simp [hc]
    obtain ⟨reads, hsize, hle⟩ := h.running hr
    have hop : getOpcode (receivePacket (ackBytes a)) = .ack := by
      rw [receivePacket_ackBytes, ackBytes, getOpcode_ack]
    have hblock : getBlockNumber (receivePacket (ackBytes a)) = s.dataPacket.block ↔ a = i := by
      rw [receivePacket_ackBytes, ackBytes, getBlockNumber_ack, reads.block, ← UInt16.toNat_inj,
        UInt16.toNat_ofNat_of_lt' ha, UInt16.toNat_ofNat_of_lt' (hle.trans_lt hcount)]
    simp only [sendLoopResume, hc, SendLoop.received, hop, hblock, ne_eq, not_true, if_false,
      false_or, Option.some.injEq, Prod.mk.injEq] at hs
    obtain ⟨rfl, rfl⟩ := hs
    refine ⟨rfl, rfl, ?_⟩
    split
    next hne => exact Or.inr ⟨hne, reads.loopHead⟩
    next heq => exact Or.inl ⟨not_not.mp heq, h.acknowledged hr hf⟩

/-- A receive loop that has acknowledged the blocks up to `c`. -/
structure ReceiverCounts {μ : Type} (c : Nat) (r : ReceiveLoop μ) : Prop where
  block : r.currentBlock = UInt16.ofNat c
  polite : ∀ stranger, r.control ≠ .rejecting stranger

section

variable {μ : Type} {mem : ReceiveMemory μ} {peer : Endpoint} {disk : Disk}

theorem ReceiverCounts.loopHead {c : Nat} {r : ReceiveLoop μ}
    (h : r.currentBlock = UInt16.ofNat c) : ReceiverCounts c r.loopHead :=
  ⟨by simpa using h, fun stranger => receiveLoop_head_rejecting r stranger⟩

theorem receiveLoop_internal {c : Nat} {r t : ReceiveLoop μ} {wake : Wake} {out : Outgoing}
    (h : ReceiverCounts c r) (hw : wake.internal = true)
    (hs : receiveLoopResume mem peer disk r wake = some (t, out)) :
    ReceiverCounts c t ∧
    ((out = [] ∧ (t.control = .sending → r.control = .sending)) ∨
      (r.control = .sending ∧ t.control = .receiving ∧ out = [(peer, ackBytes c)])) := by
  cases receiveLoopResume_step hs with
  | expired => exact ⟨⟨h.block, h.polite⟩, Or.inl ⟨rfl, id⟩⟩
  | sent hc => exact ⟨⟨h.block, by simp⟩, Or.inr ⟨hc, rfl, by rw [h.block, ackBytes]⟩⟩
  | unsent => exact ⟨⟨h.block, by simp⟩, Or.inl ⟨rfl, by simp⟩⟩
  | ended _ hwake => rw [hwake] at hw; cases hw
  | spoiled _ hwake => rw [hwake] at hw; cases hw
  | unheard _ hwake => rw [hwake] at hw; cases hw
  | stranger _ _ _ hwake => rw [hwake] at hw; cases hw
  | ignored _ _ hwake => rw [hwake] at hw; cases hw
  | accepted _ _ hwake => rw [hwake] at hw; cases hw
  | answered stranger hc => exact absurd hc (h.polite stranger)
  | unanswered stranger _ hc => exact absurd hc (h.polite stranger)

theorem receiveLoop_hears {c j : Nat} {r t : ReceiveLoop μ} {bytes : List UInt8} {out : Outgoing}
    (h : ReceiverCounts c r) (hd : IsData j bytes) (hc : c < 65536) (hj : j < 65536)
    (hs : receiveLoopResume mem peer disk r (.datagram peer bytes) = some (t, out)) :
    r.control = .receiving ∧ out = [] ∧
      (j = c + 1 ∧ ReceiverCounts (c + 1) t ∨ j ≠ c + 1 ∧ ReceiverCounts c t) := by
  cases hcontrol : r.control with
  | finished error => simp [receiveLoopResume, hcontrol] at hs
  | sending => simp [receiveLoopResume, hcontrol] at hs
  | rejecting stranger => exact absurd hcontrol (h.polite stranger)
  | receiving =>
    simp only [receiveLoopResume, hcontrol, ReceiveLoop.received, hd.receivePacket, hd.opcode,
      hd.block hj, h.block, UInt16.toNat_ofNat_of_lt' hc, ne_eq, not_true, if_false, false_or,
      Option.some.injEq, Prod.mk.injEq] at hs
    obtain ⟨rfl, rfl⟩ := hs
    refine ⟨rfl, rfl, ?_⟩
    split
    next hne => exact Or.inr ⟨hne, ReceiverCounts.loopHead h.block⟩
    next heq =>
      refine Or.inl ⟨not_not.mp heq, ReceiverCounts.loopHead ?_⟩
      simp [h.block, UInt16.ofNat_add]

end

end Protocols
