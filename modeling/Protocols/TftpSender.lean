import Protocols.TftpSendLoop
import Mathlib.Order.Basic
import Mathlib.Order.Nat

namespace Protocols

/-- Reading the file block by block fails nowhere between its first block and its end. -/
def UnbrokenWithin (file : List UInt8) (readFault : Nat → Bool) : Prop :=
  ∀ j, 1 ≤ j → dataChunkSize * j < file.length → readFault (dataChunkSize * j) = false

theorem unbroken_of_none {file : List UInt8} {readFault : Nat → Bool}
    (h : ∀ position, readFault position = false) : UnbrokenWithin file readFault :=
  fun _ _ _ => h _

/-- The input stream after reads of `i` blocks: it is good as long as these were all full, and reports
the end of the file when none of them has failed. -/
structure StreamAfter (file : List UInt8) (i : Nat) (s : IfStream) : Prop where
  position : s.position = min (dataChunkSize * i) file.length
  good : s.good = decide (dataChunkSize * i ≤ file.length)
  eof : s.bad = false → s.eof = decide (file.length < dataChunkSize * i)

theorem StreamAfter.ended {file : List UInt8} {i : Nat} {s : IfStream} (h : StreamAfter file i s)
    (hlt : file.length < dataChunkSize * i) : s.position = file.length ∧ s.good = false := by
  rw [h.position, h.good]
  exact ⟨Nat.min_eq_right hlt.le, decide_eq_false (Nat.not_le.mpr hlt)⟩

theorem StreamAfter.running {file : List UInt8} {i : Nat} {s : IfStream} (h : StreamAfter file i s)
    (hle : dataChunkSize * i ≤ file.length) : s.position = dataChunkSize * i ∧ s.good = true := by
  rw [h.position, h.good]
  exact ⟨Nat.min_eq_left hle, decide_eq_true hle⟩

/-- A stream that only fails stays where it is. -/
theorem StreamAfter.stay {file : List UInt8} {i : Nat} {s : IfStream} (h : StreamAfter file i s)
    (hlt : file.length < dataChunkSize * i) :
    StreamAfter file (i + 1) { s with fail := true } := by
  have hmore : file.length < dataChunkSize * (i + 1) := by
    rw [Nat.mul_succ]
    omega
  refine ⟨?_, ?_, fun hb => ?_⟩
  · rw [Nat.min_eq_right hmore.le]
    exact (h.ended hlt).1
  · rw [decide_eq_false (Nat.not_le.mpr hmore)]
    simp [IfStream.good]
  · rw [decide_eq_true hmore]
    exact (h.eof hb).trans (decide_eq_true hlt)

/-- The read of the next block, of a stream that is good, delivers the block. -/
theorem StreamAfter.read {f : InputFile} {i : Nat} {s : IfStream} (h : StreamAfter f.bytes i s)
    (hle : dataChunkSize * i ≤ f.bytes.length)
    (hn : dataChunkSize * i < f.bytes.length → f.readFault (dataChunkSize * i) = false) :
    (s.read f dataChunkSize).1 = chunk dataChunkSize f.bytes (i + 1) ∧
      StreamAfter f.bytes (i + 1) (s.read f dataChunkSize).2 := by
  obtain ⟨hposition, hgood⟩ := h.running hle
  have hnext := chunk_length dataChunkSize f.bytes (i + 1)
  rw [Nat.add_sub_cancel] at hnext
  have hgot : (f.bytes.drop s.position).take dataChunkSize = chunk dataChunkSize f.bytes (i + 1) := by
    rw [hposition]
    rfl
  cases hf : f.readFault (dataChunkSize * i) with
  | true =>
    -- only the read at the very end may have failed
    have hend : f.bytes.length = dataChunkSize * i := by
      by_contra hne
      rw [hn (by omega)] at hf
      cases hf
    have hnil : chunk dataChunkSize f.bytes (i + 1) = [] :=
      List.eq_nil_of_length_eq_zero (by omega)
    rw [read_fault hgood (by rw [hposition]; exact hf)]
    have hlt : f.bytes.length < dataChunkSize * (i + 1) := by
      simp only [dataChunkSize] at hend ⊢
      omega
    refine ⟨hnil.symm, ?_, ?_, by simp⟩
    · rw [Nat.min_eq_right hlt.le]
      exact hposition.trans hend.symm
    · rw [decide_eq_false (Nat.not_le.mpr hlt)]
      simp [IfStream.good]
  | false =>
    have hshort : (chunk dataChunkSize f.bytes (i + 1)).length < dataChunkSize ↔
        f.bytes.length < dataChunkSize * (i + 1) := by
      rw [hnext, Nat.mul_succ]
      omega
    rw [read_good hgood (by rw [hposition]; exact hf), hgot]
    refine ⟨rfl, ?_, ?_, fun _ => decide_eq_decide.mpr hshort⟩
    · simp only [hposition, hnext, Nat.mul_succ]
      omega
    · have hbad : s.bad = false := by
        simp only [IfStream.good, Bool.and_eq_true, Bool.not_eq_true'] at hgood
        exact hgood.2
      by_cases hlt : f.bytes.length < dataChunkSize * (i + 1)
      · simp [IfStream.good, hshort.mpr hlt, hlt]
      · simp [IfStream.good, mt hshort.mp hlt, Nat.not_lt.mp hlt, hbad]

/-- The sender's counters, buffer and stream when block `i` is the one to be acknowledged. -/
structure SenderCore (file : List UInt8) (i : Nat) (s : SendLoop) : Prop where
  pos : 1 ≤ i
  le : i ≤ chunkCount dataChunkSize file + 1
  op : s.dataPacket.op = .data
  block : s.dataPacket.block = UInt16.ofNat i
  read : s.fileBytesRead = (chunk dataChunkSize file i).length
  data : s.dataPacket.data.take s.fileBytesRead = chunk dataChunkSize file i
  last : s.lastDataSize = if i = 1 then 0 else (chunk dataChunkSize file (i - 1)).length
  stream : StreamAfter file i s.fileStream

/-- In addition, the loop runs while there is a block to be acknowledged and not longer. -/
structure SenderAt (file : List UInt8) (i : Nat) (s : SendLoop) : Prop
    extends SenderCore file i s where
  running : (∀ e, s.control ≠ .finished e) →
    i ≤ chunkCount dataChunkSize file ∧ s.dataPacket.data = chunk dataChunkSize file i
  succeeded : s.control = .finished none → i = chunkCount dataChunkSize file + 1

theorem loop_condition_iff {file : List UInt8} {i : Nat} (hi : 1 ≤ i)
    (hb : i ≤ chunkCount dataChunkSize file + 1) :
    (0 < (chunk dataChunkSize file i).length ∨
      (if i = 1 then 0 else (chunk dataChunkSize file (i - 1)).length) = dataChunkSize) ↔
      i ≤ chunkCount dataChunkSize file := by
  simp only [chunk_length, dataChunkSize] at hb ⊢
  unfold chunkCount at hb ⊢
  by_cases he : file = []
  · subst he
    simp at hb ⊢
    omega
  · have hl : 0 < file.length := List.length_pos_iff.mpr he
    simp only [he, if_false] at hb ⊢
    split <;> omega

theorem SenderCore.loopHead {file : List UInt8} {i : Nat} {s : SendLoop}
    (h : SenderCore file i s) : SenderAt file i s.loopHead := by
  have hc := loop_condition_iff h.pos h.le
  rw [← h.last, ← h.read] at hc
  unfold SendLoop.loopHead
  split
  next hl =>
    have hle := hc.mp hl
    split
    next => exact ⟨{ h with }, fun hf => absurd rfl (hf _), fun hf => by simp at hf⟩
    next =>
      refine ⟨{ h with data := ?_ }, fun _ => ⟨hle, h.data⟩, fun hf => by simp at hf⟩
      simp only [List.take_take, Nat.min_self]
      exact h.data
  next hl =>
    have hgt : i = chunkCount dataChunkSize file + 1 := by
      have := h.le
      have := mt hc.mpr hl
      omega
    split
    next => exact ⟨{ h with }, fun hf => absurd rfl (hf _), fun hf => by simp at hf⟩
    next => exact ⟨{ h with }, fun hf => absurd rfl (hf _), fun _ => hgt⟩

theorem SenderAt.withControl {file : List UInt8} {i : Nat} {s : SendLoop} (h : SenderAt file i s)
    (hr : ∀ e, s.control ≠ .finished e) (c : LoopControl) (hc : c ≠ .finished none) (w : Bool) :
    SenderAt file i { s with control := c, watchdogExpired := w } :=
  ⟨{ h.toSenderCore with }, fun _ => h.running hr, fun hf => absurd hf hc⟩

/-- The loop leaves its `while` when all blocks have been acknowledged, the last one of them short. -/
theorem SenderCore.past_end {file : List UInt8} {i : Nat} {s : SendLoop} (h : SenderCore file i s)
    (hgt : chunkCount dataChunkSize file < i) : file.length < dataChunkSize * i := by
  have hpos := h.pos
  rcases Nat.lt_or_ge file.length (dataChunkSize * i) with hlt | hge
  · exact hlt
  · unfold chunkCount at hgt
    simp only [dataChunkSize] at hgt hge
    split at hgt
    next he =>
      subst he
      simp at hge
      omega
    next => omega

/-- A loop that has not run out of time, and whose reads have not failed, goes on while there is a
block to send. -/
theorem SenderCore.loopHead_control {file : List UInt8} {i : Nat} {s : SendLoop}
    (h : SenderCore file i s) (hw : s.watchdogExpired = false) (hb : s.fileStream.bad = false) :
    s.loopHead.control =
      if i ≤ chunkCount dataChunkSize file then .sending else .finished none := by
  have hc := loop_condition_iff h.pos h.le
  rw [← h.last, ← h.read] at hc
  unfold SendLoop.loopHead
  split
  next hl => simp [hw, hc.mp hl]
  next hl =>
    have hgt := mt hc.mpr hl
    have hend := h.past_end (Nat.not_le.mp hgt)
    rw [if_neg (by simp [h.stream.eof hb, hend]), if_neg hgt]

@[simp] theorem sendLoop_head_fileStream (s : SendLoop) : s.loopHead.fileStream = s.fileStream := by
  unfold SendLoop.loopHead
  split
  next => split <;> rfl
  next => split <;> rfl

theorem streamAfter_start (file : List UInt8) : StreamAfter file 0 {} :=
  ⟨by simp, rfl, fun _ => by simp⟩

/-- A read that does not fail leaves the stream as sound as it was. -/
theorem read_bad {f : InputFile} {s : IfStream} (n : Nat) (hn : f.readFault s.position = false) :
    (s.read f n).2.bad = s.bad := by
  cases hg : s.good with
  | true => rw [read_good hg hn]
  | false => rw [read_not_good hg]

theorem sendLoop_start_core {file : List UInt8} {f : InputFile} (hf : f.bytes = file)
    (hr : f.readFault 0 = false) :
    ∃ u, SendLoop.start f {} = u.loopHead ∧ SenderCore file 1 u ∧ u.watchdogExpired = false ∧
      u.fileStream.bad = false := by
  subst hf
  obtain ⟨hgot, hstream⟩ := (streamAfter_start f.bytes).read (Nat.zero_le _) fun _ => hr
  simp only [SendLoop.start, fileReader, List.length_replicate]
  refine ⟨_, rfl, ⟨le_rfl, by omega, rfl, rfl, ?_, ?_, rfl, hstream⟩, rfl, read_bad _ hr⟩
  · simp only [hgot]
  · simp [hgot]

theorem senderAt_start {file : List UInt8} {f : InputFile} (hf : f.bytes = file)
    (hr : f.readFault 0 = false) : SenderAt file 1 (SendLoop.start f {}) := by
  obtain ⟨u, hu, hcore, _⟩ := sendLoop_start_core hf hr
  rw [hu]
  exact hcore.loopHead

theorem sendLoop_start_bad {f : InputFile} (hr : f.readFault 0 = false) :
    (SendLoop.start f {}).fileStream.bad = false := by
  obtain ⟨u, hu, _, _, hb⟩ := sendLoop_start_core rfl hr
  rw [hu, sendLoop_head_fileStream, hb]

/-- Where the first read fails the loop ends before it has sent anything. -/
theorem sendLoop_start_fault {f : InputFile} (hr : f.readFault 0 = true) :
    (SendLoop.start f {}).control = .finished (some .fault) := by
  have hread : ({} : IfStream).read f dataChunkSize = ([], { bad := true }) := read_fault rfl hr
  have hout : ¬ (0 < ([] : List UInt8).length ∨ 0 = dataChunkSize) := by decide
  simp only [SendLoop.start, fileReader, List.length_replicate, hread, SendLoop.loopHead, if_neg hout]
  rfl

/-- The next read delivers exactly the next block. -/
theorem SenderAt.acknowledged_core {file : List UInt8} {i : Nat} {s : SendLoop} {f : InputFile}
    (h : SenderAt file i s) (hr : ∀ e, s.control ≠ .finished e) (hf : f.bytes = file)
    (hn : UnbrokenWithin file f.readFault) :
    ∃ u, s.acknowledged f = u.loopHead ∧ SenderCore file (i + 1) u ∧
      u.watchdogExpired = s.watchdogExpired := by
  subst hf
  obtain ⟨hle, hdata⟩ := h.running hr
  have hpos := h.pos
  have hlast : s.fileBytesRead = if i + 1 = 1 then 0 else
      (chunk dataChunkSize f.bytes (i + 1 - 1)).length := by
    simp only [show i + 1 ≠ 1 by omega, if_false, Nat.add_sub_cancel]
    exact h.read
  have hblock : s.dataPacket.block + 1 = UInt16.ofNat (i + 1) := by simp [h.block, UInt16.ofNat_add]
  have hnext := chunk_length dataChunkSize f.bytes (i + 1)
  rw [Nat.add_sub_cancel] at hnext
  by_cases hshort : f.bytes.length < dataChunkSize * i
  · -- the last block was short: the stream has reached its end and only fails
    have hnil : chunk dataChunkSize f.bytes (i + 1) = [] :=
      List.eq_nil_of_length_eq_zero (by omega)
    simp only [SendLoop.acknowledged, fileReader, read_not_good (h.stream.ended hshort).2]
    refine ⟨_, rfl, ⟨by omega, by omega, h.op, hblock, ?_, ?_, hlast, h.stream.stay hshort⟩, rfl⟩
    · simp [hnil]
    · simp [hnil]
  · have hfull : dataChunkSize * i ≤ f.bytes.length := by omega
    have hsize : s.dataPacket.data.length = dataChunkSize := by
      rw [hdata, chunk_length]
      simp only [dataChunkSize] at hfull ⊢
      omega
    have hcount : i + 1 ≤ chunkCount dataChunkSize f.bytes := by
      unfold chunkCount
      simp only [dataChunkSize] at hfull ⊢
      split
      next he =>
        rw [he] at hfull
        simp at hfull
        omega
      next => omega
    obtain ⟨hgot, hstream⟩ := h.stream.read hfull (hn i hpos)
    simp only [SendLoop.acknowledged, fileReader, hsize]
    refine ⟨_, rfl, ⟨by omega, by omega, h.op, hblock, ?_, ?_, hlast, hstream⟩, rfl⟩
    · simp only [hgot]
    · simp [hgot]

theorem SenderAt.acknowledged {file : List UInt8} {i : Nat} {s : SendLoop} {f : InputFile}
    (h : SenderAt file i s) (hr : ∀ e, s.control ≠ .finished e) (hf : f.bytes = file)
    (hn : UnbrokenWithin file f.readFault) : SenderAt file (i + 1) (s.acknowledged f) := by
  obtain ⟨u, hu, hcore, _⟩ := h.acknowledged_core hr hf hn
  rw [hu]
  exact hcore.loopHead

/-- What one resumption of the loop does: it sends block `i`, moves on to the next block on the
block's own acknowledgement, answers a stranger, or changes nothing that counts. -/
theorem sendLoop_resume_cases {file : List UInt8} {i : Nat} {s t : SendLoop} {f : InputFile}
    {msg : String} {peer : Endpoint} {wake : Wake} {out : Outgoing}
    (h : SenderAt file i s) (hf : f.bytes = file) (hn : UnbrokenWithin file f.readFault)
    (hs : sendLoopResume msg peer f s wake = some (t, out)) :
    (SenderAt file i t ∧ out = []) ∨
    (SenderAt file i t ∧ i ≤ chunkCount dataChunkSize file ∧ out = [(peer, DataPacket.toBuffer
      { block := UInt16.ofNat i, data := chunk dataChunkSize file i })]) ∨
    (SenderAt file i t ∧ ∃ stranger, s.control = .rejecting stranger ∧
      out = [(stranger, unknownTransfer msg)]) ∨
    (SenderAt file (i + 1) t ∧ i ≤ chunkCount dataChunkSize file ∧ out = [] ∧
      ∃ bytes, wake = .datagram peer bytes ∧ getOpcode (receivePacket bytes) = .ack ∧
        getBlockNumber (receivePacket bytes) = UInt16.ofNat i) := by
  have hrun : ∀ e, s.control ≠ .finished e := by
    intro e he
    simp [sendLoopResume, he] at hs
  obtain ⟨hle, hdata⟩ := h.running hrun
  have hpacket : s.dataPacket = { block := UInt16.ofNat i, data := chunk dataChunkSize file i } := by
    rw [← h.block, ← hdata, ← h.op]
  cases sendLoopResume_step hs with
  | expired => exact Or.inl ⟨h.withControl hrun _ (hrun _) _, rfl⟩
  | sent => exact Or.inr (Or.inl ⟨h.withControl hrun _ (by simp) _, hle, by rw [hpacket]⟩)
  | unsent => exact Or.inl ⟨h.withControl hrun _ (by simp) _, rfl⟩
  | unheard => exact Or.inl ⟨h.toSenderCore.loopHead, rfl⟩
  | stranger => exact Or.inl ⟨h.withControl hrun _ (by simp) _, rfl⟩
  | ignored => exact Or.inl ⟨h.toSenderCore.loopHead, rfl⟩
  | acknowledged bytes _ hw hop hblock =>
    exact Or.inr (Or.inr (Or.inr ⟨h.acknowledged hrun hf hn, hle, rfl, bytes, hw, hop,
      by rw [hblock, h.block]⟩))
  | answered stranger hc =>
    exact Or.inr (Or.inr (Or.inl ⟨h.toSenderCore.loopHead, stranger, hc, rfl⟩))
  | unanswered => exact Or.inl ⟨h.toSenderCore.loopHead, rfl⟩

@[simp] theorem sendLoop_head_watchdogExpired (s : SendLoop) :
    s.loopHead.watchdogExpired = s.watchdogExpired := by
  unfold SendLoop.loopHead
  split
  next => split <;> rfl
  next => split <;> rfl

/-- Where reading does not fail, no resumption leaves the stream worse than it was. -/
theorem sendLoop_resume_bad {s t : SendLoop} {f : InputFile} {msg : String} {peer : Endpoint}
    {wake : Wake} {out : Outgoing} (hn : ∀ position, f.readFault position = false)
    (hs : sendLoopResume msg peer f s wake = some (t, out)) :
    t.fileStream.bad = s.fileStream.bad := by
  cases sendLoopResume_step hs with
  | acknowledged =>
    rw [SendLoop.acknowledged, sendLoop_head_fileStream]
    exact read_bad _ (hn _)
  | expired | sent | unsent | stranger => rfl
  | unheard | ignored | answered | unanswered => rw [sendLoop_head_fileStream]

theorem sendLoop_head_polite (s : SendLoop) (stranger : Endpoint) :
    s.loopHead.control ≠ .rejecting stranger := by
  unfold SendLoop.loopHead
  split
  next => split <;> simp
  next => split <;> simp

theorem sendLoop_start_polite (f : InputFile) (stream : IfStream) (stranger : Endpoint) :
    (SendLoop.start f stream).control ≠ .rejecting stranger :=
  sendLoop_head_polite _ stranger

theorem sendLoop_rejecting {s t : SendLoop} {f : InputFile} {msg : String} {peer stranger : Endpoint}
    {wake : Wake} {out : Outgoing} (hs : sendLoopResume msg peer f s wake = some (t, out))
    (ht : t.control = .rejecting stranger) :
    s.control = .rejecting stranger ∨ ∃ bytes, wake = .datagram stranger bytes ∧ stranger ≠ peer := by
  cases sendLoopResume_step hs with
  | expired => exact Or.inl ht
  | sent => cases ht
  | unsent => cases ht
  | unheard => exact absurd ht (sendLoop_head_polite _ _)
  | stranger sender bytes _ hw hp =>
    cases ht
    exact Or.inr ⟨bytes, hw, hp⟩
  | ignored => exact absurd ht (sendLoop_head_polite _ _)
  | acknowledged => exact absurd ht (sendLoop_head_polite _ _)
  | answered => exact absurd ht (sendLoop_head_polite _ _)
  | unanswered => exact absurd ht (sendLoop_head_polite _ _)

end Protocols
