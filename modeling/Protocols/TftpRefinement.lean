import Protocols.StopAndWait
import Protocols.TftpSender
import Protocols.TftpReceiveLoop

namespace Protocols

open Relation

/-- Block numbers travel as 16-bit values; `firstConfirmed` is 0 where the receiver starts by
acknowledging block 0 and 1 where its handshake has already taken block 1. -/
def transfer (file : List UInt8) (firstConfirmed : Nat) : StopAndWait (List UInt8) where
  modulus := 65536
  firstConfirmed := firstConfirmed
  total := chunkCount dataChunkSize file
  block := chunk dataChunkSize file

/-- The DATA packet of block `j` and the ACK packet of block `b`, as bytes. -/
def dataBytes (file : List UInt8) (j : Nat) : List UInt8 :=
  DataPacket.toBuffer { block := UInt16.ofNat j, data := chunk dataChunkSize file j }

def ackBytes (b : Nat) : List UInt8 := AckPacket.toBuffer { block := UInt16.ofNat b }

theorem receivePacket_dataBytes (file : List UInt8) (j : Nat) :
    receivePacket (dataBytes file j) = dataBytes file j := by
  apply List.take_of_length_le
  rw [dataBytes, data_toBuffer_length, chunk_length]
  simp only [maxReceiveSize, dataChunkSize]
  omega

theorem receivePacket_ackBytes (b : Nat) : receivePacket (ackBytes b) = ackBytes b :=
  List.take_of_length_le (by simp [ackBytes, ack_toBuffer_length, maxReceiveSize])

theorem getOpcode_receivePacket (bytes : List UInt8) :
    getOpcode (receivePacket bytes) = getOpcode bytes := by
  match bytes with
  | [] => rfl
  | [_] => rfl
  | _ :: _ :: _ => rfl

/-- A send loop stands where the abstract sender stands. -/
structure SenderRelated (file : List UInt8) (s : SendLoop) (a : StopAndWaitState (List UInt8)) :
    Prop where
  at_next : SenderAt file a.next s
  polite : ∀ stranger, s.control ≠ .rejecting stranger

/-- A receive loop has counted and written what the abstract receiver has received. -/
structure ReceiverRelated {μ : Type} (s : ReceiveLoop μ) (a : StopAndWaitState (List UInt8)) :
    Prop where
  count : s.currentBlock.toNat = a.received.length
  contents : s.fileStream.contents = a.received.flatten
  running : (∀ e, s.control ≠ .finished e) → s.fileStream.good = true
  polite : ∀ stranger, s.control ≠ .rejecting stranger

/-- A resumption of the send loop is at most one step of the abstract sender, as long as every
acknowledgement it hears from its peer was given. -/
theorem sender_moves {file : List UInt8} {k : Nat} {s t : SendLoop} {f : InputFile}
    {a : StopAndWaitState (List UInt8)} {msg : String} {peer : Endpoint} {wake : Wake}
    {out : Outgoing} (hr : SenderAt file a.next s) (hf : f.bytes = file)
    (hn : UnbrokenWithin file f.readFault)
    (heard : ∀ bytes, wake = .datagram peer bytes → getOpcode (receivePacket bytes) = .ack →
      ∃ b ∈ a.confirmed, bytes = ackBytes b)
    (hs : sendLoopResume msg peer f s wake = some (t, out)) :
    ∃ a', ReflTransGen (StopAndWaitStep (transfer file k)) a a' ∧ SenderAt file a'.next t ∧
      a'.received = a.received ∧ a'.confirmed = a.confirmed ∧ (∀ j ∈ a.offered, j ∈ a'.offered) ∧
      ∀ q ∈ out, (q.1 = peer ∧ ∃ j ∈ a'.offered, q.2 = dataBytes file j) ∨
        ∃ stranger, s.control = .rejecting stranger ∧ q.2 = unknownTransfer msg := by
  rcases sendLoop_resume_cases hr hf hn hs with
    ⟨ht, rfl⟩ | ⟨ht, hle, rfl⟩ | ⟨ht, stranger, hc, rfl⟩ | ⟨ht, hle, rfl, bytes, hw, hop, hbn⟩
  · exact ⟨a, .refl, ht, rfl, rfl, fun _ hj => hj, by simp⟩
  · refine ⟨_, .single (.offer hle), ht, rfl, rfl, fun j hj => by simp [hj], ?_⟩
    intro q hq
    rw [List.mem_singleton] at hq
    subst hq
    exact Or.inl ⟨rfl, a.next, by simp, rfl⟩
  · refine ⟨a, .refl, ht, rfl, rfl, fun _ hj => hj, ?_⟩
    intro q hq
    rw [List.mem_singleton] at hq
    subst hq
    exact Or.inr ⟨stranger, hc, rfl⟩
  · obtain ⟨b, hb, hbytes⟩ := heard _ hw hop
    have hnum : UInt16.ofNat b = UInt16.ofNat a.next := by
      rw [hbytes, receivePacket_ackBytes] at hbn
      simpa [ackBytes] using hbn
    have hmod : b % 65536 = a.next % 65536 := by
      simpa [UInt16.toNat_ofNat'] using congrArg UInt16.toNat hnum
    exact ⟨_, .single (.advance hle hb hmod), ht, rfl, rfl, fun _ hj => hj, by simp⟩

/-- Where it hears only its peer, the loop never answers a stranger. -/
theorem sender_simulates {file : List UInt8} {k : Nat} {s t : SendLoop} {f : InputFile}
    {a : StopAndWaitState (List UInt8)} {msg : String} {peer : Endpoint} {wake : Wake}
    {out : Outgoing} (hr : SenderRelated file s a) (hf : f.bytes = file)
    (hn : UnbrokenWithin file f.readFault)
    (heard : ∀ sender bytes, wake = .datagram sender bytes → sender = peer ∧
      (getOpcode (receivePacket bytes) = .ack → ∃ b ∈ a.confirmed, bytes = ackBytes b))
    (hs : sendLoopResume msg peer f s wake = some (t, out)) :
    ∃ a', ReflTransGen (StopAndWaitStep (transfer file k)) a a' ∧ SenderRelated file t a' ∧
      a'.received = a.received ∧ a'.confirmed = a.confirmed ∧ (∀ j ∈ a.offered, j ∈ a'.offered) ∧
      ∀ q ∈ out, q.1 = peer ∧ ∃ j ∈ a'.offered, q.2 = dataBytes file j := by
  have polite : ∀ stranger, t.control ≠ .rejecting stranger := by
    intro stranger ht
    rcases sendLoop_rejecting hs ht with hc | ⟨bytes, hw, hne⟩
    · exact hr.polite _ hc
    · exact hne (heard _ _ hw).1
  obtain ⟨a', hreach, ht, hrec, hconf, hoff, hout⟩ := sender_moves hr.at_next hf hn
    (fun _ hw => (heard _ _ hw).2) hs
  refine ⟨a', hreach, ⟨ht, polite⟩, hrec, hconf, hoff, fun q hq => ?_⟩
  exact (hout q hq).resolve_right fun ⟨stranger, hc, _⟩ => hr.polite stranger hc

/-- The send loop stands where the abstract sender stands, or its first read has failed and it has
ended before it has sent anything. -/
def SenderStands (file : List UInt8) (s : SendLoop) (a : StopAndWaitState (List UInt8)) : Prop :=
  SenderRelated file s a ∨ s.control = .finished (some .fault)

theorem SenderStands.of_next {file : List UInt8} {s : SendLoop} {a b : StopAndWaitState (List UInt8)}
    (h : SenderStands file s a) (hn : b.next = a.next) : SenderStands file s b :=
  h.imp_left fun h => ⟨by rw [hn]; exact h.at_next, h.polite⟩

theorem senderStands_start {f : InputFile} {a : StopAndWaitState (List UInt8)} (ha : a.next = 1) :
    SenderStands f.bytes (SendLoop.start f {}) a := by
  cases hr : f.readFault 0 with
  | true => exact Or.inr (sendLoop_start_fault hr)
  | false =>
    refine Or.inl ⟨?_, sendLoop_start_polite f {}⟩
    rw [ha]
    exact senderAt_start rfl hr

theorem SenderStands.running {file : List UInt8} {s : SendLoop} {a : StopAndWaitState (List UInt8)}
    (h : SenderStands file s a) (hc : s.control ≠ .finished (some .fault)) : SenderRelated file s a :=
  h.resolve_right hc

theorem sendLoop_runs {msg : String} {peer : Endpoint} {f : InputFile} {s t : SendLoop} {wake : Wake}
    {out : Outgoing} (hs : sendLoopResume msg peer f s wake = some (t, out))
    (error : Option ErrorCode) : s.control ≠ .finished error := by
  intro hc
  simp [sendLoopResume, hc] at hs

theorem receiveLoop_head_running {μ : Type} {s : ReceiveLoop μ}
    (h : ∀ e, s.loopHead.control ≠ .finished e) : s.loopHead.fileStream.good = true := by
  by_contra hg
  rw [receiveLoop_head_fileStream] at hg
  exact h (some .fault) (by simp [ReceiveLoop.loopHead, hg])

/-- What a receive loop has counted and written, whoever else it has heard. -/
structure ReceiverAt {μ : Type} (s : ReceiveLoop μ) (a : StopAndWaitState (List UInt8)) : Prop where
  count : s.currentBlock.toNat = a.received.length
  contents : s.fileStream.contents = a.received.flatten
  running : (∀ e, s.control ≠ .finished e) → s.fileStream.good = true

/-- A resumption of the receive loop is at most one step of the abstract receiver, as long as
every DATA packet it hears from its peer was offered. -/
theorem receiver_moves {μ : Type} {mem : ReceiveMemory μ} {file : List UInt8} {k : Nat}
    {s t : ReceiveLoop μ} {a : StopAndWaitState (List UInt8)} {peer : Endpoint} {disk : Disk}
    {wake : Wake} {out : Outgoing} (inv : StopAndWaitInv (transfer file k) a)
    (hr : ReceiverAt s a) (hk : k ≤ a.received.length)
    (heard : ∀ bytes, wake = .datagram peer bytes → getOpcode (receivePacket bytes) = .data →
      ∃ j ∈ a.offered, bytes = dataBytes file j)
    (hs : receiveLoopResume mem peer disk s wake = some (t, out)) :
    ∃ a', ReflTransGen (StopAndWaitStep (transfer file k)) a a' ∧ ReceiverAt t a' ∧
      a'.next = a.next ∧ a'.offered = a.offered ∧ (∀ b ∈ a.confirmed, b ∈ a'.confirmed) ∧
      k ≤ a'.received.length ∧
      ∀ q ∈ out, (q.1 = peer ∧ ∃ b ∈ a'.confirmed, q.2 = ackBytes b) ∨
        ∃ stranger, s.control = .rejecting stranger ∧ q.2 = unknownTransfer mem.errorMsg := by
  have hrun : ∀ e, s.control ≠ .finished e := by
    intro e he
    simp [receiveLoopResume, he] at hs
  have hgood := hr.running hrun
  rcases receiveLoop_resume_cases hs with ⟨hb, hfs, _, hcases⟩ | ⟨rfl, _, bytes, hw, hop, hbn, ht⟩
  · have keeps : ∀ c, ReceiverAt t { a with confirmed := c } := fun c =>
      ⟨by rw [hb]; exact hr.count, by rw [hfs]; exact hr.contents, fun _ => by rw [hfs]; exact hgood⟩
    rcases hcases with rfl | ⟨_, _, _, rfl⟩ | ⟨stranger, hc, rfl⟩
    · exact ⟨a, .refl, keeps a.confirmed, rfl, rfl, fun _ h => h, hk, by simp⟩
    · refine ⟨_, .single (.confirm hk), keeps _, rfl, rfl, fun b hb => by simp [hb], hk, ?_⟩
      intro q hq
      rw [List.mem_singleton] at hq
      subst hq
      refine Or.inl ⟨rfl, a.received.length, by simp, ?_⟩
      rw [ackBytes, ← hr.count, UInt16.ofNat_toNat]
    · refine ⟨a, .refl, keeps a.confirmed, rfl, rfl, fun _ h => h, hk, ?_⟩
      intro q hq
      rw [List.mem_singleton] at hq
      subst hq
      exact Or.inr ⟨stranger, hc, rfl⟩
  · obtain ⟨j, hj, hbytes⟩ := heard _ hw hop
    subst hbytes
    rw [receivePacket_dataBytes] at hbn ht
    have hnum : j % 65536 = a.received.length + 1 := by
      rw [← hr.count, ← hbn]
      simp [dataBytes, UInt16.toNat_ofNat']
    have hlt := (stopAndWait_accepted_eq inv hj hnum).2.2
    have hlt' : a.received.length + 1 < 65536 := by
      have := (stopAndWait_accepted_eq inv hj hnum).1
      simp only [transfer] at hlt
      omega
    have hpayload : getData (dataBytes file j) = chunk dataChunkSize file j := by simp [dataBytes]
    rw [hpayload] at ht
    refine ⟨_, .single (.accept hj hnum), ⟨?_, ?_, ?_⟩, rfl, rfl, fun _ h => h, ?_, by simp⟩
    · rw [ht, receiveLoop_accept_currentBlock, UInt16.toNat_add, hr.count]
      simp only [UInt16.toNat_one, List.length_append, List.length_singleton]
      exact Nat.mod_eq_of_lt hlt'
    · rw [ht, receiveLoop_accept_fileStream, write_contents hgood, hr.contents]
      simp [transfer]
    · rw [ht]
      exact receiveLoop_head_running
    · simp only [List.length_append, List.length_singleton]
      omega

/-- Where it hears only its peer, the loop never answers a stranger. -/
theorem receiver_simulates {μ : Type} {mem : ReceiveMemory μ} {file : List UInt8} {k : Nat}
    {s t : ReceiveLoop μ} {a : StopAndWaitState (List UInt8)} {peer : Endpoint} {disk : Disk}
    {wake : Wake} {out : Outgoing} (inv : StopAndWaitInv (transfer file k) a)
    (hr : ReceiverRelated s a) (hk : k ≤ a.received.length)
    (heard : ∀ sender bytes, wake = .datagram sender bytes → sender = peer ∧
      (getOpcode (receivePacket bytes) = .data → ∃ j ∈ a.offered, bytes = dataBytes file j))
    (hs : receiveLoopResume mem peer disk s wake = some (t, out)) :
    ∃ a', ReflTransGen (StopAndWaitStep (transfer file k)) a a' ∧ ReceiverRelated t a' ∧
      a'.next = a.next ∧ a'.offered = a.offered ∧ (∀ b ∈ a.confirmed, b ∈ a'.confirmed) ∧
      k ≤ a'.received.length ∧
      ∀ q ∈ out, q.1 = peer ∧ ∃ b ∈ a'.confirmed, q.2 = ackBytes b := by
  have polite : ∀ stranger, t.control ≠ .rejecting stranger := by
    intro stranger ht
    rcases receiveLoop_rejecting hs ht with hc | ⟨bytes, hw, hne⟩
    · exact hr.polite _ hc
    · exact hne (heard _ _ hw).1
  obtain ⟨a', hreach, hat, hnext, hoff, hconf, hk', hout⟩ := receiver_moves inv
    ⟨hr.count, hr.contents, hr.running⟩ hk (fun _ hw => (heard _ _ hw).2) hs
  refine ⟨a', hreach, ⟨hat.count, hat.contents, hat.running, polite⟩, hnext, hoff, hconf, hk',
    fun q hq => ?_⟩
  exact (hout q hq).resolve_right fun ⟨stranger, hc, _⟩ => hr.polite stranger hc

end Protocols
