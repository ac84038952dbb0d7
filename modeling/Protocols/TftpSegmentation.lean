import Protocols.Repetitions
import Protocols.TftpOrigin

namespace Protocols

/-- The packets are the blocks of the file: numbered from 1, all full but the last one, which is
short. -/
structure Segmentation (file : List UInt8) (packets : List DataPacket) : Prop where
  numbered : ∀ k p, packets[k]? = some p → p.op = .data ∧ p.block = UInt16.ofNat (k + 1)
  full : ∀ p ∈ packets.dropLast, p.data.length = dataChunkSize
  short : ∃ p, packets.getLast? = some p ∧ p.data.length < dataChunkSize
  whole : (packets.map DataPacket.data).flatten = file

theorem full_blocks_length {packets : List DataPacket}
    (h : ∀ p ∈ packets, p.data.length = dataChunkSize) :
    (packets.map DataPacket.data).flatten.length = dataChunkSize * packets.length := by
  induction packets with
  | nil => rfl
  | cons p packets ih =>
    rw [List.map_cons, List.flatten_cons, List.length_append, h p List.mem_cons_self,
      ih fun q hq => h q (List.mem_cons_of_mem _ hq), List.length_cons, Nat.mul_succ, Nat.add_comm]

theorem Segmentation.count {file : List UInt8} {packets : List DataPacket}
    (h : Segmentation file packets) : packets.length = file.length / dataChunkSize + 1 := by
  obtain ⟨p, hp, hshort⟩ := h.short
  obtain ⟨before, rfl⟩ := List.getLast?_eq_some_iff.mp hp
  have hfull := h.full
  rw [List.dropLast_concat] at hfull
  have hlength := congrArg List.length h.whole
  rw [List.map_append, List.flatten_append, List.length_append, full_blocks_length hfull] at hlength
  simp only [List.map_cons, List.map_nil, List.flatten_cons, List.flatten_nil,
    List.append_nil] at hlength
  rw [List.length_append, List.length_singleton]
  simp only [dataChunkSize] at hlength hshort ⊢
  omega

/-- A send loop and what it has put out so far. -/
structure SendHistory where
  loop : SendLoop
  out : Outgoing

def SendHistory.start (f : InputFile) : SendHistory := ⟨SendLoop.start f {}, []⟩

def SendHistory.next (msg : String) (peer : Endpoint) (f : InputFile) (h : SendHistory)
    (wake : Wake) : Option SendHistory :=
  (sendLoopResume msg peer f h.loop wake).map fun step => ⟨step.1, h.out ++ step.2⟩

/-- The DATA datagrams put out, a retransmission counted once. -/
def blocksOnce (out : Outgoing) : Outgoing :=
  (out.filter fun d => decide (getOpcode d.2 = .data)).destutter (· ≠ ·)

/-- What has been put out segments the file, to the peer. -/
def Segments (peer : Endpoint) (file : List UInt8) (out : Outgoing) : Prop :=
  ∃ packets, Segmentation file packets ∧ packets.length = file.length / dataChunkSize + 1 ∧
    blocksOnce out = packets.map fun p => (peer, p.toBuffer)

theorem blocksOnce_append_data {out : Outgoing} {peer : Endpoint} {bytes : List UInt8}
    (h : getOpcode bytes = .data) :
    blocksOnce (out ++ [(peer, bytes)]) =
      if (blocksOnce out).getLast? = some (peer, bytes) then blocksOnce out
      else blocksOnce out ++ [(peer, bytes)] := by
  have hfilter : (out ++ [(peer, bytes)]).filter (fun d => decide (getOpcode d.2 = .data)) =
      out.filter (fun d => decide (getOpcode d.2 = .data)) ++ [(peer, bytes)] := by
    rw [List.filter_append]
    simp [h]
  rw [blocksOnce, hfilter, destutter_concat, blocksOnce, destutter_getLast?]

theorem blocksOnce_append_unknownTransfer (out : Outgoing) (stranger : Endpoint) (msg : String) :
    blocksOnce (out ++ [(stranger, unknownTransfer msg)]) = blocksOnce out := by
  rw [blocksOnce, List.filter_append]
  simp [unknownTransfer, blocksOnce]

/-- The packets of the first `c` blocks. -/
def firstPackets (file : List UInt8) (c : Nat) : List DataPacket :=
  (List.range c).map fun k => { block := UInt16.ofNat (k + 1), data := chunk dataChunkSize file (k + 1) }

theorem firstPackets_succ (file : List UInt8) (c : Nat) :
    firstPackets file (c + 1) = firstPackets file c ++
      [{ block := UInt16.ofNat (c + 1), data := chunk dataChunkSize file (c + 1) }] := by
  rw [firstPackets, List.range_succ, List.map_append]
  rfl

theorem dataBytes_ne_succ (file : List UInt8) (i : Nat) :
    dataBytes file i ≠ dataBytes file (i + 1) := by
  intro h
  have hblock := congrArg getBlockNumber h
  simp only [dataBytes, getBlockNumber_data, UInt16.ofNat_add] at hblock
  exact uint16_succ_ne _ hblock.symm

/-- A loop that has sent its current block and is not yet back at its head. -/
def SendLoop.Offers (s : SendLoop) : Prop :=
  s.control = .receiving ∨ ∃ stranger, s.control = .rejecting stranger

theorem sendLoop_head_not_offers (s : SendLoop) : ¬ s.loopHead.Offers := by
  unfold SendLoop.loopHead SendLoop.Offers
  split
  next => split <;> simp
  next => split <;> simp

theorem sendLoop_start_not_offers (f : InputFile) : ¬ (SendLoop.start f {}).Offers :=
  sendLoop_head_not_offers _

/-- A loop comes to wait for an answer by sending its block. -/
theorem sendLoop_offers {msg : String} {peer : Endpoint} {f : InputFile} {s t : SendLoop}
    {wake : Wake} {out : Outgoing} (hs : sendLoopResume msg peer f s wake = some (t, out))
    (ht : t.Offers) : s.Offers ∨ out ≠ [] := by
  cases sendLoopResume_step hs with
  | expired => exact Or.inl ht
  | sent => exact Or.inr (by simp)
  | unsent => simp [SendLoop.Offers] at ht
  | unheard hc => exact Or.inl (Or.inl hc)
  | stranger _ _ hc => exact Or.inl (Or.inl hc)
  | ignored _ hc => exact Or.inl (Or.inl hc)
  | acknowledged _ hc => exact Or.inl (Or.inl hc)
  | answered stranger hc => exact Or.inl (Or.inr ⟨stranger, hc⟩)
  | unanswered stranger _ hc => exact Or.inl (Or.inr ⟨stranger, hc⟩)

theorem sendLoop_datagram_receiving {msg : String} {peer sender : Endpoint} {f : InputFile}
    {s t : SendLoop} {bytes : List UInt8} {out : Outgoing}
    (hs : sendLoopResume msg peer f s (.datagram sender bytes) = some (t, out)) :
    s.control = .receiving := by
  cases sendLoopResume_step hs with
  | expired _ hw => cases hw
  | sent _ hw => cases hw
  | unsent _ _ hw => cases hw
  | unheard hc => exact hc
  | stranger _ _ hc => exact hc
  | ignored _ hc => exact hc
  | acknowledged _ hc => exact hc
  | answered _ _ hw => cases hw
  | unanswered _ _ _ hw => cases hw

/-- A loop at block `i` has sent the blocks before it, and the block itself once it waits. -/
structure HasSent (peer : Endpoint) (file : List UInt8) (i c : Nat) (h : SendHistory) : Prop where
  at_next : SenderAt file i h.loop
  level : c = i ∨ c + 1 = i
  le : c ≤ chunkCount dataChunkSize file
  offers : h.loop.Offers → c = i
  sent : blocksOnce h.out = (firstPackets file c).map fun p => (peer, p.toBuffer)

theorem hasSent_start {peer : Endpoint} {file : List UInt8} {f : InputFile} (hf : f.bytes = file)
    (hn : ∀ p, f.readFault p = false) : HasSent peer file 1 0 (.start f) where
  at_next := senderAt_start hf (hn 0)
  level := Or.inr rfl
  le := Nat.zero_le _
  offers hoffers := absurd hoffers (sendLoop_start_not_offers f)
  sent := rfl

theorem HasSent.send {peer : Endpoint} {file : List UInt8} {i c : Nat} {s t : SendLoop}
    {out : Outgoing} (h : HasSent peer file i c ⟨s, out⟩) (ht : SenderAt file i t)
    (hle : i ≤ chunkCount dataChunkSize file) :
    HasSent peer file i i ⟨t, out ++ [(peer, dataBytes file i)]⟩ := by
  have hdata : getOpcode (dataBytes file i) = .data := by simp [dataBytes]
  refine ⟨ht, Or.inl rfl, hle, fun _ => rfl, ?_⟩
  rw [blocksOnce_append_data hdata, h.sent]
  rcases h.level with rfl | rfl
  · -- a retransmission
    obtain ⟨j, rfl⟩ : ∃ j, c = j + 1 := ⟨c - 1, by have := h.at_next.pos; omega⟩
    rw [if_pos]
    rw [firstPackets_succ, List.map_append, List.map_singleton, List.getLast?_concat]
    rfl
  · rw [if_neg, firstPackets_succ, List.map_append]
    · rfl
    · cases c with
      | zero => simp [firstPackets]
      | succ j =>
        rw [firstPackets_succ, List.map_append, List.map_singleton, List.getLast?_concat]
        simpa [dataBytes] using dataBytes_ne_succ file (j + 1)

theorem hasSent_next {msg : String} {peer : Endpoint} {f : InputFile} {file : List UInt8}
    {h h' : SendHistory} {wake : Wake} (inv : ∃ i c, HasSent peer file i c h) (hf : f.bytes = file)
    (hn : ∀ p, f.readFault p = false) (hs : h.next msg peer f wake = some h') :
    ∃ i c, HasSent peer file i c h' := by
  obtain ⟨⟨t, out⟩, hr, rfl⟩ := Option.map_eq_some_iff.mp hs
  obtain ⟨i, c, inv⟩ := inv
  rcases sendLoop_resume_cases inv.at_next hf (unbroken_of_none hn) hr with
    ⟨ht, rfl⟩ | ⟨ht, hle, rfl⟩ | ⟨ht, stranger, hc, rfl⟩ | ⟨ht, _, rfl, bytes, rfl, _⟩
  · refine ⟨i, c, ht, inv.level, inv.le, fun hoffers => inv.offers ?_, ?_⟩
    · exact (sendLoop_offers hr hoffers).resolve_right (by simp)
    · simpa using inv.sent
  · exact ⟨i, i, inv.send ht hle⟩
  · refine ⟨i, c, ht, inv.level, inv.le, fun _ => inv.offers (Or.inr ⟨stranger, hc⟩), ?_⟩
    rw [blocksOnce_append_unknownTransfer]
    exact inv.sent
  · have hci := inv.offers (Or.inl (sendLoop_datagram_receiving hr))
    have hnew : t.dataPacket.block ≠ h.loop.dataPacket.block := by
      rw [ht.block, inv.at_next.block, UInt16.ofNat_add]
      exact uint16_succ_ne _
    obtain ⟨_, _, rfl⟩ := (sendLoop_resume_block hr).resolve_left hnew
    refine ⟨i + 1, c, ht, Or.inr (by omega), inv.le,
      fun hoffers => absurd hoffers (sendLoop_head_not_offers _), ?_⟩
    simpa using inv.sent

theorem firstPackets_segmentation {file : List UInt8} (hne : file ≠ []) :
    Segmentation file (firstPackets file (chunkCount dataChunkSize file)) := by
  obtain ⟨n, hn⟩ : ∃ n, chunkCount dataChunkSize file = n + 1 := by
    simp [chunkCount, hne]
  refine ⟨fun k p hk => ?_, fun p hp => ?_, ?_, ?_⟩
  · simp only [firstPackets, List.getElem?_map, Option.map_eq_some_iff] at hk
    obtain ⟨j, hj, rfl⟩ := hk
    have hlt := (List.getElem?_eq_some_iff.mp hj).1
    rw [List.length_range] at hlt
    rw [List.getElem?_range hlt] at hj
    cases hj
    exact ⟨rfl, rfl⟩
  · rw [hn, firstPackets_succ, List.dropLast_concat, firstPackets, List.mem_map] at hp
    obtain ⟨k, hk, rfl⟩ := hp
    rw [List.mem_range] at hk
    have hlong : ¬ (chunk dataChunkSize file (k + 1)).length < dataChunkSize :=
      mt (chunk_length_lt_iff (by omega) (by omega)).mp (by omega)
    have hle := chunk_length dataChunkSize file (k + 1)
    dsimp only
    omega
  · rw [hn, firstPackets_succ, List.getLast?_concat]
    refine ⟨_, rfl, ?_⟩
    exact (chunk_length_lt_iff (by omega) (by omega)).mpr hn.symm
  · have hall := length_le_of_chunkCount_le (by simp [dataChunkSize]) (Nat.le_refl
      (chunkCount dataChunkSize file))
    rw [firstPackets, List.map_map]
    exact (chunks_flatten _ _ _).trans (List.take_of_length_le hall)

theorem sendHistory_start_empty :
    (SendHistory.start ⟨[], fun _ => false⟩).loop.control = .finished none := by
  have ready : SenderReady [] 1 _ (SendLoop.start ⟨[], fun _ => false⟩ {}) :=
    senderReady_start rfl fun _ => rfl
  exact ready.control_eq

theorem not_segments_nothing (peer : Endpoint) (file : List UInt8) : ¬ Segments peer file [] := by
  rintro ⟨packets, _, hcount, hsent⟩
  have hnil := List.map_eq_nil_iff.mp hsent.symm
  rw [hnil] at hcount
  cases hcount

/-- Every send loop that has run to success has segmented its file, exactly if there is something
in the file: an empty one is sent without the short block that the receivers wait for. -/
theorem segments_iff (file : List UInt8) :
    (∀ msg peer wakes h, List.foldlM (SendHistory.next msg peer ⟨file, fun _ => false⟩)
      (.start ⟨file, fun _ => false⟩) wakes = some h → h.loop.control = .finished none →
      Segments peer file h.out) ↔ file ≠ [] := by
  constructor
  · rintro h rfl
    exact not_segments_nothing _ _ (h "" ⟨0, 0⟩ [] _ rfl sendHistory_start_empty)
  · intro hne msg peer wakes h run hc
    obtain ⟨i, c, inv⟩ := foldlM_invariant (P := fun h => ∃ i c, HasSent peer file i c h) run
      ⟨1, 0, hasSent_start rfl fun _ => rfl⟩ fun _ _ _ hinv => hasSent_next hinv rfl fun _ => rfl
    have hend := inv.at_next.succeeded hc
    have hcount : c = chunkCount dataChunkSize file := by
      have := inv.level
      have := inv.le
      omega
    have seg := firstPackets_segmentation hne
    refine ⟨_, seg, seg.count, ?_⟩
    rw [inv.sent, hcount]

/-- An empty file is sent with success and without a datagram. -/
theorem empty_file_not_sent : ∃ h,
    List.foldlM (SendHistory.next "Unknown transfer ID" ⟨1, 5000⟩ ⟨[], fun _ => false⟩)
      (.start ⟨[], fun _ => false⟩) [] = some h ∧ h.loop.control = .finished none ∧
    h.out = [] ∧ ¬ Segments ⟨1, 5000⟩ [] h.out :=
  ⟨_, rfl, sendHistory_start_empty, rfl, not_segments_nothing _ _⟩

end Protocols
