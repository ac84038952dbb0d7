import Protocols.TftpSegmentation
import Protocols.TftpStorage

namespace Protocols

/-- A receive loop and the DATA packets it has accepted. -/
structure ReceiveRecord (μ : Type) where
  loop : ReceiveLoop μ
  packets : List DataPacket

section

variable {μ : Type} {mem : ReceiveMemory μ} {peer : Endpoint}

def ReceiveRecord.next (mem : ReceiveMemory μ) (peer : Endpoint) (r : ReceiveRecord μ)
    (event : Disk × Wake) : Option (ReceiveRecord μ) :=
  (receiveLoopResume mem peer event.1 r.loop event.2).map fun step =>
    ⟨step.1, r.packets ++ r.loop.takes step.1 event.2⟩

/-- The awaited block comes, and it is larger than a block or comes after a short one. -/
def ReceiveRecord.Misled (peer : Endpoint) (r : ReceiveRecord μ) (event : Disk × Wake) : Prop :=
  ∃ bytes, r.loop.hearsNext peer event.2 bytes ∧
    (dataChunkSize < (getData (receivePacket bytes)).length ∨
      ∃ p ∈ r.packets, p.data.length < dataChunkSize)

/-- No packet carries more than a block, and each that has one after it carries exactly that. -/
structure Orderly (packets : List DataPacket) : Prop where
  le : ∀ p ∈ packets, p.data.length ≤ dataChunkSize
  full : packets.Pairwise fun p _ => p.data.length = dataChunkSize

theorem orderly_concat {packets : List DataPacket} {p : DataPacket} :
    Orderly (packets ++ [p]) ↔ Orderly packets ∧
      ¬ (dataChunkSize < p.data.length ∨ ∃ q ∈ packets, q.data.length < dataChunkSize) := by
  constructor
  · intro h
    have hfull := List.pairwise_append.mp h.full
    refine ⟨⟨fun q hq => h.le q (List.mem_append_left _ hq), hfull.1⟩, ?_⟩
    rintro (hlong | ⟨q, hq, hshort⟩)
    · have := h.le p (by simp)
      omega
    · have := hfull.2.2 q hq p (List.mem_singleton_self p)
      omega
  · rintro ⟨h, hp⟩
    simp only [not_or, not_lt, not_exists, not_and] at hp
    refine ⟨fun q hq => ?_, List.pairwise_append.mpr ⟨h.full, List.pairwise_singleton _ _, ?_⟩⟩
    · rcases List.mem_append.mp hq with hq | hq
      · exact h.le q hq
      · rw [List.mem_singleton.mp hq]
        exact hp.1
    · intro q hq _ _
      exact Nat.le_antisymm (h.le q hq) (hp.2 q hq)

/-- In orderly packets a short one is the last. -/
theorem Orderly.short_last {packets : List DataPacket} {p : DataPacket} (h : Orderly packets)
    (hp : p ∈ packets) (hshort : p.data.length < dataChunkSize) : packets.getLast? = some p := by
  obtain ⟨before, after, rfl⟩ := List.append_of_mem hp
  cases after with
  | nil => simp
  | cons q after =>
    have hfull := (List.pairwise_append.mp h.full).2.1
    have := List.rel_of_pairwise_cons hfull (List.mem_cons_self (a := q) (l := after))
    omega

/-- Numbered packets of which one is short segment what they carry if they are orderly. -/
theorem segmentation_iff {packets : List DataPacket}
    (hnum : ∀ k p, packets[k]? = some p → p.op = .data ∧ p.block = UInt16.ofNat (k + 1))
    (hshort : ∃ p ∈ packets, p.data.length < dataChunkSize) :
    Segmentation (payload packets) packets ↔ Orderly packets := by
  constructor
  · intro h
    obtain ⟨p, hlast, hp⟩ := h.short
    obtain ⟨before, rfl⟩ := List.getLast?_eq_some_iff.mp hlast
    have hfull := h.full
    rw [List.dropLast_concat] at hfull
    refine ⟨fun q hq => ?_, List.pairwise_append.mpr ⟨?_, List.pairwise_singleton _ _, ?_⟩⟩
    · rcases List.mem_append.mp hq with hq | hq
      · exact (hfull q hq).le
      · rw [List.mem_singleton.mp hq]
        exact hp.le
    · exact List.pairwise_of_forall_mem_list fun q hq _ _ => hfull q hq
    · exact fun q hq _ _ => hfull q hq
  · intro h
    obtain ⟨p, hp, hps⟩ := hshort
    have hlast := h.short_last hp hps
    refine ⟨hnum, fun q hq => ?_, ⟨p, hlast, hps⟩, rfl⟩
    obtain ⟨before, rfl⟩ := List.getLast?_eq_some_iff.mp hlast
    rw [List.dropLast_concat] at hq
    exact (List.pairwise_append.mp h.full).2.2 q hq p (List.mem_singleton_self p)

/-- A memory that is complete has seen a short block. -/
def ReceiveMemory.SawShort (mem : ReceiveMemory μ) : Prop :=
  ∀ m size, mem.complete (mem.note m size) = true → mem.complete m = true ∨ size < dataChunkSize

/-- What a receive loop has accepted is numbered, and is what it has written. -/
structure Records (mem : ReceiveMemory μ) (r : ReceiveRecord μ) : Prop where
  contents : r.loop.fileStream.good = true → r.loop.fileStream.contents = payload r.packets
  numbered : ∀ k p, r.packets[k]? = some p → p.op = .data ∧ p.block = UInt16.ofNat (k + 1)
  count : r.loop.currentBlock.toNat = r.packets.length
  complete : mem.complete r.loop.memory = true → ∃ p ∈ r.packets, p.data.length < dataChunkSize
  succeeded : r.loop.control = .finished none →
    r.loop.fileStream.good = true ∧ mem.complete r.loop.memory = true

theorem records_accept {r : ReceiveRecord μ} {disk : Disk} {wake : Wake} {bytes : List UInt8}
    (h : Records mem r) (hm : mem.SawShort) (hears : r.loop.hearsNext peer wake bytes) :
    Records mem ⟨r.loop.accept mem disk (getData (receivePacket bytes)),
      r.packets ++ [readPacket (receivePacket bytes)]⟩ where
  contents := by
    rw [receiveLoop_accept_fileStream]
    intro hg
    have hgood := write_was_good hg
    rw [write_contents hgood, h.contents hgood, payload_concat]
    rfl
  numbered k p hk := by
    rw [List.getElem?_append] at hk
    split at hk
    next => exact h.numbered k p hk
    next hlen =>
      obtain ⟨hlt, hp⟩ := List.getElem?_eq_some_iff.mp hk
      rw [List.length_singleton] at hlt
      have hkn : k = r.packets.length := by omega
      subst hkn
      simp only [Nat.sub_self, List.getElem_cons_zero] at hp
      subst hp
      refine ⟨hears.2.2.1, UInt16.toNat_inj.mp ?_⟩
      have hlt' := UInt16.toNat_lt (getBlockNumber (receivePacket bytes))
      rw [hears.2.2.2, h.count] at hlt'
      rw [UInt16.toNat_ofNat_of_lt' hlt', ← h.count]
      exact hears.2.2.2
  count := by
    rw [receiveLoop_accept_currentBlock, hears.count.1, h.count, List.length_append,
      List.length_singleton]
  complete hc := by
    simp only [ReceiveLoop.accept, receiveLoop_head_memory] at hc
    rcases hm _ _ hc with hc | hshort
    · obtain ⟨p, hp, hps⟩ := h.complete hc
      exact ⟨p, List.mem_append_left _ hp, hps⟩
    · exact ⟨_, List.mem_append_right _ (List.mem_singleton.mpr rfl), hshort⟩
  succeeded hc := absurd rfl (receiveLoop_head_ended hc)

theorem records_next {r r' : ReceiveRecord μ} {event : Disk × Wake} (h : Records mem r)
    (hm : mem.SawShort) (hs : r.next mem peer event = some r') :
    Records mem r' ∧ (Orderly r'.packets ↔ Orderly r.packets ∧ ¬ r.Misled peer event) := by
  obtain ⟨⟨t, out⟩, hr, rfl⟩ := Option.map_eq_some_iff.mp hs
  rcases receiveLoop_takes hr with ⟨hnone, hb, hfs, hmem⟩ | ⟨bytes, hears, _, htakes, rfl⟩
  · dsimp only
    rw [hnone, List.append_nil]
    refine ⟨⟨by rw [hfs]; exact h.contents, h.numbered, by rw [hb]; exact h.count,
      by rw [hmem]; exact h.complete, fun ht => ?_⟩, ?_⟩
    · obtain ⟨hcomplete, hgood, _⟩ := receiveLoop_succeeded hr ht
      rw [hfs, hmem]
      exact ⟨hgood, hcomplete⟩
    · refine (and_iff_left ?_).symm
      rintro ⟨bytes, hears, _⟩
      rw [hears.accepted] at hr
      cases hr
      rw [receiveLoop_accept_currentBlock] at hb
      exact uint16_succ_ne _ hb
  · dsimp only
    rw [htakes]
    refine ⟨records_accept h hm hears, orderly_concat.trans (and_congr_right fun _ => not_congr ?_)⟩
    constructor
    · exact fun hbad => ⟨bytes, hears, hbad⟩
    · rintro ⟨bytes', hears', hbad⟩
      have hsame := hears.2.1.symm.trans hears'.2.1
      cases hsame
      exact hbad

/-- In a run that ends well, what has been accepted is a well-formed transfer if nothing has
misled the loop. -/
theorem records_segmentation {r₀ r : ReceiveRecord μ} {events : List (Disk × Wake)}
    (start : Records mem r₀) (hm : mem.SawShort)
    (run : events.foldlM (ReceiveRecord.next mem peer) r₀ = some r)
    (he : r.loop.control = .finished none) :
    Segmentation r.loop.fileStream.contents r.packets ↔
      Orderly r₀.packets ∧ ¬ MeetsEvent (ReceiveRecord.next mem peer)
        (ReceiveRecord.Misled peer) r₀ events := by
  have inv := foldlM_history (P := fun before r => Records mem r ∧ (Orderly r.packets ↔
    Orderly r₀.packets ∧ ¬ MeetsEvent (ReceiveRecord.next mem peer) (ReceiveRecord.Misled peer) r₀
      before)) run ⟨start, (and_iff_left meetsEvent_nil).symm⟩ ?_
  · obtain ⟨hrec, hiff⟩ := inv
    obtain ⟨hgood, hcomplete⟩ := hrec.succeeded he
    rw [hrec.contents hgood, segmentation_iff hrec.numbered (hrec.complete hcomplete), hiff]
  · rintro before u event v _ hrun ⟨hrec, hiff⟩ hs
    obtain ⟨hrec', hnext⟩ := records_next hrec hm hs
    refine ⟨hrec', ?_⟩
    rw [hnext, hiff, meetsEvent_snoc hrun, not_or, and_assoc]

end

theorem serverMemory_sawShort : serverMemory.SawShort := by
  intro m size h
  simpa [serverMemory] using h

theorem clientMemory_sawShort : clientMemory.SawShort := by
  intro _ size h
  exact Or.inr (by simpa [clientMemory] using h)

def serverRecord (stream : OfStream) : ReceiveRecord Bool := ⟨serverReceiveStart stream, []⟩

def clientRecord (disk : Disk) (stream : OfStream) (response : List UInt8) : ReceiveRecord Nat :=
  ⟨clientReceiveStart disk stream response, [readPacket response]⟩

theorem records_serverStart {stream : OfStream} (hc : stream.contents = []) :
    Records serverMemory (serverRecord stream) where
  contents _ := by simpa [serverRecord, serverReceiveStart, payload] using hc
  numbered := by simp [serverRecord]
  count := by simp [serverRecord, serverReceiveStart]
  complete hm := by simp [serverRecord, serverReceiveStart, serverMemory] at hm
  succeeded he := absurd rfl (receiveLoop_head_ended he)

theorem records_clientStart {disk : Disk} {stream : OfStream} {response : List UInt8}
    (hc : stream.contents = []) (hop : getOpcode response = .data)
    (hblock : getBlockNumber response = 1) :
    Records clientMemory (clientRecord disk stream response) where
  contents := by
    simp only [clientRecord, clientReceiveStart, receiveLoop_head_fileStream]
    intro hg
    rw [write_contents (write_was_good hg), hc]
    simp [payload, readPacket]
  numbered k p hk := by
    obtain ⟨hlt, rfl⟩ := List.getElem?_eq_some_iff.mp hk
    simp only [clientRecord, List.length_singleton, Nat.lt_one_iff] at hlt
    subst hlt
    exact ⟨hop, hblock⟩
  count := by simp [clientRecord, clientReceiveStart]
  complete hm := by
    simp only [clientRecord, clientReceiveStart, receiveLoop_head_memory, clientMemory,
      decide_eq_true_eq] at hm
    exact ⟨_, List.mem_singleton.mpr rfl, hm⟩
  succeeded he := absurd rfl (receiveLoop_head_ended he)

theorem orderly_singleton (p : DataPacket) : Orderly [p] ↔ p.data.length ≤ dataChunkSize :=
  ⟨fun h => h.le p (List.mem_singleton_self p),
    fun h => ⟨fun q hq => by rwa [List.mem_singleton.mp hq], List.pairwise_singleton _ _⟩⟩

/-- What a receive loop has accepted when it returns success is a well-formed transfer, exactly if
it has not been misled: by an awaited block that is larger than a block or comes after a short one,
be it the one the client's handshake has taken. -/
theorem accepted_well_formed_iff (peer : Endpoint) (events : List (Disk × Wake)) (stream : OfStream)
    (hc : stream.contents = []) :
    (∀ r, events.foldlM (ReceiveRecord.next serverMemory peer) (serverRecord stream) = some r →
      r.loop.control = .finished none →
      (Segmentation r.loop.fileStream.contents r.packets ↔
        ¬ MeetsEvent (ReceiveRecord.next serverMemory peer) (ReceiveRecord.Misled peer)
          (serverRecord stream) events)) ∧
    ∀ disk response r, getOpcode response = .data → getBlockNumber response = 1 →
      events.foldlM (ReceiveRecord.next clientMemory peer) (clientRecord disk stream response) =
        some r →
      r.loop.control = .finished none →
      (Segmentation r.loop.fileStream.contents r.packets ↔
        (getData response).length ≤ dataChunkSize ∧
        ¬ MeetsEvent (ReceiveRecord.next clientMemory peer) (ReceiveRecord.Misled peer)
          (clientRecord disk stream response) events) := by
  refine ⟨fun r run he => ?_, fun disk response r hop hblock run he => ?_⟩
  · rw [records_segmentation (records_serverStart hc) serverMemory_sawShort run he]
    exact and_iff_right ⟨by simp [serverRecord], List.Pairwise.nil⟩
  · rw [records_segmentation (records_clientStart hc hop hblock) clientMemory_sawShort run he]
    exact and_congr_left' (orderly_singleton _)

/-- The peer sends the blocks, each of them once it is awaited, and falls silent. -/
def blockByBlock (peer : Endpoint) (blocks : List (List UInt8)) : List (Disk × Wake) :=
  untroubled (blocks.flatMap (fun bytes => [.sent none, .datagram peer bytes]) ++
    [.sent none, .timeout])

/-- The server's loop with a file of two blocks, and the client's with the second of them. -/
def twoBlockUpload : Option (ReceiveRecord Bool) :=
  (blockByBlock ⟨1, 5000⟩ [dataBytes twoBlocks 1, dataBytes twoBlocks 2]).foldlM
    (ReceiveRecord.next serverMemory ⟨1, 5000⟩) (serverRecord {})

def twoBlockDownload : Option (ReceiveRecord Nat) :=
  (blockByBlock ⟨1, 5000⟩ [dataBytes twoBlocks 2]).foldlM
    (ReceiveRecord.next clientMemory ⟨1, 5000⟩) (clientRecord {} {} (dataBytes twoBlocks 1))

theorem twoBlockUpload_ends : twoBlockUpload.map (fun r =>
    (r.loop.control, r.loop.fileStream.contents, r.packets)) =
      some (.finished none, twoBlocks, firstPackets twoBlocks 2) := by
  decide +kernel

theorem twoBlockDownload_ends : twoBlockDownload.map (fun r =>
    (r.loop.control, r.loop.fileStream.contents, r.packets)) =
      some (.finished none, twoBlocks, firstPackets twoBlocks 2) := by
  decide +kernel

theorem two_blocks_well_formed :
    ¬ MeetsEvent (ReceiveRecord.next serverMemory ⟨1, 5000⟩) (ReceiveRecord.Misled ⟨1, 5000⟩)
        (serverRecord {}) (blockByBlock ⟨1, 5000⟩ [dataBytes twoBlocks 1, dataBytes twoBlocks 2]) ∧
    ¬ MeetsEvent (ReceiveRecord.next clientMemory ⟨1, 5000⟩) (ReceiveRecord.Misled ⟨1, 5000⟩)
        (clientRecord {} {} (dataBytes twoBlocks 1))
        (blockByBlock ⟨1, 5000⟩ [dataBytes twoBlocks 2]) := by
  have hne : twoBlocks ≠ [] := by decide +kernel
  have hcount : chunkCount dataChunkSize twoBlocks = 2 := by decide +kernel
  have seg := firstPackets_segmentation hne
  rw [hcount] at seg
  obtain ⟨r, hr, hends⟩ := Option.map_eq_some_iff.mp twoBlockUpload_ends
  obtain ⟨r', hr', hends'⟩ := Option.map_eq_some_iff.mp twoBlockDownload_ends
  obtain ⟨he, hcontents, hpackets⟩ : r.loop.control = .finished none ∧
      r.loop.fileStream.contents = twoBlocks ∧ r.packets = firstPackets twoBlocks 2 := by
    simpa using hends
  obtain ⟨he', hcontents', hpackets'⟩ : r'.loop.control = .finished none ∧
      r'.loop.fileStream.contents = twoBlocks ∧ r'.packets = firstPackets twoBlocks 2 := by
    simpa using hends'
  constructor
  · refine ((accepted_well_formed_iff ⟨1, 5000⟩ _ {} rfl).1 r hr he).mp ?_
    rwa [hcontents, hpackets]
  · refine (((accepted_well_formed_iff ⟨1, 5000⟩ _ {} rfl).2 {} (dataBytes twoBlocks 1) r'
      (by decide +kernel) (by decide +kernel) hr' he').mp ?_).2
    rwa [hcontents', hpackets']

/-- A second short block is written after the first one, by either loop. -/
theorem block_after_last_accepted :
    (∃ r, (blockByBlock ⟨1, 5000⟩ [dataBytes [7] 1, DataPacket.toBuffer { block := 2, data := [8] }]).foldlM
        (ReceiveRecord.next serverMemory ⟨1, 5000⟩) (serverRecord {}) = some r ∧
      r.loop.control = .finished none ∧ r.loop.fileStream.contents = [7, 8] ∧
      ¬ Segmentation r.loop.fileStream.contents r.packets) ∧
    ∃ r, (blockByBlock ⟨1, 5000⟩ [DataPacket.toBuffer { block := 2, data := [8] }]).foldlM
        (ReceiveRecord.next clientMemory ⟨1, 5000⟩) (clientRecord {} {} (dataBytes [7] 1)) = some r ∧
      r.loop.control = .finished none ∧ r.loop.fileStream.contents = [7, 8] ∧
      ¬ Segmentation r.loop.fileStream.contents r.packets := by
  have notFull : ∀ file, ¬ Segmentation file [{ data := [7] }, { block := 2, data := [8] }] :=
    fun _ seg => absurd (seg.full _ List.mem_cons_self) (by decide)
  exact ⟨⟨_, rfl, rfl, rfl, notFull _⟩, _, rfl, rfl, rfl, notFull _⟩

end Protocols
