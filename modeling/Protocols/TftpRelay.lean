import Protocols.TftpRefinement
import Protocols.TftpServing
import Mathlib.Data.List.GetD

namespace Protocols

open Relation

/-- The transfer of the blocks a send loop has read so far; more of them may follow. -/
def relay (blocks : List (List UInt8)) : StopAndWait (List UInt8) where
  modulus := 65536
  firstConfirmed := 0
  total := blocks.length
  block j := blocks.getD (j - 1) []

/-- A send loop and the receive loop at its other end: the blocks that the sender has read, of a
file that may grow meanwhile, and where the two are with them. -/
structure Link where
  blocks : List (List UInt8)
  state : StopAndWaitState (List UInt8)

def Link.init : Link := ⟨[], .init⟩

structure LinkInv (l : Link) : Prop where
  inv : StopAndWaitInv (relay l.blocks) l.state
  small : ∀ block ∈ l.blocks, block.length ≤ dataChunkSize

theorem link_init_inv : LinkInv .init :=
  ⟨stopAndWait_init_inv (by simp [relay]), by simp [Link.init]⟩

def relayedBytes (blocks : List (List UInt8)) (j : Nat) : List UInt8 :=
  DataPacket.toBuffer { block := UInt16.ofNat j, data := (relay blocks).block j }

/-- The bytes are a DATA packet that the sender has sent. -/
def Link.Offers (l : Link) (bytes : List UInt8) : Prop :=
  ∃ j ∈ l.state.offered, bytes = relayedBytes l.blocks j

/-- The bytes are an ACK packet that the receiver has sent. -/
def Link.Confirms (l : Link) (bytes : List UInt8) : Prop :=
  ∃ b ∈ l.state.confirmed, bytes = ackBytes b

/-- What one end learns when the other one moves on. -/
structure Link.Grows (l l' : Link) : Prop where
  blocks : l.blocks <+: l'.blocks
  offered : ∀ j ∈ l.state.offered, j ∈ l'.state.offered
  confirmed : ∀ b ∈ l.state.confirmed, b ∈ l'.state.confirmed

theorem Link.Grows.refl (l : Link) : l.Grows l :=
  ⟨List.prefix_refl _, fun _ h => h, fun _ h => h⟩

theorem relay_block_append {blocks : List (List UInt8)} (more : List (List UInt8)) {j : Nat}
    (h1 : 1 ≤ j) (hj : j ≤ blocks.length) :
    (relay (blocks ++ more)).block j = (relay blocks).block j := by
  simp only [relay]
  exact List.getD_append _ _ _ _ (by omega)

theorem Link.Offers.mono {l l' : Link} {bytes : List UInt8} (inv : LinkInv l) (h : l.Grows l')
    (ho : l.Offers bytes) : l'.Offers bytes := by
  obtain ⟨j, hj, rfl⟩ := ho
  obtain ⟨more, hmore⟩ := h.blocks
  obtain ⟨h1, _, h3⟩ := inv.inv.offered_le j hj
  refine ⟨j, h.offered j hj, ?_⟩
  rw [relayedBytes, relayedBytes, ← hmore, relay_block_append more h1 h3]

theorem Link.Confirms.mono {l l' : Link} {bytes : List UInt8} (h : l.Grows l')
    (hc : l.Confirms bytes) : l'.Confirms bytes := by
  obtain ⟨b, hb, rfl⟩ := hc
  exact ⟨b, h.confirmed b hb, rfl⟩

theorem LinkInv.received_begins {l : Link} (h : LinkInv l) : l.state.received <+: l.blocks := by
  rw [h.inv.received_eq]
  have hle : l.state.received.length ≤ l.blocks.length := h.inv.count_le
  generalize l.state.received.length = c at hle
  have htake : ((List.range c).map fun k => (relay l.blocks).block (k + 1)) = l.blocks.take c := by
    apply List.ext_getElem (by simp [hle])
    intro i hi _
    simp only [List.length_map, List.length_range] at hi
    have hi' : i < l.blocks.length := by omega
    simp [relay, hi']
  rw [htake]
  exact List.take_prefix _ _

theorem linkInv_flatten {l : Link} (inv : LinkInv l) :
    l.state.received.flatten <+: l.blocks.flatten := by
  obtain ⟨rest, hrest⟩ := inv.received_begins
  rw [← hrest, List.flatten_append]
  exact List.prefix_append _ _

theorem receivePacket_relayedBytes {l : Link} (h : LinkInv l) (j : Nat) :
    receivePacket (relayedBytes l.blocks j) = relayedBytes l.blocks j := by
  apply List.take_of_length_le
  have hsmall : ((relay l.blocks).block j).length ≤ dataChunkSize := by
    simp only [relay, List.getD_eq_getElem?_getD]
    cases hb : l.blocks[j - 1]? with
    | none => simp
    | some block => exact h.small block (List.mem_of_getElem? hb)
  rw [relayedBytes, data_toBuffer_length]
  simp only [maxReceiveSize, dataChunkSize] at hsmall ⊢
  omega

/-- One of the blocks is not full. -/
def Short (blocks : List (List UInt8)) : Prop := ∃ block ∈ blocks, block.length < dataChunkSize

/-- What has been read of a file, which may grow meanwhile: full blocks as long as the stream is
good, then one that is not full, then nothing. -/
structure ReadBlocks (file : List UInt8) (blocks : List (List UInt8)) (stream : IfStream) :
    Prop where
  within : stream.position ≤ file.length
  flatten : blocks.flatten = file.take stream.position
  short : stream.good = false ↔ Short blocks
  rest : blocks.Pairwise fun block later => block.length < dataChunkSize → later = []

theorem readBlocks_nil (file : List UInt8) : ReadBlocks file [] {} :=
  ⟨Nat.zero_le _, by simp, by simp [Short, IfStream.good], .nil⟩

theorem ReadBlocks.grow {file file' : List UInt8} {blocks : List (List UInt8)} {stream : IfStream}
    (h : ReadBlocks file blocks stream) (hp : file <+: file') : ReadBlocks file' blocks stream := by
  obtain ⟨rest, rfl⟩ := hp
  refine { h with within := ?_, flatten := ?_ }
  · have := h.within
    rw [List.length_append]
    omega
  · rw [List.take_append_of_le_length h.within]
    exact h.flatten

theorem ReadBlocks.begins {file : List UInt8} {blocks : List (List UInt8)} {stream : IfStream}
    (h : ReadBlocks file blocks stream) : blocks.flatten <+: file := by
  rw [h.flatten]
  exact List.take_prefix _ _

theorem short_append {blocks : List (List UInt8)} {block : List UInt8} :
    Short (blocks ++ [block]) ↔ Short blocks ∨ block.length < dataChunkSize := by
  simp [Short, or_and_right, exists_or]

theorem read_length_le (f : InputFile) (stream : IfStream) (n : Nat) :
    (stream.read f n).1.length ≤ n := by
  unfold IfStream.read
  split
  next =>
    split
    next => exact Nat.zero_le _
    next => exact List.length_take_le _ _
  next => exact Nat.zero_le _

/-- The next read of a whole block, or of anything once the stream is not good any more. -/
theorem ReadBlocks.next {f : InputFile} {blocks : List (List UInt8)} {stream : IfStream} {n : Nat}
    (h : ReadBlocks f.bytes blocks stream) (hn : stream.good = true → n = dataChunkSize) :
    ReadBlocks f.bytes (blocks ++ [(stream.read f n).1]) (stream.read f n).2 := by
  obtain ⟨hpos, hle, hgot, _⟩ := read_goes_on (f := f) (s := stream) n h.within
  have hflatten : (blocks ++ [(stream.read f n).1]).flatten =
      f.bytes.take (stream.read f n).2.position := by
    rw [List.flatten_append, h.flatten, List.flatten_singleton]
    have htake : f.bytes.take stream.position =
        (f.bytes.take (stream.read f n).2.position).take stream.position := by
      rw [List.take_take, Nat.min_eq_left (by omega)]
    rw [htake]
    conv_lhs => rw [hgot]
    exact List.take_append_drop _ _
  by_cases hg : stream.good = true
  · have hfull : ¬ Short blocks := by
      rw [← h.short, hg]
      simp
    refine ⟨hle, hflatten, ?_, ?_⟩
    · have hlt : (stream.read f n).2.good = false ↔ (stream.read f n).1.length < n := by
        have hpos : 0 < n := by rw [hn hg]; simp [dataChunkSize]
        have hparts : stream.eof = false ∧ stream.fail = false ∧ stream.bad = false := by
          simpa [IfStream.good, and_assoc] using hg
        unfold IfStream.read
        rw [if_pos hg]
        split
        next => exact iff_of_true (by simp [IfStream.good]) hpos
        next => simp [IfStream.good, hparts]
      rw [short_append, hlt, hn hg]
      simp [hfull]
    · rw [List.pairwise_append]
      refine ⟨h.rest, List.pairwise_singleton _ _, fun b hb c _ hlt => ?_⟩
      exact absurd ⟨b, hb, hlt⟩ hfull
  · have hbad : stream.good = false := by simpa using hg
    have hnil : (stream.read f n).1 = [] := by simp [read_not_good hbad]
    have hstill : (stream.read f n).2.good = false := by
      rw [read_not_good hbad]
      simp [IfStream.good]
    refine ⟨hle, hflatten, iff_of_true hstill (short_append.mpr (Or.inl (h.short.mp hbad))), ?_⟩
    rw [List.pairwise_append]
    refine ⟨h.rest, List.pairwise_singleton _ _, fun b _ c hc _ => ?_⟩
    rw [List.mem_singleton.mp hc, hnil]

/-- Where reading does not fail, a block that is not full is the end of the file. -/
theorem ReadBlocks.whole {f : InputFile} {blocks : List (List UInt8)} {stream : IfStream} {n : Nat}
    (h : ReadBlocks f.bytes blocks stream) (hn : stream.good = true → n = dataChunkSize)
    (hf : ∀ p, f.readFault p = false) (hall : Short blocks → blocks.flatten = f.bytes)
    (hs : Short (blocks ++ [(stream.read f n).1])) :
    (blocks ++ [(stream.read f n).1]).flatten = f.bytes := by
  by_cases hg : stream.good = true
  · have hnext := h.next (f := f) hn
    rw [hnext.flatten]
    apply List.take_of_length_le
    have hend := hnext.short.mpr hs
    rw [read_good hg (hf _)] at hend ⊢
    have hparts : stream.eof = false ∧ stream.fail = false ∧ stream.bad = false := by
      simpa [IfStream.good, and_assoc] using hg
    simp [IfStream.good, hparts] at hend
    simp only [List.length_take, List.length_drop]
    omega
  · have hbad : stream.good = false := by simpa using hg
    rw [read_not_good hbad, List.flatten_append, hall (h.short.mp hbad)]
    simp

/-- The counters of a send loop that has read the blocks, the last of which is the current one. -/
structure SendsCore (file : List UInt8) (blocks : List (List UInt8)) (s : SendLoop) : Prop where
  op : s.dataPacket.op = .data
  block : s.dataPacket.block = UInt16.ofNat blocks.length
  current : blocks.getLast? = some (s.dataPacket.data.take s.fileBytesRead)
  read : ReadBlocks file blocks s.fileStream
  room : s.dataPacket.data.length ≤ dataChunkSize

structure SendsFrom (file : List UInt8) (blocks : List (List UInt8)) (s : SendLoop) : Prop
    extends SendsCore file blocks s where
  running : (∀ e, s.control ≠ .finished e) →
    s.dataPacket.data = s.dataPacket.data.take s.fileBytesRead
  ended : s.control = .finished none → s.fileStream.eof = true ∧ blocks.getLast? = some []

theorem SendsFrom.grow {file file' : List UInt8} {blocks : List (List UInt8)} {s : SendLoop}
    (h : SendsFrom file blocks s) (hp : file <+: file') : SendsFrom file' blocks s :=
  { h with read := h.read.grow hp }

theorem SendsCore.loopHead {file : List UInt8} {blocks : List (List UInt8)} {s : SendLoop}
    (h : SendsCore file blocks s) : SendsFrom file blocks s.loopHead := by
  unfold SendLoop.loopHead
  split
  next =>
    split
    next => exact ⟨{ h with }, fun hc => absurd rfl (hc _), by simp⟩
    next =>
      refine ⟨{ h with current := ?_, room := ?_ }, fun _ => ?_, by simp⟩
      · simp only [List.take_take, Nat.min_self]
        exact h.current
      · exact (List.length_take_le' _ _).trans h.room
      · simp only [List.take_take, Nat.min_self]
  next hc =>
    simp only [not_or, Nat.not_lt, Nat.le_zero_eq] at hc
    split
    next => exact ⟨{ h with }, fun hr => absurd rfl (hr _), by simp⟩
    next he =>
      refine ⟨{ h with }, fun hr => absurd rfl (hr _), fun _ => ⟨by simpa using he, ?_⟩⟩
      rw [h.current, hc.1]
      rfl

theorem SendsFrom.withControl {file : List UInt8} {blocks : List (List UInt8)} {s : SendLoop}
    (h : SendsFrom file blocks s) (hr : ∀ e, s.control ≠ .finished e) {c : LoopControl}
    (hc : c ≠ .finished none) (w : Bool) :
    SendsFrom file blocks { s with control := c, watchdogExpired := w } :=
  ⟨{ h.toSendsCore with }, fun _ => h.running hr, fun he => absurd he hc⟩

/-- As long as the stream is good the loop reads whole blocks. -/
theorem SendsFrom.asks {file : List UInt8} {blocks : List (List UInt8)} {s : SendLoop}
    (h : SendsFrom file blocks s) (hr : ∀ e, s.control ≠ .finished e)
    (hg : s.fileStream.good = true) : s.dataPacket.data.length = dataChunkSize := by
  have hlast := List.mem_of_getLast? h.current
  rw [← h.running hr] at hlast
  refine Nat.le_antisymm h.room (Nat.le_of_not_lt fun hlt => ?_)
  have := h.read.short.mpr ⟨_, hlast, hlt⟩
  rw [hg] at this
  cases this

/-- The file may be read without an error, and where a block is not full all has been read. -/
def ReadsWhole (f : InputFile) (blocks : List (List UInt8)) : Prop :=
  (∀ p, f.readFault p = false) ∧ (Short blocks → blocks.flatten = f.bytes)

/-- The loop reads one more block, and goes on with it. -/
theorem sends_fileReader {f : InputFile} {blocks : List (List UInt8)} {s : SendLoop}
    {stream : IfStream} {data : List UInt8} (hread : ReadBlocks f.bytes blocks stream)
    (hn : stream.good = true → data.length = dataChunkSize) (hroom : data.length ≤ dataChunkSize)
    (hop : s.dataPacket.op = .data) (hblock : s.dataPacket.block = UInt16.ofNat (blocks.length + 1))
    (hdata : s.dataPacket.data = (fileReader f stream data).1)
    (hbytes : s.fileBytesRead = (fileReader f stream data).2.1)
    (hstream : s.fileStream = (fileReader f stream data).2.2) :
    ∃ block, block.length ≤ dataChunkSize ∧ SendsFrom f.bytes (blocks ++ [block]) s.loopHead ∧
      ComesToEnd f stream s.loopHead.fileStream ∧
      (ReadsWhole f blocks → ReadsWhole f (blocks ++ [block])) := by
  have hle := read_length_le f stream data.length
  simp only [fileReader] at hdata hbytes hstream
  refine ⟨(stream.read f data.length).1, hle.trans hroom, SendsCore.loopHead ?_, ?_, ?_⟩
  · refine ⟨hop, by rw [hblock, List.length_append]; rfl, ?_, ?_, ?_⟩
    · rw [List.getLast?_concat, hdata, hbytes, List.take_left]
    · rw [hstream]
      exact hread.next hn
    · rw [hdata, List.length_append, List.length_drop]
      omega
  · rw [sendLoop_head_fileStream, hstream]
    exact (read_goes_on data.length hread.within).2.2.2
  · exact fun hw => ⟨hw.1, hread.whole hn hw.1 hw.2⟩

/-- A send loop stands at the last block of the link. -/
structure SenderOn (file : List UInt8) (l : Link) (s : SendLoop) : Prop where
  sends : SendsFrom file l.blocks s
  next : l.state.next = l.blocks.length

/-- The sender moves on: the receiver stays where it is. -/
structure Link.SenderMoves (l l' : Link) : Prop extends l.Grows l' where
  inv : LinkInv l'
  received : l'.state.received = l.state.received
  confirmed_same : l'.state.confirmed = l.state.confirmed

/-- The receiver moves on: the sender stays where it is. -/
structure Link.ReceiverMoves (l l' : Link) : Prop extends l.Grows l' where
  inv : LinkInv l'
  unread : l'.blocks = l.blocks
  next : l'.state.next = l.state.next

theorem linkInv_read {l : Link} {block : List UInt8} {state : StopAndWaitState (List UInt8)}
    (hl : ∀ b ∈ l.blocks, b.length ≤ dataChunkSize) (hb : block.length ≤ dataChunkSize)
    (inv : StopAndWaitInv (relay l.blocks) state) : LinkInv ⟨l.blocks ++ [block], state⟩ := by
  refine ⟨inv.extend rfl rfl (by simp [relay]) fun j h1 hj => relay_block_append _ h1 hj, ?_⟩
  intro b hmem
  rcases List.mem_append.mp hmem with hmem | hmem
  · exact hl b hmem
  · rw [List.mem_singleton.mp hmem]
    exact hb

/-- The loop starts with the first block of the file. -/
theorem link_starts {l : Link} (inv : LinkInv l) (f : InputFile) (hnone : l.blocks = []) :
    ∃ l', l.SenderMoves l' ∧ SenderOn f.bytes l' (SendLoop.start f {}) ∧
      ComesToEnd f {} (SendLoop.start f {}).fileStream ∧
      (ReadsWhole f l.blocks → ReadsWhole f l'.blocks) := by
  obtain ⟨block, hsmall, hsends, hend, hwhole⟩ := @sends_fileReader f []
    { dataPacket := { data := (fileReader f {} (List.replicate dataChunkSize 0)).1 }
      fileBytesRead := (fileReader f {} (List.replicate dataChunkSize 0)).2.1
      lastDataSize := 0
      fileStream := (fileReader f {} (List.replicate dataChunkSize 0)).2.2
      watchdogExpired := false
      control := .sending }
    {} (List.replicate dataChunkSize 0) (readBlocks_nil _) (fun _ => List.length_replicate)
    (by simp) rfl rfl rfl rfl rfl
  have hnext : l.state.next = 1 := by
    have h1 := inv.inv.next_pos
    have h2 := inv.inv.next_le
    simp only [relay, hnone, List.length_nil] at h2
    omega
  refine ⟨⟨l.blocks ++ [block], l.state⟩, ⟨⟨List.prefix_append _ _, fun _ h => h, fun _ h => h⟩,
    linkInv_read inv.small hsmall inv.inv, rfl, rfl⟩, ?_, hend, ?_⟩
  · rw [hnone, List.nil_append]
    exact ⟨hsends, hnext⟩
  · rw [hnone]
    exact hwhole

/-- A resumption of a send loop, as long as every acknowledgement it hears from its peer was
given: it offers its block, reads the next one, or stays. -/
theorem link_sends {l : Link} {f : InputFile} {s t : SendLoop} {msg : String} {peer : Endpoint}
    {wake : Wake} {out : Outgoing} (inv : LinkInv l) (h : SenderOn f.bytes l s)
    (heard : ∀ bytes, wake = .datagram peer bytes → getOpcode bytes = .ack → l.Confirms bytes)
    (hs : sendLoopResume msg peer f s wake = some (t, out)) :
    ∃ l', l.SenderMoves l' ∧ SenderOn f.bytes l' t ∧ ComesToEnd f s.fileStream t.fileStream ∧
      (ReadsWhole f l.blocks → ReadsWhole f l'.blocks) ∧
      ∀ q ∈ out, (q.1 = peer ∧ l'.Offers q.2) ∨ getOpcode q.2 = .error := by
  obtain ⟨hsends, hnext⟩ := h
  have stay : l.SenderMoves l := ⟨Link.Grows.refl l, inv, rfl, rfl⟩
  have again : SenderOn f.bytes l s.loopHead := ⟨hsends.toSendsCore.loopHead, hnext⟩
  have head : ComesToEnd f s.fileStream s.loopHead.fileStream := by
    rw [sendLoop_head_fileStream]
    exact comesToEnd_refl _ _
  cases sendLoopResume_step hs with
  | expired hrun =>
    exact ⟨l, stay, ⟨hsends.withControl hrun (hrun _) _, hnext⟩, comesToEnd_refl _ _, id, by simp⟩
  | sent hc =>
    have hrun : ∀ e, s.control ≠ .finished e := by simp [hc]
    refine ⟨⟨l.blocks, { l.state with offered := l.state.next :: l.state.offered }⟩,
      ⟨⟨List.prefix_refl _, fun j hj => List.mem_cons_of_mem _ hj, fun _ hb => hb⟩,
        ⟨stopAndWait_step_inv inv.inv (.offer hnext.le), inv.small⟩, rfl, rfl⟩,
      ⟨hsends.withControl hrun (by simp) _, hnext⟩, comesToEnd_refl _ _, id,
      fun q hq => Or.inl ?_⟩
    rw [List.mem_singleton.mp hq]
    refine ⟨rfl, l.state.next, List.mem_cons_self, ?_⟩
    have hdata : (relay l.blocks).block l.state.next = s.dataPacket.data := by
      have hlast := hsends.current
      rw [← hsends.running hrun, List.getLast?_eq_getElem?] at hlast
      simp [relay, hnext, hlast]
    rw [relayedBytes, hdata, hnext, ← hsends.block, ← hsends.op]
  | unsent =>
    exact ⟨l, stay, ⟨⟨{ hsends.toSendsCore with }, fun hr => absurd rfl (hr _), by simp⟩, hnext⟩,
      comesToEnd_refl _ _, id, by simp⟩
  | unheard => exact ⟨l, stay, again, head, id, by simp⟩
  | stranger _ _ hc =>
    exact ⟨l, stay, ⟨hsends.withControl (by simp [hc]) (by simp) _, hnext⟩, comesToEnd_refl _ _, id,
      by simp⟩
  | ignored => exact ⟨l, stay, again, head, id, by simp⟩
  | acknowledged bytes hc hw hop hblock =>
    have hrun : ∀ e, s.control ≠ .finished e := by simp [hc]
    rw [getOpcode_receivePacket] at hop
    obtain ⟨b, hb, rfl⟩ := heard bytes hw hop
    have hmod : b % 65536 = l.state.next % 65536 := by
      rw [receivePacket_ackBytes, hsends.block, ← hnext] at hblock
      simpa [ackBytes, UInt16.toNat_ofNat'] using congrArg UInt16.toNat hblock
    obtain ⟨block, hsmall, hnew, hend, hwhole⟩ := @sends_fileReader f l.blocks
      { s with
        lastDataSize := s.fileBytesRead
        fileBytesRead := (fileReader f s.fileStream s.dataPacket.data).2.1
        fileStream := (fileReader f s.fileStream s.dataPacket.data).2.2
        dataPacket := { s.dataPacket with
          data := (fileReader f s.fileStream s.dataPacket.data).1
          block := s.dataPacket.block + 1 } }
      s.fileStream s.dataPacket.data hsends.read (hsends.asks hrun) hsends.room hsends.op
      (by simp [hsends.block, UInt16.ofNat_add]) rfl rfl rfl
    have hinv := linkInv_read inv.small hsmall
      (stopAndWait_step_inv inv.inv (.advance hnext.le hb hmod))
    exact ⟨⟨l.blocks ++ [block], { l.state with next := l.state.next + 1 }⟩,
      ⟨⟨List.prefix_append _ _, fun _ h => h, fun _ h => h⟩, hinv, rfl, rfl⟩,
      ⟨hnew, by simp [hnext]⟩, hend, hwhole, by simp⟩
  | answered stranger =>
    refine ⟨l, stay, again, head, id, fun q hq => Or.inr ?_⟩
    rw [List.mem_singleton.mp hq]
    simp [unknownTransfer]
  | unanswered => exact ⟨l, stay, again, head, id, by simp⟩

/-- The block after the last one the receiver has is the one it takes, however old the datagram
is. -/
theorem link_accepts {l : Link} {bytes : List UInt8} (inv : LinkInv l) (ho : l.Offers bytes)
    (hn : (getBlockNumber (receivePacket bytes)).toNat = l.state.received.length + 1) :
    ∃ block, getData (receivePacket bytes) = block ∧ l.state.received.length + 1 < 65536 ∧
      l.ReceiverMoves ⟨l.blocks, { l.state with received := l.state.received ++ [block] }⟩ := by
  obtain ⟨j, hj, rfl⟩ := ho
  rw [receivePacket_relayedBytes inv] at hn ⊢
  have hmod : j % 65536 = l.state.received.length + 1 := by
    rw [← hn]
    simp [relayedBytes, UInt16.toNat_ofNat']
  obtain ⟨hje, _, hlt⟩ := stopAndWait_accepted_eq inv.inv hj hmod
  refine ⟨(relay l.blocks).block j, by simp [relayedBytes], by rw [← hje]; exact hlt,
    ⟨⟨List.prefix_refl _, fun _ h => h, fun _ h => h⟩,
      ⟨stopAndWait_step_inv inv.inv (.accept hj hmod), inv.small⟩, rfl, rfl⟩⟩

/-- The memory takes a block for the last one only if one was not full. -/
def ReceiveMemory.Recalls {μ : Type} (mem : ReceiveMemory μ) : Prop :=
  ∀ m size, mem.complete (mem.note m size) = true → mem.complete m = true ∨ size < dataChunkSize

theorem serverMemory_recalls : serverMemory.Recalls := by
  intro m size h
  simpa [serverMemory] using h

theorem clientMemory_recalls : clientMemory.Recalls := by
  intro m size h
  exact Or.inr (by simpa [clientMemory] using h)

/-- A receive loop has what the receiver of the link has received. -/
structure ReceiverOn {μ : Type} (mem : ReceiveMemory μ) (l : Link) (s : ReceiveLoop μ) : Prop
    extends ReceiverAt s l.state where
  complete : mem.complete s.memory = true → Short l.state.received
  ended : s.control = .finished none → mem.complete s.memory = true

theorem receiveLoop_head_unended {μ : Type} (s : ReceiveLoop μ) :
    s.loopHead.control ≠ .finished none := by
  unfold ReceiveLoop.loopHead
  split
  next => split <;> simp
  next => simp

theorem receiveLoop_resume_ended {μ : Type} {mem : ReceiveMemory μ} {peer : Endpoint} {disk : Disk}
    {s t : ReceiveLoop μ} {wake : Wake} {out : Outgoing}
    (hs : receiveLoopResume mem peer disk s wake = some (t, out))
    (ht : t.control = .finished none) : mem.complete t.memory = true := by
  cases receiveLoopResume_step hs with
  | expired hrun => exact absurd ht (hrun _)
  | sent => simp at ht
  | unsent => simp at ht
  | ended _ _ hm => exact hm
  | spoiled => simp at ht
  | unheard => exact absurd ht (receiveLoop_head_unended _)
  | stranger => simp at ht
  | ignored => exact absurd ht (receiveLoop_head_unended _)
  | accepted => exact absurd ht (receiveLoop_head_unended _)
  | answered => exact absurd ht (receiveLoop_head_unended _)
  | unanswered => exact absurd ht (receiveLoop_head_unended _)

/-- A resumption of a receive loop, as long as every DATA packet it hears from its peer was
offered: it confirms what it has, takes the next block, or stays. -/
theorem link_receives {μ : Type} {mem : ReceiveMemory μ} {l : Link} {s t : ReceiveLoop μ}
    {peer : Endpoint} {disk : Disk} {wake : Wake} {out : Outgoing} (hm : mem.Recalls)
    (inv : LinkInv l) (h : ReceiverOn mem l s)
    (heard : ∀ bytes, wake = .datagram peer bytes → getOpcode bytes = .data → l.Offers bytes)
    (hs : receiveLoopResume mem peer disk s wake = some (t, out)) :
    ∃ l', l.ReceiverMoves l' ∧ ReceiverOn mem l' t ∧
      ∀ q ∈ out, (q.1 = peer ∧ l'.Confirms q.2) ∨ getOpcode q.2 = .error := by
  have hrun : ∀ e, s.control ≠ .finished e := by
    intro e he
    simp [receiveLoopResume, he] at hs
  have hgood := h.running hrun
  have hended := receiveLoop_resume_ended hs
  rcases receiveLoop_resume_cases hs with ⟨hb, hfs, hmem, hcases⟩ |
    ⟨rfl, _, bytes, hw, hop, hbn, rfl⟩
  · have keeps : ∀ c, ReceiverOn mem ⟨l.blocks, { l.state with confirmed := c }⟩ t := fun c =>
      ⟨⟨by rw [hb]; exact h.count, by rw [hfs]; exact h.contents, fun _ => by rw [hfs]; exact hgood⟩,
        by rw [hmem]; exact h.complete, hended⟩
    have stay : l.ReceiverMoves l := ⟨Link.Grows.refl l, inv, rfl, rfl⟩
    rcases hcases with rfl | ⟨_, _, _, rfl⟩ | ⟨stranger, hc, rfl⟩
    · exact ⟨l, stay, keeps l.state.confirmed, by simp⟩
    · have hinv := stopAndWait_step_inv inv.inv (.confirm (Nat.zero_le _))
      refine ⟨⟨l.blocks,
          { l.state with confirmed := l.state.received.length :: l.state.confirmed }⟩,
        ⟨⟨List.prefix_refl _, fun _ hj => hj, fun b hb => List.mem_cons_of_mem _ hb⟩,
          ⟨hinv, inv.small⟩, rfl, rfl⟩, keeps _, fun q hq => Or.inl ?_⟩
      rw [List.mem_singleton.mp hq]
      exact ⟨rfl, _, List.mem_cons_self, by rw [ackBytes, ← h.count, UInt16.ofNat_toNat]⟩
    · refine ⟨l, stay, keeps l.state.confirmed, fun q hq => Or.inr ?_⟩
      rw [List.mem_singleton.mp hq]
      simp [unknownTransfer]
  · rw [getOpcode_receivePacket] at hop
    rw [h.count] at hbn
    obtain ⟨block, hdata, hlt, hmoves⟩ := link_accepts inv (heard bytes hw hop) hbn
    refine ⟨_, hmoves, ⟨⟨?_, ?_, receiveLoop_head_running⟩, fun hc => ?_, hended⟩, by simp⟩
    · rw [receiveLoop_accept_currentBlock, UInt16.toNat_add, h.count]
      simp only [UInt16.toNat_one, List.length_append, List.length_singleton]
      exact Nat.mod_eq_of_lt hlt
    · rw [receiveLoop_accept_fileStream, write_contents hgood, h.contents, hdata]
      simp
    · simp only [ReceiveLoop.accept, receiveLoop_head_memory, hdata] at hc
      exact short_append.mpr ((hm _ _ hc).imp_left h.complete)

theorem receiverOn_serverStart {l : Link} {stream : OfStream} (hl : l.state.received = [])
    (hc : stream.contents = []) : ReceiverOn serverMemory l (serverReceiveStart stream) := by
  refine ⟨⟨?_, ?_, receiveLoop_head_running⟩, ?_, fun he => absurd he (receiveLoop_head_unended _)⟩
  · simp [serverReceiveStart, hl]
  · simp [serverReceiveStart, hl, hc]
  · simp [serverReceiveStart, serverMemory]

/-- The client's loop starts with the block that answered its request. -/
theorem link_clientStart {l : Link} {stream : OfStream} {bytes : List UInt8} (disk : Disk)
    (inv : LinkInv l) (hl : l.state.received = []) (hc : stream.contents = [])
    (hg : stream.good = true) (ho : l.Offers bytes)
    (hn : getBlockNumber (receivePacket bytes) = 1) :
    ∃ l', l.ReceiverMoves l' ∧
      ReceiverOn clientMemory l' (clientReceiveStart disk stream (receivePacket bytes)) := by
  obtain ⟨block, hdata, _, hmoves⟩ := link_accepts inv ho (by rw [hn, hl]; rfl)
  refine ⟨_, hmoves, ⟨⟨?_, ?_, receiveLoop_head_running⟩, fun hcomplete => ?_,
    fun he => absurd he (receiveLoop_head_unended _)⟩⟩
  · simp [clientReceiveStart, hl]
  · simp [clientReceiveStart, hdata, write_contents hg, hc, hl]
  · simp only [clientReceiveStart, receiveLoop_head_memory, hdata] at hcomplete
    exact short_append.mpr (Or.inr (by simpa [clientMemory] using hcomplete))

/-- A receiver that has got a block that is not full has got all there is. -/
theorem short_received {l : Link} {file : List UInt8} {stream : IfStream} (inv : LinkInv l)
    (h : ReadBlocks file l.blocks stream) (hs : Short l.state.received) :
    l.state.received.flatten = l.blocks.flatten := by
  obtain ⟨more, hmore⟩ := inv.received_begins
  obtain ⟨block, hblock, hlt⟩ := hs
  have hrest := h.rest
  rw [← hmore, List.pairwise_append] at hrest
  have hnil : more.flatten = [] :=
    List.flatten_eq_nil_iff.mpr fun later hl => hrest.2.2 block hblock later hl hlt
  rw [← hmore, List.flatten_append, hnil, List.append_nil]

/-- A sender that has come to its end without its number having wrapped in front of further
content has been understood. -/
theorem ended_received {l : Link} {file : List UInt8} {stream : IfStream} (inv : LinkInv l)
    (h : ReadBlocks file l.blocks stream) (hnext : l.state.next = l.blocks.length)
    (hlast : l.blocks.getLast? = some []) (hlen : l.blocks.flatten.length ≤ 65535 * dataChunkSize) :
    l.state.received.flatten = l.blocks.flatten := by
  obtain ⟨more, hmore⟩ := inv.received_begins
  have hlength : l.blocks.length = l.state.received.length + more.length := by
    rw [← hmore, List.length_append]
  suffices hnil : more.flatten = [] by
    rw [← hmore, List.flatten_append, hnil, List.append_nil]
  rcases Nat.lt_or_ge 65536 l.blocks.length with hw | hw
  · -- the receiver has 65535 blocks: were there more in the others, all these would be full
    have hcount : l.state.received.length + 1 = 65536 := inv.inv.wrapped (by rw [hnext]; exact hw)
    by_cases hs : Short l.state.received
    · obtain ⟨block, hblock, hlt⟩ := hs
      have hrest := h.rest
      rw [← hmore, List.pairwise_append] at hrest
      exact List.flatten_eq_nil_iff.mpr fun later hl => hrest.2.2 block hblock later hl hlt
    · have hfull : l.state.received.map List.length = List.replicate 65535 dataChunkSize := by
        refine List.eq_replicate_iff.mpr ⟨by rw [List.length_map]; omega, fun size hsize => ?_⟩
        obtain ⟨block, hb, rfl⟩ := List.mem_map.mp hsize
        refine Nat.le_antisymm (inv.small block ?_) (Nat.le_of_not_lt fun hlt => hs ⟨block, hb, hlt⟩)
        rw [← hmore]
        exact List.mem_append_left _ hb
      have hsum : l.state.received.flatten.length = 65535 * dataChunkSize := by
        rw [List.length_flatten, hfull, List.sum_replicate_nat]
      rw [← hmore, List.flatten_append, List.length_append, hsum] at hlen
      exact List.eq_nil_of_length_eq_zero (by omega)
  · have hlevel := (inv.inv.level (by rw [hnext]; exact hw)).1
    rw [hnext] at hlevel
    match more, hlength with
    | [], _ => rfl
    | [block], _ =>
      rw [← hmore, List.getLast?_concat, Option.some.injEq] at hlast
      simp [hlast]
    | _ :: _ :: _, hlength =>
      simp only [List.length_cons] at hlength
      omega

end Protocols
