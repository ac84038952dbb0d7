import Protocols.TftpSegmentation
import Protocols.TftpServing

namespace Protocols

/-- The first whole block at whose beginning reading fails. -/
def InputFile.firstFailure (f : InputFile) : Option Nat :=
  (List.range (f.bytes.length / dataChunkSize + 1)).find? fun j => f.readFault (dataChunkSize * j)

/-- What reading the file block by block delivers before it ends or fails. -/
def InputFile.readable (f : InputFile) : List UInt8 :=
  match f.firstFailure with
  | none => f.bytes
  | some j => f.bytes.take (dataChunkSize * j)

/-- A file with nothing but what can be read of this one. -/
def InputFile.sound (f : InputFile) : InputFile := ⟨f.readable, fun _ => false⟩

/-- Two streams that have come equally far, and of which both or neither can go on. -/
structure SameProgress (s t : IfStream) : Prop where
  position : t.position = s.position
  good : t.good = s.good

/-- Up to the first failure a block is delivered as of a file that ends there, and the block at which
reading fails is beyond that end. -/
theorem readable_block {f : InputFile} {j : Nat} (hj : dataChunkSize * j ≤ f.readable.length) :
    (f.readFault (dataChunkSize * j) = false ∧ (f.bytes.drop (dataChunkSize * j)).take dataChunkSize =
      (f.readable.drop (dataChunkSize * j)).take dataChunkSize) ∨
    (f.readFault (dataChunkSize * j) = true ∧ f.readable.length = dataChunkSize * j) := by
  cases hfirst : f.firstFailure with
  | none =>
    have hall : f.readable = f.bytes := by rw [InputFile.readable, hfirst]
    rw [InputFile.firstFailure, List.find?_range_eq_none] at hfirst
    have hlt : j < f.bytes.length / dataChunkSize + 1 := by
      rw [hall] at hj
      simp only [dataChunkSize] at hj ⊢
      omega
    exact Or.inl ⟨by simpa using hfirst j hlt, by rw [hall]⟩
  | some i =>
    have hcut : f.readable = f.bytes.take (dataChunkSize * i) := by
      rw [InputFile.readable, hfirst]
    rw [InputFile.firstFailure, List.find?_range_eq_some] at hfirst
    obtain ⟨hfault, _, hbefore⟩ := hfirst
    have hji : j ≤ i := by
      rw [hcut, List.length_take] at hj
      simp only [dataChunkSize] at hj
      omega
    rcases Nat.lt_or_eq_of_le hji with hlt | rfl
    · have hwide : dataChunkSize ≤ dataChunkSize * i - dataChunkSize * j := by
        simp only [dataChunkSize]
        omega
      exact Or.inl ⟨by simpa using hbefore j hlt,
        by rw [hcut, List.drop_take, List.take_take, Nat.min_eq_left hwide]⟩
    · refine Or.inr ⟨hfault, le_antisymm ?_ hj⟩
      rw [hcut, List.length_take]
      exact Nat.min_le_left _ _

theorem read_sound {f : InputFile} {s t : IfStream} {j : Nat} (h : SameProgress s t)
    (hs : s.good = true) (hp : s.position = dataChunkSize * j)
    (hj : dataChunkSize * j ≤ f.readable.length) :
    (t.read f.sound dataChunkSize).1 = (s.read f dataChunkSize).1 ∧
      SameProgress (s.read f dataChunkSize).2 (t.read f.sound dataChunkSize).2 := by
  have ht := h.good.trans hs
  rw [@read_good f.sound t dataChunkSize ht rfl, h.position, hp]
  simp only [IfStream.good, Bool.and_eq_true, Bool.not_eq_true'] at ht
  rcases readable_block hj with ⟨hnone, hgot⟩ | ⟨hfault, hend⟩
  · rw [read_good hs (by rw [hp]; exact hnone), hp, hgot]
    simp only [IfStream.good, Bool.and_eq_true, Bool.not_eq_true'] at hs
    exact ⟨rfl, rfl, by simp [IfStream.good, InputFile.sound, hs.2, ht.2]⟩
  · -- the read that fails delivers nothing, like one at the end of a file
    have hnil : (f.sound.bytes.drop (dataChunkSize * j)).take dataChunkSize = [] := by
      rw [InputFile.sound, ← hend, List.drop_length, List.take_nil]
    rw [read_fault hs (by rw [hp]; exact hfault), hnil]
    refine ⟨rfl, hp.symm, ?_⟩
    simp [IfStream.good, dataChunkSize]

/-- Two send loops that differ in nothing that decides what they send. -/
structure SameBlocks (s t : SendLoop) : Prop where
  packet : t.dataPacket = s.dataPacket
  read : t.fileBytesRead = s.fileBytesRead
  last : t.lastDataSize = s.lastDataSize
  expired : t.watchdogExpired = s.watchdogExpired
  stream : SameProgress s.fileStream t.fileStream

/-- In addition they are suspended at the same place, or both have ended, be it with different
results. -/
structure Shadows (s t : SendLoop) : Prop extends SameBlocks s t where
  control : t.control = s.control ∨ ∃ e e', s.control = .finished e ∧ t.control = .finished e'

theorem SameBlocks.loopHead {s t : SendLoop} (h : SameBlocks s t) : Shadows s.loopHead t.loopHead := by
  obtain ⟨packet, read, last, stream, expired, control⟩ := s
  obtain ⟨packet', read', last', stream', expired', control'⟩ := t
  obtain ⟨rfl, rfl, rfl, rfl, hstream⟩ := h
  simp only [SendLoop.loopHead]
  split
  next =>
    split
    next => exact ⟨⟨rfl, rfl, rfl, rfl, hstream⟩, Or.inl rfl⟩
    next => exact ⟨⟨rfl, rfl, rfl, rfl, hstream⟩, Or.inl rfl⟩
  next => split <;> split <;> exact ⟨⟨rfl, rfl, rfl, rfl, hstream⟩, Or.inr ⟨_, _, rfl, rfl⟩⟩

theorem SameBlocks.withControl {s t : SendLoop} (h : SameBlocks s t) (c : LoopControl) :
    Shadows { s with control := c } { t with control := c } :=
  ⟨{ h with }, Or.inl rfl⟩

/-- What a file that fails and its readable part have the two loops go on with. -/
theorem shadows_read {f : InputFile} {s t : SendLoop} {i : Nat} (h : SameBlocks s t)
    (ht : SenderAt f.readable i t) (hr : ∀ e, t.control ≠ .finished e) :
    (t.fileStream.read f.sound s.dataPacket.data.length).1 =
        (s.fileStream.read f s.dataPacket.data.length).1 ∧
      SameProgress (s.fileStream.read f s.dataPacket.data.length).2
        (t.fileStream.read f.sound s.dataPacket.data.length).2 := by
  cases hg : s.fileStream.good with
  | false =>
    rw [read_not_good hg, read_not_good (h.stream.good.trans hg)]
    exact ⟨rfl, h.stream.position, by simp [IfStream.good]⟩
  | true =>
    have hgood := h.stream.good.trans hg
    have hfull : dataChunkSize * i ≤ f.readable.length := by
      simpa using ht.stream.good.symm.trans hgood
    have hposition : s.fileStream.position = dataChunkSize * i := by
      rw [← h.stream.position, (ht.stream.running hfull).1]
    have hsize : s.dataPacket.data.length = dataChunkSize := by
      rw [← h.packet, (ht.running hr).2, chunk_length]
      have := ht.pos
      simp only [dataChunkSize] at hfull ⊢
      omega
    rw [hsize]
    exact read_sound h.stream hg hposition hfull

theorem Shadows.acknowledged {f : InputFile} {s t : SendLoop} {i : Nat} (h : SameBlocks s t)
    (ht : SenderAt f.readable i t) (hr : ∀ e, t.control ≠ .finished e) :
    Shadows (s.acknowledged f) (t.acknowledged f.sound) := by
  obtain ⟨hgot, hstream⟩ := shadows_read h ht hr
  simp only [SendLoop.acknowledged, fileReader, h.packet]
  refine SameBlocks.loopHead ⟨?_, ?_, h.read, h.expired, hstream⟩
  · simp only [hgot]
  · simp only [hgot]

theorem shadows_start (f : InputFile) :
    Shadows (SendLoop.start f {}) (SendLoop.start f.sound {}) := by
  obtain ⟨hgot, hstream⟩ := @read_sound f {} {} 0 ⟨rfl, rfl⟩ rfl rfl (Nat.zero_le _)
  simp only [SendLoop.start, fileReader, List.length_replicate]
  refine SameBlocks.loopHead ⟨?_, ?_, rfl, rfl, hstream⟩
  · simp only [hgot]
  · simp only [hgot]

theorem Shadows.received {f : InputFile} {s t : SendLoop} {i : Nat} {peer sender : Endpoint}
    {bytes : List UInt8} (h : SameBlocks s t) (ht : SenderAt f.readable i t)
    (hr : ∀ e, t.control ≠ .finished e) :
    Shadows (s.received peer f sender bytes) (t.received peer f.sound sender bytes) := by
  have hblock : t.dataPacket.block = s.dataPacket.block := by rw [h.packet]
  unfold SendLoop.received
  rw [hblock]
  split
  next => exact h.withControl _
  next =>
    split
    next => exact h.loopHead
    next => exact Shadows.acknowledged h ht hr

/-- Whatever the two loops are resumed with, they send the same. -/
theorem shadows_resume {f : InputFile} {s t : SendLoop} {i : Nat} {msg : String} {peer : Endpoint}
    (wake : Wake) (h : Shadows s t) (ht : SenderAt f.readable i t) :
    Option.Rel (fun x y => y.2 = x.2 ∧ Shadows x.1 y.1) (sendLoopResume msg peer f s wake)
      (sendLoopResume msg peer f.sound t wake) := by
  rcases h.control with hc | ⟨e, e', hs, ht'⟩
  · have expire : Shadows { s with watchdogExpired := true } { t with watchdogExpired := true } :=
      ⟨{ h with expired := rfl }, h.control⟩
    cases hs : s.control with
    | finished e =>
      simp only [sendLoopResume, hc, hs]
      exact .none
    | sending =>
      rw [hs] at hc
      simp only [hs, hc] at expire
      rcases wake with _ | (_ | error) | _ | _ | _ <;> simp only [sendLoopResume, hs, hc]
      · exact .none
      · exact .some ⟨by rw [h.packet], h.withControl _⟩
      · exact .some ⟨rfl, h.withControl _⟩
      · exact .none
      · exact .none
      · exact .some ⟨rfl, expire⟩
    | receiving =>
      rw [hs] at hc
      simp only [hs, hc] at expire
      rcases wake with _ | _ | _ | ⟨sender, bytes⟩ | _ <;> simp only [sendLoopResume, hs, hc]
      · exact .none
      · exact .none
      · exact .some ⟨rfl, h.loopHead⟩
      · exact .some ⟨rfl, Shadows.received h.toSameBlocks ht (by simp [hc])⟩
      · exact .some ⟨rfl, expire⟩
    | rejecting stranger =>
      rw [hs] at hc
      simp only [hs, hc] at expire
      rcases wake with _ | (_ | error) | _ | _ | _ <;> simp only [sendLoopResume, hs, hc]
      · exact .none
      · exact .some ⟨rfl, h.loopHead⟩
      · exact .some ⟨rfl, h.loopHead⟩
      · exact .none
      · exact .none
      · exact .some ⟨rfl, expire⟩
  · simp only [sendLoopResume, hs, ht']
    exact .none

/-- A block that is short is put out only when it completes the file. -/
def EndsOnlyAt (file : List UInt8) (out : Outgoing) : Prop :=
  ∀ sent d, sent ++ [d] <+: out → getOpcode d.2 = .data → (getData d.2).length < dataChunkSize →
    blocksSent (sent ++ [d]) = file

theorem EndsOnlyAt.append {file : List UInt8} {out : Outgoing} {d : Endpoint × List UInt8}
    (h : EndsOnlyAt file out) (hd : getOpcode d.2 = .data → (getData d.2).length < dataChunkSize →
      blocksSent (out ++ [d]) = file) : EndsOnlyAt file (out ++ [d]) := by
  intro sent e hp
  rcases List.prefix_concat_iff.mp hp with he | hp
  · obtain ⟨rfl, hed⟩ := List.append_inj' he rfl
    cases hed
    exact hd
  · exact h sent e hp

/-- The loop of the file and that of its readable part, after the same events. -/
structure ShadowRun (f : InputFile) (h h' : SendHistory) : Prop where
  shadows : Shadows h.loop h'.loop
  at_block : ∃ i, SenderAt f.readable i h'.loop
  out : h'.out = h.out

theorem shadowRun_next {f : InputFile} {h h' : SendHistory} {msg : String} {peer : Endpoint}
    (wake : Wake) (rel : ShadowRun f h h') :
    Option.Rel (ShadowRun f) (h.next msg peer f wake) (h'.next msg peer f.sound wake) := by
  obtain ⟨hsh, ⟨i, hat⟩, hout⟩ := rel
  have hrel : Option.Rel (fun x y => y.2 = x.2 ∧ Shadows x.1 y.1) (sendLoopResume msg peer f h.loop wake)
      (sendLoopResume msg peer f.sound h'.loop wake) := shadows_resume wake hsh hat
  unfold SendHistory.next
  cases hs : sendLoopResume msg peer f h.loop wake with
  | none =>
    rw [hs] at hrel
    cases ht : sendLoopResume msg peer f.sound h'.loop wake with
    | none => exact .none
    | some y => rw [ht] at hrel; cases hrel
  | some x =>
    rw [hs] at hrel
    cases ht : sendLoopResume msg peer f.sound h'.loop wake with
    | none => rw [ht] at hrel; cases hrel
    | some y =>
      rw [ht] at hrel
      cases hrel with
      | some hxy =>
        refine .some ⟨hxy.2, ?_, by simp only [hout, hxy.1]⟩
        rcases sendLoop_resume_cases hat rfl (unbroken_of_none fun _ => rfl) ht with
          ⟨h, _⟩ | ⟨h, _⟩ | ⟨h, _⟩ | ⟨h, _⟩ <;> exact ⟨_, h⟩

theorem shadowRun_start (f : InputFile) : ShadowRun f (.start f) (.start f.sound) := by
  have hsh := shadows_start f
  have hat := @senderAt_start f.readable f.sound rfl rfl
  generalize f.sound = g at hsh hat ⊢
  exact ⟨hsh, ⟨1, hat⟩, rfl⟩

theorem shadowRun_run (f : InputFile) (msg : String) (peer : Endpoint) (wakes : List Wake) :
    Option.Rel (ShadowRun f) (wakes.foldlM (SendHistory.next msg peer f) (.start f))
      (wakes.foldlM (SendHistory.next msg peer f.sound) (.start f.sound)) :=
  foldlM_rel (shadowRun_start f) (fun _ _ wake => shadowRun_next wake) wakes

theorem serve_block {served : Option UInt16 × List UInt8} {d : Endpoint × List UInt8}
    (h : getOpcode d.2 = .data) : (serve served d).1 = some (getBlockNumber d.2) := by
  unfold serve
  rw [if_pos h]
  split
  next hs => exact hs
  next => rfl

/-- A loop that reads without failing ends nowhere but at the end of its file. -/
structure EndsWell (file : List UInt8) (i : Nat) (h : SendHistory) : Prop where
  at_block : SenderAt file i h.loop
  serves : Serves file h.loop (h.out.foldl serve (none, []))
  ends : EndsOnlyAt file h.out

theorem endsWell_start {f : InputFile} (hn : ∀ p, f.readFault p = false) :
    EndsWell f.bytes 1 (.start f) where
  at_block := senderAt_start rfl (hn 0)
  serves := (serves_start f).1
  ends := by
    intro sent d hp
    exact absurd (List.prefix_nil.mp hp) (by simp)

/-- With its short block sent, a loop has served the whole file. -/
theorem serves_last {file : List UInt8} {i : Nat} {t : SendLoop} {peer : Endpoint}
    {served : Option UInt16 × List UInt8} (ht : SenderAt file i t)
    (h : Serves file t (serve served (peer, dataBytes file i)))
    (hshort : (chunk dataChunkSize file i).length < dataChunkSize) :
    (serve served (peer, dataBytes file i)).2 = file := by
  have hblock : (serve served (peer, dataBytes file i)).1 = some (UInt16.ofNat i) := by
    rw [serve_block (by simp [dataBytes])]
    simp [dataBytes]
  have hend : t.fileStream.position = file.length := by
    rw [chunk_length] at hshort
    have hi := ht.pos
    rw [ht.stream.position]
    simp only [dataChunkSize] at hshort ⊢
    omega
  rcases h.served_eq with he | ⟨hne, _⟩
  · rw [he, hend, List.take_length]
  · exact absurd (hblock.trans (congrArg some ht.block.symm)) hne

theorem EndsWell.next {f : InputFile} {h h' : SendHistory} {msg : String} {peer : Endpoint}
    {wake : Wake} {i : Nat} (inv : EndsWell f.bytes i h) (hn : ∀ p, f.readFault p = false)
    (hs : h.next msg peer f wake = some h') : ∃ j, EndsWell f.bytes j h' := by
  obtain ⟨⟨t, out⟩, hr, rfl⟩ := Option.map_eq_some_iff.mp hs
  have hserves := (serves_resume inv.serves hr).1
  rw [← List.foldl_append] at hserves
  rcases sendLoop_resume_cases inv.at_block rfl (unbroken_of_none hn) hr with
    ⟨ht, rfl⟩ | ⟨ht, _, rfl⟩ | ⟨ht, stranger, _, rfl⟩ | ⟨ht, _, rfl, _⟩
  · exact ⟨i, ht, hserves, by simpa using inv.ends⟩
  · refine ⟨i, ht, hserves, inv.ends.append fun _ hshort => ?_⟩
    rw [getData_data] at hshort
    rw [List.foldl_append, List.foldl_cons, List.foldl_nil] at hserves
    rw [blocksSent, List.foldl_append, List.foldl_cons, List.foldl_nil]
    exact serves_last ht hserves hshort
  · refine ⟨i, ht, hserves, inv.ends.append fun hop => ?_⟩
    simp [unknownTransfer] at hop
  · exact ⟨i + 1, ht, hserves, by simpa using inv.ends⟩

/-- Whatever happens, the short block comes where reading ends or fails. -/
theorem endsOnlyAt_readable {f : InputFile} {msg : String} {peer : Endpoint} {wakes : List Wake}
    {h : SendHistory} (run : wakes.foldlM (SendHistory.next msg peer f) (.start f) = some h) :
    EndsOnlyAt f.readable h.out := by
  have rel := shadowRun_run f msg peer wakes
  rw [run] at rel
  cases hrun : wakes.foldlM (SendHistory.next msg peer f.sound) (.start f.sound) with
  | none => rw [hrun] at rel; cases rel
  | some h' =>
    rw [hrun] at rel
    cases rel with
    | some hsh =>
      obtain ⟨i, inv⟩ := foldlM_invariant (P := fun h => ∃ i, EndsWell f.readable i h) hrun
        ⟨1, endsWell_start (f := f.sound) fun _ => rfl⟩
        fun _ _ _ hinv hs => hinv.choose_spec.next (f := f.sound) (fun _ => rfl) hs
      rw [← hsh.out]
      exact inv.ends

theorem SenderReady.next_sent {file : List UInt8} {i : Nat} {h : SendHistory} {msg : String}
    {peer : Endpoint} {f : InputFile} (ready : SenderReady file i .sending h.loop) :
    h.next msg peer f (.sent none) = some
      ⟨{ h.loop with control := .receiving }, h.out ++ [(peer, dataBytes file i)]⟩ := by
  rw [SendHistory.next, ready.send]
  rfl

/-- Acknowledged block by block, a loop that reads without failing comes to every block. -/
theorem sender_reaches {f : InputFile} (hn : ∀ p, f.readFault p = false) (msg : String)
    (peer : Endpoint) {i : Nat} (hi : 1 ≤ i) (hle : i ≤ chunkCount dataChunkSize f.bytes) :
    ∃ wakes h, List.foldlM (SendHistory.next msg peer f) (.start f) wakes = some h ∧
      SenderReady f.bytes i .sending h.loop := by
  induction i, hi using Nat.le_induction with
  | base =>
    have ready := @senderReady_start f.bytes f rfl hn
    rw [senderGoesOn_of_le hle] at ready
    exact ⟨[], _, rfl, ready⟩
  | succ i hi ih =>
    obtain ⟨wakes, h, run, ready⟩ := ih (by omega)
    have moved := ready.sent.advanced rfl hn
    rw [senderGoesOn_of_le hle] at moved
    refine ⟨wakes ++ [.sent none] ++ [.datagram peer (ackBytes i)],
      ⟨SendLoop.acknowledged f { h.loop with control := .receiving },
        h.out ++ [(peer, dataBytes f.bytes i)]⟩, ?_, moved⟩
    refine foldlM_concat (foldlM_concat run ready.next_sent) ?_
    rw [SendHistory.next, ready.sent.advance rfl, Option.map_some, List.append_nil]

/-- Where anything can be read, what can be read is sent to its short end. -/
theorem short_block_sent {f : InputFile} (hne : f.readable ≠ []) (msg : String) (peer : Endpoint) :
    ∃ wakes h sent d, List.foldlM (SendHistory.next msg peer f) (.start f) wakes = some h ∧
      h.out = sent ++ [d] ∧ getOpcode d.2 = .data ∧ (getData d.2).length < dataChunkSize := by
  obtain ⟨n, hn⟩ : ∃ n, chunkCount dataChunkSize f.readable = n + 1 := by
    simp [chunkCount, hne]
  obtain ⟨wakes, h, run, ready⟩ := @sender_reaches f.sound (fun _ => rfl) msg peer
    (n + 1) (by omega) hn.ge
  have rel := shadowRun_run f msg peer (wakes ++ [.sent none])
  have hsent : List.foldlM (SendHistory.next msg peer f.sound) (.start f.sound)
      (wakes ++ [.sent none]) =
      some ⟨{ h.loop with control := .receiving }, h.out ++ [(peer, dataBytes f.readable (n + 1))]⟩ :=
    foldlM_concat run ready.next_sent
  rw [hsent] at rel
  cases hrun : List.foldlM (SendHistory.next msg peer f) (.start f) (wakes ++ [.sent none]) with
  | none => rw [hrun] at rel; cases rel
  | some h' =>
    rw [hrun] at rel
    cases rel with
    | some hsh =>
      refine ⟨_, _, h.out, _, hrun, hsh.out.symm, by simp [dataBytes], ?_⟩
      rw [dataBytes, getData_data]
      exact (chunk_length_lt_iff (by omega) hn.ge).mpr hn.symm

/-- Where nothing can be read, nothing is sent. -/
theorem nothing_sent {f : InputFile} (hnil : f.readable = []) {msg : String} {peer : Endpoint}
    {wakes : List Wake} {h : SendHistory}
    (run : wakes.foldlM (SendHistory.next msg peer f) (.start f) = some h) : h.out = [] := by
  have ended : ∃ e, (SendLoop.start f {}).control = .finished e := by
    have ready := @senderReady_start f.readable f.sound rfl fun _ => rfl
    rw [hnil] at ready
    rcases (shadows_start f).control with hc | ⟨e, _, he, _⟩
    · exact ⟨none, hc.symm.trans ready.control_eq⟩
    · exact ⟨e, he⟩
  obtain ⟨e, he⟩ := ended
  cases wakes with
  | nil =>
    cases Option.some.inj run
    rfl
  | cons wake wakes =>
    rw [List.foldlM_cons] at run
    obtain ⟨u, hu, _⟩ := Option.bind_eq_some_iff.mp run
    simp [SendHistory.next, SendHistory.start, sendLoopResume, he] at hu

/-- No short block ever comes before the end of the file exactly where reading delivers all of it
before it fails, or fails at once. -/
theorem endsOnlyAt_iff (f : InputFile) (msg : String) (peer : Endpoint) :
    (∀ wakes h, List.foldlM (SendHistory.next msg peer f) (.start f) wakes = some h →
      EndsOnlyAt f.bytes h.out) ↔ f.readable = f.bytes ∨ f.readable = [] := by
  constructor
  · intro h
    by_contra! hcut
    obtain ⟨wakes, h', sent, d, run, hout, hop, hshort⟩ := short_block_sent hcut.2 msg peer
    have hp : sent ++ [d] <+: h'.out := hout ▸ List.prefix_refl _
    have hreadable := endsOnlyAt_readable run sent d hp hop hshort
    exact hcut.1 (hreadable.symm.trans (h _ _ run sent d hp hop hshort))
  · rintro (hall | hnil) wakes h run
    · rw [← hall]
      exact endsOnlyAt_readable run
    · intro sent d hp
      rw [nothing_sent hnil run] at hp
      exact absurd (List.prefix_nil.mp hp) (by simp)

end Protocols
