import Protocols.TftpReadFailure

namespace Protocols

open Relation

/-- One of the two programs' receive loops: what it is before any block has come, and what it
starts as from the block that a handshake has awaited. -/
structure Receiving (μ : Type) where
  memory : ReceiveMemory μ
  atOnce : OfStream → Option (ReceiveLoop μ)
  onResponse : Disk → OfStream → List UInt8 → Option (ReceiveLoop μ)

def serverReceiving : Receiving Bool where
  memory := serverMemory
  atOnce stream := some (serverReceiveStart stream)
  onResponse _ _ _ := none

def clientReceiving : Receiving Nat where
  memory := clientMemory
  atOnce _ := none
  onResponse disk stream response :=
    if getOpcode response = .data ∧ getBlockNumber response = 1 then
      some (clientReceiveStart disk stream response)
    else none

/-- The endpoints of a send loop and a receive loop that take each other for their peer. -/
structure Ends where
  source : Endpoint
  sink : Endpoint

/-- A file on its way from a send loop to a receive loop, with all that either has put out. -/
structure Relay (μ : Type) where
  sender : SendLoop
  receiver : Option (ReceiveLoop μ)
  sent : Outgoing
  answered : Outgoing

/-- What an event tells the sender or, with its storage, the receiver. -/
inductive RelayEvent
  | send (wake : Wake)
  | receive (disk : Disk) (wake : Wake)

section

variable {μ : Type} (p : Receiving μ) (ends : Ends) (msg : String) (stream : OfStream)
  (f : InputFile)

def Relay.start : Relay μ := ⟨SendLoop.start f {}, p.atOnce stream, [], []⟩

/-- What comes from the peer was sent by it some time before; strangers send what they like. -/
def genuine (sent : Outgoing) (peer receiver : Endpoint) : Wake → Bool
  | .datagram sender bytes => decide (sender = peer → (receiver, bytes) ∈ sent)
  | _ => true

def Relay.next (x : Relay μ) : RelayEvent → Option (Relay μ)
  | .send wake =>
    if genuine x.answered ends.sink ends.source wake then
      (sendLoopResume msg ends.sink f x.sender wake).map fun step =>
        { x with sender := step.1, sent := x.sent ++ step.2 }
    else none
  | .receive disk wake =>
    if genuine x.sent ends.source ends.sink wake then
      match x.receiver with
      | some loop =>
        (receiveLoopResume p.memory ends.source disk loop wake).map fun step =>
          { x with receiver := some step.1, answered := x.answered ++ step.2 }
      | none =>
        match wake with
        | .datagram sender bytes =>
          if sender = ends.source then
            (p.onResponse disk stream (receivePacket bytes)).map fun loop =>
              { x with receiver := some loop }
          else none
        | _ => none
    else none

end

/-- The receiver has what can be read of the file up to its last block, and its memory is right. -/
structure Collects {μ : Type} (mem : ReceiveMemory μ) (file : List UInt8) (r : ReceiveLoop μ)
    (a : StopAndWaitState (List UInt8)) : Prop extends ReceiverAt r a where
  complete : mem.complete r.memory = true →
    a.received.length = chunkCount dataChunkSize file ∧ 1 ≤ a.received.length
  succeeded : r.control = .finished none → mem.complete r.memory = true

def CollectsOrFails {μ : Type} (mem : ReceiveMemory μ) (file : List UInt8) (r : ReceiveLoop μ)
    (a : StopAndWaitState (List UInt8)) : Prop :=
  (∃ e, r.control = .finished (some e)) ∨ Collects mem file r a

theorem CollectsOrFails.of_received {μ : Type} {mem : ReceiveMemory μ} {file : List UInt8}
    {r : ReceiveLoop μ} {a b : StopAndWaitState (List UInt8)} (h : CollectsOrFails mem file r a)
    (hr : b.received = a.received) : CollectsOrFails mem file r b := by
  rcases h with h | h
  · exact Or.inl h
  · exact Or.inr ⟨⟨by rw [hr]; exact h.count, by rw [hr]; exact h.contents, h.running⟩,
      by rw [hr]; exact h.complete, h.succeeded⟩

/-- The block that completes the memory is the last one that can be read. -/
theorem Collects.accept_complete {μ : Type} {mem : ReceiveMemory μ} {file : List UInt8}
    {r : ReceiveLoop μ} {a : StopAndWaitState (List UInt8)} {disk : Disk} {j : Nat}
    (h : Collects mem file r a) (inv : StopAndWaitInv (transfer file 0) a) (hm : mem.Counts)
    (hj : j ∈ a.offered)
    (hnext : (getBlockNumber (dataBytes file j)).toNat = r.currentBlock.toNat + 1)
    (hc : mem.complete (r.accept mem disk (getData (dataBytes file j))).memory = true) :
    (r.currentBlock + 1).toNat = chunkCount dataChunkSize file ∧ 1 ≤ (r.currentBlock + 1).toNat := by
  have hnum : j % 65536 = a.received.length + 1 := by
    rw [← h.count, ← hnext]
    simp [dataBytes, UInt16.toNat_ofNat']
  have hlast := (stopAndWait_accepted_eq inv hj hnum).1
  obtain ⟨hj1, _, hle⟩ := inv.offered_le j hj
  -- the memory of a loop that accepts another block is that of an incomplete file
  have hincomplete : mem.complete r.memory = false := by
    by_contra hc
    have := (h.complete (by simpa using hc)).1
    simp only [transfer] at hle
    omega
  have hcount : (r.currentBlock + 1).toNat = j := by
    have hlt := UInt16.toNat_lt (getBlockNumber (dataBytes file j))
    rw [UInt16.toNat_add, UInt16.toNat_one, h.count, hlast]
    rw [hnext, h.count] at hlt
    omega
  simp only [ReceiveLoop.accept, receiveLoop_head_memory, hm _ _ hincomplete, dataBytes,
    getData_data, decide_eq_true_eq] at hc
  rw [hcount]
  exact ⟨(chunk_length_lt_iff hj1 hle).mp hc, hj1⟩

theorem Collects.next {μ : Type} {mem : ReceiveMemory μ} {file : List UInt8} {r t : ReceiveLoop μ}
    {a : StopAndWaitState (List UInt8)} {peer : Endpoint} {disk : Disk} {wake : Wake}
    {out : Outgoing} (h : Collects mem file r a) (inv : StopAndWaitInv (transfer file 0) a)
    (hm : mem.Counts)
    (heard : ∀ bytes, wake = .datagram peer bytes → getOpcode (receivePacket bytes) = .data →
      ∃ j ∈ a.offered, bytes = dataBytes file j)
    (hs : receiveLoopResume mem peer disk r wake = some (t, out)) :
    ∃ b, ReflTransGen (StopAndWaitStep (transfer file 0)) a b ∧ Collects mem file t b ∧
      b.next = a.next ∧ b.offered = a.offered ∧ (∀ c ∈ a.confirmed, c ∈ b.confirmed) ∧
      ∀ q ∈ out, (∃ c ∈ b.confirmed, q.2 = ackBytes c) ∨ q.2 = unknownTransfer mem.errorMsg := by
  obtain ⟨b, hreach, hat, hnext, hoff, hconf, _, hout⟩ :=
    receiver_moves inv h.toReceiverAt (Nat.zero_le _) heard hs
  refine ⟨b, hreach, ⟨hat, ?_, fun hc => ?_⟩, hnext, hoff, hconf, fun q hq => ?_⟩
  · rw [← hat.count]
    rcases receiveLoop_resume_cases hs with ⟨hb, _, hmem, _⟩ | ⟨_, _, bytes, hw, hop, hbn, rfl⟩
    · rw [hb, hmem, h.count]
      exact h.complete
    · obtain ⟨j, hj, rfl⟩ := heard _ hw hop
      rw [receivePacket_dataBytes] at hbn ⊢
      rw [receiveLoop_accept_currentBlock]
      exact h.accept_complete inv hm hj hbn
  · obtain ⟨hcomplete, _, rfl⟩ := receiveLoop_succeeded hs hc
    exact hcomplete
  · rcases hout q hq with ⟨_, hack⟩ | ⟨_, _, herr⟩
    · exact Or.inl hack
    · exact Or.inr herr

/-- What the two loops have come to on the way of what can be read of the file. -/
structure Relays {μ : Type} (p : Receiving μ) (file : List UInt8) (x : Relay μ)
    (a : StopAndWaitState (List UInt8)) : Prop where
  inv : StopAndWaitInv (transfer file 0) a
  sender : ∃ t, Shadows x.sender t ∧ SenderAt file a.next t
  unbegun : x.receiver = none → a.received = []
  receiver : ∀ r, x.receiver = some r → CollectsOrFails p.memory file r a
  sent : ∀ q ∈ x.sent, getOpcode (receivePacket q.2) = .data → ∃ j ∈ a.offered, q.2 = dataBytes file j
  answered : ∀ q ∈ x.answered, getOpcode (receivePacket q.2) = .ack →
    ∃ b ∈ a.confirmed, q.2 = ackBytes b

theorem genuine_sent {sent : Outgoing} {peer receiver : Endpoint} {wake : Wake}
    (h : genuine sent peer receiver wake = true) {bytes : List UInt8}
    (hw : wake = .datagram peer bytes) : (receiver, bytes) ∈ sent := by
  subst hw
  simpa [genuine] using h

section

variable {μ : Type} {p : Receiving μ} {ends : Ends} {msg : String} {stream : OfStream}
  {f : InputFile} {x : Relay μ} {a : StopAndWaitState (List UInt8)}

theorem getOpcode_unknownTransfer (text : String) :
    getOpcode (receivePacket (unknownTransfer text)) = .error := by
  rw [getOpcode_receivePacket, unknownTransfer, getOpcode_error]

theorem relays_send {wake : Wake} {s : SendLoop} {out : Outgoing}
    (h : Relays p f.readable x a) (hg : genuine x.answered ends.sink ends.source wake = true)
    (hs : sendLoopResume msg ends.sink f x.sender wake = some (s, out)) :
    ∃ b, Relays p f.readable { x with sender := s, sent := x.sent ++ out } b := by
  obtain ⟨t, hsh, hat⟩ := h.sender
  have hrel : Option.Rel (fun y z => z.2 = y.2 ∧ Shadows y.1 z.1)
      (sendLoopResume msg ends.sink f x.sender wake)
      (sendLoopResume msg ends.sink f.sound t wake) := shadows_resume wake hsh hat
  rw [hs] at hrel
  cases ht : sendLoopResume msg ends.sink f.sound t wake with
  | none => rw [ht] at hrel; cases hrel
  | some step =>
    rw [ht] at hrel
    cases hrel with
    | some hstep =>
      obtain ⟨rfl, hsh'⟩ := hstep
      obtain ⟨b, hreach, hat', hrec, hconf, hoff, hout⟩ := sender_moves (k := 0) hat rfl
        (unbroken_of_none fun _ => rfl) (fun _ hw => h.answered _ (genuine_sent hg hw)) ht
      refine ⟨b, stopAndWait_run_inv h.inv hreach, ⟨step.1, hsh', hat'⟩, ?_, ?_, ?_, ?_⟩
      · rw [hrec]
        exact h.unbegun
      · exact fun r hr => (h.receiver r hr).of_received hrec
      · intro q hq hop
        rcases List.mem_append.mp hq with hq | hq
        · obtain ⟨j, hj, hb⟩ := h.sent q hq hop
          exact ⟨j, hoff j hj, hb⟩
        · rcases hout q hq with ⟨_, hdata⟩ | ⟨_, _, herr⟩
          · exact hdata
          · rw [herr, getOpcode_unknownTransfer] at hop
            cases hop
      · rw [hconf]
        exact h.answered

theorem relays_receive {disk : Disk} {wake : Wake} {r t : ReceiveLoop μ} {out : Outgoing}
    {file : List UInt8} (h : Relays p file x a) (hm : p.memory.Counts) (hr : x.receiver = some r)
    (hg : genuine x.sent ends.source ends.sink wake = true)
    (hs : receiveLoopResume p.memory ends.source disk r wake = some (t, out)) :
    ∃ b, Relays p file { x with receiver := some t, answered := x.answered ++ out } b := by
  rcases h.receiver r hr with ⟨e, he⟩ | hcol
  · simp [receiveLoopResume, he] at hs
  · obtain ⟨b, hreach, hcol', hnext, hoff, hconf, hout⟩ := hcol.next h.inv hm
      (fun _ hw => h.sent _ (genuine_sent hg hw)) hs
    refine ⟨b, stopAndWait_run_inv h.inv hreach, ?_, by simp, ?_, ?_, ?_⟩
    · rw [hnext]
      exact h.sender
    · intro r' hr'
      cases hr'
      exact Or.inr hcol'
    · rw [hoff]
      exact h.sent
    · intro q hq hop
      rcases List.mem_append.mp hq with hq | hq
      · obtain ⟨c, hc, hb⟩ := h.answered q hq hop
        exact ⟨c, hconf c hc, hb⟩
      · rcases hout q hq with hack | herr
        · exact hack
        · rw [herr, getOpcode_unknownTransfer] at hop
          cases hop

end

/-- However the loop starts, it starts as a receiver of the file. -/
structure Receiving.Fits {μ : Type} (p : Receiving μ) (stream : OfStream) : Prop where
  counts : p.memory.Counts
  atOnce : ∀ file r, p.atOnce stream = some r → CollectsOrFails p.memory file r .init
  onResponse : ∀ file disk bytes r a, StopAndWaitInv (transfer file 0) a → a.received = [] →
    (getOpcode (receivePacket bytes) = .data → ∃ j ∈ a.offered, bytes = dataBytes file j) →
    p.onResponse disk stream (receivePacket bytes) = some r →
    ∃ b, ReflTransGen (StopAndWaitStep (transfer file 0)) a b ∧ CollectsOrFails p.memory file r b ∧
      b.next = a.next ∧ b.offered = a.offered ∧ b.confirmed = a.confirmed

theorem serverReceiving_fits {stream : OfStream} (hc : stream.contents = []) :
    serverReceiving.Fits stream where
  counts := serverMemory_counts
  atOnce file r hr := by
    cases hr
    have related : ReceiverRelated (serverReceiveStart stream) .init :=
      serverReceiveStart_related rfl hc
    refine Or.inr ⟨⟨related.count, related.contents, related.running⟩, fun hm => ?_, fun he => ?_⟩
    · simp [serverReceiveStart, serverReceiving, serverMemory] at hm
    · exact absurd rfl (receiveLoop_head_ended he)
  onResponse _ _ _ _ _ _ _ _ hr := by cases hr

theorem clientReceiving_fits {stream : OfStream} (hc : stream.contents = []) :
    clientReceiving.Fits stream where
  counts := clientMemory_counts
  atOnce _ _ hr := by cases hr
  onResponse file disk bytes r a inv hrec heard hr := by
    simp only [clientReceiving] at hr
    split at hr
    next hdata =>
      cases hr
      obtain ⟨j, hj, rfl⟩ := heard hdata.1
      rw [receivePacket_dataBytes] at hdata ⊢
      have hnum : j % 65536 = 1 := by
        simpa [dataBytes, UInt16.toNat_ofNat'] using congrArg UInt16.toNat hdata.2
      cases hg : stream.good with
      | true =>
        have related : ReceiverRelated (clientReceiveStart disk stream (dataBytes file j))
            { a with received := a.received ++ [chunk dataChunkSize file j] } :=
          (clientReceiveStart_simulates hrec hc hg hj hnum).2
        have hat : ReceiverAt (clientReceiveStart disk stream (dataBytes file j))
            { a with received := a.received ++ [chunk dataChunkSize file j] } :=
          ⟨related.count, related.contents, related.running⟩
        refine ⟨_, .single (.accept hj (by simp [hrec, transfer, hnum])),
          Or.inr ⟨hat, fun hm => ?_, fun he => ?_⟩, rfl, rfl, rfl⟩
        · have hone : j = 1 := by
            rw [(stopAndWait_accepted_eq inv hj (by rw [hrec]; exact hnum)).1, hrec]
            rfl
          obtain ⟨hj1, _, hle⟩ := inv.offered_le j hj
          simp only [clientReceiveStart, receiveLoop_head_memory, clientReceiving, clientMemory,
            dataBytes, getData_data, decide_eq_true_eq] at hm
          have hlast := (chunk_length_lt_iff hj1 hle).mp hm
          simp only [hrec, List.nil_append, List.length_singleton]
          omega
        · exact absurd rfl (receiveLoop_head_ended he)
      | false =>
        -- what could not be opened ends the loop before it acknowledges anything
        refine ⟨a, .refl, Or.inl ⟨.fault, ?_⟩, rfl, rfl, rfl⟩
        simp [clientReceiveStart, ReceiveLoop.loopHead, OfStream.write, hg]
    next => cases hr

section

variable {μ : Type} {p : Receiving μ} {ends : Ends} {msg : String} {stream : OfStream}
  {f : InputFile}

theorem relays_start (hp : p.Fits stream) : Relays p f.readable (.start p stream f) .init where
  inv := stopAndWait_init_inv (by simp [transfer])
  sender := ⟨_, shadows_start f, @senderAt_start f.readable f.sound rfl rfl⟩
  unbegun _ := rfl
  receiver r hr := hp.atOnce _ r hr
  sent := by simp [Relay.start]
  answered := by simp [Relay.start]

/-- The client's loop begins with the response its handshake has heard. -/
theorem relays_begin {x : Relay μ} {a : StopAndWaitState (List UInt8)} {disk : Disk}
    {bytes : List UInt8} {loop : ReceiveLoop μ} (hp : p.Fits stream) (h : Relays p f.readable x a)
    (hnone : x.receiver = none)
    (hg : genuine x.sent ends.source ends.sink (.datagram ends.source bytes) = true)
    (hr : p.onResponse disk stream (receivePacket bytes) = some loop) :
    ∃ b, Relays p f.readable { x with receiver := some loop } b := by
  obtain ⟨b, hreach, hcol, hnext, hoff, hconf⟩ := hp.onResponse f.readable disk bytes loop a
    h.inv (h.unbegun hnone) (h.sent _ (genuine_sent hg rfl)) hr
  refine ⟨b, stopAndWait_run_inv h.inv hreach, ?_, by simp, ?_, ?_, ?_⟩
  · rw [hnext]
    exact h.sender
  · intro r hr'
    cases hr'
    exact hcol
  · rw [hoff]
    exact h.sent
  · rw [hconf]
    exact h.answered

theorem relays_next {x y : Relay μ} {event : RelayEvent} (hp : p.Fits stream)
    (h : ∃ a, Relays p f.readable x a) (hs : x.next p ends msg stream f event = some y) :
    ∃ a, Relays p f.readable y a := by
  obtain ⟨a, h⟩ := h
  cases event with
  | send wake =>
    simp only [Relay.next] at hs
    split at hs
    next hg =>
      obtain ⟨step, hr, rfl⟩ := Option.map_eq_some_iff.mp hs
      exact relays_send h hg hr
    next => cases hs
  | receive disk wake =>
    simp only [Relay.next] at hs
    split at hs
    next hg =>
      split at hs
      next loop hloop =>
        obtain ⟨step, hr, rfl⟩ := Option.map_eq_some_iff.mp hs
        exact relays_receive h hp.counts hloop hg hr
      next hnone =>
        split at hs
        next sender bytes =>
          split at hs
          next hsender =>
            subst hsender
            obtain ⟨loop, hr, rfl⟩ := Option.map_eq_some_iff.mp hs
            exact relays_begin hp h hnone hg hr
          next => cases hs
        next => cases hs
    next => cases hs

/-- A receiver that reports success has written what could be read, and that is something. -/
theorem relay_succeeded {events : List RelayEvent} {x : Relay μ} {r : ReceiveLoop μ}
    (hp : p.Fits stream)
    (run : events.foldlM (Relay.next p ends msg stream f) (.start p stream f) = some x)
    (hr : x.receiver = some r) (he : r.control = .finished none) :
    r.fileStream.contents = f.readable ∧ f.readable ≠ [] := by
  obtain ⟨a, h⟩ := foldlM_invariant (P := fun x => ∃ a, Relays p f.readable x a) run
    ⟨_, relays_start hp⟩ fun _ _ _ hx hs => relays_next hp hx hs
  rcases h.receiver r hr with ⟨e, hf⟩ | hcol
  · rw [he] at hf
    cases hf
  · obtain ⟨hall, hsome⟩ := hcol.complete (hcol.succeeded he)
    have hlength := length_le_of_chunkCount_le (by simp [dataChunkSize]) hall.ge
    constructor
    · rw [hcol.contents, h.inv.received_eq]
      exact (chunks_flatten _ _ _).trans (List.take_of_length_le hlength)
    · intro hnil
      have hzero : chunkCount dataChunkSize f.readable = 0 := by rw [hnil]; rfl
      omega

end

/-- No receiver of the file finishes with success on anything but the whole of it. -/
def NeverTruncates {μ : Type} (p : Receiving μ) (ends : Ends) (msg : String) (f : InputFile) : Prop :=
  ∀ stream events x r, stream.contents = [] →
    List.foldlM (Relay.next p ends msg stream f) (.start p stream f) events = some x →
    x.receiver = some r → r.control = .finished none → r.fileStream.contents = f.bytes

theorem neverTruncates_of_readable {μ : Type} {p : Receiving μ} {f : InputFile}
    (hp : ∀ stream, stream.contents = [] → p.Fits stream)
    (hf : f.readable = f.bytes ∨ f.readable = []) (ends : Ends) (msg : String) :
    NeverTruncates p ends msg f := by
  intro stream events x r hc run hr he
  obtain ⟨hcontents, hne⟩ := relay_succeeded (hp stream hc) run hr he
  exact hcontents.trans (hf.resolve_right hne)

/-- A read failure passes for the end of the file, in what is sent and so in what a receiver
reports, unless all of the file has been delivered before or nothing at all. -/
theorem read_failure_shown_iff (f : InputFile) (msg : String) (ends : Ends) :
    ((∀ wakes h, List.foldlM (SendHistory.next msg ends.sink f) (.start f) wakes = some h →
        EndsOnlyAt f.bytes h.out) ∧
      NeverTruncates serverReceiving ends msg f ∧ NeverTruncates clientReceiving ends msg f) ↔
      f.readable = f.bytes ∨ f.readable = [] := by
  rw [endsOnlyAt_iff]
  constructor
  · exact fun h => h.1
  · exact fun h => ⟨h, neverTruncates_of_readable (fun _ => serverReceiving_fits) h ends msg,
      neverTruncates_of_readable (fun _ => clientReceiving_fits) h ends msg⟩

/-- A file of 513 bytes, of which the second read fails. -/
def torn : InputFile := ⟨List.replicate 513 7, fun position => decide (position = 512)⟩

def tornEnds : Ends := ⟨⟨1, 5000⟩, ⟨2, 50001⟩⟩

/-- The block that the sender sends where it has read nothing. -/
def emptyBlock : List UInt8 := DataPacket.toBuffer { block := 2, data := [] }

def tornTransfer : List RelayEvent :=
  [.receive {} (.sent none), .send (.sent none),
    .receive {} (.datagram ⟨1, 5000⟩ (dataBytes torn.bytes 1)), .receive {} (.sent none),
    .send (.datagram ⟨2, 50001⟩ (ackBytes 1)), .send (.sent none),
    .receive {} (.datagram ⟨1, 5000⟩ emptyBlock), .receive {} (.sent none),
    .send (.datagram ⟨2, 50001⟩ (ackBytes 2)), .receive {} .timeout]

theorem torn_run : (tornTransfer.foldlM (Relay.next serverReceiving tornEnds "Unknown transfer ID." {} torn)
    (.start serverReceiving {} torn)).map (fun x => (x.sent, x.sender.control, x.receiver)) =
    some ([(⟨2, 50001⟩, dataBytes torn.bytes 1), (⟨2, 50001⟩, emptyBlock)], .finished (some .fault),
      some ⟨2, ⟨true, [], List.replicate 512 7, true⟩, true, false, .finished none⟩) := by
  decide +kernel

/-- The sender fails after its empty block has been acknowledged; the receiver reports success. -/
theorem torn_file_accepted : ∃ x r,
    tornTransfer.foldlM (Relay.next serverReceiving tornEnds "Unknown transfer ID." {} torn)
      (.start serverReceiving {} torn) = some x ∧ x.receiver = some r ∧
    x.sent = [(⟨2, 50001⟩, dataBytes torn.bytes 1), (⟨2, 50001⟩, emptyBlock)] ∧
    x.sender.control = .finished (some .fault) ∧
    r.control = .finished none ∧ r.fileStream.contents = List.replicate 512 7 ∧
    ¬ EndsOnlyAt torn.bytes x.sent ∧
    ¬ NeverTruncates serverReceiving tornEnds "Unknown transfer ID." torn := by
  obtain ⟨x, run, hx⟩ := Option.map_eq_some_iff.mp torn_run
  obtain ⟨hsent, hx⟩ := Prod.mk.inj hx
  obtain ⟨hsender, hreceiver⟩ := Prod.mk.inj hx
  have hshort : List.replicate 512 7 ≠ torn.bytes := by
    intro he
    have hlength := congrArg List.length he
    rw [torn, List.length_replicate, List.length_replicate] at hlength
    omega
  refine ⟨x, _, run, hreceiver, hsent, hsender, rfl, rfl, fun h => ?_, fun h => ?_⟩
  · rw [hsent] at h
    have hall := h [_] _ (List.prefix_refl _) (by decide +kernel) (by decide +kernel)
    exact hshort (Eq.trans (by decide +kernel) hall)
  · exact hshort (h {} _ x _ rfl run hreceiver rfl)

end Protocols
