import Protocols.TftpCounting
import Protocols.TftpCompletion
import Protocols.TokenFlow
import Mathlib.Algebra.Order.Group.Multiset
import Mathlib.Tactic.Abel

namespace Protocols

open Relation

/-- What the loops of a transfer are run with. -/
structure LoopPair (μ : Type) where
  errorMsg : String
  mem : ReceiveMemory μ
  sender : Endpoint
  receiver : Endpoint
  file : List UInt8
  /-- the receive loop that a handshake starts with its response -/
  begins : Disk → List UInt8 → ReceiveLoop μ

/-- The loops of a transfer, or `none` where a handshake still waits for the first packet, the
datagrams in flight, the copies that the network has made, and what the send loop has sent. -/
structure LoopNet (μ : Type) where
  sender : Option SendLoop
  receiver : Option (ReceiveLoop μ)
  toSender : Multiset (List UInt8)
  toReceiver : Multiset (List UInt8)
  copies : Nat
  transmitted : List (List UInt8)

/-- A loop goes on, or one of the datagrams in flight to it arrives or is copied. -/
inductive LoopEvent
  | sender (disk : Disk) (wake : Wake)
  | receiver (disk : Disk) (wake : Wake)
  | toSender (disk : Disk) (bytes : List UInt8)
  | toReceiver (disk : Disk) (bytes : List UInt8)
  | copyToSender (bytes : List UInt8)
  | copyToReceiver (bytes : List UInt8)

section

variable {μ : Type}

def LoopNet.sends (x : LoopNet μ) (s : SendLoop) (out : Outgoing) : LoopNet μ :=
  { x with
    sender := some s
    toReceiver := x.toReceiver + out.map Prod.snd
    transmitted := x.transmitted ++ out.map Prod.snd }

def LoopNet.acknowledges (x : LoopNet μ) (r : ReceiveLoop μ) (out : Outgoing) : LoopNet μ :=
  { x with receiver := some r, toSender := x.toSender + out.map Prod.snd }

/-- What comes of an event: nothing is lost, no wait ends and nobody else sends anything. -/
def LoopNet.next (p : LoopPair μ) (x : LoopNet μ) : LoopEvent → Option (LoopNet μ)
  | .sender disk wake =>
    if wake.internal then
      x.sender.bind fun s =>
        (sendLoopResume p.errorMsg p.receiver ⟨p.file, disk.readFault⟩ s wake).map
          fun (s, out) => x.sends s out
    else none
  | .receiver disk wake =>
    if wake.internal then
      x.receiver.bind fun r =>
        (receiveLoopResume p.mem p.sender disk r wake).map fun (r, out) => x.acknowledges r out
    else none
  | .toSender disk bytes =>
    if bytes ∈ x.toSender then
      let x := { x with toSender := x.toSender.erase bytes }
      match x.sender with
      | none =>
        match handleServerResponse .ack 0 (.datagram p.receiver bytes) with
        | some (.ok _) =>
          some { x with sender := some (SendLoop.start ⟨p.file, disk.readFault⟩ {}) }
        | _ => none
      | some s =>
        (sendLoopResume p.errorMsg p.receiver ⟨p.file, disk.readFault⟩ s
          (.datagram p.receiver bytes)).map fun (s, out) => x.sends s out
    else none
  | .toReceiver disk bytes =>
    if bytes ∈ x.toReceiver then
      let x := { x with toReceiver := x.toReceiver.erase bytes }
      match x.receiver with
      | none =>
        match handleServerResponse .data 1 (.datagram p.sender bytes) with
        | some (.ok (_, response)) => some { x with receiver := some (p.begins disk response) }
        | _ => none
      | some r =>
        (receiveLoopResume p.mem p.sender disk r (.datagram p.sender bytes)).map
          fun (r, out) => x.acknowledges r out
    else none
  | .copyToSender bytes =>
    if bytes ∈ x.toSender then
      some { x with toSender := bytes ::ₘ x.toSender, copies := x.copies + 1 }
    else none
  | .copyToReceiver bytes =>
    if bytes ∈ x.toReceiver then
      some { x with toReceiver := bytes ::ₘ x.toReceiver, copies := x.copies + 1 }
    else none

/-- The loops of `write_client` and `write_connection`. -/
def uploadLoops (client connection : Endpoint) (file : List UInt8) (stream : OfStream) :
    LoopPair Bool :=
  ⟨"Unknown transfer ID.", serverMemory, client, connection, file,
    fun _ _ => serverReceiveStart stream⟩

/-- The connection's loop runs, and the client's handshake waits for its first packet. -/
def uploadStart (stream : OfStream) : LoopNet Bool :=
  ⟨none, some (serverReceiveStart stream), 0, 0, 0, []⟩

/-- The loops of `read_connection` and `read_client`. -/
def downloadLoops (connection client : Endpoint) (file : List UInt8) (stream : OfStream) :
    LoopPair Nat :=
  ⟨"Unknown transfer ID", clientMemory, connection, client, file,
    fun disk response => clientReceiveStart disk stream response⟩

def downloadStart (file : List UInt8) (disk : Disk) : LoopNet Nat :=
  ⟨some (SendLoop.start ⟨file, disk.readFault⟩ {}), none, 0, 0, 0, []⟩

def number (bytes : List UInt8) : Nat := (getBlockNumber bytes).toNat

/-- The rank of a packet is its block's number; a loop about to send counts for what it sends. -/
def senderRanks (i : Nat) : Option SendLoop → Multiset Nat
  | some s => if s.control = .sending then {i - 1} else 0
  | none => 0

def receiverRanks (c : Nat) : Option (ReceiveLoop μ) → Multiset Nat
  | some r => if r.control = .sending then {c} else 0
  | none => 0

def LoopNet.tokens (i c : Nat) (x : LoopNet μ) : Tokens :=
  ⟨x.toReceiver.map number + x.toSender.map number + senderRanks i x.sender +
    receiverRanks c x.receiver, x.copies, x.transmitted.map number⟩

/-- The sender is at block `i`, the receiver has acknowledged the blocks up to `c`, and so do the
datagrams in flight. -/
structure Flows (p : LoopPair μ) (i c : Nat) (x : LoopNet μ) : Prop where
  lower : i ≤ c + 1
  upper : c ≤ i
  within : c ≤ chunkCount dataChunkSize p.file
  sending : ∀ s, x.sender = some s → SenderCounts p.file i s
  waiting : x.sender = none → i = 1 ∧ c = 0 ∧ x.toReceiver = 0
  receiving : ∀ r, x.receiver = some r → ReceiverCounts c r
  absent : x.receiver = none → i = 1 ∧ x.toSender = 0 ∧
    ∀ disk response, ReceiverCounts 1 (p.begins disk response)
  data : ∀ bytes ∈ x.toReceiver, ∃ j, 1 ≤ j ∧ j ≤ i ∧ j ≤ chunkCount dataChunkSize p.file ∧
    IsData j bytes
  acks : ∀ bytes ∈ x.toSender, ∃ a ≤ c, bytes = ackBytes a
  transmitted : ∀ n ∈ x.transmitted.map number, 1 ≤ n ∧ n ≤ chunkCount dataChunkSize p.file

/-- A state whose tokens the state before can have led to. -/
def FlowsOn (p : LoopPair μ) (i c : Nat) (x y : LoopNet μ) : Prop :=
  ∃ i' c', Flows p i' c' y ∧ ReflTransGen TokenStep (x.tokens i c) (y.tokens i' c')

variable {p : LoopPair μ} {i c : Nat} {x y : LoopNet μ}

theorem senderRanks_some (s : SendLoop) :
    senderRanks i (some s) = if s.control = .sending then {i - 1} else 0 := rfl

theorem receiverRanks_some (r : ReceiveLoop μ) :
    receiverRanks c (some r) = if r.control = .sending then {c} else 0 := rfl

theorem flows_sender {s t : SendLoop} {f : InputFile} {wake : Wake} {out : Outgoing}
    (hN : chunkCount dataChunkSize p.file < 65536) (h : Flows p i c x) (hx : x.sender = some s)
    (hw : wake.internal = true)
    (hs : sendLoopResume p.errorMsg p.receiver f s wake = some (t, out)) :
    FlowsOn p i c x (x.sends t out) := by
  obtain ⟨ht, ⟨rfl, hcontrol⟩ | ⟨hsending, hreceiving, hle, bytes, hdata, rfl⟩⟩ :=
    sendLoop_internal (h.sending s hx) hw hs
  · refine ⟨i, c, ⟨h.lower, h.upper, h.within, fun u hu => ?_, fun hn => ?_, h.receiving, h.absent, ?_,
      h.acks, ?_⟩, ?_⟩
    · cases hu
      exact ht
    · cases hn
    · simpa [LoopNet.sends] using h.data
    · simpa [LoopNet.sends] using h.transmitted
    · refine Rises.reaches (a := senderRanks i (some s)) (b := senderRanks i (some t))
        (rises_ite_self hcontrol)
        (x.toReceiver.map number + x.toSender.map number + receiverRanks c x.receiver) ?_ ?_ rfl
        (by simp [LoopNet.tokens, LoopNet.sends])
      · simp only [LoopNet.tokens, hx]
        abel
      · simp only [LoopNet.tokens, LoopNet.sends, List.map_nil, Multiset.coe_nil, add_zero]
        abel
  · have hpos := ht.pos
    have hnumber : number bytes = i := hdata.block (by omega)
    refine ⟨i, c, ⟨h.lower, h.upper, h.within, fun u hu => ?_, fun hn => ?_, h.receiving, h.absent, ?_,
      h.acks, ?_⟩, ?_⟩
    · cases hu
      exact ht
    · cases hn
    · intro b hb
      rcases Multiset.mem_add.mp hb with hb | hb
      · exact h.data b hb
      · obtain rfl : b = bytes := by simpa using hb
        exact ⟨i, hpos, le_rfl, hle, hdata⟩
    · intro n hn
      simp only [LoopNet.sends, List.map_append, List.map_cons, List.map_nil, List.mem_append,
        List.mem_singleton] at hn
      rcases hn with hn | rfl
      · exact h.transmitted n hn
      · rw [hnumber]
        exact ⟨hpos, hle⟩
    · -- the loop's own token is emitted at the rank of the block
      refine .single (.emit (i - 1)
        (x.toReceiver.map number + x.toSender.map number + receiverRanks c x.receiver) ?_ ?_ rfl ?_)
      · simp only [LoopNet.tokens, hx, senderRanks_some, if_pos hsending]
        abel
      · simp only [LoopNet.tokens, LoopNet.sends, senderRanks_some, hreceiving, reduceCtorEq, if_false,
          List.map_cons, List.map_nil, Multiset.coe_singleton, Multiset.map_add,
          Multiset.map_singleton, hnumber, Nat.sub_add_cancel hpos]
        abel
      · simp [LoopNet.tokens, LoopNet.sends, hnumber, Nat.sub_add_cancel hpos]

theorem number_ackBytes {a : Nat} (ha : a < 65536) : number (ackBytes a) = a := by
  rw [number, ackBytes, getBlockNumber_ack, UInt16.toNat_ofNat_of_lt' ha]

theorem flows_receiver {r t : ReceiveLoop μ} {disk : Disk} {wake : Wake} {out : Outgoing}
    (hN : chunkCount dataChunkSize p.file < 65536) (h : Flows p i c x) (hx : x.receiver = some r)
    (hw : wake.internal = true)
    (hs : receiveLoopResume p.mem p.sender disk r wake = some (t, out)) :
    FlowsOn p i c x (x.acknowledges t out) := by
  have hwithin := h.within
  obtain ⟨ht, ⟨rfl, hcontrol⟩ | ⟨hsending, hreceiving, rfl⟩⟩ :=
    receiveLoop_internal (h.receiving r hx) hw hs
  · refine ⟨i, c, { h with receiving := ?_, absent := ?_, acks := ?_ }, ?_⟩
    · rintro _ ⟨⟩
      exact ht
    · rintro ⟨⟩
    · simpa [LoopNet.acknowledges] using h.acks
    · refine Rises.reaches (a := receiverRanks c (some r)) (b := receiverRanks c (some t))
        (rises_ite_self hcontrol)
        (x.toReceiver.map number + x.toSender.map number + senderRanks i x.sender) ?_ ?_ rfl rfl
      · simp only [LoopNet.tokens, hx]
        abel
      · simp only [LoopNet.tokens, LoopNet.acknowledges, List.map_nil, Multiset.coe_nil, add_zero]
        abel
  · refine ⟨i, c, { h with receiving := ?_, absent := ?_, acks := ?_ }, ?_⟩
    · rintro _ ⟨⟩
      exact ht
    · rintro ⟨⟩
    · intro b hb
      rcases Multiset.mem_add.mp hb with hb | hb
      · exact h.acks b hb
      · obtain rfl : b = ackBytes c := by simpa using hb
        exact ⟨c, le_rfl, rfl⟩
    · -- the loop's own token is in the acknowledgement now
      refine Rises.reaches (Or.inl (rfl : ({c} : Multiset Nat) = {c}))
        (x.toReceiver.map number + x.toSender.map number + senderRanks i x.sender) ?_ ?_ rfl rfl
      · simp only [LoopNet.tokens, hx, receiverRanks_some, if_pos hsending]
        abel
      · simp only [LoopNet.tokens, LoopNet.acknowledges, receiverRanks_some, hreceiving, reduceCtorEq,
          if_false, List.map_cons, List.map_nil, Multiset.coe_singleton, Multiset.map_add,
          Multiset.map_singleton, number_ackBytes (by omega : c < 65536)]
        abel

theorem map_number_erase {m : Multiset (List UInt8)} {bytes : List UInt8} (h : bytes ∈ m) :
    m.map number = {number bytes} + (m.erase bytes).map number := by
  conv_lhs => rw [← Multiset.cons_erase h, Multiset.map_cons, ← Multiset.singleton_add]

theorem flows_toSender {s t : SendLoop} {f : InputFile} {bytes : List UInt8} {out : Outgoing}
    (hN : chunkCount dataChunkSize p.file < 65536) (h : Flows p i c x) (hf : f.bytes = p.file)
    (hx : x.sender = some s) (hmem : bytes ∈ x.toSender)
    (hs : sendLoopResume p.errorMsg p.receiver f s (.datagram p.receiver bytes) = some (t, out)) :
    FlowsOn p i c x ({ x with toSender := x.toSender.erase bytes }.sends t out) := by
  have hlower := h.lower
  have hupper := h.upper
  have hwithin := h.within
  obtain ⟨a, ha, rfl⟩ := h.acks bytes hmem
  have hpos := (h.sending s hx).pos
  obtain ⟨hcontrol, rfl, hnext⟩ := sendLoop_hears (h.sending s hx) hf hN (by omega) hs
  have hgone : ∀ b ∈ x.toSender.erase (ackBytes a), ∃ a ≤ c, b = ackBytes a :=
    fun b hb => h.acks b (Multiset.mem_of_mem_erase hb)
  have hthere : x.receiver ≠ none := by
    intro hn
    simp [(h.absent hn).2.1] at hmem
  -- the token of the acknowledgement goes to the loop, which sends the same block or the next one
  have htokens : ∀ i', a ≤ i' - 1 → ReflTransGen TokenStep (x.tokens i c)
      (({ x with toSender := x.toSender.erase (ackBytes a) }.sends t []).tokens i' c) := by
    intro i' hle
    refine Rises.reaches (a := {a}) (b := senderRanks i' (some t)) (rises_ite hle _)
      (x.toReceiver.map number + (x.toSender.erase (ackBytes a)).map number +
        receiverRanks c x.receiver) ?_ ?_ rfl (by simp [LoopNet.tokens, LoopNet.sends])
    · simp only [LoopNet.tokens, map_number_erase hmem, number_ackBytes (by omega : a < 65536), hx,
        senderRanks_some, hcontrol, reduceCtorEq, if_false]
      abel
    · simp only [LoopNet.tokens, LoopNet.sends, List.map_nil, Multiset.coe_nil, add_zero]
      abel
  rcases hnext with ⟨rfl, ht⟩ | ⟨hne, ht⟩
  · refine ⟨a + 1, c, ⟨by omega, by omega, h.within, ?_, ?_, h.receiving,
      fun hn => absurd hn hthere, ?_, hgone, ?_⟩, htokens (a + 1) le_rfl⟩
    · rintro _ ⟨⟩
      exact ht
    · rintro ⟨⟩
    · intro b hb
      obtain ⟨j, hj, hle, hcount, hdata⟩ := h.data b (by simpa [LoopNet.sends] using hb)
      exact ⟨j, hj, by omega, hcount, hdata⟩
    · simpa [LoopNet.sends] using h.transmitted
  · refine ⟨i, c, ⟨h.lower, h.upper, h.within, ?_, ?_, h.receiving,
      fun hn => absurd hn hthere, ?_, hgone, ?_⟩, htokens i (by omega)⟩
    · rintro _ ⟨⟩
      exact ht
    · rintro ⟨⟩
    · simpa [LoopNet.sends] using h.data
    · simpa [LoopNet.sends] using h.transmitted

theorem flows_toReceiver {r t : ReceiveLoop μ} {disk : Disk} {bytes : List UInt8} {out : Outgoing}
    (hN : chunkCount dataChunkSize p.file < 65536) (h : Flows p i c x) (hx : x.receiver = some r)
    (hmem : bytes ∈ x.toReceiver)
    (hs : receiveLoopResume p.mem p.sender disk r (.datagram p.sender bytes) = some (t, out)) :
    FlowsOn p i c x ({ x with toReceiver := x.toReceiver.erase bytes }.acknowledges t out) := by
  have hlower := h.lower
  have hupper := h.upper
  have hwithin := h.within
  obtain ⟨j, hj, hji, hcount, hdata⟩ := h.data bytes hmem
  obtain ⟨hcontrol, rfl, hnext⟩ :=
    receiveLoop_hears (h.receiving r hx) hdata (by omega) (by omega) hs
  have hgone := fun b (hb : b ∈ x.toReceiver.erase bytes) => h.data b (Multiset.mem_of_mem_erase hb)
  have hthere : x.sender ≠ none := by
    intro hn
    simp [(h.waiting hn).2.2] at hmem
  have hnumber : number bytes = j := hdata.block (by omega)
  -- the token of the block goes to the loop, which acknowledges this block or a later one
  have htokens : ∀ c', j ≤ c' → ReflTransGen TokenStep (x.tokens i c)
      (({ x with toReceiver := x.toReceiver.erase bytes }.acknowledges t []).tokens i c') := by
    intro c' hle
    refine Rises.reaches (a := {j}) (b := receiverRanks c' (some t)) (rises_ite hle _)
      ((x.toReceiver.erase bytes).map number + x.toSender.map number + senderRanks i x.sender)
      ?_ ?_ rfl rfl
    · simp only [LoopNet.tokens, map_number_erase hmem, hnumber, hx, receiverRanks_some, hcontrol,
        reduceCtorEq, if_false]
      abel
    · simp only [LoopNet.tokens, LoopNet.acknowledges, List.map_nil, Multiset.coe_nil, add_zero]
      abel
  rcases hnext with ⟨rfl, ht⟩ | ⟨hne, ht⟩
  · refine ⟨i, c + 1, ⟨by omega, hji, hcount, h.sending, fun hn => absurd hn hthere, ?_, ?_, hgone,
      ?_, h.transmitted⟩, htokens (c + 1) le_rfl⟩
    · rintro _ ⟨⟩
      exact ht
    · rintro ⟨⟩
    · intro b hb
      obtain ⟨a, ha, hack⟩ := h.acks b (by simpa [LoopNet.acknowledges] using hb)
      exact ⟨a, by omega, hack⟩
  · refine ⟨i, c, ⟨h.lower, h.upper, h.within, h.sending, fun hn => absurd hn hthere, ?_, ?_, hgone,
      ?_, h.transmitted⟩, htokens c (by omega)⟩
    · rintro _ ⟨⟩
      exact ht
    · rintro ⟨⟩
    · simpa [LoopNet.acknowledges] using h.acks

/-- The handshake of an upload takes the first acknowledgement, and the send loop starts. -/
theorem flows_start_sender {f : InputFile} {bytes : List UInt8} (h : Flows p i c x)
    (hf : f.bytes = p.file) (hx : x.sender = none) (hmem : bytes ∈ x.toSender) :
    FlowsOn p i c x { x with
      toSender := x.toSender.erase bytes, sender := some (SendLoop.start f {}) } := by
  obtain ⟨rfl, rfl, hempty⟩ := h.waiting hx
  obtain ⟨a, ha, rfl⟩ := h.acks bytes hmem
  obtain rfl : a = 0 := by omega
  have hthere : x.receiver ≠ none := by
    intro hn
    simp [(h.absent hn).2.1] at hmem
  refine ⟨1, 0, ⟨h.lower, h.upper, h.within, ?_, ?_, h.receiving, fun hn => absurd hn hthere, h.data,
    fun b hb => h.acks b (Multiset.mem_of_mem_erase hb), h.transmitted⟩, ?_⟩
  · rintro _ ⟨⟩
    exact senderCounts_start hf
  · rintro ⟨⟩
  · refine Rises.reaches (a := {0}) (b := senderRanks 1 (some (SendLoop.start f {})))
      (rises_ite le_rfl _)
      (x.toReceiver.map number + (x.toSender.erase (ackBytes 0)).map number +
        receiverRanks 0 x.receiver) ?_ ?_ rfl rfl
    · simp only [LoopNet.tokens, map_number_erase hmem, number_ackBytes (by omega : 0 < 65536), hx,
        senderRanks]
      abel
    · simp only [LoopNet.tokens]
      abel

/-- The handshake of a download takes the first block, and the receive loop starts. -/
theorem flows_start_receiver {disk : Disk} {bytes response : List UInt8} (h : Flows p i c x)
    (hx : x.receiver = none) (hmem : bytes ∈ x.toReceiver) :
    FlowsOn p i c x { x with
      toReceiver := x.toReceiver.erase bytes, receiver := some (p.begins disk response) } := by
  obtain ⟨rfl, hempty, hbegins⟩ := h.absent hx
  obtain ⟨j, hj, hji, hcount, hdata⟩ := h.data bytes hmem
  obtain rfl : j = 1 := by omega
  have hthere : x.sender ≠ none := by
    intro hn
    simp [(h.waiting hn).2.2] at hmem
  refine ⟨1, 1, ⟨by omega, le_rfl, hcount, h.sending, fun hn => absurd hn hthere, ?_, ?_,
    fun b hb => h.data b (Multiset.mem_of_mem_erase hb), ?_, h.transmitted⟩, ?_⟩
  · rintro _ ⟨⟩
    exact hbegins disk response
  · rintro ⟨⟩
  · intro b hb
    simp [hempty] at hb
  · refine Rises.reaches (a := {1}) (b := receiverRanks 1 (some (p.begins disk response)))
      (rises_ite le_rfl _)
      ((x.toReceiver.erase bytes).map number + x.toSender.map number + senderRanks 1 x.sender)
      ?_ ?_ rfl rfl
    · simp only [LoopNet.tokens, map_number_erase hmem, hx, receiverRanks,
        show number bytes = 1 from hdata.block (by omega)]
      abel
    · simp only [LoopNet.tokens]
      abel

/-- A copy of a datagram is a copy of its token. -/
theorem flows_copyToSender {bytes : List UInt8} (h : Flows p i c x) (hmem : bytes ∈ x.toSender) :
    FlowsOn p i c x { x with toSender := bytes ::ₘ x.toSender, copies := x.copies + 1 } := by
  refine ⟨i, c, { h with absent := ?_, acks := ?_ }, .single (.copy (number bytes) ?_ ?_ rfl rfl)⟩
  · intro hn
    simp [(h.absent hn).2.1] at hmem
  · intro b hb
    rcases Multiset.mem_cons.mp hb with rfl | hb
    · exact h.acks _ hmem
    · exact h.acks b hb
  · have := Multiset.mem_map_of_mem number hmem
    simp [LoopNet.tokens, this]
  · simp only [LoopNet.tokens, ← Multiset.singleton_add, Multiset.map_add, Multiset.map_singleton]
    abel

theorem flows_copyToReceiver {bytes : List UInt8} (h : Flows p i c x)
    (hmem : bytes ∈ x.toReceiver) :
    FlowsOn p i c x { x with toReceiver := bytes ::ₘ x.toReceiver, copies := x.copies + 1 } := by
  refine ⟨i, c, { h with waiting := ?_, data := ?_ }, .single (.copy (number bytes) ?_ ?_ rfl rfl)⟩
  · intro hn
    simp [(h.waiting hn).2.2] at hmem
  · intro b hb
    rcases Multiset.mem_cons.mp hb with rfl | hb
    · exact h.data _ hmem
    · exact h.data b hb
  · have := Multiset.mem_map_of_mem number hmem
    simp [LoopNet.tokens, this]
  · simp only [LoopNet.tokens, ← Multiset.singleton_add, Multiset.map_add, Multiset.map_singleton]
    abel

theorem flows_next {event : LoopEvent} (hN : chunkCount dataChunkSize p.file < 65536)
    (h : Flows p i c x) (hs : x.next p event = some y) : FlowsOn p i c x y := by
  cases event with
  | sender disk wake =>
    simp only [LoopNet.next] at hs
    split at hs
    next hw =>
      obtain ⟨s, hx, hs⟩ := Option.bind_eq_some_iff.mp hs
      obtain ⟨⟨t, out⟩, hr, rfl⟩ := Option.map_eq_some_iff.mp hs
      exact flows_sender hN h hx hw hr
    next => cases hs
  | receiver disk wake =>
    simp only [LoopNet.next] at hs
    split at hs
    next hw =>
      obtain ⟨r, hx, hs⟩ := Option.bind_eq_some_iff.mp hs
      obtain ⟨⟨t, out⟩, hr, rfl⟩ := Option.map_eq_some_iff.mp hs
      exact flows_receiver hN h hx hw hr
    next => cases hs
  | toSender disk bytes =>
    simp only [LoopNet.next] at hs
    split at hs
    next hmem =>
      split at hs
      next hx =>
        split at hs
        next =>
          cases hs
          exact flows_start_sender h rfl hx hmem
        next => cases hs
      next s hx =>
        obtain ⟨⟨t, out⟩, hr, rfl⟩ := Option.map_eq_some_iff.mp hs
        exact flows_toSender hN h rfl hx hmem hr
    next => cases hs
  | toReceiver disk bytes =>
    simp only [LoopNet.next] at hs
    split at hs
    next hmem =>
      split at hs
      next hx =>
        split at hs
        next =>
          cases hs
          exact flows_start_receiver h hx hmem
        next => cases hs
      next r hx =>
        obtain ⟨⟨t, out⟩, hr, rfl⟩ := Option.map_eq_some_iff.mp hs
        exact flows_toReceiver hN h hx hmem hr
    next => cases hs
  | copyToSender bytes =>
    simp only [LoopNet.next] at hs
    split at hs
    next hmem =>
      cases hs
      exact flows_copyToSender h hmem
    next => cases hs
  | copyToReceiver bytes =>
    simp only [LoopNet.next] at hs
    split at hs
    next hmem =>
      cases hs
      exact flows_copyToReceiver h hmem
    next => cases hs

/-- From a start with one token, no block is sent more often than packets are copied, and once. -/
theorem transmitted_le {start : LoopNet μ} {events : List LoopEvent}
    (hN : chunkCount dataChunkSize p.file < 65536) (h : Flows p i c start)
    (hone : ∀ rank, (start.tokens i c).claims rank ≤ start.copies + 1)
    (run : events.foldlM (LoopNet.next p) start = some x) :
    x.transmitted.length ≤ (x.copies + 1) * chunkCount dataChunkSize p.file := by
  obtain ⟨i', c', hx, hreach⟩ := foldlM_invariant (P := FlowsOn p i c start) run ⟨i, c, h, .refl⟩
    fun y event z ⟨i₁, c₁, hy, hreach⟩ hs => by
      obtain ⟨i₂, c₂, hz, hstep⟩ := flows_next hN hy hs
      exact ⟨i₂, c₂, hz, hreach.trans hstep⟩
  have hlength := length_le_of_count_le hx.transmitted (tokens_emitted_count_le hreach hone)
  simpa [LoopNet.tokens] using hlength

/-- Both loops of a transfer without copies, after `n` transmissions: the sender is about to send
block `i`, the receiver has written `c` blocks, and nothing is in flight. -/
def Lockstep (p : LoopPair μ) (i c n : Nat) (x : LoopNet μ) : Prop :=
  ∃ s r transmitted, x = ⟨some s, some r, 0, 0, 0, transmitted⟩ ∧
    SenderReady p.file i .sending s ∧ ReceiverReady p.mem p.file c .receiving r ∧
    transmitted.length = n

/-- A block goes to the receiver, and what the receiver answers goes back. -/
theorem lockstep_round {c' i' n : Nat} (h : Lockstep p i c n x)
    (hear : ∀ {r}, ReceiverReady p.mem p.file c .receiving r →
      ∃ r', receiveLoopResume p.mem p.sender {} r (.datagram p.sender (dataBytes p.file i)) =
        some (r', []) ∧ ReceiverReady p.mem p.file c' .sending r')
    (heard : ∀ {s f}, f.bytes = p.file → (∀ n, f.readFault n = false) →
      SenderReady p.file i .receiving s → ∃ s', sendLoopResume p.errorMsg p.receiver f s
        (.datagram p.receiver (ackBytes c')) = some (s', []) ∧ SenderReady p.file i' .sending s') :
    ∃ (events : List LoopEvent) (y : LoopNet μ),
      events.foldlM (LoopNet.next p) x = some y ∧ Lockstep p i' c' (n + 1) y := by
  obtain ⟨s, r, transmitted, rfl, hs, hr, hn⟩ := h
  obtain ⟨r', hr', hready⟩ := hear hr
  obtain ⟨s', hs', hnext⟩ := heard (f := ⟨p.file, fun _ => false⟩) rfl (fun _ => rfl) hs.sent
  refine ⟨[.sender {} (.sent none), .toReceiver {} (dataBytes p.file i), .receiver {} (.sent none),
    .toSender {} (ackBytes c')],
    ⟨some s', some { r' with control := .receiving }, 0, 0, 0, transmitted ++ [dataBytes p.file i]⟩,
    ?_, s', _, _, rfl, hnext, hready.confirmed, by simp [hn]⟩
  simp [LoopNet.next, Wake.internal, hs.send, hr', hready.confirm, hs', LoopNet.sends,
    LoopNet.acknowledges]

/-- The blocks before the number wraps are sent once each; block 65536 is sent and refused for
ever. -/
theorem lockstep_after {start : LoopNet μ} (hm : p.mem.Counts)
    (hN : 65536 ≤ chunkCount dataChunkSize p.file) (begins : ∃ (events : List LoopEvent)
      (x : LoopNet μ), events.foldlM (LoopNet.next p) start = some x ∧ Lockstep p 1 0 0 x) (n : Nat) :
    ∃ (events : List LoopEvent) (x : LoopNet μ), events.foldlM (LoopNet.next p) start = some x ∧
      Lockstep p (min (n + 1) 65536) (min n 65535) n x := by
  induction n with
  | zero => exact begins
  | succ n ih =>
    obtain ⟨events, x, run, hx⟩ := ih
    suffices h : ∃ (more : List LoopEvent) (y : LoopNet μ), more.foldlM (LoopNet.next p) x = some y ∧
        Lockstep p (min (n + 1 + 1) 65536) (min (n + 1) 65535) (n + 1) y by
      obtain ⟨more, y, hmore, hy⟩ := h
      exact ⟨events ++ more, y, by rw [List.foldlM_append, run]; exact hmore, hy⟩
    by_cases hn : n < 65535
    · rw [min_eq_left (by omega), min_eq_left (by omega)] at hx
      rw [min_eq_left (by omega), min_eq_left (by omega)]
      refine lockstep_round hx (fun hr => ⟨_, hr.accept (by omega),
        hr.accepted hm disk_works (by omega) (by omega)⟩) fun hf hfault hs => ⟨_, hs.advance rfl, ?_⟩
      have hnext := hs.advanced hf hfault
      rwa [senderGoesOn_of_le (by omega)] at hnext
    · rw [min_eq_right (by omega), min_eq_right (by omega)] at hx
      rw [min_eq_right (by omega), min_eq_right (by omega)]
      exact lockstep_round hx (fun hr => ⟨_, hr.again (by decide), hr.loopHead⟩)
        fun _ _ hs => ⟨_, hs.ignore (by decide), hs.ignored⟩

end

theorem upload_flows (client connection : Endpoint) (file : List UInt8) (stream : OfStream) :
    Flows (uploadLoops client connection file stream) 1 0 (uploadStart stream) := by
  refine ⟨le_rfl, by omega, Nat.zero_le _, by simp [uploadStart], fun _ => ⟨rfl, rfl, rfl⟩, ?_,
    by simp [uploadStart], by simp [uploadStart], by simp [uploadStart], by simp [uploadStart]⟩
  rintro _ ⟨⟩
  exact ReceiverCounts.loopHead rfl

theorem download_flows (connection client : Endpoint) (file : List UInt8) (stream : OfStream)
    (disk : Disk) :
    Flows (downloadLoops connection client file stream) 1 0 (downloadStart file disk) := by
  refine ⟨le_rfl, by omega, Nat.zero_le _, ?_, by simp [downloadStart], by simp [downloadStart],
    fun _ => ⟨rfl, rfl, fun disk response => ReceiverCounts.loopHead rfl⟩, by simp [downloadStart],
    by simp [downloadStart], by simp [downloadStart]⟩
  rintro _ ⟨⟩
  exact senderCounts_start rfl

/-- Where nothing is lost and no wait ends, every block is sent at most once for each copy that the
network makes, and once more: a copied packet may make the loops send every later block twice. -/
theorem retransmissions_le (sender receiver : Endpoint) (file : List UInt8) (stream : OfStream)
    (hfile : file.length < 65535 * dataChunkSize) (events : List LoopEvent) :
    (∀ x, events.foldlM (LoopNet.next (uploadLoops sender receiver file stream))
        (uploadStart stream) = some x →
      x.transmitted.length ≤ (x.copies + 1) * chunkCount dataChunkSize file) ∧
    ∀ disk x, events.foldlM (LoopNet.next (downloadLoops sender receiver file stream))
        (downloadStart file disk) = some x →
      x.transmitted.length ≤ (x.copies + 1) * chunkCount dataChunkSize file := by
  have hN : chunkCount dataChunkSize file < 65536 := by
    by_cases hne : file = []
    · simp [hne, chunkCount]
    · exact (chunkCount_lt_iff hne).mpr hfile
  refine ⟨fun x run => ?_, fun disk x run => ?_⟩
  · refine transmitted_le hN (upload_flows sender receiver file stream) (fun rank => ?_) run
    simp only [Tokens.claims, LoopNet.tokens, uploadStart, senderRanks, receiverRanks_some]
    split
    next =>
      simp only [Multiset.map_zero, add_zero, zero_add, List.map_nil, List.count_nil]
      exact (Multiset.countP_le_card _ _).trans (by simp)
    next => simp
  · refine transmitted_le hN (download_flows sender receiver file stream disk) (fun rank => ?_) run
    simp only [Tokens.claims, LoopNet.tokens, downloadStart, receiverRanks, senderRanks_some]
    split
    next =>
      simp only [Multiset.map_zero, add_zero, zero_add, List.map_nil, List.count_nil]
      exact (Multiset.countP_le_card _ _).trans (by simp)
    next => simp

theorem upload_lockstep {client connection : Endpoint} {file : List UInt8} {stream : OfStream}
    (hne : file ≠ []) (hc : stream.contents = []) (ho : stream.isOpen = true)
    (hg : stream.good = true) : ∃ (events : List LoopEvent) (x : LoopNet Bool),
      events.foldlM (LoopNet.next (uploadLoops client connection file stream)) (uploadStart stream) =
        some x ∧ Lockstep (uploadLoops client connection file stream) 1 0 0 x := by
  have hr := receiverReady_serverStart hne hc ho hg
  have hs := senderReady_start (f := ⟨file, fun _ => false⟩) rfl fun _ => rfl
  rw [senderGoesOn_of_le (by simp [chunkCount, hne])] at hs
  refine ⟨[.receiver {} (.sent none), .toSender {} (ackBytes 0)], _, ?_, _, _, [], rfl, hs,
    hr.confirmed, rfl⟩
  simp [LoopNet.next, Wake.internal, uploadLoops, uploadStart, hr.confirm, LoopNet.acknowledges,
    handleServerResponse_ack]

/-- A longer file is never through: without a copy, its transmissions have no bound. -/
theorem long_file_unbounded {client connection : Endpoint} {file : List UInt8} {stream : OfStream}
    (hfile : 65535 * dataChunkSize ≤ file.length) (hc : stream.contents = [])
    (ho : stream.isOpen = true) (hg : stream.good = true) (n : Nat) :
    ∃ (events : List LoopEvent) (x : LoopNet Bool),
      events.foldlM (LoopNet.next (uploadLoops client connection file stream)) (uploadStart stream) =
        some x ∧ x.copies = 0 ∧ x.transmitted.length = n := by
  have hne : file ≠ [] := by
    rintro rfl
    simp [dataChunkSize] at hfile
  have hN : 65536 ≤ chunkCount dataChunkSize file :=
    Nat.le_of_not_lt fun hlt => absurd ((chunkCount_lt_iff hne).mp hlt) (Nat.not_lt.mpr hfile)
  obtain ⟨events, x, run, s, r, transmitted, rfl, _, _, hn⟩ := lockstep_after
    (p := uploadLoops client connection file stream) serverMemory_counts hN
    (upload_lockstep hne hc ho hg) n
  exact ⟨events, _, run, rfl, hn⟩

/-- The first acknowledgement is copied, and from then on there are two of every packet. -/
def copiedAck : List LoopEvent :=
  [.receiver {} (.sent none), .copyToSender (ackBytes 0),
    .toSender {} (ackBytes 0), .sender {} (.sent none),
    .toSender {} (ackBytes 0), .sender {} (.sent none),
    .toReceiver {} (dataBytes twoBlocks 1), .receiver {} (.sent none),
    .toReceiver {} (dataBytes twoBlocks 1), .receiver {} (.sent none),
    .toSender {} (ackBytes 1), .sender {} (.sent none),
    .toSender {} (ackBytes 1), .sender {} (.sent none)]

def afterCopiedAck : Option (LoopNet Bool) :=
  copiedAck.foldlM (LoopNet.next (uploadLoops twoHosts.client twoHosts.connection twoBlocks {}))
    (uploadStart {})

theorem afterCopiedAck_isSome : afterCopiedAck.isSome = true := by decide +kernel

theorem retransmissions_le_copied : (afterCopiedAck.get afterCopiedAck_isSome).transmitted.length ≤
    ((afterCopiedAck.get afterCopiedAck_isSome).copies + 1) * chunkCount dataChunkSize twoBlocks :=
  (retransmissions_le twoHosts.client twoHosts.connection twoBlocks {}
    (by rw [twoBlocks, List.length_replicate]; decide) copiedAck).1 _
    (Option.some_get afterCopiedAck_isSome).symm

/-- The shortest file whose last block has the number 0 again. -/
def wrappingFile : List UInt8 := List.replicate (65535 * dataChunkSize) 7

/-- One copied packet costs two more transmissions, one for each block, and without any copy a
file whose block numbers wrap costs as many as one likes. -/
theorem copied_packet_storm : (∃ x, copiedAck.foldlM
      (LoopNet.next (uploadLoops twoHosts.client twoHosts.connection twoBlocks {}))
      (uploadStart {}) = some x ∧
    ¬ x.transmitted.length ≤ chunkCount dataChunkSize twoBlocks + x.copies) ∧
    ∀ n, ∃ (events : List LoopEvent) (x : LoopNet Bool), events.foldlM
      (LoopNet.next (uploadLoops twoHosts.client twoHosts.connection wrappingFile {}))
      (uploadStart {}) = some x ∧ x.copies = 0 ∧ x.transmitted.length = n := by
  refine ⟨⟨afterCopiedAck.get afterCopiedAck_isSome, (Option.some_get afterCopiedAck_isSome).symm,
    by decide +kernel⟩, fun n => ?_⟩
  exact long_file_unbounded List.length_replicate.ge rfl rfl rfl n

end Protocols
