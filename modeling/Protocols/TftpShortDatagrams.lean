import Protocols.TftpDallying

namespace Protocols

/-- The four programs that wait for datagrams of a transfer. -/
inductive TransferEnd
  | writeClient (c : WriteClient)
  | readClient (c : ReadClient)
  | readConnection (c : ReadConnection)
  | writeConnection (c : WriteConnection)

def TransferEnd.resume (disk : Disk) (dir : Directory) (wake : Wake) :
    TransferEnd → Option TransferEnd
  | writeClient c => (writeClientResume disk c wake).map fun (c, _) => .writeClient c
  | readClient c => (readClientResume disk dir c wake).map fun (_, c, _) => .readClient c
  | readConnection c => (readConnectionResume disk dir c wake).map fun (c, _) => .readConnection c
  | writeConnection c =>
    (writeConnectionResume disk dir c wake).map fun (_, c, _) => .writeConnection c

/-- With this resumption a datagram has counted as the expected ACK or DATA: the handshake has
ended well, or the block number of the loop has gone on. -/
def TransferEnd.advances : TransferEnd → TransferEnd → Bool
  | writeClient c, writeClient c' => c.counts c'
  | readClient c, readClient c' => match c.control, c'.control with
    | .responding, .opened _ _ => true
    | .responding, .threw => true
    | .looping s, .looping t => t.currentBlock != s.currentBlock
    | _, _ => false
  | readConnection c, readConnection c' => match c.control, c'.control with
    | .looping s, .looping t => t.dataPacket.block != s.dataPacket.block
    | _, _ => false
  | writeConnection c, writeConnection c' => match c.control, c'.control with
    | .looping s, .looping t => t.currentBlock != s.currentBlock
    | _, _ => false
  | _, _ => false

def Wake.bytes : Wake → Option (List UInt8)
  | .datagram _ bytes => some bytes
  | _ => none

/-- A program, and the datagrams that have counted so far. -/
structure TransferHistory where
  side : TransferEnd
  counted : List (List UInt8)

/-- The directory may have been changed by others before each resumption. -/
def TransferHistory.next (h : TransferHistory) (event : Disk × Directory × Wake) :
    Option TransferHistory :=
  (h.side.resume event.1 event.2.1 event.2.2).map fun side =>
    ⟨side, h.counted ++ if h.side.advances side then event.2.2.bytes.toList else []⟩

/-- The program waits for an acknowledgement of block 0 from the endpoint: that of its write
request, or that of a block whose number has come back to 0. -/
def TransferEnd.AwaitsZero (sender : Endpoint) : TransferEnd → Prop
  | writeClient c => match c.control with
    | .responding => True
    | .looping s => sender = c.server ∧ s.dataPacket.block = 0
    | _ => False
  | readConnection c => match c.control with
    | .looping s => sender = c.clientEndpoint ∧ s.dataPacket.block = 0
    | _ => False
  | readClient _ | writeConnection _ => False

/-- An acknowledgement without a block number comes where block 0 is awaited. -/
def TransferEnd.MissesNumber (side : TransferEnd) (wake : Wake) : Prop :=
  ∃ sender bytes, wake = .datagram sender bytes ∧ bytes.length < 4 ∧ getOpcode bytes = .ack ∧
    side.AwaitsZero sender

theorem receivePacket_short {bytes : List UInt8} (h : bytes.length < 4) :
    receivePacket bytes = bytes :=
  List.take_of_length_le (by simp only [maxReceiveSize]; omega)

theorem getBlockNumber_short {bytes : List UInt8} (h : bytes.length < 4) :
    getBlockNumber bytes = 0 := by
  match bytes with
  | [] => rfl
  | [_] => rfl
  | [_, _] => rfl
  | [_, _, _] => rfl
  | _ :: _ :: _ :: _ :: _ => simp at h; omega

theorem getError_short {bytes : List UInt8} (h : bytes.length < 4) :
    (getError bytes).1 = .unknown := by
  rw [getError, if_pos (by omega)]

theorem sendLoop_short_counts_iff {msg : String} {peer sender : Endpoint} {f : InputFile}
    {s t : SendLoop} {bytes : List UInt8} {out : Outgoing} (hb : bytes.length < 4)
    (hs : sendLoopResume msg peer f s (.datagram sender bytes) = some (t, out)) :
    t.dataPacket.block ≠ s.dataPacket.block ↔
      getOpcode bytes = .ack ∧ sender = peer ∧ s.dataPacket.block = 0 := by
  have hacknowledged : (s.acknowledged f).dataPacket.block = s.dataPacket.block + 1 := by
    simp [SendLoop.acknowledged]
  have hacked : (getBlockNumber (receivePacket bytes) = s.dataPacket.block) ↔
      s.dataPacket.block = 0 := by
    rw [receivePacket_short hb, getBlockNumber_short hb, eq_comm]
  cases sendLoopResume_step hs with
  | expired _ hw => cases hw
  | sent _ hw => cases hw
  | unsent _ _ hw => cases hw
  | unheard _ hw => cases hw
  | stranger _ _ _ hw hne =>
    cases hw
    exact iff_of_false (by simp) fun h => hne h.2.1
  | ignored _ _ hw hno =>
    cases hw
    refine iff_of_false (by simp) fun h => ?_
    rw [ne_eq, ne_eq, hacked, receivePacket_short hb] at hno
    exact hno.elim (fun hne => hne h.1) fun hne => hne h.2.2
  | acknowledged _ _ hw hop hblock =>
    cases hw
    rw [receivePacket_short hb] at hop
    refine iff_of_true ?_ ⟨hop, rfl, hacked.mp hblock⟩
    rw [hacknowledged]
    exact uint16_succ_ne _
  | answered _ _ hw => cases hw
  | unanswered _ _ _ hw => cases hw

/-- The loop compares with a number that is at least 1. -/
theorem receiveLoop_short_stays {μ : Type} {mem : ReceiveMemory μ} {peer sender : Endpoint}
    {disk : Disk} {s t : ReceiveLoop μ} {bytes : List UInt8} {out : Outgoing}
    (hb : bytes.length < 4)
    (hs : receiveLoopResume mem peer disk s (.datagram sender bytes) = some (t, out)) :
    t.currentBlock = s.currentBlock := by
  rcases receiveLoop_resume_cases hs with ⟨hblock, _⟩ | ⟨_, _, bytes', hw, _, hblock, _⟩
  · exact hblock
  · cases hw
    rw [receivePacket_short hb, getBlockNumber_short hb] at hblock
    simp at hblock

theorem handshake_short_ok_iff {expected : Opcode} {block : UInt16} {sender : Endpoint}
    {bytes : List UInt8} (hb : bytes.length < 4) :
    (∃ x, handleServerResponse expected block (.datagram sender bytes) = some (.ok x)) ↔
      getOpcode bytes = expected ∧ block = 0 := by
  simp only [handleServerResponse, receivePacket_short hb, getError_short hb,
    getBlockNumber_short hb]
  rw [if_neg (by simp)]
  split
  next hne =>
    refine iff_of_false (by simp) fun h => ?_
    simp [h.1, h.2] at hne
  next heq =>
    simp only [ne_eq, not_or, not_not] at heq
    exact iff_of_true ⟨_, rfl⟩ ⟨heq.1, heq.2.symm⟩

theorem not_missesNumber {side : TransferEnd} {wake : Wake} (h : wake.bytes = none) :
    ¬ side.MissesNumber wake := by
  rintro ⟨_, _, rfl, _⟩
  cases h

section

variable {sender : Endpoint} {bytes : List UInt8} {disk : Disk} {dir dir' : Directory} {out : Outgoing}

theorem writeClient_short_counts_iff {c c' : WriteClient} (hb : bytes.length < 4)
    (hr : writeClientResume disk c (.datagram sender bytes) = some (c', out)) :
    (TransferEnd.writeClient c).advances (.writeClient c') = true ↔
      getOpcode bytes = .ack ∧ (TransferEnd.writeClient c).AwaitsZero sender := by
  cases writeClientResume_step hr with
  | requested _ hw => cases hw
  | unsent _ _ hw => cases hw
  | refused error hc he =>
    refine iff_of_false (by simp [TransferEnd.advances, WriteClient.counts, hc]) fun h => ?_
    obtain ⟨x, hx⟩ := (@handshake_short_ok_iff .ack 0 sender bytes hb).mpr ⟨h.1, rfl⟩
    rw [he] at hx
    cases hx
  | answered sender' response hc he =>
    refine iff_of_true (by simp [TransferEnd.advances, WriteClient.counts, hc])
      ⟨((handshake_short_ok_iff hb).mp ⟨_, he⟩).1, ?_⟩
    simp [TransferEnd.AwaitsZero, hc]
  | started _ hw => cases hw
  | returned _ _ _ _ hw => cases hw
  | looped loop loop' out hc hloop =>
    simpa [TransferEnd.advances, WriteClient.counts, TransferEnd.AwaitsZero, hc] using
      sendLoop_short_counts_iff hb hloop

/-- The handshake waits for block 1. -/
theorem readClient_short_stays {c c' : ReadClient} (hb : bytes.length < 4)
    (hr : readClientResume disk dir c (.datagram sender bytes) = some (dir', c', out)) :
    (TransferEnd.readClient c).advances (.readClient c') = false := by
  have hno : ∀ x, handleServerResponse .data 1 (.datagram sender bytes) ≠ some (.ok x) := by
    intro x hx
    have := ((handshake_short_ok_iff hb).mp ⟨x, hx⟩).2
    simp at this
  cases readClientResume_step hr with
  | requested _ hw => cases hw
  | unsent _ _ hw => cases hw
  | refused error hc => simp [TransferEnd.advances, hc]
  | unopened _ _ _ he => exact absurd he (hno _)
  | answered _ _ _ he => exact absurd he (hno _)
  | started _ _ _ hw => cases hw
  | failed _ _ _ _ hw => cases hw
  | succeeded _ _ _ hw => cases hw
  | looped loop loop' out hc hloop =>
    simp [TransferEnd.advances, hc, receiveLoop_short_stays hb hloop]

theorem readConnection_short_counts_iff {c c' : ReadConnection} (hb : bytes.length < 4)
    (hr : readConnectionResume disk dir c (.datagram sender bytes) = some (c', out)) :
    (TransferEnd.readConnection c).advances (.readConnection c') = true ↔
      getOpcode bytes = .ack ∧ (TransferEnd.readConnection c).AwaitsZero sender := by
  cases readConnectionResume_step hr with
  | missing _ hw => cases hw
  | found _ hw => cases hw
  | refused _ hw => cases hw
  | unsent _ _ hw => cases hw
  | started _ hw => cases hw
  | returned _ _ _ _ hw => cases hw
  | looped loop loop' out hc hloop =>
    simpa [TransferEnd.advances, TransferEnd.AwaitsZero, hc] using
      sendLoop_short_counts_iff hb hloop

theorem writeConnection_short_stays {c c' : WriteConnection} (hb : bytes.length < 4)
    (hr : writeConnectionResume disk dir c (.datagram sender bytes) = some (dir', c', out)) :
    (TransferEnd.writeConnection c).advances (.writeConnection c') = false := by
  cases writeConnectionResume_step hr with
  | present _ hw => cases hw
  | created _ hw => cases hw
  | refused _ hw => cases hw
  | unsent _ _ hw => cases hw
  | started _ _ hw => cases hw
  | returned _ _ _ _ hw => cases hw
  | looped loop loop' out hc hloop =>
    simp [TransferEnd.advances, hc, receiveLoop_short_stays hb hloop]

end

theorem missesNumber_short_iff {side : TransferEnd} {sender : Endpoint} {bytes : List UInt8}
    (hb : bytes.length < 4) : side.MissesNumber (.datagram sender bytes) ↔
      getOpcode bytes = .ack ∧ side.AwaitsZero sender := by
  constructor
  · rintro ⟨_, _, he, _, hop, hz⟩
    cases he
    exact ⟨hop, hz⟩
  · rintro ⟨hop, hz⟩
    exact ⟨sender, bytes, rfl, hb, hop, hz⟩

/-- A datagram of fewer than four bytes counts exactly where it acknowledges block 0. -/
theorem transferEnd_short_iff {side side' : TransferEnd} {disk : Disk} {dir : Directory}
    {sender : Endpoint} {bytes : List UInt8} (hb : bytes.length < 4)
    (hs : side.resume disk dir (.datagram sender bytes) = some side') :
    side.advances side' = true ↔ side.MissesNumber (.datagram sender bytes) := by
  rw [missesNumber_short_iff hb]
  cases side with
  | writeClient c =>
    obtain ⟨⟨c', out⟩, hr, rfl⟩ := Option.map_eq_some_iff.mp hs
    exact writeClient_short_counts_iff hb hr
  | readClient c =>
    obtain ⟨⟨dir', c', out⟩, hr, rfl⟩ := Option.map_eq_some_iff.mp hs
    exact iff_of_false (by rw [readClient_short_stays hb hr]; simp) fun h => h.2
  | readConnection c =>
    obtain ⟨⟨c', out⟩, hr, rfl⟩ := Option.map_eq_some_iff.mp hs
    exact readConnection_short_counts_iff hb hr
  | writeConnection c =>
    obtain ⟨⟨dir', c', out⟩, hr, rfl⟩ := Option.map_eq_some_iff.mp hs
    exact iff_of_false (by rw [writeConnection_short_stays hb hr]; simp) fun h => h.2

/-- Every datagram that has counted carries an opcode and a block number. -/
def TransferHistory.Numbered (h : TransferHistory) : Prop := ∀ bytes ∈ h.counted, 4 ≤ bytes.length

/-- In every run, only datagrams with an opcode and a block number have counted, exactly if no
acknowledgement without a number has come where block 0 was awaited. -/
theorem counted_numbered_iff (side : TransferEnd) (events : List (Disk × Directory × Wake))
    (h : TransferHistory) (run : List.foldlM TransferHistory.next ⟨side, []⟩ events = some h) :
    h.Numbered ↔ ¬ MeetsEvent TransferHistory.next (fun h event => h.side.MissesNumber event.2.2)
      ⟨side, []⟩ events := by
  refine foldlM_history (P := fun before h => h.Numbered ↔ ¬ MeetsEvent TransferHistory.next
    (fun h event => h.side.MissesNumber event.2.2) ⟨side, []⟩ before) run
    (iff_of_true (by simp [TransferHistory.Numbered]) meetsEvent_nil) ?_
  intro before u event v _ hrun hu hs
  obtain ⟨side', hr, rfl⟩ := Option.map_eq_some_iff.mp hs
  rw [meetsEvent_snoc hrun, not_or, ← hu]
  simp only [TransferHistory.Numbered, List.forall_mem_append]
  refine and_congr_right fun _ => ?_
  obtain ⟨disk, dir, wake⟩ := event
  cases hw : wake with
  | datagram sender bytes =>
    subst hw
    rcases Nat.lt_or_ge bytes.length 4 with hb | hb
    · rw [← transferEnd_short_iff hb hr]
      simp only [Wake.bytes, Option.toList_some]
      split
      next hadv =>
        refine iff_of_false (fun hall => ?_) (by simp [hadv])
        have := hall bytes (List.mem_singleton_self _)
        omega
      next hadv => exact iff_of_true (by simp) hadv
    · refine iff_of_true ?_ ?_
      · intro bytes' hm
        split at hm
        next =>
          rw [Wake.bytes, Option.toList_some, List.mem_singleton] at hm
          rwa [hm]
        next => simp at hm
      · rintro ⟨_, _, he, hlt, _⟩
        cases he
        omega
  | _ => exact iff_of_true (by simp [Wake.bytes]) (not_missesNumber rfl)

/-- A `write_client` that has sent its request. -/
def requestedWrite : TransferEnd := .writeClient ⟨⟨2, 69⟩, literal "f", [7], .requesting⟩

def heardBy (wakes : List Wake) : List (Disk × Directory × Wake) :=
  wakes.map fun wake => ({}, fun _ => none, wake)

theorem counted_numbered_ack :
    ∃ h, List.foldlM TransferHistory.next ⟨requestedWrite, []⟩
        (heardBy [.sent none, .datagram ⟨2, 50001⟩ (ackBytes 0)]) = some h ∧
      h.counted = [ackBytes 0] ∧
      ¬ MeetsEvent TransferHistory.next (fun h event => h.side.MissesNumber event.2.2)
        ⟨requestedWrite, []⟩ (heardBy [.sent none, .datagram ⟨2, 50001⟩ (ackBytes 0)]) :=
  ⟨_, rfl, rfl, (counted_numbered_iff requestedWrite _ _ rfl).mp
    (by rw [TransferHistory.Numbered]; decide)⟩

/-- Two bytes with the opcode of an acknowledgement end the handshake of `write_client`. -/
theorem two_bytes_count :
    ∃ h, List.foldlM TransferHistory.next ⟨requestedWrite, []⟩
        (heardBy [.sent none, .datagram ⟨2, 50001⟩ [0, 4]]) = some h ∧
      h.counted = [[0, 4]] ∧ ¬ h.Numbered := by
  refine ⟨_, rfl, by decide, fun h => ?_⟩
  have := h [0, 4] (by decide)
  simp at this

end Protocols
