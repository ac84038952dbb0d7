import Protocols.TftpPerfect
import Protocols.TftpReady

namespace Protocols

/-- A party that runs a send loop of the file until the loop has ended without an error. -/
structure SendHost {α : Type} (p : Party α) (msg : String) (peer : Endpoint) (file : List UInt8)
    (embed : SendLoop → α) (done : α) : Prop where
  resume : ∀ {disk s wake}, disk.Works → (∀ e, s.control ≠ .finished e) →
    p.resume disk (embed s) wake =
      (sendLoopResume msg peer ⟨file, disk.readFault⟩ s wake).map fun (t, out) => (embed t, out)
  ends : ∀ {disk s wake}, s.control = .finished none →
    p.resume disk (embed s) wake = if wake = .scheduled then some (done, []) else none
  stops : ∀ disk wake, p.resume disk done wake = none
  listens : ∀ {s}, p.listens (embed s) = p.endpoint
  result_embed : ∀ {s}, p.result (embed s) = none
  result_done : p.result done = some none

/-- A party that runs a receive loop, and what it holds once the loop has ended without an
error. -/
structure ReceiveHost {β μ : Type} (q : Party β) (mem : ReceiveMemory μ) (peer : Endpoint)
    (holds : β → Option Entry) (embed done : ReceiveLoop μ → β) : Prop where
  resume : ∀ {disk l wake}, disk.Works → l.fileStream.isOpen = true →
    (∀ e, l.control ≠ .finished e) → q.resume disk (embed l) wake =
      (receiveLoopResume mem peer disk l wake).map fun (t, out) => (embed t, out)
  ends : ∀ {disk l wake}, disk.Works → l.fileStream.isOpen = true → l.control = .finished none →
    q.resume disk (embed l) wake = if wake = .scheduled then some (done l, []) else none
  stops : ∀ {l} disk wake, q.resume disk (done l) wake = none
  listens : ∀ {l}, q.listens (embed l) = q.endpoint
  result_embed : ∀ {l}, q.result (embed l) = none
  result_done : ∀ {l}, q.result (done l) = some none
  holds_done : ∀ {l}, l.fileStream.isOpen = true → holds (done l) = some (.file l.fileStream.contents)

/-- Both ends have returned without an error and the receiver holds the file. -/
def Delivered {α β : Type} (p : Party α) (q : Party β) (holds : β → Option Entry)
    (file : List UInt8) (x : PerfectExchange α β) : Prop :=
  p.result x.sender = some none ∧ q.result x.receiver = some none ∧
    holds x.receiver = some (.file file)

section

variable {α β μ : Type} {p : Party α} {q : Party β} {msg : String} {file : List UInt8}
  {mem : ReceiveMemory μ} {holds : β → Option Entry} {sending : SendLoop → α} {sent : α}
  {receiving received : ReceiveLoop μ → β} {inFlight : List Packet}
  {peer : Option (Option ErrorCode)} {i c : Nat} {s : SendLoop} {l : ReceiveLoop μ}

theorem SendHost.listening (h : SendHost p msg q.endpoint file sending sent)
    (hs : SenderReady file i .receiving s) (disk : Disk) (hd : disk.Works) :
    p.resume disk (sending s) .scheduled = none ∧ p.resume disk (sending s) (.sent none) = none := by
  have hrun : ∀ e, s.control ≠ .finished e := by simp [hs.control_eq]
  rw [h.resume hd hrun, h.resume hd hrun]
  simp [sendLoopResume, hs.control_eq]

theorem ReceiveHost.listening (h : ReceiveHost q mem p.endpoint holds receiving received)
    (hl : ReceiverReady mem file c .receiving l) (disk : Disk) (hd : disk.Works) :
    q.resume disk (receiving l) .scheduled = none ∧
      q.resume disk (receiving l) (.sent none) = none := by
  have hrun : ∀ e, l.control ≠ .finished e := by simp [hl.control_eq]
  rw [h.resume hd hl.opened hrun, h.resume hd hl.opened hrun]
  simp [receiveLoopResume, hl.control_eq]

/-- The transfer while both ends run their loops: the sender is at block `i`, the receiver has
written `c` blocks. -/
def TransferStage (mem : ReceiveMemory μ) (file : List UInt8) (sending : SendLoop → α)
    (receiving : ReceiveLoop μ → β) (i c : Nat) (senderAt receiverAt : LoopControl)
    (inFlight : List Packet) (x : PerfectExchange α β) : Prop :=
  ∃ s l, x = ⟨sending s, receiving l, inFlight⟩ ∧ SenderReady file i senderAt s ∧
    ReceiverReady mem file c receiverAt l

section

variable (hp : SendHost p msg q.endpoint file sending sent)
  (hq : ReceiveHost q mem p.endpoint holds receiving received)

include hp hq

theorem transfer_send (i c : Nat) :
    LeadsTo (PerfectStep p q) (TransferStage mem file sending receiving i c .sending .receiving [])
      (TransferStage mem file sending receiving i c .receiving .receiving
        [⟨p.endpoint, q.endpoint, dataBytes file i⟩]) := by
  apply leadsTo_of_sender
  rintro _ ⟨s, l, rfl, hs, hl⟩
  have hrun : ∀ e, s.control ≠ .finished e := by simp [hs.control_eq]
  simp only [hp.result_embed]
  refine ⟨waits_of_listening (hq.listening hl) (by simp), moves_of_wake (Or.inr rfl) ?_ ?_⟩
  · intro disk w hd hne hw hsent
    rw [hp.resume hd hrun,
      sendLoop_sending_waits hs.control_eq hw (by rintro (_ | e); exacts [hne, hsent e])]
    rfl
  · intro disk hd
    rw [hp.resume hd hrun, hs.send]
    exact ⟨_, rfl, _, l, rfl, hs.sent, hl⟩

theorem transfer_confirm (i c : Nat) :
    LeadsTo (PerfectStep p q) (TransferStage mem file sending receiving i c .receiving .sending [])
      (TransferStage mem file sending receiving i c .receiving .receiving
        [⟨q.endpoint, p.endpoint, ackBytes c⟩]) := by
  apply leadsTo_of_receiver
  rintro _ ⟨s, l, rfl, hs, hl⟩
  have hrun : ∀ e, l.control ≠ .finished e := by simp [hl.control_eq]
  simp only [hq.result_embed]
  refine ⟨waits_of_listening (hp.listening hs) (by simp), moves_of_wake (Or.inr rfl) ?_ ?_⟩
  · intro disk w hd hne hw hsent
    rw [hq.resume hd hl.opened hrun,
      receiveLoop_sending_waits hl.control_eq hw (by rintro (_ | e); exacts [hne, hsent e])]
    rfl
  · intro disk hd
    rw [hq.resume hd hl.opened hrun, hl.confirm]
    exact ⟨_, rfl, s, _, rfl, hs, hl.confirmed⟩

section

variable (hpq : p.endpoint ≠ q.endpoint)

include hpq

theorem transfer_hear {c : Nat} (i c' : Nat)
    (hear : ∀ {disk l}, disk.Works → ReceiverReady mem file c .receiving l →
      ∃ l', receiveLoopResume mem p.endpoint disk l (.datagram p.endpoint (dataBytes file i)) =
        some (l', []) ∧ ReceiverReady mem file c' .sending l') :
    LeadsTo (PerfectStep p q) (TransferStage mem file sending receiving i c .receiving .receiving
        [⟨p.endpoint, q.endpoint, dataBytes file i⟩])
      (TransferStage mem file sending receiving i c' .receiving .sending []) := by
  apply leadsTo_of_receiver
  rintro _ ⟨s, l, rfl, hs, hl⟩
  have hrun : ∀ e, l.control ≠ .finished e := by simp [hl.control_eq]
  simp only [hq.result_embed]
  refine ⟨waits_of_listening (hp.listening hs) (by simpa [hp.listens] using hpq.symm),
    moves_of_datagram (hq.listening hl) hq.listens.symm fun disk hd => ?_⟩
  obtain ⟨l', hl', hready⟩ := hear hd hl
  rw [hq.resume hd hl.opened hrun, hl']
  exact ⟨_, rfl, s, l', rfl, hs, hready⟩

theorem transfer_heard {i : Nat} {next : LoopControl} (c i' : Nat)
    (hear : ∀ {f s}, f.bytes = file → (∀ n, f.readFault n = false) →
      SenderReady file i .receiving s → ∃ s', sendLoopResume msg q.endpoint f s
        (.datagram q.endpoint (ackBytes c)) = some (s', []) ∧ SenderReady file i' next s') :
    LeadsTo (PerfectStep p q) (TransferStage mem file sending receiving i c .receiving .receiving
        [⟨q.endpoint, p.endpoint, ackBytes c⟩])
      (TransferStage mem file sending receiving i' c next .receiving []) := by
  apply leadsTo_of_sender
  rintro _ ⟨s, l, rfl, hs, hl⟩
  have hrun : ∀ e, s.control ≠ .finished e := by simp [hs.control_eq]
  simp only [hp.result_embed]
  refine ⟨waits_of_listening (hq.listening hl) (by simpa [hq.listens] using hpq),
    moves_of_datagram (hp.listening hs) hp.listens.symm fun disk hd => ?_⟩
  obtain ⟨s', hs', hready⟩ := hear (f := ⟨file, disk.readFault⟩) rfl hd.reads hs
  rw [hp.resume hd hrun, hs']
  exact ⟨_, rfl, s', l, rfl, hready, hl⟩

end

theorem transfer_return :
    LeadsTo (PerfectStep p q)
      (TransferStage mem file sending receiving (chunkCount dataChunkSize file + 1)
        (chunkCount dataChunkSize file) (.finished none) .receiving [])
      fun x => ∃ l, x = ⟨sent, receiving l, []⟩ ∧
        ReceiverReady mem file (chunkCount dataChunkSize file) .receiving l := by
  apply leadsTo_of_sender
  rintro _ ⟨s, l, rfl, hs, hl⟩
  simp only [hp.result_embed]
  refine ⟨waits_of_listening (hq.listening hl) (by simp), moves_of_wake (Or.inl rfl) ?_ ?_⟩
  · intro disk w _ hne _ _
    rw [hp.ends hs.control_eq, if_neg hne]
  · intro disk _
    rw [hp.ends hs.control_eq, if_pos rfl]
    exact ⟨_, rfl, l, rfl, hl⟩

theorem transfer_silence :
    LeadsTo (PerfectStep p q)
      (fun x => ∃ l, x = ⟨sent, receiving l, []⟩ ∧
        ReceiverReady mem file (chunkCount dataChunkSize file) .receiving l)
      fun x => ∃ l, x = ⟨sent, receiving l, []⟩ ∧
        ReceiverReady mem file (chunkCount dataChunkSize file) (.finished none) l := by
  apply leadsTo_of_receiver
  rintro _ ⟨l, rfl, hl⟩
  have hrun : ∀ e, l.control ≠ .finished e := by simp [hl.control_eq]
  refine ⟨waits_of_stopped hp.stops, moves_of_silence (hq.listening hl) (by simp [hp.result_done])
    fun disk hd => ?_⟩
  have hready := hl.silent
  rw [if_pos rfl] at hready
  rw [hq.resume hd hl.opened hrun, hl.silence]
  exact ⟨_, rfl, _, rfl, hready⟩

theorem transfer_received :
    LeadsTo (PerfectStep p q)
      (fun x => ∃ l, x = ⟨sent, receiving l, []⟩ ∧
        ReceiverReady mem file (chunkCount dataChunkSize file) (.finished none) l)
      fun x => ∃ l, x = ⟨sent, received l, []⟩ ∧
        ReceiverReady mem file (chunkCount dataChunkSize file) (.finished none) l := by
  apply leadsTo_of_receiver
  rintro _ ⟨l, rfl, hl⟩
  refine ⟨waits_of_stopped hp.stops, moves_of_wake (Or.inl rfl) ?_ ?_⟩
  · intro disk w hd hne _ _
    rw [hq.ends hd hl.opened hl.control_eq, if_neg hne]
  · intro disk hd
    rw [hq.ends hd hl.opened hl.control_eq, if_pos rfl]
    exact ⟨_, rfl, l, rfl, hl⟩

theorem transfer_ended {x : PerfectExchange α β}
    (h : ∃ l, x = ⟨sent, received l, []⟩ ∧
      ReceiverReady mem file (chunkCount dataChunkSize file) (.finished none) l) :
    EndsIn (PerfectStep p q) (Delivered p q holds file) x := by
  obtain ⟨l, rfl, hl⟩ := h
  refine .done ⟨hp.result_done, hq.result_done, ?_⟩ ?_
  · have hall := length_le_of_chunkCount_le (by simp [dataChunkSize]) (Nat.le_refl
      (chunkCount dataChunkSize file))
    simp only [hq.holds_done hl.opened, hl.contents, List.take_of_length_le hall]
  · intro y hy
    cases hy with
    | sender _ _ hr => rw [hp.stops] at hr; cases hr
    | receiver _ _ hr => rw [hq.stops] at hr; cases hr

variable (hpq : p.endpoint ≠ q.endpoint)

include hpq

/-- After the last block both ends return. -/
theorem transfer_last (hn : chunkCount dataChunkSize file < 65536) {x : PerfectExchange α β}
    (hx : TransferStage mem file sending receiving (chunkCount dataChunkSize file)
      (chunkCount dataChunkSize file) .receiving .sending [] x) :
    EndsIn (PerfectStep p q) (Delivered p q holds file) x ↔
      chunkCount dataChunkSize file < 65536 := by
  refine (transfer_confirm hp hq _ _).endsIn_iff (fun y hy => ?_) x hx
  refine (transfer_heard hp hq hpq (chunkCount dataChunkSize file) _
    (fun hf hr hs => ⟨_, hs.advance rfl, hs.advanced hf hr⟩)).endsIn_iff (fun y hy => ?_) y hy
  rw [senderGoesOn_end] at hy
  refine (transfer_return hp hq).endsIn_iff (fun y hy => ?_) y hy
  refine (transfer_silence hp hq).endsIn_iff (fun y hy => ?_) y hy
  refine (transfer_received hp hq).endsIn_iff (fun y hy => ?_) y hy
  exact iff_of_true (transfer_ended hp hq hy) hn

/-- A confirmed block that is not the last one is followed by the next one. -/
theorem transfer_next {c : Nat} (hc : c < chunkCount dataChunkSize file) :
    LeadsTo (PerfectStep p q)
      (TransferStage mem file sending receiving c c .receiving .receiving
        [⟨q.endpoint, p.endpoint, ackBytes c⟩])
      (TransferStage mem file sending receiving (c + 1) c .sending .receiving []) := by
  refine transfer_heard hp hq hpq c _ fun hf hr hs => ⟨_, hs.advance rfl, ?_⟩
  have hnext := hs.advanced hf hr
  rwa [senderGoesOn_of_le hc] at hnext

/-- At block 65536 the sender's number has come back to 0, which the receiver never takes for
the number after 65535: the block is sent and refused for ever. -/
theorem transfer_wrapped {x : PerfectExchange α β}
    (hx : TransferStage mem file sending receiving 65536 65535 .sending .receiving [] x) :
    ¬ EndsIn (PerfectStep p q) (Delivered p q holds file) x := by
  refine LeadsTo.not_endsIn (Q := fun x =>
    TransferStage mem file sending receiving 65536 65535 .sending .receiving [] x ∨
    TransferStage mem file sending receiving 65536 65535 .receiving .receiving
      [⟨p.endpoint, q.endpoint, dataBytes file 65536⟩] x ∨
    TransferStage mem file sending receiving 65536 65535 .receiving .sending [] x ∨
    TransferStage mem file sending receiving 65536 65535 .receiving .receiving
      [⟨q.endpoint, p.endpoint, ackBytes 65535⟩] x) ?_ (Or.inl hx)
  rintro y (hy | hy | hy | hy)
  · exact (transfer_send hp hq _ _).mono (fun _ h => h) (fun _ h => Or.inr (Or.inl h)) y hy
  · refine (transfer_hear hp hq hpq 65536 65535 fun _ hl => ⟨_, hl.again (by decide),
      hl.loopHead⟩).mono (fun _ h => h) (fun _ h => Or.inr (Or.inr (Or.inl h))) y hy
  · exact (transfer_confirm hp hq _ _).mono (fun _ h => h) (fun _ h => Or.inr (Or.inr (Or.inr h))) y
      hy
  · refine (transfer_heard hp hq hpq 65535 65536 fun _ _ hs => ⟨_, hs.ignore (by decide),
      hs.ignored⟩).mono (fun _ h => h) (fun _ h => Or.inl h) y hy

theorem transfer_block (hm : mem.Counts) {c : Nat} (hlt : c + 1 < 65536)
    (hle : c + 1 ≤ chunkCount dataChunkSize file) {b : Prop}
    (later : ∀ x, TransferStage mem file sending receiving (c + 1) (c + 1) .receiving .sending [] x →
      (EndsIn (PerfectStep p q) (Delivered p q holds file) x ↔ b)) {x : PerfectExchange α β}
    (hx : TransferStage mem file sending receiving (c + 1) c .sending .receiving [] x) :
    EndsIn (PerfectStep p q) (Delivered p q holds file) x ↔ b := by
  refine (transfer_send hp hq _ _).endsIn_iff (fun y hy => ?_) x hx
  exact (transfer_hear hp hq hpq (c + 1) _ fun hd hl => ⟨_, hl.accept hlt,
    hl.accepted hm hd hlt hle⟩).endsIn_iff later y hy

theorem transfer_ends_iff (hm : mem.Counts) (d : Nat) : ∀ {c : Nat} {x : PerfectExchange α β},
    c + 1 + d = min (chunkCount dataChunkSize file) 65536 →
    TransferStage mem file sending receiving (c + 1) c .sending .receiving [] x →
    (EndsIn (PerfectStep p q) (Delivered p q holds file) x ↔
      chunkCount dataChunkSize file < 65536) := by
  -- `d` blocks are left before the last one, or before the one whose number wraps
  induction d with
  | zero =>
    intro c x hd hx
    by_cases hn : chunkCount dataChunkSize file < 65536
    · have hc : c + 1 = chunkCount dataChunkSize file := by omega
      refine transfer_block hp hq hpq hm (by omega) hc.le (fun y hy => ?_) hx
      rw [hc] at hy
      exact transfer_last hp hq hpq hn hy
    · have hc : c = 65535 := by omega
      subst hc
      exact iff_of_false (transfer_wrapped hp hq hpq hx) hn
  | succ d ih =>
    intro c x hd hx
    refine transfer_block hp hq hpq hm (by omega) (by omega) (fun y hy => ?_) hx
    refine (transfer_confirm hp hq _ _).endsIn_iff (fun y hy => ?_) y hy
    exact (transfer_next hp hq hpq (by omega)).endsIn_iff (fun y hy => ih (by omega) hy) y hy

theorem transfer_confirming_ends_iff (hm : mem.Counts) {x : PerfectExchange α β}
    (hx : TransferStage mem file sending receiving 1 1 .receiving .sending [] x) :
    EndsIn (PerfectStep p q) (Delivered p q holds file) x ↔
      chunkCount dataChunkSize file < 65536 := by
  have hpos : 1 ≤ chunkCount dataChunkSize file := by
    obtain ⟨_, _, _, _, hl⟩ := hx
    exact hl.count_le
  by_cases h1 : chunkCount dataChunkSize file = 1
  · exact transfer_last hp hq hpq (by omega) (by rw [h1]; exact hx)
  · refine (transfer_confirm hp hq _ _).endsIn_iff (fun y hy => ?_) x hx
    exact (transfer_next hp hq hpq (by omega)).endsIn_iff (fun y hy =>
      transfer_ends_iff hp hq hpq hm (min (chunkCount dataChunkSize file) 65536 - 2) (by omega) hy) y
      hy

end

end

end Protocols
