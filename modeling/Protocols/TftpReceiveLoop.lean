import Protocols.TftpSendLoop
import Mathlib.Order.Basic
import Mathlib.Order.Nat

namespace Protocols

/-- How a receive loop remembers that the last block has come, fed with the sizes of the accepted
blocks, and the text of its error reply: all in which the two programs' loops differ. -/
structure ReceiveMemory (μ : Type) where
  note : μ → Nat → μ
  complete : μ → Bool
  errorMsg : String

structure ReceiveLoop (μ : Type) where
  currentBlock : UInt16
  fileStream : OfStream
  memory : μ
  watchdogExpired : Bool
  control : LoopControl
  deriving DecidableEq, Repr

section

variable {μ : Type}

/-- From the `while` condition to the next suspension, or past the loop. -/
def ReceiveLoop.loopHead (s : ReceiveLoop μ) : ReceiveLoop μ :=
  if s.fileStream.good then
    if s.watchdogExpired then { s with control := .finished (some .timedOut) }
    else { s with control := .sending }
  else { s with control := .finished (some .fault) }

/-- A receive timeout: after the last block this is the way out of the loop. -/
def ReceiveLoop.timedOut (mem : ReceiveMemory μ) (s : ReceiveLoop μ) : ReceiveLoop μ :=
  if mem.complete s.memory then
    if !s.fileStream.good then { s with control := .finished (some .fault) }
    else { s with control := .finished none }
  else s.loopHead

def ReceiveLoop.accept (mem : ReceiveMemory μ) (disk : Disk) (s : ReceiveLoop μ)
    (data : List UInt8) : ReceiveLoop μ :=
  ReceiveLoop.loopHead
    { s with
      fileStream := s.fileStream.write disk data
      memory := mem.note s.memory data.length
      currentBlock := s.currentBlock + 1 }

/-- `current_block + 1` is a sum of `int`s: it does not wrap, while `++current_block` does. -/
def ReceiveLoop.received (mem : ReceiveMemory μ) (peer : Endpoint) (disk : Disk)
    (s : ReceiveLoop μ) (sender : Endpoint) (bytes : List UInt8) : ReceiveLoop μ :=
  if sender ≠ peer then { s with control := .rejecting sender }
  else if getOpcode bytes ≠ .data ∨ (getBlockNumber bytes).toNat ≠ s.currentBlock.toNat + 1 then
    s.loopHead
  else s.accept mem disk (getData bytes)

/-- One resumption of `receive_loop`; `none` where the loop does not wait for this. -/
def receiveLoopResume (mem : ReceiveMemory μ) (peer : Endpoint) (disk : Disk) (s : ReceiveLoop μ)
    (wake : Wake) : Option (ReceiveLoop μ × Outgoing) :=
  match s.control, wake with
  | .finished _, _ => none
  | _, .watchdog => some ({ s with watchdogExpired := true }, [])
  | .sending, .sent none =>
    some ({ s with control := .receiving }, [(peer, AckPacket.toBuffer { block := s.currentBlock })])
  | .sending, .sent (some error) => some ({ s with control := .finished (some error) }, [])
  | .receiving, .timeout => some (s.timedOut mem, [])
  | .receiving, .datagram sender bytes =>
    some (s.received mem peer disk sender (receivePacket bytes), [])
  | .rejecting stranger, .sent none =>
    some (s.loopHead, [(stranger, unknownTransfer mem.errorMsg)])
  | .rejecting _, .sent (some _) => some (s.loopHead, [])
  | _, _ => none

/-- What a resumption of `receive_loop` can do. -/
inductive ReceiveLoopStep (mem : ReceiveMemory μ) (peer : Endpoint) (disk : Disk) (s : ReceiveLoop μ)
    (wake : Wake) : ReceiveLoop μ → Outgoing → Prop
  | expired : (∀ error, s.control ≠ .finished error) → wake = .watchdog →
      ReceiveLoopStep mem peer disk s wake { s with watchdogExpired := true } []
  | sent : s.control = .sending → wake = .sent none →
      ReceiveLoopStep mem peer disk s wake { s with control := .receiving }
        [(peer, AckPacket.toBuffer { block := s.currentBlock })]
  | unsent (error : ErrorCode) : s.control = .sending → wake = .sent (some error) →
      ReceiveLoopStep mem peer disk s wake { s with control := .finished (some error) } []
  | ended : s.control = .receiving → wake = .timeout → mem.complete s.memory = true →
      s.fileStream.good = true →
      ReceiveLoopStep mem peer disk s wake { s with control := .finished none } []
  | spoiled : s.control = .receiving → wake = .timeout → mem.complete s.memory = true →
      s.fileStream.good = false →
      ReceiveLoopStep mem peer disk s wake { s with control := .finished (some .fault) } []
  | unheard : s.control = .receiving → wake = .timeout → mem.complete s.memory = false →
      ReceiveLoopStep mem peer disk s wake s.loopHead []
  | stranger (sender : Endpoint) (bytes : List UInt8) : s.control = .receiving →
      wake = .datagram sender bytes → sender ≠ peer →
      ReceiveLoopStep mem peer disk s wake { s with control := .rejecting sender } []
  | ignored (bytes : List UInt8) : s.control = .receiving → wake = .datagram peer bytes →
      (getOpcode (receivePacket bytes) ≠ .data ∨
        (getBlockNumber (receivePacket bytes)).toNat ≠ s.currentBlock.toNat + 1) →
      ReceiveLoopStep mem peer disk s wake s.loopHead []
  | accepted (bytes : List UInt8) : s.control = .receiving → wake = .datagram peer bytes →
      getOpcode (receivePacket bytes) = .data →
      (getBlockNumber (receivePacket bytes)).toNat = s.currentBlock.toNat + 1 →
      ReceiveLoopStep mem peer disk s wake (s.accept mem disk (getData (receivePacket bytes))) []
  | answered (sender : Endpoint) : s.control = .rejecting sender → wake = .sent none →
      ReceiveLoopStep mem peer disk s wake s.loopHead [(sender, unknownTransfer mem.errorMsg)]
  | unanswered (sender : Endpoint) (error : ErrorCode) : s.control = .rejecting sender →
      wake = .sent (some error) →
      ReceiveLoopStep mem peer disk s wake s.loopHead []

theorem receiveLoopResume_step {mem : ReceiveMemory μ} {peer : Endpoint} {disk : Disk}
    {s t : ReceiveLoop μ} {wake : Wake} {out : Outgoing}
    (hs : receiveLoopResume mem peer disk s wake = some (t, out)) :
    ReceiveLoopStep mem peer disk s wake t out := by
  unfold receiveLoopResume at hs
  split at hs
  next => cases hs
  next hne =>
    cases hs
    exact .expired hne rfl
  next hc =>
    cases hs
    exact .sent hc rfl
  next error hc =>
    cases hs
    exact .unsent error hc rfl
  next hc =>
    cases hs
    unfold ReceiveLoop.timedOut
    split
    next hm =>
      split
      next hg => exact .spoiled hc rfl hm (by simpa using hg)
      next hg => exact .ended hc rfl hm (by simpa using hg)
    next hm => exact .unheard hc rfl (by simpa using hm)
  next sender bytes hc =>
    cases hs
    unfold ReceiveLoop.received
    split
    next hne => exact .stranger sender bytes hc rfl hne
    next heq =>
      rw [not_not] at heq
      subst heq
      split
      next hno => exact .ignored bytes hc rfl hno
      next hdata =>
        simp only [ne_eq, not_or, not_not] at hdata
        exact .accepted bytes hc rfl hdata.1 hdata.2
  next sender hc =>
    cases hs
    exact .answered sender hc rfl
  next sender error hc =>
    cases hs
    exact .unanswered sender error hc rfl
  next => cases hs

end

/-- `is_last_received` stays set once a short block has come. -/
def serverMemory : ReceiveMemory Bool where
  note last size := last || decide (size < dataChunkSize)
  complete last := last
  errorMsg := "Unknown transfer ID."

/-- The client looks at the size of the block it accepted last. -/
def clientMemory : ReceiveMemory Nat where
  note _ size := size
  complete size := decide (size < dataChunkSize)
  errorMsg := "Unknown transfer ID."

def serverReceiveLoop := receiveLoopResume serverMemory

def clientReceiveLoop := receiveLoopResume clientMemory

/-- The server's loop starts by acknowledging block 0. -/
def serverReceiveStart (stream : OfStream) : ReceiveLoop Bool :=
  ReceiveLoop.loopHead
    { currentBlock := 0, fileStream := stream, memory := false, watchdogExpired := false,
      control := .sending }

/-- The client's loop starts by writing the block its handshake has received. -/
def clientReceiveStart (disk : Disk) (stream : OfStream) (receiveBuffer : List UInt8) :
    ReceiveLoop Nat :=
  let data := getData receiveBuffer
  ReceiveLoop.loopHead
    { currentBlock := 1, fileStream := stream.write disk data, memory := data.length,
      watchdogExpired := false, control := .sending }

section

variable {μ : Type} {mem : ReceiveMemory μ} {peer : Endpoint} {disk : Disk}

@[simp] theorem receiveLoop_head_currentBlock (s : ReceiveLoop μ) :
    s.loopHead.currentBlock = s.currentBlock := by
  unfold ReceiveLoop.loopHead
  split
  next => split <;> rfl
  next => rfl

@[simp] theorem receiveLoop_head_fileStream (s : ReceiveLoop μ) :
    s.loopHead.fileStream = s.fileStream := by
  unfold ReceiveLoop.loopHead
  split
  next => split <;> rfl
  next => rfl

@[simp] theorem receiveLoop_head_memory (s : ReceiveLoop μ) :
    s.loopHead.memory = s.memory := by
  unfold ReceiveLoop.loopHead
  split
  next => split <;> rfl
  next => rfl

theorem receiveLoop_head_rejecting (s : ReceiveLoop μ) (stranger : Endpoint) :
    s.loopHead.control ≠ .rejecting stranger := by
  unfold ReceiveLoop.loopHead
  split
  next => split <;> simp
  next => simp

theorem receiveLoop_head_good {s : ReceiveLoop μ} (h : s.fileStream.good = true) :
    s.loopHead = { s with control := if s.watchdogExpired then .finished (some .timedOut)
      else .sending } := by
  unfold ReceiveLoop.loopHead
  rw [if_pos h]
  split <;> rfl

/-- What one resumption of the loop does: it acknowledges the current block, accepts the block
after it, answers a stranger, or leaves counter, file and memory as they are. -/
theorem receiveLoop_resume_cases {s t : ReceiveLoop μ} {wake : Wake} {out : Outgoing}
    (hs : receiveLoopResume mem peer disk s wake = some (t, out)) :
    (t.currentBlock = s.currentBlock ∧ t.fileStream = s.fileStream ∧ t.memory = s.memory ∧
      (out = [] ∨
        (s.control = .sending ∧ wake = .sent none ∧ t.control = .receiving ∧
          out = [(peer, AckPacket.toBuffer { block := s.currentBlock })]) ∨
        ∃ stranger, s.control = .rejecting stranger ∧
          out = [(stranger, unknownTransfer mem.errorMsg)])) ∨
    (out = [] ∧ s.control = .receiving ∧ ∃ bytes, wake = .datagram peer bytes ∧
      getOpcode (receivePacket bytes) = .data ∧
      (getBlockNumber (receivePacket bytes)).toNat = s.currentBlock.toNat + 1 ∧
      t = s.accept mem disk (getData (receivePacket bytes))) := by
  have again : s.loopHead.currentBlock = s.currentBlock ∧ s.loopHead.fileStream = s.fileStream ∧
      s.loopHead.memory = s.memory := ⟨by simp, by simp, by simp⟩
  cases receiveLoopResume_step hs with
  | expired => exact Or.inl ⟨rfl, rfl, rfl, Or.inl rfl⟩
  | sent hc hw => exact Or.inl ⟨rfl, rfl, rfl, Or.inr (Or.inl ⟨hc, hw, rfl, rfl⟩)⟩
  | unsent => exact Or.inl ⟨rfl, rfl, rfl, Or.inl rfl⟩
  | ended => exact Or.inl ⟨rfl, rfl, rfl, Or.inl rfl⟩
  | spoiled => exact Or.inl ⟨rfl, rfl, rfl, Or.inl rfl⟩
  | unheard => exact Or.inl ⟨again.1, again.2.1, again.2.2, Or.inl rfl⟩
  | stranger => exact Or.inl ⟨rfl, rfl, rfl, Or.inl rfl⟩
  | ignored => exact Or.inl ⟨again.1, again.2.1, again.2.2, Or.inl rfl⟩
  | accepted bytes hc hw hop hblock => exact Or.inr ⟨rfl, hc, bytes, hw, hop, hblock, rfl⟩
  | answered stranger hc =>
    exact Or.inl ⟨again.1, again.2.1, again.2.2, Or.inr (Or.inr ⟨stranger, hc, rfl⟩)⟩
  | unanswered => exact Or.inl ⟨again.1, again.2.1, again.2.2, Or.inl rfl⟩

theorem receiveLoop_rejecting {s t : ReceiveLoop μ} {wake : Wake} {out : Outgoing}
    {stranger : Endpoint} (hs : receiveLoopResume mem peer disk s wake = some (t, out))
    (ht : t.control = .rejecting stranger) :
    s.control = .rejecting stranger ∨ ∃ bytes, wake = .datagram stranger bytes ∧ stranger ≠ peer := by
  cases receiveLoopResume_step hs with
  | expired => exact Or.inl ht
  | sent => cases ht
  | unsent => cases ht
  | ended => cases ht
  | spoiled => cases ht
  | unheard => exact absurd ht (receiveLoop_head_rejecting _ _)
  | stranger sender bytes _ hw hp =>
    cases ht
    exact Or.inr ⟨bytes, hw, hp⟩
  | ignored => exact absurd ht (receiveLoop_head_rejecting _ _)
  | accepted => exact absurd ht (receiveLoop_head_rejecting _ _)
  | answered => exact absurd ht (receiveLoop_head_rejecting _ _)
  | unanswered => exact absurd ht (receiveLoop_head_rejecting _ _)

theorem receiveLoop_head_ended {s : ReceiveLoop μ} {error : Option ErrorCode}
    (h : s.loopHead.control = .finished error) : error ≠ none := by
  rintro rfl
  unfold ReceiveLoop.loopHead at h
  split at h
  next => split at h <;> simp at h
  next => simp at h

/-- The loop returns success only where it has waited in vain with the last block remembered. -/
theorem receiveLoop_succeeded {s t : ReceiveLoop μ} {wake : Wake} {out : Outgoing}
    (hs : receiveLoopResume mem peer disk s wake = some (t, out))
    (ht : t.control = .finished none) :
    mem.complete s.memory = true ∧ s.fileStream.good = true ∧
      t = { s with control := .finished none } := by
  cases receiveLoopResume_step hs with
  | expired hc => exact absurd ht (hc none)
  | sent => cases ht
  | unsent => cases ht
  | ended _ _ hm hg => exact ⟨hm, hg, rfl⟩
  | spoiled => cases ht
  | unheard => exact absurd rfl (receiveLoop_head_ended ht)
  | stranger => cases ht
  | ignored => exact absurd rfl (receiveLoop_head_ended ht)
  | accepted => exact absurd rfl (receiveLoop_head_ended ht)
  | answered => exact absurd rfl (receiveLoop_head_ended ht)
  | unanswered => exact absurd rfl (receiveLoop_head_ended ht)

@[simp] theorem receiveLoop_accept_currentBlock (s : ReceiveLoop μ) (data : List UInt8) :
    (s.accept mem disk data).currentBlock = s.currentBlock + 1 := by
  simp [ReceiveLoop.accept]

@[simp] theorem receiveLoop_accept_fileStream (s : ReceiveLoop μ) (data : List UInt8) :
    (s.accept mem disk data).fileStream = s.fileStream.write disk data := by
  simp [ReceiveLoop.accept]

theorem receiveLoop_resume_appends {s t : ReceiveLoop μ} {wake : Wake} {out : Outgoing}
    (hs : receiveLoopResume mem peer disk s wake = some (t, out)) :
    s.fileStream.stored <+: t.fileStream.stored ∧
      s.fileStream.contents <+: t.fileStream.contents := by
  rcases receiveLoop_resume_cases hs with ⟨_, hfs, _⟩ | ⟨_, _, bytes, _, _, _, ht⟩
  · rw [hfs]
    exact ⟨List.prefix_refl _, List.prefix_refl _⟩
  · rw [ht, receiveLoop_accept_fileStream]
    exact ⟨write_stored_grows _ _ _, write_contents_grows _ _ _⟩

end

end Protocols
