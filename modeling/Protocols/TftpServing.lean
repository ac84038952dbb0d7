import Protocols.TftpSender
import Mathlib.Data.List.Infix

namespace Protocols

/-- The blocks of the DATA packets put out, a repetition of the block before counted once: the
last block's number and everything up to it. -/
def serve (served : Option UInt16 × List UInt8) (datagram : Endpoint × List UInt8) :
    Option UInt16 × List UInt8 :=
  if getOpcode datagram.2 = .data then
    if served.1 = some (getBlockNumber datagram.2) then served
    else (some (getBlockNumber datagram.2), served.2 ++ getData datagram.2)
  else served

/-- The bytes that the blocks sent make up. -/
def blocksSent (out : Outgoing) : List UInt8 := (out.foldl serve (none, [])).2

/-- A send loop of a file that may grow: it has read the first `position` bytes, and served them
but for the current block, which it serves when it sends it for the first time. -/
structure ServesCore (file : List UInt8) (s : SendLoop) (served : Option UInt16 × List UInt8) :
    Prop where
  op : s.dataPacket.op = .data
  within : s.fileStream.position ≤ file.length
  size : s.fileBytesRead ≤ s.fileStream.position
  data : s.dataPacket.data.take s.fileBytesRead =
    (file.take s.fileStream.position).drop (s.fileStream.position - s.fileBytesRead)
  served_eq : served = (some s.dataPacket.block, file.take s.fileStream.position) ∨
    (served.1 ≠ some s.dataPacket.block ∧
      served.2 = file.take (s.fileStream.position - s.fileBytesRead))

structure Serves (file : List UInt8) (s : SendLoop) (served : Option UInt16 × List UInt8) : Prop
    extends ServesCore file s served where
  running : (∀ e, s.control ≠ .finished e) →
    s.dataPacket.data = s.dataPacket.data.take s.fileBytesRead
  sent : s.control = .receiving ∨ (∃ stranger, s.control = .rejecting stranger) →
    served.1 = some s.dataPacket.block
  ended : s.control = .finished none → s.fileBytesRead = 0 ∧ s.fileStream.eof = true

/-- Once the loop has ended without an error, it has served all that it has read. -/
theorem Serves.all {file : List UInt8} {s : SendLoop} {served : Option UInt16 × List UInt8}
    (h : Serves file s served) (he : s.control = .finished none) :
    served.2 = file.take s.fileStream.position := by
  rcases h.served_eq with hs | ⟨_, hs⟩
  · rw [hs]
  · rw [hs, (h.ended he).1, Nat.sub_zero]

/-- What is in the file stays where it is when the file grows. -/
theorem Serves.grow {file file' : List UInt8} {s : SendLoop} {served : Option UInt16 × List UInt8}
    (h : Serves file s served) (hp : file <+: file') : Serves file' s served := by
  obtain ⟨rest, rfl⟩ := hp
  have htake : ∀ n ≤ s.fileStream.position, (file ++ rest).take n = file.take n := by
    intro n hn
    rw [List.take_append_of_le_length (hn.trans h.within)]
  have hw := h.within
  refine { h with within := ?_, data := ?_, served_eq := ?_ }
  · rw [List.length_append]
    omega
  · rw [htake _ le_rfl]
    exact h.data
  · rw [htake _ le_rfl, htake _ (Nat.sub_le _ _)]
    exact h.served_eq

theorem ServesCore.loopHead {file : List UInt8} {s : SendLoop}
    {served : Option UInt16 × List UInt8} (h : ServesCore file s served) :
    Serves file s.loopHead served := by
  unfold SendLoop.loopHead
  split
  next =>
    split
    next => exact ⟨{ h with }, fun hc => absurd rfl (hc _), by simp, by simp⟩
    next =>
      refine ⟨{ h with data := ?_ }, ?_, by simp, by simp⟩
      · simp only [List.take_take, Nat.min_self]
        exact h.data
      · intro _
        simp only [List.take_take, Nat.min_self]
  next hc =>
    simp only [not_or, Nat.not_lt, Nat.le_zero_eq] at hc
    split
    next => exact ⟨{ h with }, fun hc => absurd rfl (hc _), by simp, by simp⟩
    next he => exact ⟨{ h with }, fun hc => absurd rfl (hc _), by simp, fun _ => ⟨hc.1, by simpa using he⟩⟩

/-- A read goes on where the last one ended, and reports the end of the file only there. -/
theorem read_goes_on {f : InputFile} {s : IfStream} (n : Nat) (hp : s.position ≤ f.bytes.length) :
    (s.read f n).2.position = s.position + (s.read f n).1.length ∧
    (s.read f n).2.position ≤ f.bytes.length ∧
    (s.read f n).1 = (f.bytes.take (s.read f n).2.position).drop s.position ∧
    ((s.read f n).2.eof = true → (s.eof = true ∧ (s.read f n).2.position = s.position) ∨
      ((s.read f n).2.position = f.bytes.length ∧ ∃ p, f.readFault p = false)) := by
  have delivered : ∀ k, ((f.bytes.drop s.position).take k) = (f.bytes.take (s.position +
      ((f.bytes.drop s.position).take k).length)).drop s.position := by
    intro k
    rw [List.drop_take, Nat.add_sub_cancel_left, List.length_take]
    exact List.take_eq_take_iff.mpr (by omega)
  unfold IfStream.read
  split
  next hg =>
    split
    next =>
      refine ⟨rfl, hp, by simp, fun he => ?_⟩
      simp [IfStream.good, show s.eof = true from he] at hg
    next hf =>
      refine ⟨rfl, ?_, delivered _, fun he => Or.inr ⟨?_, _, by simpa using hf⟩⟩
      · simp only [List.length_take, List.length_drop]
        omega
      · simp only [decide_eq_true_eq, List.length_take, List.length_drop] at he ⊢
        omega
  next => exact ⟨rfl, hp, by simp, fun he => Or.inl ⟨he, rfl⟩⟩

/-- Where the stream reports the end of the file, it has just come there or had come before. -/
def ComesToEnd (f : InputFile) (before after : IfStream) : Prop :=
  after.eof = true → (before.eof = true ∧ after.position = before.position) ∨
    (after.position = f.bytes.length ∧ ∃ p, f.readFault p = false)

theorem comesToEnd_refl (f : InputFile) (s : IfStream) : ComesToEnd f s s :=
  fun he => Or.inl ⟨he, rfl⟩

theorem serves_fileReader {f : InputFile} {s : SendLoop} {stream : IfStream} (data : List UInt8)
    {served : Option UInt16 × List UInt8} (hp : stream.position ≤ f.bytes.length)
    (hop : s.dataPacket.op = .data) (hnew : served.1 ≠ some s.dataPacket.block)
    (hserved : served.2 = f.bytes.take stream.position)
    (hdata : s.dataPacket.data = (fileReader f stream data).1)
    (hread : s.fileBytesRead = (fileReader f stream data).2.1)
    (hstream : s.fileStream = (fileReader f stream data).2.2) :
    Serves f.bytes s.loopHead served ∧ ComesToEnd f stream s.loopHead.fileStream := by
  obtain ⟨hpos, hle, hgot, heof⟩ := read_goes_on (f := f) (s := stream) data.length hp
  simp only [fileReader] at hdata hread hstream
  constructor
  · apply ServesCore.loopHead
    refine ⟨hop, ?_, ?_, ?_, Or.inr ⟨hnew, ?_⟩⟩
    · rw [hstream]
      exact hle
    · rw [hread, hstream]
      omega
    · rw [hdata, hread, hstream, List.take_left, hpos, Nat.add_sub_cancel, ← hpos]
      exact hgot
    · rw [hread, hstream, hpos, Nat.add_sub_cancel]
      exact hserved
  · rw [sendLoop_head_fileStream, hstream]
    exact heof

theorem serves_start (f : InputFile) :
    Serves f.bytes (SendLoop.start f {}) (none, []) ∧
      ComesToEnd f {} (SendLoop.start f {}).fileStream :=
  serves_fileReader (List.replicate dataChunkSize 0) (Nat.zero_le _) rfl (by simp) (by simp)
    rfl rfl rfl

theorem Serves.send {file : List UInt8} {s : SendLoop} {served : Option UInt16 × List UInt8}
    {peer : Endpoint} (h : Serves file s served) (hc : s.control = .sending) :
    Serves file { s with control := .receiving } (serve served (peer, s.dataPacket.toBuffer)) := by
  have hdata := h.running (by simp [hc])
  have hserve : serve served (peer, s.dataPacket.toBuffer) =
      (some s.dataPacket.block, file.take s.fileStream.position) := by
    unfold serve
    simp only [getOpcode_data, h.op, getBlockNumber_data, getData_data, if_true]
    rcases h.served_eq with hs | ⟨hne, hs⟩
    · simp [hs]
    · have hread : file.take (s.fileStream.position - s.fileBytesRead) =
          (file.take s.fileStream.position).take (s.fileStream.position - s.fileBytesRead) := by
        rw [List.take_take, Nat.min_eq_left (Nat.sub_le _ _)]
      rw [if_neg hne, hs, hdata, h.data, hread, List.take_append_drop]
  rw [hserve]
  exact { h with
    served_eq := Or.inl rfl, running := fun _ => hdata, sent := fun _ => rfl, ended := by simp }

theorem Serves.acknowledged {f : InputFile} {s : SendLoop} {served : Option UInt16 × List UInt8}
    (h : Serves f.bytes s served) (hc : s.control = .receiving) :
    Serves f.bytes (s.acknowledged f) served ∧
      ComesToEnd f s.fileStream (s.acknowledged f).fileStream := by
  have hsent := h.sent (Or.inl hc)
  have hserved : served.2 = f.bytes.take s.fileStream.position := by
    rcases h.served_eq with hs | ⟨hne, _⟩
    · rw [hs]
    · exact absurd hsent hne
  refine serves_fileReader s.dataPacket.data h.within h.op ?_ hserved rfl rfl rfl
  rw [hsent]
  simp

theorem serve_unknownTransfer (served : Option UInt16 × List UInt8) (stranger : Endpoint)
    (msg : String) : serve served (stranger, unknownTransfer msg) = served := by
  simp [serve, unknownTransfer]

theorem serves_resume {s t : SendLoop} {f : InputFile} {msg : String} {peer : Endpoint} {wake : Wake}
    {out : Outgoing} {served : Option UInt16 × List UInt8} (h : Serves f.bytes s served)
    (hs : sendLoopResume msg peer f s wake = some (t, out)) :
    Serves f.bytes t (out.foldl serve served) ∧ ComesToEnd f s.fileStream t.fileStream := by
  have again : Serves f.bytes s.loopHead served ∧ ComesToEnd f s.fileStream s.loopHead.fileStream :=
    ⟨h.toServesCore.loopHead, by rw [sendLoop_head_fileStream]; exact comesToEnd_refl _ _⟩
  cases sendLoopResume_step hs with
  | expired => exact ⟨{ h with sent := h.sent, ended := h.ended }, comesToEnd_refl _ _⟩
  | sent hc => exact ⟨h.send hc, comesToEnd_refl _ _⟩
  | unsent =>
    exact ⟨{ h with running := fun hr => absurd rfl (hr _), sent := by simp, ended := by simp },
      comesToEnd_refl _ _⟩
  | unheard => exact again
  | stranger _ _ hc =>
    refine ⟨{ h with running := fun _ => h.running (by simp [hc]), sent := fun _ => ?_,
                     ended := by simp }, comesToEnd_refl _ _⟩
    exact h.sent (Or.inl hc)
  | ignored => exact again
  | acknowledged _ hc => exact h.acknowledged hc
  | answered => simpa only [List.foldl_cons, List.foldl_nil, serve_unknownTransfer] using again
  | unanswered => exact again

end Protocols
