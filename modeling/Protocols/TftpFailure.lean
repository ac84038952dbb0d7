import Protocols.TftpCompletion

namespace Protocols

open Relation

/-- The two entry points that receive a file. -/
inductive ReceivingSide
  | client (c : ReadClient)
  | connection (c : WriteConnection)

def ReceivingSide.name : ReceivingSide → List UInt8
  | client c => c.target
  | connection c => c.path

def ReceivingSide.isClient : ReceivingSide → Bool
  | client _ => true
  | connection _ => false

/-- The client's program has checked that the target is not there; the connection looks itself. -/
def ReceivingSide.Begins (dir : Directory) : ReceivingSide → Prop
  | client c => c.control = .requesting ∧ dir.status c.target = none
  | connection c => c.control = .spawned

/-- The stream of a receive loop that has returned an error. -/
def ReceivingSide.failedStream : ReceivingSide → Option OfStream
  | client c => match c.control with
    | .looping l => match l.control with
      | .finished (some _) => some l.fileStream
      | _ => none
    | _ => none
  | connection c => match c.control with
    | .looping l => match l.control with
      | .finished (some _) => some l.fileStream
      | _ => none
    | _ => none

/-- A resumption of the entry point, on any file system and with whatever it hears. -/
inductive ReceivingStep : Directory × ReceivingSide → Directory × ReceivingSide → Prop
  | client {dir dir' c c' disk wake out} :
      readClientResume disk dir c wake = some (dir', c', out) →
      ReceivingStep (dir, .client c) (dir', .client c')
  | connection {dir dir' c c' disk wake out} :
      writeConnectionResume disk dir c wake = some (dir', c', out) →
      ReceivingStep (dir, .connection c) (dir', .connection c')

/-- The directory is the one at the beginning but for the file of a stream that is open. -/
def OnlyStreamStored (before after : Directory) (name : List UInt8) (stream : OfStream) : Prop :=
  before.status name = none ∧
    if stream.isOpen then before.Nameable name ∧ ∃ bytes, after = Function.update before name
      (some (.file bytes)) else after = before

theorem openOut_onlyStreamStored {disk : Disk} {dir : Directory} {name : List UInt8}
    (h : dir.status name = none) :
    OnlyStreamStored dir (dir.openOut disk name).1 name (dir.openOut disk name).2 := by
  refine ⟨h, ?_⟩
  unfold Directory.openOut
  split
  next hc => exact ⟨⟨hc.2.1, h⟩, [], rfl⟩
  next => rfl

theorem OnlyStreamStored.store {before after : Directory} {name : List UInt8} {s t : OfStream}
    (h : OnlyStreamStored before after name s) (ht : t.isOpen = s.isOpen) :
    OnlyStreamStored before (after.store name t) name t := by
  obtain ⟨hnone, h⟩ := h
  refine ⟨hnone, ?_⟩
  unfold Directory.store
  rw [ht]
  split at h
  next ho =>
    obtain ⟨hn, bytes, rfl⟩ := h
    simp only [ho, if_true]
    exact ⟨hn, t.stored, Function.update_idem _ _ _⟩
  next ho =>
    simp only [ho]
    exact h

theorem nameable_absent {dir : Directory} {name : List UInt8} (h : dir.Nameable name) :
    dir name = none := by
  obtain ⟨hne, hs⟩ := h
  unfold Directory.status at hs
  rw [if_neg hne] at hs
  split at hs
  next => cases hs
  next => exact hs

/-- Removing the file undoes the transfer; leaving it there does not. -/
theorem OnlyStreamStored.remove {before after : Directory} {name : List UInt8} {stream : OfStream}
    (h : OnlyStreamStored before after name stream) (ho : stream.isOpen = true) :
    after.remove name = before := by
  obtain ⟨_, h⟩ := h
  rw [if_pos ho] at h
  obtain ⟨hn, bytes, rfl⟩ := h
  rw [Directory.remove, Function.update_idem, ← nameable_absent hn, Function.update_eq_self]

theorem OnlyStreamStored.eq_iff {before after : Directory} {name : List UInt8} {stream : OfStream}
    (h : OnlyStreamStored before after name stream) :
    after = before ↔ stream.isOpen = false := by
  obtain ⟨_, h⟩ := h
  split at h
  next ho =>
    obtain ⟨hn, bytes, rfl⟩ := h
    refine iff_of_false (fun he => ?_) (by simp [ho])
    have hname := congrFun he name
    rw [Function.update_self, nameable_absent hn] at hname
    cases hname
  next ho => exact iff_of_true h (by simpa using ho)

/-- Up to its return, an entry point has changed nothing but the file of its stream, and
`read_client` runs its loop only with a stream that is open. -/
def ReceivingInv (before : Directory) (name : List UInt8) (x : Directory × ReceivingSide) : Prop :=
  x.2.name = name ∧
  match x.2 with
  | .client c => match c.control with
    | .requesting | .responding => x.1 = before ∧ before.status name = none
    | .opened stream _ => OnlyStreamStored before x.1 name stream ∧ stream.isOpen = true
    | .looping l => OnlyStreamStored before x.1 name l.fileStream ∧ l.fileStream.isOpen = true
    | .returned _ _ | .threw => True
  | .connection c => match c.control with
    | .spawned | .refusing => x.1 = before
    | .opened stream => OnlyStreamStored before x.1 name stream
    | .looping l => OnlyStreamStored before x.1 name l.fileStream
    | .returned _ _ => True

theorem openOut_isOpen {disk : Disk} {dir : Directory} {name : List UInt8}
    (h : dir.status name = none) (ho : (dir.openOut disk name).1.status name ≠ none) :
    (dir.openOut disk name).2.isOpen = true := by
  unfold Directory.openOut at ho ⊢
  split at ho
  next hc => rw [if_pos hc]
  next => exact absurd h ho

theorem readClient_step_inv {before dir dir' : Directory} {name : List UInt8} {c c' : ReadClient}
    {disk : Disk} {wake : Wake} {out : Outgoing} (inv : ReceivingInv before name (dir, .client c))
    (hs : readClientResume disk dir c wake = some (dir', c', out)) :
    ReceivingInv before name (dir', .client c') := by
  obtain ⟨hname, hrel⟩ := inv
  simp only [ReceivingSide.name] at hname
  subst hname
  cases readClientResume_step hs with
  | requested hc =>
    simp only [hc] at hrel
    exact ⟨rfl, hrel⟩
  | unsent => exact ⟨rfl, trivial⟩
  | refused => exact ⟨rfl, trivial⟩
  | unopened => exact ⟨rfl, trivial⟩
  | answered sender response hc _ hopen =>
    simp only [hc] at hrel
    obtain ⟨rfl, hnone⟩ := hrel
    exact ⟨rfl, openOut_onlyStreamStored hnone, openOut_isOpen hnone hopen⟩
  | started stream response hc =>
    simp only [hc] at hrel
    have hstream : (clientReceiveStart disk stream response).fileStream.isOpen = stream.isOpen := by
      simp [clientReceiveStart, ofStream_write_isOpen]
    exact ⟨rfl, hrel.1.store hstream, hstream.trans hrel.2⟩
  | failed => exact ⟨rfl, trivial⟩
  | succeeded => exact ⟨rfl, trivial⟩
  | looped loop loop' out hc hloop =>
    simp only [hc] at hrel
    have hstream := receiveLoop_resume_isOpen hloop
    exact ⟨rfl, hrel.1.store hstream, hstream.trans hrel.2⟩

theorem writeConnection_step_inv {before dir dir' : Directory} {name : List UInt8}
    {c c' : WriteConnection} {disk : Disk} {wake : Wake} {out : Outgoing}
    (inv : ReceivingInv before name (dir, .connection c))
    (hs : writeConnectionResume disk dir c wake = some (dir', c', out)) :
    ReceivingInv before name (dir', .connection c') := by
  obtain ⟨hname, hrel⟩ := inv
  simp only [ReceivingSide.name] at hname
  subst hname
  cases writeConnectionResume_step hs with
  | present hc =>
    simp only [hc] at hrel
    exact ⟨rfl, hrel⟩
  | created hc _ hnone =>
    simp only [hc] at hrel
    subst hrel
    exact ⟨rfl, openOut_onlyStreamStored hnone⟩
  | refused => exact ⟨rfl, trivial⟩
  | unsent => exact ⟨rfl, trivial⟩
  | started stream hc =>
    simp only [hc] at hrel
    exact ⟨rfl, by simpa [serverReceiveStart] using hrel⟩
  | returned => exact ⟨rfl, trivial⟩
  | looped loop loop' out hc hloop =>
    simp only [hc] at hrel
    exact ⟨rfl, hrel.store (receiveLoop_resume_isOpen hloop)⟩

theorem receiving_reaches_inv {before : Directory} {side : ReceivingSide}
    {x : Directory × ReceivingSide} (hb : side.Begins before)
    (run : ReflTransGen ReceivingStep (before, side) x) : ReceivingInv before side.name x := by
  refine reaches_invariant run ?_ ?_
  · cases side with
    | client c =>
      obtain ⟨hc, hnone⟩ := hb
      exact ⟨rfl, by simpa only [hc, true_and, ReceivingSide.name] using hnone⟩
    | connection c => exact ⟨rfl, by simp only [show c.control = .spawned from hb]⟩
  · intro y z inv hs
    cases hs with
    | client hs => exact readClient_step_inv inv hs
    | connection hs => exact writeConnection_step_inv inv hs

theorem close_isOpen (disk : Disk) (s : OfStream) : (s.close disk).isOpen = s.isOpen := by
  unfold OfStream.close
  split <;> rfl

theorem receiving_isClient {x y : Directory × ReceivingSide}
    (run : ReflTransGen ReceivingStep x y) : y.2.isClient = x.2.isClient := by
  refine reaches_invariant (P := fun z => z.2.isClient = x.2.isClient) run rfl ?_
  intro u v hu hs
  cases hs <;> exact hu

/-- An entry point whose receive loop has failed leaves the directory as it was, exactly if it is
the client's or could not create the file. -/
theorem failed_receive_restores_iff {before dir after : Directory} {side s t : ReceivingSide}
    {stream : OfStream} (hb : side.Begins before)
    (run : ReflTransGen ReceivingStep (before, side) (dir, s)) (hf : s.failedStream = some stream)
    (hs : ReceivingStep (dir, s) (after, t)) :
    after = before ↔ side.isClient = true ∨ stream.isOpen = false := by
  obtain ⟨hname, inv⟩ := receiving_reaches_inv hb run
  rw [← receiving_isClient run]
  cases hs with
  | @client _ _ c c' disk wake out hs =>
    refine iff_of_true ?_ (Or.inl rfl)
    simp only [ReceivingSide.failedStream] at hf
    split at hf
    next l hc =>
      split at hf
      next e hl =>
        simp only [hc] at inv
        simp only [readClientResume, hc, hl] at hs
        split at hs
        next heq =>
          cases heq
          simp only [Option.some.injEq, Prod.mk.injEq] at hs
          rw [← hs.1, show c.target = side.name from hname]
          exact inv.1.remove inv.2
        next heq => cases heq
        next => simp [clientReceiveLoop, receiveLoopResume, hl] at hs
      next => cases hf
    next => cases hf
  | @connection _ _ c c' disk wake out hs =>
    simp only [ReceivingSide.failedStream] at hf
    split at hf
    next l hc =>
      split at hf
      next e hl =>
        cases hf
        simp only [hc] at inv
        simp only [writeConnectionResume, hc, hl] at hs
        split at hs
        next =>
          simp only [Option.some.injEq, Prod.mk.injEq] at hs
          rw [← hs.1, show c.path = side.name from hname,
            (inv.store (close_isOpen disk l.fileStream)).eq_iff, close_isOpen]
          simp [ReceivingSide.isClient]
        next => simp [serverReceiveLoop, receiveLoopResume, hl] at hs
      next => cases hf
    next => cases hf

/-- The run on a file system that works, given by what the entry point hears. -/
def receivingReplay : List Wake → Directory × ReceivingSide → Option (Directory × ReceivingSide)
  | [], x => some x
  | wake :: wakes, (dir, .client c) =>
    (readClientResume {} dir c wake).bind fun (dir, c, _) => receivingReplay wakes (dir, .client c)
  | wake :: wakes, (dir, .connection c) =>
    (writeConnectionResume {} dir c wake).bind fun (dir, c, _) =>
      receivingReplay wakes (dir, .connection c)

theorem receivingReplay_reaches (wakes : List Wake) (x : Directory × ReceivingSide)
    {y : Directory × ReceivingSide} (h : receivingReplay wakes x = some y) : ReflTransGen ReceivingStep x y := by
  induction wakes generalizing x with
  | nil =>
    cases Option.some.inj h
    exact .refl
  | cons wake wakes ih =>
    obtain ⟨dir, c | c⟩ := x
    · obtain ⟨⟨dir', c', out⟩, hr, h⟩ := Option.bind_eq_some_iff.mp h
      exact .head (.client hr) (ih _ h)
    · obtain ⟨⟨dir', c', out⟩, hr, h⟩ := Option.bind_eq_some_iff.mp h
      exact .head (.connection hr) (ih _ h)

/-- A write request for the file "f", whose client falls silent after it. -/
def silentUpload : Directory × ReceivingSide :=
  (fun _ => none, .connection ⟨twoHosts.client, literal "f", .spawned⟩)

/-- What the connection hears until its loop gives up. -/
def silence : List Wake := [.scheduled, .scheduled, .sent none, .watchdog, .timeout]

theorem failed_receive_restores_silence :
    ∃ dir s stream after t, ReflTransGen ReceivingStep silentUpload (dir, s) ∧
      s.failedStream = some stream ∧ ReceivingStep (dir, s) (after, t) ∧ after ≠ silentUpload.1 := by
  have run := receivingReplay_reaches silence silentUpload rfl
  refine ⟨_, _, {}, _, _, run, rfl, @ReceivingStep.connection _ _ _ _ {} .scheduled _ rfl,
    fun he => ?_⟩
  have begins : silentUpload.2.Begins silentUpload.1 := rfl
  have hr : silentUpload.2.isClient = true ∨ ({} : OfStream).isOpen = false :=
    (failed_receive_restores_iff begins run rfl
      (@ReceivingStep.connection _ _ _ _ {} .scheduled _ rfl)).mp he
  simp [silentUpload, ReceivingSide.isClient] at hr

theorem silent_upload_leaves_file :
    ∃ after t, ReflTransGen ReceivingStep silentUpload (after, .connection t) ∧
      t.control = .returned (some .timedOut) {} ∧ after.status (literal "f") = some (.file []) :=
  ⟨_, _, receivingReplay_reaches (silence ++ [.scheduled]) _ rfl, rfl, by decide⟩

end Protocols
