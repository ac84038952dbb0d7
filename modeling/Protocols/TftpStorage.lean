import Protocols.TftpDallying
import Mathlib.Data.List.Infix

namespace Protocols

/-- A received DATA packet, as its fields are read off the buffer. -/
def readPacket (buffer : List UInt8) : DataPacket where
  op := getOpcode buffer
  block := getBlockNumber buffer
  data := getData buffer

def payload (packets : List DataPacket) : List UInt8 := (packets.map DataPacket.data).flatten

theorem payload_concat (packets : List DataPacket) (p : DataPacket) :
    payload (packets ++ [p]) = payload packets ++ p.data := by
  simp [payload]

section

variable {μ : Type} {mem : ReceiveMemory μ} {peer : Endpoint} {disk : Disk}

/-- The DATA packet that takes the loop from one state to the other, if one does. -/
def ReceiveLoop.takes (s t : ReceiveLoop μ) : Wake → List DataPacket
  | .datagram _ bytes =>
    if t.currentBlock = s.currentBlock then [] else [readPacket (receivePacket bytes)]
  | _ => []

/-- The loop hears the block it waits for. -/
def ReceiveLoop.hearsNext (peer : Endpoint) (s : ReceiveLoop μ) (wake : Wake)
    (bytes : List UInt8) : Prop :=
  s.control = .receiving ∧ wake = .datagram peer bytes ∧
    getOpcode (receivePacket bytes) = .data ∧
    (getBlockNumber (receivePacket bytes)).toNat = s.currentBlock.toNat + 1

theorem receiveLoop_takes {s t : ReceiveLoop μ} {wake : Wake} {out : Outgoing}
    (hs : receiveLoopResume mem peer disk s wake = some (t, out)) :
    (s.takes t wake = [] ∧ t.currentBlock = s.currentBlock ∧ t.fileStream = s.fileStream ∧
      t.memory = s.memory) ∨
    ∃ bytes, s.hearsNext peer wake bytes ∧ out = [] ∧
      s.takes t wake = [readPacket (receivePacket bytes)] ∧
      t = s.accept mem disk (getData (receivePacket bytes)) := by
  rcases receiveLoop_resume_cases hs with ⟨hb, hfs, hm, _⟩ | ⟨rfl, hc, bytes, rfl, hop, hbn, rfl⟩
  · refine Or.inl ⟨?_, hb, hfs, hm⟩
    cases wake <;> simp [ReceiveLoop.takes, hb]
  · refine Or.inr ⟨bytes, ⟨hc, rfl, hop, hbn⟩, rfl, ?_, rfl⟩
    simp [ReceiveLoop.takes]

/-- The awaited block's number is counted without a wrap. -/
theorem ReceiveLoop.hearsNext.count {s : ReceiveLoop μ} {wake : Wake} {bytes : List UInt8}
    (h : s.hearsNext peer wake bytes) :
    (s.currentBlock + 1).toNat = s.currentBlock.toNat + 1 ∧
      getBlockNumber (receivePacket bytes) = s.currentBlock + 1 := by
  have hlt := UInt16.toNat_lt (getBlockNumber (receivePacket bytes))
  have hcount : (s.currentBlock + 1).toNat = s.currentBlock.toNat + 1 := by
    rw [h.2.2.2] at hlt
    rw [UInt16.toNat_add, UInt16.toNat_one]
    omega
  exact ⟨hcount, UInt16.toNat_inj.mp (h.2.2.2.trans hcount.symm)⟩

/-- An awaited block that comes is accepted, whatever it carries. -/
theorem ReceiveLoop.hearsNext.accepted {s : ReceiveLoop μ} {wake : Wake} {bytes : List UInt8}
    (h : s.hearsNext peer wake bytes) : receiveLoopResume mem peer disk s wake =
      some (s.accept mem disk (getData (receivePacket bytes)), []) := by
  obtain ⟨hc, rfl, hop, hbn⟩ := h
  simp [receiveLoopResume, hc, ReceiveLoop.received, hop, hbn]

end

def ReadClient.takes (c c' : ReadClient) (wake : Wake) : List DataPacket :=
  match c.control, c'.control with
  | .opened _ response, .looping _ => [readPacket response]
  | .looping s, .looping t => s.takes t wake
  | _, _ => []

def WriteConnection.takes (c c' : WriteConnection) (wake : Wake) : List DataPacket :=
  match c.control, c'.control with
  | .looping s, .looping t => s.takes t wake
  | _, _ => []

/-- An entry point that receives a file, in its directory, with the DATA packets it has accepted and
all that it has put out. -/
structure StorageHistory where
  dir : Directory
  side : ReceivingSide
  accepted : List DataPacket
  out : Outgoing

def StorageHistory.start (dir : Directory) (side : ReceivingSide) : StorageHistory :=
  ⟨dir, side, [], []⟩

def StorageHistory.next (h : StorageHistory) (event : Disk × Wake) : Option StorageHistory :=
  match h.side with
  | .client c => (readClientResume event.1 h.dir c event.2).map fun step =>
    ⟨step.1, .client step.2.1, h.accepted ++ c.takes step.2.1 event.2, h.out ++ step.2.2⟩
  | .connection c => (writeConnectionResume event.1 h.dir c event.2).map fun step =>
    ⟨step.1, .connection step.2.1, h.accepted ++ c.takes step.2.1 event.2, h.out ++ step.2.2⟩

/-- Of every acknowledgement put out, the payloads it acknowledges are in the file. -/
def StorageHistory.Stored (h : StorageHistory) : Prop :=
  ∀ q ∈ h.out, getOpcode q.2 = .ack → ∃ bytes, h.dir.status h.side.name = some (.file bytes) ∧
    payload (h.accepted.take (getBlockNumber q.2).toNat) <+: bytes

/-- Nothing has happened yet. -/
def ReceivingSide.Unstarted : ReceivingSide → Prop
  | .client c => c.control = .requesting
  | .connection c => c.control = .spawned

/-- What the entry point has reported, once it has returned. -/
def ReceivingSide.reported : ReceivingSide → Option (Option ErrorCode)
  | .client c => match c.control with
    | .returned error _ => some error
    | _ => none
  | .connection c => match c.control with
    | .returned error _ => some error
    | _ => none

/-- The stream of a receive loop that has returned success. -/
def ReceivingSide.succeededStream : ReceivingSide → Option OfStream
  | .client c => match c.control with
    | .looping l => if l.control = .finished none then some l.fileStream else none
    | _ => none
  | .connection c => match c.control with
    | .looping l => if l.control = .finished none then some l.fileStream else none
    | _ => none

/-- A name that is neither empty nor one of the two that always stand for folders. -/
def CanName (name : List UInt8) : Prop := name ≠ [] ∧ name ≠ [46] ∧ name ≠ [46, 46]

/-- The stream, if it is open, and its file. -/
structure Streams (dir : Directory) (name : List UInt8) (stream : OfStream) : Prop where
  opened : stream.good = true → stream.isOpen = true
  named : stream.isOpen = true → CanName name
  file : stream.isOpen = true → dir.status name = some (.file stream.stored)

theorem CanName.status_update {name : List UInt8} (h : CanName name) (dir : Directory)
    (e : Option Entry) : Directory.status (Function.update dir name e) name = e := by
  simp [Directory.status, h.1, h.2.1, h.2.2]

theorem openOut_streams (disk : Disk) (dir : Directory) (name : List UInt8) :
    Streams (dir.openOut disk name).1 name (dir.openOut disk name).2 := by
  unfold Directory.openOut
  split
  next hc =>
    obtain ⟨_, hne, hfolder⟩ := hc
    have hname : CanName name := by
      refine ⟨hne, ?_, ?_⟩
      · rintro rfl
        exact hfolder rfl
      · rintro rfl
        exact hfolder rfl
    exact ⟨fun _ => rfl, fun _ => hname, fun _ => hname.status_update _ _⟩
  next => exact ⟨by simp, by simp, by simp⟩

theorem Streams.store {dir : Directory} {name : List UInt8} {s t : OfStream}
    (h : Streams dir name s) (ht : t.isOpen = s.isOpen) (hg : t.good = true → s.good = true) :
    Streams (dir.store name t) name t where
  opened hgood := ht.trans (h.opened (hg hgood))
  named ho := h.named (ht.symm.trans ho)
  file ho := by
    rw [Directory.store, if_pos ho]
    exact (h.named (ht.symm.trans ho)).status_update _ _

theorem write_was_good {disk : Disk} {s : OfStream} {data : List UInt8}
    (h : (s.write disk data).good = true) : s.good = true := by
  by_contra hs
  rw [OfStream.write, if_neg hs] at h
  exact hs h

section

variable {μ : Type} {mem : ReceiveMemory μ} {peer : Endpoint} {disk : Disk}

theorem receiveLoop_head_not_waiting (s : ReceiveLoop μ) :
    ¬ (s.loopHead.control = .receiving ∨ s.loopHead.control = .finished none) := by
  rintro (hc | hc)
  · unfold ReceiveLoop.loopHead at hc
    split at hc
    next => split at hc <;> cases hc
    next => cases hc
  · exact receiveLoop_head_ended hc rfl

/-- A loop waits for the next block, or has waited in vain, with the current one acknowledged. -/
theorem receiveLoop_waits {s t : ReceiveLoop μ} {wake : Wake} {out : Outgoing}
    (hs : receiveLoopResume mem peer disk s wake = some (t, out))
    (ht : t.control = .receiving ∨ t.control = .finished none) :
    t.currentBlock = s.currentBlock ∧
      (s.control = .receiving ∨ out = [(peer, AckPacket.toBuffer { block := s.currentBlock })]) := by
  cases receiveLoopResume_step hs with
  | expired hne => exact ⟨rfl, Or.inl (ht.resolve_right (hne _))⟩
  | sent => exact ⟨rfl, Or.inr rfl⟩
  | unsent => simp at ht
  | ended hc => exact ⟨rfl, Or.inl hc⟩
  | spoiled hc => exact ⟨rfl, Or.inl hc⟩
  | unheard => exact absurd ht (receiveLoop_head_not_waiting _)
  | stranger => simp at ht
  | ignored => exact absurd ht (receiveLoop_head_not_waiting _)
  | accepted => exact absurd ht (receiveLoop_head_not_waiting _)
  | answered => exact absurd ht (receiveLoop_head_not_waiting _)
  | unanswered => exact absurd ht (receiveLoop_head_not_waiting _)

/-- The loop has written what it has accepted, and while it waits has acknowledged all of it. -/
structure Stores (dir : Directory) (name : List UInt8) (accepted : List DataPacket)
    (out : Outgoing) (l : ReceiveLoop μ) : Prop extends Streams dir name l.fileStream where
  contents : l.fileStream.good = true → l.fileStream.contents = payload accepted
  count : l.currentBlock.toNat = accepted.length
  answered : l.control = .receiving ∨ l.control = .finished none →
    ∃ q ∈ out, getOpcode q.2 = .ack ∧ getBlockNumber q.2 = l.currentBlock
  succeeded : l.control = .finished none → l.fileStream.good = true

theorem stores_head {dir : Directory} {name : List UInt8} {accepted : List DataPacket}
    {out : Outgoing} {l : ReceiveLoop μ} (hstreams : Streams dir name l.fileStream)
    (hcontents : l.fileStream.good = true → l.fileStream.contents = payload accepted)
    (hcount : l.currentBlock.toNat = accepted.length) :
    Stores dir name accepted out l.loopHead where
  toStreams := by rwa [receiveLoop_head_fileStream]
  contents := by rwa [receiveLoop_head_fileStream]
  count := by rwa [receiveLoop_head_currentBlock]
  answered hc := absurd hc (receiveLoop_head_not_waiting l)
  succeeded hc := absurd rfl (receiveLoop_head_ended hc)

theorem Stores.next {dir : Directory} {name : List UInt8} {accepted : List DataPacket}
    {out sent : Outgoing} {s t : ReceiveLoop μ} {wake : Wake} (h : Stores dir name accepted out s)
    (hs : receiveLoopResume mem peer disk s wake = some (t, sent)) :
    Stores (dir.store name t.fileStream) name (accepted ++ s.takes t wake) (out ++ sent) t := by
  have hstreams := h.toStreams.store (receiveLoop_resume_isOpen hs)
  rcases receiveLoop_takes hs with ⟨hnone, hb, hfs, _⟩ | ⟨bytes, hears, rfl, htakes, rfl⟩
  · rw [hnone, List.append_nil]
    refine ⟨hstreams (by rw [hfs]; exact id), by rw [hfs]; exact h.contents,
      by rw [hb]; exact h.count, fun ht => ?_, fun ht => ?_⟩
    · obtain ⟨_, hc | rfl⟩ := receiveLoop_waits hs ht
      · obtain ⟨q, hq, hack⟩ := h.answered (Or.inl hc)
        exact ⟨q, List.mem_append_left _ hq, by rwa [hb]⟩
      · exact ⟨_, List.mem_append_right _ (List.mem_singleton.mpr rfl), by simp [hb]⟩
    · rw [hfs]
      exact (receiveLoop_succeeded hs ht).2.1
  · rw [htakes, List.append_nil]
    refine stores_head ?_ ?_ ?_
    · rw [receiveLoop_accept_fileStream] at hstreams ⊢
      exact hstreams write_was_good
    · intro hg
      have hgood := write_was_good hg
      dsimp only
      rw [write_contents hgood, h.contents hgood, payload_concat]
      rfl
    · dsimp only
      rw [hears.count.1, h.count, List.length_append, List.length_singleton]

end

/-- Up to the return of its loop, an entry point has written what it has accepted. -/
def StorageInv (h : StorageHistory) : Prop :=
  match h.side with
  | .client c => match c.control with
    | .requesting | .responding => h.accepted = []
    | .opened stream _ => h.accepted = [] ∧ Streams h.dir c.target stream ∧ stream.contents = []
    | .looping l => Stores h.dir c.target h.accepted h.out l
    | .returned _ _ | .threw => True
  | .connection c => match c.control with
    | .spawned | .refusing => h.accepted = []
    | .opened stream => h.accepted = [] ∧ Streams h.dir c.path stream ∧ stream.contents = []
    | .looping l => Stores h.dir c.path h.accepted h.out l
    | .returned _ _ => True

theorem readClient_stores {h h' : StorageHistory} {event : Disk × Wake} {c : ReadClient}
    (inv : StorageInv h) (hside : h.side = .client c) (hs : h.next event = some h') :
    StorageInv h' := by
  simp only [StorageHistory.next, hside] at hs
  simp only [StorageInv, hside] at inv
  obtain ⟨⟨dir', c', out⟩, hr, rfl⟩ := Option.map_eq_some_iff.mp hs
  cases readClientResume_step hr with
  | requested hc =>
    simp only [hc] at inv
    simpa [StorageInv, ReadClient.takes, hc] using inv
  | unsent => trivial
  | refused => trivial
  | unopened => trivial
  | answered sender response hc =>
    simp only [hc] at inv
    exact ⟨by simpa [ReadClient.takes, hc] using inv, openOut_streams _ _ _, openOut_contents _ _ _⟩
  | started stream response hc =>
    simp only [hc] at inv
    obtain ⟨hnone, hstreams, hempty⟩ := inv
    have htakes : c.takes { c with control := .looping (clientReceiveStart event.1 stream response) }
        event.2 = [readPacket response] := by
      simp [ReadClient.takes, hc]
    simp only [StorageInv, htakes, hnone, List.nil_append]
    refine stores_head ?_ (fun hg => ?_) rfl
    · simp only [clientReceiveStart, receiveLoop_head_fileStream]
      exact hstreams.store (ofStream_write_isOpen _ _) write_was_good
    · dsimp only
      rw [write_contents (write_was_good hg), hempty]
      simp [payload, readPacket]
  | failed => trivial
  | succeeded => trivial
  | looped loop loop' out hc hloop =>
    simp only [hc] at inv
    simpa [StorageInv, ReadClient.takes, hc] using inv.next hloop

theorem writeConnection_stores {h h' : StorageHistory} {event : Disk × Wake} {c : WriteConnection}
    (inv : StorageInv h) (hside : h.side = .connection c) (hs : h.next event = some h') :
    StorageInv h' := by
  simp only [StorageHistory.next, hside] at hs
  simp only [StorageInv, hside] at inv
  obtain ⟨⟨dir', c', out⟩, hr, rfl⟩ := Option.map_eq_some_iff.mp hs
  cases writeConnectionResume_step hr with
  | present hc =>
    simp only [hc] at inv
    simpa [StorageInv, WriteConnection.takes, hc] using inv
  | created hc =>
    simp only [hc] at inv
    exact ⟨by simpa [WriteConnection.takes, hc] using inv, openOut_streams _ _ _,
      openOut_contents _ _ _⟩
  | refused => trivial
  | unsent => trivial
  | started stream hc =>
    simp only [hc] at inv
    obtain ⟨hnone, hstreams, hempty⟩ := inv
    simp only [StorageInv, WriteConnection.takes, hc, hnone, List.nil_append]
    exact stores_head hstreams (fun _ => hempty) rfl
  | returned => trivial
  | looped loop loop' out hc hloop =>
    simp only [hc] at inv
    simpa [StorageInv, WriteConnection.takes, hc] using inv.next hloop

theorem storage_reaches_inv {dir : Directory} {side : ReceivingSide} {events : List (Disk × Wake)}
    {h : StorageHistory} (hb : side.Unstarted)
    (run : events.foldlM StorageHistory.next (.start dir side) = some h) : StorageInv h := by
  refine foldlM_invariant run ?_ fun h event h' inv hs => ?_
  · cases side with
    | client c => simp [StorageInv, StorageHistory.start, show c.control = .requesting from hb]
    | connection c => simp [StorageInv, StorageHistory.start, show c.control = .spawned from hb]
  · cases hside : h.side with
    | client c => exact readClient_stores inv hside hs
    | connection c => exact writeConnection_stores inv hside hs

/-- What is acknowledged is in the file once its stream is closed, unless what the stream held back
is lost then. -/
theorem Stores.stored_iff {μ : Type} {dir : Directory} {name : List UInt8} {side : ReceivingSide}
    {accepted : List DataPacket} {out : Outgoing} {l : ReceiveLoop μ}
    (h : Stores dir name accepted out l) (hl : l.control = .finished none) (disk : Disk)
    (hname : side.name = name) :
    StorageHistory.Stored ⟨dir.store name (l.fileStream.close disk), side, accepted, out⟩ ↔
      disk.closes = true ∨ l.fileStream.buffered = [] := by
  have hgood := h.succeeded hl
  have hopen := h.opened hgood
  have hcontents := h.contents hgood
  have hfile : (dir.store name (l.fileStream.close disk)).status side.name =
      some (.file (l.fileStream.close disk).stored) := by
    rw [hname, Directory.store, if_pos ((close_isOpen disk l.fileStream).trans hopen)]
    exact (h.named hopen).status_update _ _
  have all : (l.fileStream.close disk).stored = payload accepted →
      StorageHistory.Stored ⟨dir.store name (l.fileStream.close disk), side, accepted, out⟩ := by
    intro hall q _ _
    refine ⟨_, hfile, ?_⟩
    rw [hall]
    exact ((List.take_prefix _ _).map _).flatten
  constructor
  · intro hstored
    by_contra! hlost
    obtain ⟨q, hq, hack, hnumber⟩ := h.answered (Or.inr hl)
    obtain ⟨bytes, hbytes, hp⟩ := hstored q hq hack
    cases hfile.symm.trans hbytes
    rw [hnumber, h.count, List.take_length, ← hcontents, OfStream.close, if_neg hlost.1] at hp
    have hlength := hp.length_le
    rw [OfStream.contents, List.length_append] at hlength
    have := List.length_pos_iff.mpr hlost.2
    omega
  · rintro (hcloses | hnone)
    · apply all
      rw [OfStream.close, if_pos hcloses, hcontents]
    · apply all
      have hstored : l.fileStream.stored = payload accepted := by
        rw [← hcontents, OfStream.contents, hnone, List.append_nil]
      unfold OfStream.close
      split
      next => exact hcontents
      next => exact hstored

/-- With its loop ended well, an entry point closes the stream and reports success. -/
theorem readClient_returns {disk : Disk} {dir dir' : Directory} {c c' : ReadClient}
    {l : ReceiveLoop Nat} {wake : Wake} {out : Outgoing} (hc : c.control = .looping l)
    (hl : l.control = .finished none)
    (hs : readClientResume disk dir c wake = some (dir', c', out)) :
    dir' = dir.store c.target (l.fileStream.close disk) ∧
      c' = { c with control := .returned none (l.fileStream.close disk) } ∧ out = [] := by
  simp only [readClientResume, hc, hl] at hs
  split at hs
  next heq => cases heq
  next heq =>
    cases hs
    exact ⟨rfl, rfl, rfl⟩
  next => simp [clientReceiveLoop, receiveLoopResume, hl] at hs

theorem writeConnection_returns {disk : Disk} {dir dir' : Directory} {c c' : WriteConnection}
    {l : ReceiveLoop Bool} {wake : Wake} {out : Outgoing} (hc : c.control = .looping l)
    (hl : l.control = .finished none)
    (hs : writeConnectionResume disk dir c wake = some (dir', c', out)) :
    dir' = dir.store c.path (l.fileStream.close disk) ∧
      c' = { c with control := .returned none (l.fileStream.close disk) } ∧ out = [] := by
  simp only [writeConnectionResume, hc, hl] at hs
  split at hs
  next heq =>
    cases heq
    cases hs
    exact ⟨rfl, rfl, rfl⟩
  next => simp [serverReceiveLoop, receiveLoopResume, hl] at hs

/-- Where the receive loop has returned success, its caller's success means that all that has been
acknowledged is in the file, exactly if the flush of the stream's destructor succeeds or has nothing
to write. -/
theorem acknowledged_stored_iff {dir : Directory} {side : ReceivingSide}
    {events : List (Disk × Wake)} {event : Disk × Wake} {h h' : StorageHistory} {stream : OfStream}
    (hb : side.Unstarted) (run : events.foldlM StorageHistory.next (.start dir side) = some h)
    (hl : h.side.succeededStream = some stream) (hs : h.next event = some h') :
    (h'.side.reported = some none → h'.Stored) ↔
      event.1.closes = true ∨ stream.buffered = [] := by
  have inv := storage_reaches_inv hb run
  cases hside : h.side with
  | client c =>
    simp only [StorageHistory.next, hside] at hs
    simp only [StorageInv, hside] at inv
    simp only [ReceivingSide.succeededStream, hside] at hl
    obtain ⟨⟨dir', c', out⟩, hr, rfl⟩ := Option.map_eq_some_iff.mp hs
    split at hl
    next l hc =>
      simp only [hc] at inv
      split at hl
      next hended =>
        cases hl
        obtain ⟨rfl, rfl, rfl⟩ := readClient_returns hc hended hr
        simp only [ReceivingSide.reported, forall_const, ReadClient.takes, hc, List.append_nil]
        exact inv.stored_iff hended event.1 rfl
      next => cases hl
    next => cases hl
  | connection c =>
    simp only [StorageHistory.next, hside] at hs
    simp only [StorageInv, hside] at inv
    simp only [ReceivingSide.succeededStream, hside] at hl
    obtain ⟨⟨dir', c', out⟩, hr, rfl⟩ := Option.map_eq_some_iff.mp hs
    split at hl
    next l hc =>
      simp only [hc] at inv
      split at hl
      next hended =>
        cases hl
        obtain ⟨rfl, rfl, rfl⟩ := writeConnection_returns hc hended hr
        simp only [ReceivingSide.reported, forall_const, WriteConnection.takes, hc, List.append_nil]
        exact inv.stored_iff hended event.1 rfl
      next => cases hl
    next => cases hl

/-- A client uploads a file of one byte, which the stream holds back. -/
def smallUpload : List (Disk × Wake) :=
  untroubled [.scheduled, .scheduled, .sent none, .datagram ⟨1, 5000⟩ (dataBytes [7] 1), .sent none,
    .timeout]

def smallUploadSide : ReceivingSide := .connection ⟨⟨1, 5000⟩, literal "f", .spawned⟩

def smallUploadEnd (closes : Bool) : Disk × Wake := ({ closes }, .scheduled)

theorem small_upload_stored : ∃ h h',
    smallUpload.foldlM StorageHistory.next (.start noFiles smallUploadSide) = some h ∧
    h.next (smallUploadEnd true) = some h' ∧ h'.side.reported = some none ∧ h'.Stored :=
  ⟨_, _, rfl, rfl, rfl, (@acknowledged_stored_iff noFiles smallUploadSide smallUpload
    (smallUploadEnd true) _ _ ⟨true, [], [7], true⟩ rfl rfl rfl rfl).mpr (Or.inl rfl) rfl⟩

/-- The flush of the destructor fails: the byte has been acknowledged, and the file stays empty. -/
theorem small_upload_lost : ∃ h h',
    smallUpload.foldlM StorageHistory.next (.start noFiles smallUploadSide) = some h ∧
    h.next (smallUploadEnd false) = some h' ∧ h'.side.reported = some none ∧
    (⟨1, 5000⟩, ackBytes 1) ∈ h'.out ∧ h'.dir.status (literal "f") = some (.file []) ∧
    ¬ h'.Stored := by
  refine ⟨_, _, rfl, rfl, rfl, by decide, by decide, fun hstored => ?_⟩
  obtain ⟨bytes, hbytes, hp⟩ := hstored (⟨1, 5000⟩, ackBytes 1) (by decide) (by decide)
  have hempty : some (Entry.file []) = some (.file bytes) := hbytes
  cases hempty
  exact absurd hp (by decide)

end Protocols
