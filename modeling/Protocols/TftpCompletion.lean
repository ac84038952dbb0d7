import Protocols.TftpRead
import Protocols.TftpTransfer

namespace Protocols

/-- The name under which the server stores what a client sends. -/
def uploadPath (filename : List UInt8) : List UInt8 :=
  pathFilename (getFilename (WrqPacket.toBuffer { filename }))

/-- The name can be a file's. -/
abbrev Directory.Nameable (dir : Directory) (name : List UInt8) : Prop :=
  name ≠ [] ∧ dir.status name = none

theorem handleServerResponse_ack (sender : Endpoint) :
    handleServerResponse .ack 0 (.datagram sender (ackBytes 0)) = some (.ok (sender, ackBytes 0)) := by
  simp only [handleServerResponse, receivePacket_ackBytes]
  simp [ackBytes, getError_ack]

theorem handleServerResponse_data (sender : Endpoint) (file : List UInt8) :
    handleServerResponse .data 1 (.datagram sender (dataBytes file 1)) =
      some (.ok (sender, dataBytes file 1)) := by
  simp only [handleServerResponse, receivePacket_dataBytes]
  simp [dataBytes, getError_data]

theorem openOut_nameable {disk : Disk} {dir : Directory} {name : List UInt8} (hd : disk.Works)
    (h : dir.Nameable name) :
    dir.openOut disk name = (dir.store name {}, {}) := by
  simp [Directory.openOut, Directory.store, hd.opens, h.1, h.2]

theorem status_store {dir : Directory} {name : List UInt8} {s : OfStream}
    (h : dir.Nameable name) (hs : s.isOpen = true) :
    (dir.store name s).status name = some (.file s.stored) := by
  have hdot : ¬ (name = [46] ∨ name = [46, 46]) := by
    intro hh
    have := h.2
    simp [Directory.status, h.1, hh] at this
  simp [Directory.status, Directory.store, h.1, hdot, hs]

theorem store_store {dir : Directory} {name : List UInt8} {s t : OfStream}
    (ht : t.isOpen = true) : (dir.store name s).store name t = dir.store name t := by
  unfold Directory.store
  simp only [ht, if_true]
  split
  next => exact Function.update_idem _ _ _
  next => rfl

theorem receiveLoop_resume_isOpen {μ : Type} {mem : ReceiveMemory μ} {peer : Endpoint} {disk : Disk}
    {s t : ReceiveLoop μ} {wake : Wake} {out : Outgoing}
    (hs : receiveLoopResume mem peer disk s wake = some (t, out)) :
    t.fileStream.isOpen = s.fileStream.isOpen := by
  rcases receiveLoop_resume_cases hs with ⟨_, hfs, _⟩ | ⟨_, _, bytes, _, _, _, ht⟩
  · rw [hfs]
  · rw [ht, receiveLoop_accept_fileStream, ofStream_write_isOpen]

/-- The stream after a flush that could store what was left. -/
def OfStream.closed (s : OfStream) : OfStream := { s with stored := s.contents, buffered := [] }

theorem close_works {disk : Disk} (hd : disk.Works) (s : OfStream) : s.close disk = s.closed := by
  simp [OfStream.close, hd.closes, OfStream.closed]

section

variable (k : Sockets) (file name : List UInt8) (dir : Directory)

/-- `write_client`, `write_connection`, `read_client` and `read_connection` with a loop. -/
def writeClientWith (c : WriteClientControl) : WriteClient := ⟨k.connection, name, file, c⟩

def writeConnectionWith (l : ReceiveLoop Bool) : Directory × Option Connection :=
  (dir.store (uploadPath name) l.fileStream,
    some (.write ⟨k.client, uploadPath name, .looping l⟩))

def writeConnectionDone (l : ReceiveLoop Bool) : Directory × Option Connection :=
  (dir.store (uploadPath name) l.fileStream.closed,
    some (.write ⟨k.client, uploadPath name, .returned none l.fileStream.closed⟩))

def readClientWith (l : ReceiveLoop Nat) : Directory × ReadClient :=
  (dir.store name l.fileStream, ⟨k.connection, name, .looping l⟩)

def readClientDone (l : ReceiveLoop Nat) : Directory × ReadClient :=
  (dir.store name l.fileStream.closed, ⟨k.connection, name, .returned none l.fileStream.closed⟩)

def readConnectionWith (c : ReadControl) : Directory × Option Connection :=
  (dir, some (.read ⟨k.client, requestedPath name, c⟩))

end

section

variable {k : Sockets} {file name : List UInt8} {dir : Directory}

theorem writeClient_hosts : SendHost (writeClientParty k) "Unknown transfer ID." k.connection file
    (fun s => writeClientWith k file name (.looping s))
    (writeClientWith k file name (.returned none)) where
  resume := by
    intro disk s wake _ hs
    simp only [writeClientParty, writeClientWith, writeClientResume]
    split
    next e he => exact absurd he (hs e)
    next => rfl
  ends := by
    intro disk s wake hs
    simp only [writeClientParty, writeClientWith, writeClientResume]
    split
    next e he =>
      rw [hs] at he
      cases he
      rfl
    next hne =>
      rw [if_neg fun hw => hne _ hs hw]
      simp [clientSendLoop, sendLoopResume, hs]
  stops := by
    intro disk wake
    simp [writeClientParty, writeClientWith, writeClientResume]
  listens := rfl
  result_embed := rfl
  result_done := rfl

theorem writeConnection_hosts (h : dir.Nameable (uploadPath name)) :
    ReceiveHost (serverParty k) serverMemory k.client (fun s => s.1.status (uploadPath name))
      (writeConnectionWith k name dir) (writeConnectionDone k name dir) where
  resume := by
    intro disk l wake _ ho hl
    simp only [serverParty, writeConnectionWith, connectionResume, writeConnectionResume]
    split
    next e he => exact absurd he (hl e)
    next =>
      rw [serverReceiveLoop, Option.map_map, Option.map_map]
      refine Option.map_congr fun r hr => ?_
      have hopen := (receiveLoop_resume_isOpen hr).trans ho
      simp only [Function.comp, store_store hopen]
  ends := by
    intro disk l wake hd ho hl
    simp only [serverParty, writeConnectionWith, connectionResume, writeConnectionResume]
    split
    next e he =>
      rw [hl] at he
      cases he
      rw [close_works hd, store_store (t := l.fileStream.closed) ho]
      rfl
    next hne =>
      rw [if_neg fun hw => hne _ hl hw]
      simp [serverReceiveLoop, receiveLoopResume, hl]
  stops := by
    intro l disk wake
    simp [serverParty, writeConnectionDone, connectionResume, writeConnectionResume]
  listens := rfl
  result_embed := rfl
  result_done := rfl
  holds_done := by
    intro l ho
    exact status_store h (s := l.fileStream.closed) ho

theorem readConnection_hosts (h : dir.status (requestedPath name) = some (.file file)) :
    SendHost (serverParty k) "Unknown transfer ID" k.client file
      (fun s => readConnectionWith k name dir (.looping s))
      (readConnectionWith k name dir (.returned none)) where
  resume := by
    intro disk s wake _ hs
    simp only [serverParty, readConnectionWith, connectionResume, readConnectionResume]
    split
    next e he => exact absurd he (hs e)
    next =>
      simp only [Directory.input, h, serverSendLoop, Option.map_map]
      rfl
  ends := by
    intro disk s wake hs
    simp only [serverParty, readConnectionWith, connectionResume, readConnectionResume]
    split
    next e he =>
      rw [hs] at he
      cases he
      rfl
    next hne =>
      rw [if_neg fun hw => hne _ hs hw]
      simp [serverSendLoop, sendLoopResume, hs]
  stops := by
    intro disk wake
    simp [serverParty, readConnectionWith, connectionResume, readConnectionResume]
  listens := rfl
  result_embed := rfl
  result_done := rfl

theorem readClient_hosts (h : dir.Nameable name) :
    ReceiveHost (readClientParty k) clientMemory k.connection (fun s => s.1.status name)
      (readClientWith k name dir) (readClientDone k name dir) where
  resume := by
    intro disk l wake _ ho hl
    simp only [readClientParty, readClientWith, readClientResume]
    split
    next e _ he => exact absurd he (hl _)
    next _ he => exact absurd he (hl _)
    next =>
      rw [clientReceiveLoop, Option.map_map]
      refine Option.map_congr fun r hr => ?_
      have hopen := (receiveLoop_resume_isOpen hr).trans ho
      simp only [Function.comp, store_store hopen]
  ends := by
    intro disk l wake hd ho hl
    simp only [readClientParty, readClientWith, readClientResume]
    split
    next e he =>
      rw [hl] at he
      cases he
    next he =>
      rw [close_works hd, store_store (t := l.fileStream.closed) ho]
      rfl
    next hne =>
      rw [if_neg fun hw => hne hl hw]
      simp [clientReceiveLoop, receiveLoopResume, hl]
  stops := by
    intro l disk wake
    simp [readClientParty, readClientDone, readClientResume]
  listens := rfl
  result_embed := rfl
  result_done := rfl
  holds_done := by
    intro l ho
    exact status_store h (s := l.fileStream.closed) ho

end

/-- A `write_client` about to send its request, on a perfect network. -/
def writePerfect (k : Sockets) (file filename : List UInt8) (dir : Directory) :
    PerfectExchange WriteClient (Directory × Option Connection) :=
  ⟨⟨k.listener, filename, file, .requesting⟩, (dir, none), []⟩

/-- A `read_client` about to send its request, on a perfect network. -/
def readPerfect (k : Sockets) (target : List UInt8) (clientDir serverDir : Directory) :
    PerfectExchange (Directory × Option Connection) (Directory × ReadClient) :=
  ⟨(serverDir, none), (clientDir, ⟨k.listener, target, .requesting⟩), []⟩

section

variable {k : Sockets} {file name : List UInt8} {dir : Directory}

theorem writeClient_waits {server : Endpoint} (disk : Disk) (_ : disk.Works) :
    (writeClientParty k).resume disk ⟨server, name, file, .responding⟩ .scheduled = none ∧
      (writeClientParty k).resume disk ⟨server, name, file, .responding⟩ (.sent none) = none :=
  ⟨rfl, rfl⟩

theorem server_waits (disk : Disk) (_ : disk.Works) :
    (serverParty k).resume disk (dir, none) .scheduled = none ∧
      (serverParty k).resume disk (dir, none) (.sent none) = none := ⟨rfl, rfl⟩

/-- The stages of the handshake of a write, up to the first block. -/
theorem writePerfect_requests :
    LeadsTo (PerfectStep (writeClientParty k) (serverParty k))
      (fun x => x = writePerfect k file name dir)
      fun x => x = ⟨⟨k.listener, name, file, .responding⟩, (dir, none),
        [⟨k.client, k.listener, WrqPacket.toBuffer { filename := name }⟩]⟩ := by
  apply leadsTo_of_sender
  rintro _ rfl
  refine ⟨waits_of_listening server_waits (by simp [writePerfect]), moves_of_wake (Or.inr rfl) ?_
    fun _ _ => ⟨_, rfl, rfl⟩⟩
  rintro disk (_ | (_ | e) | _ | _ | _) _ hne _ hs <;>
    first | rfl | exact absurd rfl hne | exact absurd rfl (hs _)

theorem writePerfect_spawns :
    LeadsTo (PerfectStep (writeClientParty k) (serverParty k))
      (fun x => x = ⟨⟨k.listener, name, file, .responding⟩, (dir, none),
        [⟨k.client, k.listener, WrqPacket.toBuffer { filename := name }⟩]⟩)
      fun x => x = ⟨⟨k.listener, name, file, .responding⟩,
        (dir, some (.write ⟨k.client, uploadPath name, .spawned⟩)), []⟩ := by
  apply leadsTo_of_receiver
  rintro _ rfl
  refine ⟨waits_of_listening writeClient_waits (by simp [writeClientParty, k.client_ne_listener.symm]),
    moves_of_datagram server_waits rfl fun _ _ =>
      ⟨((dir, some (.write ⟨k.client, uploadPath name, .spawned⟩)), []), ?_, rfl⟩⟩
  simp [serverParty, spawnConnection, uploadPath]

theorem writePerfect_opens (h : dir.Nameable (uploadPath name)) :
    LeadsTo (PerfectStep (writeClientParty k) (serverParty k))
      (fun x => x = ⟨⟨k.listener, name, file, .responding⟩,
        (dir, some (.write ⟨k.client, uploadPath name, .spawned⟩)), []⟩)
      fun x => x = ⟨⟨k.listener, name, file, .responding⟩, (dir.store (uploadPath name) {},
        some (.write ⟨k.client, uploadPath name, .opened {}⟩)), []⟩ := by
  apply leadsTo_of_receiver
  rintro _ rfl
  refine ⟨waits_of_listening writeClient_waits (by simp), moves_of_wake (Or.inl rfl) ?_ fun disk hd =>
    ⟨((dir.store (uploadPath name) {}, some (.write ⟨k.client, uploadPath name, .opened {}⟩)), []),
      ?_, rfl⟩⟩
  · rintro disk (_ | (_ | e) | _ | _ | _) _ hne _ _ <;> first | rfl | exact absurd rfl hne
  · simp [serverParty, connectionResume, writeConnectionResume, h.2, openOut_nameable hd h]

theorem writePerfect_starts (hne : file ≠ []) :
    LeadsTo (PerfectStep (writeClientParty k) (serverParty k))
      (fun x => x = ⟨⟨k.listener, name, file, .responding⟩, (dir.store (uploadPath name) {},
        some (.write ⟨k.client, uploadPath name, .opened {}⟩)), []⟩)
      fun x => ∃ l, x = ⟨⟨k.listener, name, file, .responding⟩, writeConnectionWith k name dir l, []⟩ ∧
        ReceiverReady serverMemory file 0 .sending l := by
  apply leadsTo_of_receiver
  rintro _ rfl
  have hready : ReceiverReady serverMemory file 0 .sending (serverReceiveStart {}) :=
    receiverReady_serverStart hne rfl rfl rfl
  refine ⟨waits_of_listening writeClient_waits (by simp), moves_of_wake (Or.inl rfl) ?_ fun disk hd =>
    ⟨(writeConnectionWith k name dir (serverReceiveStart {}), []), ?_, _, rfl, hready⟩⟩
  · rintro disk (_ | (_ | e) | _ | _ | _) _ hne _ _ <;> first | rfl | exact absurd rfl hne
  · simp [serverParty, connectionResume, writeConnectionResume, writeConnectionWith,
      serverReceiveStart]

theorem writePerfect_answers (h : dir.Nameable (uploadPath name)) :
    LeadsTo (PerfectStep (writeClientParty k) (serverParty k))
      (fun x => ∃ l, x = ⟨⟨k.listener, name, file, .responding⟩, writeConnectionWith k name dir l, []⟩ ∧
        ReceiverReady serverMemory file 0 .sending l)
      fun x => ∃ l, x = ⟨⟨k.listener, name, file, .responding⟩, writeConnectionWith k name dir l,
        [⟨k.connection, k.client, ackBytes 0⟩]⟩ ∧ ReceiverReady serverMemory file 0 .receiving l := by
  apply leadsTo_of_receiver
  rintro _ ⟨l, rfl, hl⟩
  have hosts := writeConnection_hosts (k := k) h
  have hrun : ∀ e, l.control ≠ .finished e := by simp [hl.control_eq]
  refine ⟨waits_of_listening writeClient_waits (by simp), moves_of_wake (Or.inr rfl) ?_ ?_⟩
  · intro disk w hd hne hw hsent
    rw [hosts.resume hd hl.opened hrun,
      receiveLoop_sending_waits hl.control_eq hw (by rintro (_ | e); exacts [hne, hsent e])]
    rfl
  · intro disk hd
    rw [hosts.resume hd hl.opened hrun, hl.confirm]
    exact ⟨_, rfl, _, rfl, hl.confirmed⟩

theorem writePerfect_accepts (h : dir.Nameable (uploadPath name)) :
    LeadsTo (PerfectStep (writeClientParty k) (serverParty k))
      (fun x => ∃ l, x = ⟨⟨k.listener, name, file, .responding⟩, writeConnectionWith k name dir l,
        [⟨k.connection, k.client, ackBytes 0⟩]⟩ ∧ ReceiverReady serverMemory file 0 .receiving l)
      fun x => ∃ l, x = ⟨writeClientWith k file name .opened, writeConnectionWith k name dir l, []⟩ ∧
        ReceiverReady serverMemory file 0 .receiving l := by
  apply leadsTo_of_sender
  rintro _ ⟨l, rfl, hl⟩
  have hosts := writeConnection_hosts (k := k) h
  have hne : k.client ≠ (serverParty k).endpoint := k.client_ne_connection
  refine ⟨waits_of_listening (hosts.listening (p := writeClientParty k) hl) (by
    simpa [hosts.listens] using hne), moves_of_datagram writeClient_waits rfl fun _ _ =>
      ⟨(writeClientWith k file name .opened, []), ?_, l, rfl, hl⟩⟩
  simp only [writeClientParty, writeClientResume, handleServerResponse_ack, Option.map_some]
  rfl

theorem writePerfect_begins (hne : file ≠ []) (h : dir.Nameable (uploadPath name)) :
    LeadsTo (PerfectStep (writeClientParty k) (serverParty k))
      (fun x => ∃ l, x = ⟨writeClientWith k file name .opened, writeConnectionWith k name dir l, []⟩ ∧
        ReceiverReady serverMemory file 0 .receiving l)
      (TransferStage serverMemory file (fun s => writeClientWith k file name (.looping s))
        (writeConnectionWith k name dir) 1 0 .sending .receiving []) := by
  apply leadsTo_of_sender
  rintro _ ⟨l, rfl, hl⟩
  have hosts := writeConnection_hosts (k := k) h
  refine ⟨waits_of_listening (hosts.listening (p := writeClientParty k) hl) (by simp),
    moves_of_wake (Or.inl rfl) ?_ ?_⟩
  · rintro disk (_ | (_ | e) | _ | _ | _) _ hne _ _ <;> first | rfl | exact absurd rfl hne
  · intro disk hd
    have hready := senderReady_start (f := ⟨file, disk.readFault⟩) rfl hd.reads
    rw [senderGoesOn_of_le (by simp [chunkCount, hne])] at hready
    exact ⟨_, rfl, _, l, rfl, hready, hl⟩

/-- Every write on a perfect network ends as it should, or none does: block numbers decide. -/
theorem writePerfect_ends_iff (hne : file ≠ []) (h : dir.Nameable (uploadPath name)) :
    EndsIn (PerfectStep (writeClientParty k) (serverParty k))
      (Delivered (writeClientParty k) (serverParty k) (fun s => s.1.status (uploadPath name)) file)
      (writePerfect k file name dir) ↔ chunkCount dataChunkSize file < 65536 := by
  have hpos : 1 ≤ chunkCount dataChunkSize file := by simp [chunkCount, hne]
  refine writePerfect_requests.endsIn_iff (fun y hy => ?_) _ rfl
  refine writePerfect_spawns.endsIn_iff (fun y hy => ?_) y hy
  refine (writePerfect_opens h).endsIn_iff (fun y hy => ?_) y hy
  refine (writePerfect_starts hne).endsIn_iff (fun y hy => ?_) y hy
  refine (writePerfect_answers h).endsIn_iff (fun y hy => ?_) y hy
  refine (writePerfect_accepts h).endsIn_iff (fun y hy => ?_) y hy
  refine (writePerfect_begins hne h).endsIn_iff (fun y hy => ?_) y hy
  exact transfer_ends_iff writeClient_hosts (writeConnection_hosts h) k.client_ne_connection
    serverMemory_counts (min (chunkCount dataChunkSize file) 65536 - 1) (by omega) hy

end

section

variable {k : Sockets} {file target : List UInt8} {clientDir serverDir : Directory}

theorem readClient_waits (disk : Disk) (_ : disk.Works) :
    (readClientParty k).resume disk (clientDir, ⟨k.listener, target, .responding⟩) .scheduled =
        none ∧
      (readClientParty k).resume disk (clientDir, ⟨k.listener, target, .responding⟩) (.sent none) =
        none := ⟨rfl, rfl⟩

theorem readPerfect_requests :
    LeadsTo (PerfectStep (serverParty k) (readClientParty k))
      (fun x => x = readPerfect k target clientDir serverDir)
      fun x => x = ⟨(serverDir, none), (clientDir, ⟨k.listener, target, .responding⟩),
        [⟨k.client, k.listener, RrqPacket.toBuffer { filename := target }⟩]⟩ := by
  apply leadsTo_of_receiver
  rintro _ rfl
  refine ⟨waits_of_listening server_waits (by simp [readPerfect]), moves_of_wake (Or.inr rfl) ?_
    fun _ _ => ⟨_, rfl, rfl⟩⟩
  rintro disk (_ | (_ | e) | _ | _ | _) _ hne _ hs <;>
    first | rfl | exact absurd rfl hne | exact absurd rfl (hs _)

theorem readPerfect_spawns :
    LeadsTo (PerfectStep (serverParty k) (readClientParty k))
      (fun x => x = ⟨(serverDir, none), (clientDir, ⟨k.listener, target, .responding⟩),
        [⟨k.client, k.listener, RrqPacket.toBuffer { filename := target }⟩]⟩)
      fun x => x = ⟨readConnectionWith k target serverDir .spawned,
        (clientDir, ⟨k.listener, target, .responding⟩), []⟩ := by
  apply leadsTo_of_sender
  rintro _ rfl
  refine ⟨waits_of_listening readClient_waits (by simp [readClientParty, k.client_ne_listener.symm]),
    moves_of_datagram server_waits rfl fun _ _ =>
      ⟨(readConnectionWith k target serverDir .spawned, []), ?_, rfl⟩⟩
  simp [serverParty, spawnConnection, readConnectionWith, requestedPath]

theorem readPerfect_opens (h : serverDir.status (requestedPath target) = some (.file file)) :
    LeadsTo (PerfectStep (serverParty k) (readClientParty k))
      (fun x => x = ⟨readConnectionWith k target serverDir .spawned,
        (clientDir, ⟨k.listener, target, .responding⟩), []⟩)
      fun x => x = ⟨readConnectionWith k target serverDir .opened,
        (clientDir, ⟨k.listener, target, .responding⟩), []⟩ := by
  apply leadsTo_of_sender
  rintro _ rfl
  refine ⟨waits_of_listening readClient_waits (by simp), moves_of_wake (Or.inl rfl) ?_ fun _ _ =>
    ⟨(readConnectionWith k target serverDir .opened, []), ?_, rfl⟩⟩
  · rintro disk (_ | (_ | e) | _ | _ | _) _ hne _ _ <;> first | rfl | exact absurd rfl hne
  · simp [serverParty, connectionResume, readConnectionResume, readConnectionWith, h]

theorem readPerfect_starts (hne : file ≠ [])
    (h : serverDir.status (requestedPath target) = some (.file file)) :
    LeadsTo (PerfectStep (serverParty k) (readClientParty k))
      (fun x => x = ⟨readConnectionWith k target serverDir .opened,
        (clientDir, ⟨k.listener, target, .responding⟩), []⟩)
      fun x => ∃ s, x = ⟨readConnectionWith k target serverDir (.looping s),
        (clientDir, ⟨k.listener, target, .responding⟩), []⟩ ∧ SenderReady file 1 .sending s := by
  apply leadsTo_of_sender
  rintro _ rfl
  refine ⟨waits_of_listening readClient_waits (by simp), moves_of_wake (Or.inl rfl) ?_ ?_⟩
  · rintro disk (_ | (_ | e) | _ | _ | _) _ hne _ _ <;> first | rfl | exact absurd rfl hne
  · intro disk hd
    have hready := senderReady_start (f := ⟨file, disk.readFault⟩) rfl hd.reads
    rw [senderGoesOn_of_le (by simp [chunkCount, hne])] at hready
    refine ⟨(readConnectionWith k target serverDir (.looping (SendLoop.start
      ⟨file, disk.readFault⟩ {})), []), ?_, _, rfl, hready⟩
    simp [serverParty, connectionResume, readConnectionResume, readConnectionWith, Directory.input, h]

theorem readPerfect_sends (h : serverDir.status (requestedPath target) = some (.file file)) :
    LeadsTo (PerfectStep (serverParty k) (readClientParty k))
      (fun x => ∃ s, x = ⟨readConnectionWith k target serverDir (.looping s),
        (clientDir, ⟨k.listener, target, .responding⟩), []⟩ ∧ SenderReady file 1 .sending s)
      fun x => ∃ s, x = ⟨readConnectionWith k target serverDir (.looping s),
        (clientDir, ⟨k.listener, target, .responding⟩),
        [⟨k.connection, k.client, dataBytes file 1⟩]⟩ ∧ SenderReady file 1 .receiving s := by
  apply leadsTo_of_sender
  rintro _ ⟨s, rfl, hs⟩
  have hosts := readConnection_hosts (k := k) h
  have hrun : ∀ e, s.control ≠ .finished e := by simp [hs.control_eq]
  refine ⟨waits_of_listening readClient_waits (by simp), moves_of_wake (Or.inr rfl) ?_ ?_⟩
  · intro disk w hd hne hw hsent
    rw [hosts.resume hd hrun,
      sendLoop_sending_waits hs.control_eq hw (by rintro (_ | e); exacts [hne, hsent e])]
    rfl
  · intro disk hd
    rw [hosts.resume hd hrun, hs.send]
    exact ⟨_, rfl, _, rfl, hs.sent⟩

theorem readPerfect_accepts (h : serverDir.status (requestedPath target) = some (.file file))
    (hn : clientDir.Nameable target) :
    LeadsTo (PerfectStep (serverParty k) (readClientParty k))
      (fun x => ∃ s, x = ⟨readConnectionWith k target serverDir (.looping s),
        (clientDir, ⟨k.listener, target, .responding⟩),
        [⟨k.connection, k.client, dataBytes file 1⟩]⟩ ∧ SenderReady file 1 .receiving s)
      fun x => ∃ s, x = ⟨readConnectionWith k target serverDir (.looping s),
        (clientDir.store target {}, ⟨k.connection, target, .opened {} (dataBytes file 1)⟩), []⟩ ∧
        SenderReady file 1 .receiving s := by
  apply leadsTo_of_receiver
  rintro _ ⟨s, rfl, hs⟩
  have hosts := readConnection_hosts (k := k) h
  have hne : k.client ≠ (serverParty k).endpoint := k.client_ne_connection
  refine ⟨waits_of_listening (hosts.listening (q := readClientParty k) hs) (by
    simpa [hosts.listens] using hne), moves_of_datagram readClient_waits rfl fun disk hd =>
      ⟨((clientDir.store target {}, ⟨k.connection, target, .opened {} (dataBytes file 1)⟩), []), ?_,
        s, rfl, hs⟩⟩
  have hopen : (clientDir.store target {}).status target ≠ none := by
    rw [status_store hn rfl]
    simp
  simp only [readClientParty, readClientResume, handleServerResponse_data, Option.map_some,
    openOut_nameable hd hn, if_neg hopen]
  rfl

theorem readPerfect_begins (hne : file ≠ [])
    (h : serverDir.status (requestedPath target) = some (.file file)) :
    LeadsTo (PerfectStep (serverParty k) (readClientParty k))
      (fun x => ∃ s, x = ⟨readConnectionWith k target serverDir (.looping s),
        (clientDir.store target {}, ⟨k.connection, target, .opened {} (dataBytes file 1)⟩), []⟩ ∧
        SenderReady file 1 .receiving s)
      (TransferStage clientMemory file (fun s => readConnectionWith k target serverDir (.looping s))
        (readClientWith k target clientDir) 1 1 .receiving .sending []) := by
  apply leadsTo_of_receiver
  rintro _ ⟨s, rfl, hs⟩
  have hosts := readConnection_hosts (k := k) h
  refine ⟨waits_of_listening (hosts.listening (q := readClientParty k) hs) (by simp),
    moves_of_wake (Or.inl rfl) ?_ ?_⟩
  · rintro disk (_ | (_ | e) | _ | _ | _) _ hne _ _ <;> first | rfl | exact absurd rfl hne
  · intro disk hd
    have hready : ReceiverReady clientMemory file 1 .sending
        (clientReceiveStart disk {} (dataBytes file 1)) :=
      receiverReady_clientStart hne hd rfl rfl rfl
    refine ⟨(readClientWith k target clientDir (clientReceiveStart disk {} (dataBytes file 1)), []),
      ?_, s, _, rfl, hs, hready⟩
    simp [readClientParty, readClientResume, readClientWith, store_store hready.opened]

theorem readPerfect_ends_iff (hne : file ≠ []) (hn : clientDir.Nameable target)
    (h : serverDir.status (requestedPath target) = some (.file file)) :
    EndsIn (PerfectStep (serverParty k) (readClientParty k))
      (Delivered (serverParty k) (readClientParty k) (fun s => s.1.status target) file)
      (readPerfect k target clientDir serverDir) ↔ chunkCount dataChunkSize file < 65536 := by
  refine readPerfect_requests.endsIn_iff (fun y hy => ?_) _ rfl
  refine readPerfect_spawns.endsIn_iff (fun y hy => ?_) y hy
  refine (readPerfect_opens h).endsIn_iff (fun y hy => ?_) y hy
  refine (readPerfect_starts hne h).endsIn_iff (fun y hy => ?_) y hy
  refine (readPerfect_sends h).endsIn_iff (fun y hy => ?_) y hy
  refine (readPerfect_accepts h hn).endsIn_iff (fun y hy => ?_) y hy
  refine (readPerfect_begins hne h).endsIn_iff (fun y hy => ?_) y hy
  exact transfer_confirming_ends_iff (readConnection_hosts h) (readClient_hosts hn)
    k.client_ne_connection.symm clientMemory_counts hy

end

theorem chunkCount_lt_iff {file : List UInt8} (hne : file ≠ []) :
    chunkCount dataChunkSize file < 65536 ↔ file.length < 65535 * dataChunkSize := by
  simp only [chunkCount, hne, if_false, dataChunkSize]
  omega

/-- A non-empty file arrives on a perfect network exactly if its last block's number does not
come back to 0. -/
theorem perfect_transfer_ends_iff {file : List UInt8} (hne : file ≠ []) :
    (∀ k name dir, dir.Nameable (uploadPath name) →
      (EndsIn (PerfectStep (writeClientParty k) (serverParty k))
        (Delivered (writeClientParty k) (serverParty k) (fun s => s.1.status (uploadPath name)) file)
        (writePerfect k file name dir) ↔ file.length < 65535 * dataChunkSize)) ∧
    (∀ k target clientDir serverDir, clientDir.Nameable target →
      serverDir.status (requestedPath target) = some (.file file) →
      (EndsIn (PerfectStep (serverParty k) (readClientParty k))
        (Delivered (serverParty k) (readClientParty k) (fun s => s.1.status target) file)
        (readPerfect k target clientDir serverDir) ↔ file.length < 65535 * dataChunkSize)) := by
  rw [← chunkCount_lt_iff hne]
  exact ⟨fun _ _ _ h => writePerfect_ends_iff hne h, fun _ _ _ _ hn h => readPerfect_ends_iff hne hn h⟩

/-- A client and a server on two hosts. -/
def twoHosts : Sockets where
  client := ⟨2, 50000⟩
  listener := ⟨1, 69⟩
  connectionPort := 50001
  client_ne_listener := by decide
  client_ne_connection := by decide
  listener_ne_connection := by decide

/-- A file of one whole block and a byte more. -/
def twoBlocks : List UInt8 := List.replicate 513 7

theorem uploadPath_f_nameable : Directory.Nameable (fun _ => none) (uploadPath (literal "f")) := by
  decide

theorem perfect_transfer_one_byte :
    EndsIn (PerfectStep (writeClientParty twoHosts) (serverParty twoHosts))
      (Delivered (writeClientParty twoHosts) (serverParty twoHosts)
        (fun s => s.1.status (uploadPath (literal "f"))) [7])
      (writePerfect twoHosts [7] (literal "f") fun _ => none) ∧
    EndsIn (PerfectStep (serverParty twoHosts) (readClientParty twoHosts))
      (Delivered (serverParty twoHosts) (readClientParty twoHosts)
        (fun s => s.1.status (literal "f")) [7])
      (readPerfect twoHosts (literal "f") (fun _ => none) fun _ => some (.file [7])) :=
  ⟨((perfect_transfer_ends_iff (by decide)).1 _ _ _ uploadPath_f_nameable).mpr (by decide),
    ((perfect_transfer_ends_iff (by decide)).2 _ _ _ _ (by decide) (by decide)).mpr (by decide)⟩

/-- 65535 full blocks: the empty last block's number is 0 on the wire. -/
theorem perfect_transfer_wraps :
    ¬ EndsIn (PerfectStep (writeClientParty twoHosts) (serverParty twoHosts))
      (Delivered (writeClientParty twoHosts) (serverParty twoHosts)
        (fun s => s.1.status (uploadPath (literal "f"))) (List.replicate (65535 * 512) 7))
      (writePerfect twoHosts (List.replicate (65535 * 512) 7) (literal "f") fun _ => none) := by
  have hlen : (List.replicate (65535 * 512) (7 : UInt8)).length = 65535 * 512 :=
    List.length_replicate
  generalize List.replicate (65535 * 512) (7 : UInt8) = file at hlen ⊢
  have hne : file ≠ [] := by rintro rfl; simp at hlen
  rw [writePerfect_ends_iff hne uploadPath_f_nameable, chunkCount_lt_iff hne, hlen]
  exact Nat.lt_irrefl _

end Protocols
