import Protocols.TftpReceiveLoop

namespace Protocols

/-- `std::filesystem::path::filename`: what follows the last separator. -/
def pathFilename (path : List UInt8) : List UInt8 :=
  (path.reverse.takeWhile fun chr => chr != 47).reverse

/-- The state of `read_connection` between two suspensions. -/
inductive ReadControl
  | spawned
  | refusing
  | opened
  | looping (loop : SendLoop)
  | returned (error : Option ErrorCode)
  deriving DecidableEq, Repr

/-- The state of `write_connection`; once it has returned, its stream as the destructor left it. -/
inductive WriteControl
  | spawned
  | refusing
  | opened (stream : OfStream)
  | looping (loop : ReceiveLoop Bool)
  | returned (error : Option ErrorCode) (stream : OfStream)
  deriving DecidableEq, Repr

structure ReadConnection where
  clientEndpoint : Endpoint
  path : List UInt8
  control : ReadControl
  deriving DecidableEq, Repr

structure WriteConnection where
  clientEndpoint : Endpoint
  path : List UInt8
  control : WriteControl
  deriving DecidableEq, Repr

def fileNotFound (path : List UInt8) : List UInt8 :=
  ErrorPacket.toBuffer
    { errorCode := 1, errorMsg := literal "File " ++ path ++ literal " not found" }

def fileExists (path : List UInt8) : List UInt8 :=
  ErrorPacket.toBuffer
    { errorCode := 6, errorMsg := literal "File " ++ path ++ literal " already exists" }

/-- One resumption of `read_connection`. The file may grow while it is sent, so every read sees
the directory as it is then. -/
def readConnectionResume (disk : Disk) (dir : Directory) (c : ReadConnection) (wake : Wake) :
    Option (ReadConnection × Outgoing) :=
  match c.control, wake with
  | .spawned, .scheduled =>
    if dir.status c.path = none then some ({ c with control := .refusing }, [])
    else some ({ c with control := .opened }, [])
  | .refusing, .sent none =>
    some ({ c with control := .returned none }, [(c.clientEndpoint, fileNotFound c.path)])
  | .refusing, .sent (some error) => some ({ c with control := .returned (some error) }, [])
  | .opened, .scheduled =>
    some ({ c with control := .looping (SendLoop.start (dir.input disk c.path) {}) }, [])
  | .looping loop, wake =>
    match loop.control, wake with
    | .finished error, .scheduled => some ({ c with control := .returned error }, [])
    | _, _ =>
      (serverSendLoop c.clientEndpoint (dir.input disk c.path) loop wake).map
        fun (loop, out) => ({ c with control := .looping loop }, out)
  | _, _ => none

/-- What a resumption of `read_connection` can do. -/
inductive ReadConnectionStep (disk : Disk) (dir : Directory) (c : ReadConnection) (wake : Wake) :
    ReadConnection → Outgoing → Prop
  | missing : c.control = .spawned → wake = .scheduled → dir.status c.path = none →
      ReadConnectionStep disk dir c wake { c with control := .refusing } []
  | found : c.control = .spawned → wake = .scheduled → dir.status c.path ≠ none →
      ReadConnectionStep disk dir c wake { c with control := .opened } []
  | refused : c.control = .refusing → wake = .sent none →
      ReadConnectionStep disk dir c wake { c with control := .returned none }
        [(c.clientEndpoint, fileNotFound c.path)]
  | unsent (error : ErrorCode) : c.control = .refusing → wake = .sent (some error) →
      ReadConnectionStep disk dir c wake { c with control := .returned (some error) } []
  | started : c.control = .opened → wake = .scheduled →
      ReadConnectionStep disk dir c wake
        { c with control := .looping (SendLoop.start (dir.input disk c.path) {}) } []
  | returned (loop : SendLoop) (error : Option ErrorCode) : c.control = .looping loop →
      loop.control = .finished error → wake = .scheduled →
      ReadConnectionStep disk dir c wake { c with control := .returned error } []
  | looped (loop loop' : SendLoop) (out : Outgoing) : c.control = .looping loop →
      serverSendLoop c.clientEndpoint (dir.input disk c.path) loop wake = some (loop', out) →
      ReadConnectionStep disk dir c wake { c with control := .looping loop' } out

theorem readConnectionResume_step {disk : Disk} {dir : Directory} {c c' : ReadConnection}
    {wake : Wake} {out : Outgoing} (hs : readConnectionResume disk dir c wake = some (c', out)) :
    ReadConnectionStep disk dir c wake c' out := by
  unfold readConnectionResume at hs
  split at hs
  next hc =>
    split at hs
    next hnone =>
      cases hs
      exact .missing hc rfl hnone
    next hsome =>
      cases hs
      exact .found hc rfl hsome
  next hc =>
    cases hs
    exact .refused hc rfl
  next error hc =>
    cases hs
    exact .unsent error hc rfl
  next hc =>
    cases hs
    exact .started hc rfl
  next loop hc =>
    split at hs
    next error he =>
      cases hs
      exact .returned loop error hc he rfl
    next =>
      obtain ⟨⟨loop', out'⟩, hloop, hs⟩ := Option.map_eq_some_iff.mp hs
      cases hs
      exact .looped loop loop' out hc hloop
  next => cases hs

/-- One resumption of `write_connection`. The stream is destroyed when the connection returns;
the file stays, whether the loop has failed or not. -/
def writeConnectionResume (disk : Disk) (dir : Directory) (c : WriteConnection) (wake : Wake) :
    Option (Directory × WriteConnection × Outgoing) :=
  match c.control, wake with
  | .spawned, .scheduled =>
    if dir.status c.path ≠ none then some (dir, { c with control := .refusing }, [])
    else
      let (dir, stream) := dir.openOut disk c.path
      some (dir, { c with control := .opened stream }, [])
  | .refusing, .sent none =>
    some (dir, { c with control := .returned none { isOpen := false } },
      [(c.clientEndpoint, fileExists c.path)])
  | .refusing, .sent (some error) =>
    some (dir, { c with control := .returned (some error) { isOpen := false } }, [])
  | .opened stream, .scheduled =>
    some (dir, { c with control := .looping (serverReceiveStart stream) }, [])
  | .looping loop, wake =>
    match loop.control, wake with
    | .finished error, .scheduled =>
      let stream := loop.fileStream.close disk
      some (dir.store c.path stream, { c with control := .returned error stream }, [])
    | _, _ =>
      (serverReceiveLoop c.clientEndpoint disk loop wake).map fun (loop, out) =>
        (dir.store c.path loop.fileStream, { c with control := .looping loop }, out)
  | _, _ => none

/-- What a resumption of `write_connection` can do. -/
inductive WriteConnectionStep (disk : Disk) (dir : Directory) (c : WriteConnection) (wake : Wake) :
    Directory → WriteConnection → Outgoing → Prop
  | present : c.control = .spawned → wake = .scheduled → dir.status c.path ≠ none →
      WriteConnectionStep disk dir c wake dir { c with control := .refusing } []
  | created : c.control = .spawned → wake = .scheduled → dir.status c.path = none →
      WriteConnectionStep disk dir c wake (dir.openOut disk c.path).1
        { c with control := .opened (dir.openOut disk c.path).2 } []
  | refused : c.control = .refusing → wake = .sent none →
      WriteConnectionStep disk dir c wake dir
        { c with control := .returned none { isOpen := false } }
        [(c.clientEndpoint, fileExists c.path)]
  | unsent (error : ErrorCode) : c.control = .refusing → wake = .sent (some error) →
      WriteConnectionStep disk dir c wake dir
        { c with control := .returned (some error) { isOpen := false } } []
  | started (stream : OfStream) : c.control = .opened stream → wake = .scheduled →
      WriteConnectionStep disk dir c wake dir
        { c with control := .looping (serverReceiveStart stream) } []
  | returned (loop : ReceiveLoop Bool) (error : Option ErrorCode) : c.control = .looping loop →
      loop.control = .finished error → wake = .scheduled →
      WriteConnectionStep disk dir c wake (dir.store c.path (loop.fileStream.close disk))
        { c with control := .returned error (loop.fileStream.close disk) } []
  | looped (loop loop' : ReceiveLoop Bool) (out : Outgoing) : c.control = .looping loop →
      serverReceiveLoop c.clientEndpoint disk loop wake = some (loop', out) →
      WriteConnectionStep disk dir c wake (dir.store c.path loop'.fileStream)
        { c with control := .looping loop' } out

theorem writeConnectionResume_step {disk : Disk} {dir dir' : Directory} {c c' : WriteConnection}
    {wake : Wake} {out : Outgoing}
    (hs : writeConnectionResume disk dir c wake = some (dir', c', out)) :
    WriteConnectionStep disk dir c wake dir' c' out := by
  unfold writeConnectionResume at hs
  split at hs
  next hc =>
    split at hs
    next hsome =>
      cases hs
      exact .present hc rfl hsome
    next hnone =>
      cases hs
      exact .created hc rfl (not_not.mp hnone)
  next hc =>
    cases hs
    exact .refused hc rfl
  next error hc =>
    cases hs
    exact .unsent error hc rfl
  next stream hc =>
    cases hs
    exact .started stream hc rfl
  next loop hc =>
    split at hs
    next error he =>
      cases hs
      exact .returned loop error hc he rfl
    next =>
      obtain ⟨⟨loop', out'⟩, hloop, hs⟩ := Option.map_eq_some_iff.mp hs
      cases hs
      exact .looped loop loop' out hc hloop
  next => cases hs

/-- A coroutine the server has spawned for a request. -/
inductive Connection
  | read (c : ReadConnection)
  | write (c : WriteConnection)
  deriving DecidableEq, Repr

def connectionResume (disk : Disk) (dir : Directory) (c : Connection) (wake : Wake) :
    Option (Directory × Connection × Outgoing) :=
  match c with
  | .read c => (readConnectionResume disk dir c wake).map fun (c, out) => (dir, .read c, out)
  | .write c => (writeConnectionResume disk dir c wake).map fun (dir, c, out) => (dir, .write c, out)

/-- `spawn_connections` on one request datagram: the coroutine it spawns, if any. -/
def spawnConnection (clientEndpoint : Endpoint) (request : List UInt8) : Option Connection :=
  let path := pathFilename (getFilename request)
  match getOpcode request with
  | .rrq => some (.read ⟨clientEndpoint, path, .spawned⟩)
  | .wrq => some (.write ⟨clientEndpoint, path, .spawned⟩)
  -- anything else is logged and dropped
  | _ => none

end Protocols
