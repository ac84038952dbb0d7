import Protocols.TftpReceiveLoop

namespace Protocols

/-- The state of `write_client` between two suspensions. -/
inductive WriteClientControl
  | requesting
  | responding
  | opened
  | looping (loop : SendLoop)
  | returned (error : Option ErrorCode)

/-- `source` is the content of the source file, `filename` the last part of its path. -/
structure WriteClient where
  server : Endpoint
  filename : List UInt8
  source : List UInt8
  control : WriteClientControl

/-- `handle_server_response` and the check of the response that follows it: the error, or the
endpoint and the bytes of a response with the expected opcode and block number. -/
def handleServerResponse (expected : Opcode) (block : UInt16) (wake : Wake) :
    Option (Except ErrorCode (Endpoint × List UInt8)) :=
  match wake with
  | .timeout => some (.error .timedOut)
  | .datagram sender bytes =>
    let response := receivePacket bytes
    if (getError response).1 = .error then some (.error .connectionRefused)
    else if getOpcode response ≠ expected ∨ getBlockNumber response ≠ block then
      some (.error .connectionAborted)
    else some (.ok (sender, response))
  | _ => none

/-- One resumption of `write_client`. -/
def writeClientResume (disk : Disk) (c : WriteClient) (wake : Wake) :
    Option (WriteClient × Outgoing) :=
  match c.control, wake with
  | .requesting, .sent none =>
    some ({ c with control := .responding },
      [(c.server, WrqPacket.toBuffer { filename := c.filename })])
  | .requesting, .sent (some error) => some ({ c with control := .returned (some error) }, [])
  | .responding, wake =>
    (handleServerResponse .ack 0 wake).map fun
      | .error error => ({ c with control := .returned (some error) }, [])
      | .ok (sender, _) =>
        ({ c with server := { c.server with port := sender.port }, control := .opened }, [])
  | .opened, .scheduled =>
    some ({ c with control := .looping (SendLoop.start ⟨c.source, disk.readFault⟩ {}) }, [])
  | .looping loop, wake =>
    match loop.control, wake with
    | .finished error, .scheduled => some ({ c with control := .returned error }, [])
    | _, _ =>
      (clientSendLoop c.server ⟨c.source, disk.readFault⟩ loop wake).map
        fun (loop, out) => ({ c with control := .looping loop }, out)
  | _, _ => none

/-- What a resumption of `write_client` can do. -/
inductive WriteClientStep (disk : Disk) (c : WriteClient) (wake : Wake) :
    WriteClient → Outgoing → Prop
  | requested : c.control = .requesting → wake = .sent none →
      WriteClientStep disk c wake { c with control := .responding }
        [(c.server, WrqPacket.toBuffer { filename := c.filename })]
  | unsent (error : ErrorCode) : c.control = .requesting → wake = .sent (some error) →
      WriteClientStep disk c wake { c with control := .returned (some error) } []
  | refused (error : ErrorCode) : c.control = .responding →
      handleServerResponse .ack 0 wake = some (.error error) →
      WriteClientStep disk c wake { c with control := .returned (some error) } []
  | answered (sender : Endpoint) (response : List UInt8) : c.control = .responding →
      handleServerResponse .ack 0 wake = some (.ok (sender, response)) →
      WriteClientStep disk c wake
        { c with server := { c.server with port := sender.port }, control := .opened } []
  | started : c.control = .opened → wake = .scheduled →
      WriteClientStep disk c wake
        { c with control := .looping (SendLoop.start ⟨c.source, disk.readFault⟩ {}) } []
  | returned (loop : SendLoop) (error : Option ErrorCode) : c.control = .looping loop →
      loop.control = .finished error → wake = .scheduled →
      WriteClientStep disk c wake { c with control := .returned error } []
  | looped (loop loop' : SendLoop) (out : Outgoing) : c.control = .looping loop →
      clientSendLoop c.server ⟨c.source, disk.readFault⟩ loop wake = some (loop', out) →
      WriteClientStep disk c wake { c with control := .looping loop' } out

theorem writeClientResume_step {disk : Disk} {c c' : WriteClient} {wake : Wake} {out : Outgoing}
    (hs : writeClientResume disk c wake = some (c', out)) : WriteClientStep disk c wake c' out := by
  unfold writeClientResume at hs
  split at hs
  next hc =>
    cases hs
    exact .requested hc rfl
  next error hc =>
    cases hs
    exact .unsent error hc rfl
  next hc =>
    obtain ⟨response, hresponse, hs⟩ := Option.map_eq_some_iff.mp hs
    match response with
    | .error error =>
      cases hs
      exact .refused error hc hresponse
    | .ok (sender, response) =>
      cases hs
      exact .answered sender response hc hresponse
  next hc =>
    cases hs
    exact .started hc rfl
  next loop hc =>
    split at hs
    next error he =>
      cases hs
      exact .returned loop error hc he rfl
    next =>
      obtain ⟨⟨loop', out'⟩, hloop, hs⟩ := Option.map_eq_some_iff.mp hs
      cases hs
      exact .looped loop loop' out hc hloop
  next => cases hs

/-- The state of `read_client`; `threw` is the exception `permissions` throws where the target
could not be created. Once it has returned, its stream as the destructor left it. -/
inductive ReadClientControl
  | requesting
  | responding
  | opened (stream : OfStream) (response : List UInt8)
  | looping (loop : ReceiveLoop Nat)
  | returned (error : Option ErrorCode) (stream : OfStream)
  | threw
  deriving DecidableEq, Repr

/-- `target` is the last part of the target's path, in the client's own directory. -/
structure ReadClient where
  server : Endpoint
  target : List UInt8
  control : ReadClientControl

/-- One resumption of `read_client`. On an error of the loop the target is removed while its
stream is still open, so what the destructor flushes is in no directory. -/
def readClientResume (disk : Disk) (dir : Directory) (c : ReadClient) (wake : Wake) :
    Option (Directory × ReadClient × Outgoing) :=
  match c.control, wake with
  | .requesting, .sent none =>
    some (dir, { c with control := .responding },
      [(c.server, RrqPacket.toBuffer { filename := c.target })])
  | .requesting, .sent (some error) =>
    some (dir, { c with control := .returned (some error) { isOpen := false } }, [])
  | .responding, wake =>
    (handleServerResponse .data 1 wake).map fun
      | .error error =>
        (dir, { c with control := .returned (some error) { isOpen := false } }, [])
      | .ok (sender, response) =>
        let server := { c.server with port := sender.port }
        let (dir, stream) := dir.openOut disk c.target
        -- `permissions` throws for a target that is not there
        if dir.status c.target = none then (dir, { c with server, control := .threw }, [])
        else (dir, { c with server, control := .opened stream response }, [])
  | .opened stream response, .scheduled =>
    let loop := clientReceiveStart disk stream response
    some (dir.store c.target loop.fileStream, { c with control := .looping loop }, [])
  | .looping loop, wake =>
    match loop.control, wake with
    | .finished (some error), .scheduled =>
      some (dir.remove c.target, { c with control := .returned (some error) loop.fileStream }, [])
    | .finished none, .scheduled =>
      let stream := loop.fileStream.close disk
      some (dir.store c.target stream, { c with control := .returned none stream }, [])
    | _, _ =>
      (clientReceiveLoop c.server disk loop wake).map fun (loop, out) =>
        (dir.store c.target loop.fileStream, { c with control := .looping loop }, out)
  | _, _ => none

/-- What a resumption of `read_client` can do. -/
inductive ReadClientStep (disk : Disk) (dir : Directory) (c : ReadClient) (wake : Wake) :
    Directory → ReadClient → Outgoing → Prop
  | requested : c.control = .requesting → wake = .sent none →
      ReadClientStep disk dir c wake dir { c with control := .responding }
        [(c.server, RrqPacket.toBuffer { filename := c.target })]
  | unsent (error : ErrorCode) : c.control = .requesting → wake = .sent (some error) →
      ReadClientStep disk dir c wake dir
        { c with control := .returned (some error) { isOpen := false } } []
  | refused (error : ErrorCode) : c.control = .responding →
      handleServerResponse .data 1 wake = some (.error error) →
      ReadClientStep disk dir c wake dir
        { c with control := .returned (some error) { isOpen := false } } []
  | unopened (sender : Endpoint) (response : List UInt8) : c.control = .responding →
      handleServerResponse .data 1 wake = some (.ok (sender, response)) →
      (dir.openOut disk c.target).1.status c.target = none →
      ReadClientStep disk dir c wake (dir.openOut disk c.target).1
        { c with server := { c.server with port := sender.port }, control := .threw } []
  | answered (sender : Endpoint) (response : List UInt8) : c.control = .responding →
      handleServerResponse .data 1 wake = some (.ok (sender, response)) →
      (dir.openOut disk c.target).1.status c.target ≠ none →
      ReadClientStep disk dir c wake (dir.openOut disk c.target).1
        { c with
          server := { c.server with port := sender.port }
          control := .opened (dir.openOut disk c.target).2 response } []
  | started (stream : OfStream) (response : List UInt8) : c.control = .opened stream response →
      wake = .scheduled →
      ReadClientStep disk dir c wake
        (dir.store c.target (clientReceiveStart disk stream response).fileStream)
        { c with control := .looping (clientReceiveStart disk stream response) } []
  | failed (loop : ReceiveLoop Nat) (error : ErrorCode) : c.control = .looping loop →
      loop.control = .finished (some error) → wake = .scheduled →
      ReadClientStep disk dir c wake (dir.remove c.target)
        { c with control := .returned (some error) loop.fileStream } []
  | succeeded (loop : ReceiveLoop Nat) : c.control = .looping loop →
      loop.control = .finished none → wake = .scheduled →
      ReadClientStep disk dir c wake (dir.store c.target (loop.fileStream.close disk))
        { c with control := .returned none (loop.fileStream.close disk) } []
  | looped (loop loop' : ReceiveLoop Nat) (out : Outgoing) : c.control = .looping loop →
      clientReceiveLoop c.server disk loop wake = some (loop', out) →
      ReadClientStep disk dir c wake (dir.store c.target loop'.fileStream)
        { c with control := .looping loop' } out

theorem readClientResume_step {disk : Disk} {dir dir' : Directory} {c c' : ReadClient} {wake : Wake}
    {out : Outgoing} (hs : readClientResume disk dir c wake = some (dir', c', out)) :
    ReadClientStep disk dir c wake dir' c' out := by
  unfold readClientResume at hs
  split at hs
  next hc =>
    cases hs
    exact .requested hc rfl
  next error hc =>
    cases hs
    exact .unsent error hc rfl
  next hc =>
    obtain ⟨response, hresponse, hs⟩ := Option.map_eq_some_iff.mp hs
    match response with
    | .error error =>
      cases hs
      exact .refused error hc hresponse
    | .ok (sender, response) =>
      dsimp only at hs
      split at hs
      next hnone =>
        cases hs
        exact .unopened sender response hc hresponse hnone
      next hopen =>
        cases hs
        exact .answered sender response hc hresponse hopen
  next stream response hc =>
    cases hs
    exact .started stream response hc rfl
  next loop hc =>
    split at hs
    next error he =>
      cases hs
      exact .failed loop error hc he rfl
    next he =>
      cases hs
      exact .succeeded loop hc he rfl
    next =>
      obtain ⟨⟨loop', out'⟩, hloop, hs⟩ := Option.map_eq_some_iff.mp hs
      cases hs
      exact .looped loop loop' out hc hloop
  next => cases hs

end Protocols
