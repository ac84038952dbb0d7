import Protocols.Chunks
import Protocols.TftpPacket
import Protocols.TftpStream

namespace Protocols

def dataChunkSize : Nat := 512

def maxReceiveSize : Nat := 1024

structure Endpoint where
  address : Nat
  port : UInt16
  deriving DecidableEq, Repr

/-- What the event loop resumes a suspended coroutine with. `timeout` stands for the receive
timer and for every receive error: `receive_packet` reports both as `timed_out`. -/
inductive Wake
  | scheduled
  | sent (error : Option ErrorCode)
  | timeout
  | datagram (sender : Endpoint) (bytes : List UInt8)
  | watchdog
  deriving DecidableEq, Repr

/-- Datagrams a resumption handed to the network, each with its receiver. -/
abbrev Outgoing := List (Endpoint × List UInt8)

/-- `receive_packet` offers a buffer of `MAX_RECEIVE_SIZE` bytes; a longer datagram is cut. -/
def receivePacket (bytes : List UInt8) : List UInt8 := bytes.take maxReceiveSize

/-- Where a transfer loop is suspended, or how it ended. -/
inductive LoopControl
  | sending
  | receiving
  | rejecting (stranger : Endpoint)
  | finished (error : Option ErrorCode)
  deriving DecidableEq, Repr

structure SendLoop where
  dataPacket : DataPacket
  fileBytesRead : Nat
  lastDataSize : Nat
  fileStream : IfStream
  watchdogExpired : Bool
  control : LoopControl
  deriving DecidableEq, Repr

/-- `file_reader`: the read bytes overwrite the front of `data`. -/
def fileReader (file : InputFile) (s : IfStream) (data : List UInt8) :
    List UInt8 × Nat × IfStream :=
  let (delivered, stream) := s.read file data.length
  (delivered ++ data.drop delivered.length, delivered.length, stream)

/-- From the `while` condition to the next suspension, or past the loop. -/
def SendLoop.loopHead (s : SendLoop) : SendLoop :=
  if 0 < s.fileBytesRead ∨ s.lastDataSize = dataChunkSize then
    if s.watchdogExpired then { s with control := .finished (some .timedOut) }
    else
      { s with
        dataPacket := { s.dataPacket with data := s.dataPacket.data.take s.fileBytesRead }
        control := .sending }
  else if !s.fileStream.eof then { s with control := .finished (some .fault) }
  else { s with control := .finished none }

def SendLoop.start (file : InputFile) (stream : IfStream) : SendLoop :=
  let (data, read, stream) := fileReader file stream (List.replicate dataChunkSize 0)
  SendLoop.loopHead
    { dataPacket := { data }, fileBytesRead := read, lastDataSize := 0, fileStream := stream,
      watchdogExpired := false, control := .sending }

/-- The acknowledgement of the current block: read the next one. -/
def SendLoop.acknowledged (file : InputFile) (s : SendLoop) : SendLoop :=
  let (data, read, stream) := fileReader file s.fileStream s.dataPacket.data
  SendLoop.loopHead
    { s with
      lastDataSize := s.fileBytesRead
      fileBytesRead := read
      fileStream := stream
      dataPacket := { s.dataPacket with data, block := s.dataPacket.block + 1 } }

def SendLoop.received (peer : Endpoint) (file : InputFile) (s : SendLoop) (sender : Endpoint)
    (bytes : List UInt8) : SendLoop :=
  if sender ≠ peer then { s with control := .rejecting sender }
  else if getOpcode bytes ≠ .ack ∨ getBlockNumber bytes ≠ s.dataPacket.block then s.loopHead
  else s.acknowledged file

/-- The reply to a datagram of a foreign endpoint. -/
def unknownTransfer (errorMsg : String) : List UInt8 :=
  ErrorPacket.toBuffer { errorCode := 5, errorMsg := literal errorMsg }

/-- One resumption of `send_loop`; `none` where the loop does not wait for this. -/
def sendLoopResume (errorMsg : String) (peer : Endpoint) (file : InputFile) (s : SendLoop)
    (wake : Wake) : Option (SendLoop × Outgoing) :=
  match s.control, wake with
  | .finished _, _ => none
  -- the watchdog sets a flag that the loop looks at before its next send
  | _, .watchdog => some ({ s with watchdogExpired := true }, [])
  | .sending, .sent none =>
    some ({ s with control := .receiving }, [(peer, s.dataPacket.toBuffer)])
  | .sending, .sent (some error) => some ({ s with control := .finished (some error) }, [])
  | .receiving, .timeout => some (s.loopHead, [])
  | .receiving, .datagram sender bytes =>
    some (s.received peer file sender (receivePacket bytes), [])
  | .rejecting stranger, .sent none => some (s.loopHead, [(stranger, unknownTransfer errorMsg)])
  -- nobody looks at the error of this send
  | .rejecting _, .sent (some _) => some (s.loopHead, [])
  | _, _ => none

/-- What a resumption of `send_loop` can do. -/
inductive SendLoopStep (errorMsg : String) (peer : Endpoint) (file : InputFile) (s : SendLoop)
    (wake : Wake) : SendLoop → Outgoing → Prop
  | expired : (∀ error, s.control ≠ .finished error) → wake = .watchdog →
      SendLoopStep errorMsg peer file s wake { s with watchdogExpired := true } []
  | sent : s.control = .sending → wake = .sent none →
      SendLoopStep errorMsg peer file s wake { s with control := .receiving }
        [(peer, s.dataPacket.toBuffer)]
  | unsent (error : ErrorCode) : s.control = .sending → wake = .sent (some error) →
      SendLoopStep errorMsg peer file s wake { s with control := .finished (some error) } []
  | unheard : s.control = .receiving → wake = .timeout →
      SendLoopStep errorMsg peer file s wake s.loopHead []
  | stranger (sender : Endpoint) (bytes : List UInt8) : s.control = .receiving →
      wake = .datagram sender bytes → sender ≠ peer →
      SendLoopStep errorMsg peer file s wake { s with control := .rejecting sender } []
  | ignored (bytes : List UInt8) : s.control = .receiving → wake = .datagram peer bytes →
      (getOpcode (receivePacket bytes) ≠ .ack ∨
        getBlockNumber (receivePacket bytes) ≠ s.dataPacket.block) →
      SendLoopStep errorMsg peer file s wake s.loopHead []
  | acknowledged (bytes : List UInt8) : s.control = .receiving → wake = .datagram peer bytes →
      getOpcode (receivePacket bytes) = .ack →
      getBlockNumber (receivePacket bytes) = s.dataPacket.block →
      SendLoopStep errorMsg peer file s wake (s.acknowledged file) []
  | answered (sender : Endpoint) : s.control = .rejecting sender → wake = .sent none →
      SendLoopStep errorMsg peer file s wake s.loopHead [(sender, unknownTransfer errorMsg)]
  | unanswered (sender : Endpoint) (error : ErrorCode) : s.control = .rejecting sender →
      wake = .sent (some error) →
      SendLoopStep errorMsg peer file s wake s.loopHead []

theorem sendLoopResume_step {errorMsg : String} {peer : Endpoint} {file : InputFile}
    {s t : SendLoop} {wake : Wake} {out : Outgoing}
    (hs : sendLoopResume errorMsg peer file s wake = some (t, out)) :
    SendLoopStep errorMsg peer file s wake t out := by
  unfold sendLoopResume at hs
  split at hs
  next => cases hs
  next hne =>
    cases hs
    exact .expired hne rfl
  next hc =>
    cases hs
    exact .sent hc rfl
  next error hc =>
    cases hs
    exact .unsent error hc rfl
  next hc =>
    cases hs
    exact .unheard hc rfl
  next sender bytes hc =>
    cases hs
    unfold SendLoop.received
    split
    next hne => exact .stranger sender bytes hc rfl hne
    next heq =>
      rw [not_not] at heq
      subst heq
      split
      next hno => exact .ignored bytes hc rfl hno
      next hack =>
        simp only [ne_eq, not_or, not_not] at hack
        exact .acknowledged bytes hc rfl hack.1 hack.2
  next sender hc =>
    cases hs
    exact .answered sender hc rfl
  next sender error hc =>
    cases hs
    exact .unanswered sender error hc rfl
  next => cases hs

/-- The two programs' loops differ in the text of one error message. -/
def serverSendLoop := sendLoopResume "Unknown transfer ID"

def clientSendLoop := sendLoopResume "Unknown transfer ID."

end Protocols
