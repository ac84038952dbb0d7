import Protocols.CrlfLines
import Protocols.Regex

namespace Protocols

open Regex

namespace FtpClient

/-- What comes to an operation that reads a connection with a timer: some bytes, the end of the timer,
or the end of the connection, orderly or not. -/
inductive SocketEvent
  | bytes (chunk : Text)
  | timer
  | eof
  | failure
  deriving DecidableEq

/-- How a command can fail: with an error code, or with an exception of `stoi`. -/
inductive Error
  | timedOut
  | fault
  | connection
  | thrown
  deriving DecidableEq

def closingData : Nat := 226
def failedToOpen : Nat := 550

/-- The enumerator after `failed_to_open`. -/
def unknown : Nat := 551

def fileNotFound : Text := "File doesn't exist".toList
def pasvCommand : Text := "PASV".toList
def listCommand : Text := "LIST".toList

def digits : Regex := plus (range '0' '9')

def getReply : Regex := all [bol, group 1 digits, lit " ", group 2 (star any), eol]

def getPassivePort : Regex :=
  all [bol, lit "227 ", star any, lit " (", group 1 digits, lit ",", group 2 digits, lit ",",
    group 3 digits, lit ",", group 4 digits, lit ",", group 5 digits, lit ",", group 6 digits,
    lit ")", star any, eol]

/-- The code of a reply and its submatches, unless `stoi` throws. -/
def parseReply (replyString : Text) : Option (Nat × List Text) :=
  match regexMatch getReply replyString with
  | some submatch => (stoi (str submatch 1)).map fun code => (code, submatch)
  | none => some (unknown, [])

/-- One wait for a line and for the timer: the line and what the buffer has after it, or none if the
timer or the connection has ended first. -/
def readLine (buffer : Text) : List SocketEvent → Option (Text × Text) × List SocketEvent
  | .bytes chunk :: events =>
    match splitCrlf buffer with
    | some line => (some line, .bytes chunk :: events)
    | none => readLine (buffer ++ chunk) events
  | .timer :: events =>
    match splitCrlf buffer with
    | some line => (some line, .timer :: events)
    | none => (none, events)
  | events => (splitCrlf buffer, events)

/-- The lines up to a wait without one. What the buffer has then is lost. -/
def readLines : Nat → Text → List SocketEvent → List Text × List SocketEvent
  | 0, _, events => ([], events)
  | fuel + 1, buffer, events =>
    match readLine buffer events with
    | (some (line, rest), events) =>
      let (lines, events) := readLines fuel rest events
      (line :: lines, events)
    | (none, events) => ([], events)

/-- The bytes that come before anything else does. -/
def arrived : List SocketEvent → Text
  | .bytes chunk :: events => chunk ++ arrived events
  | _ => []

/-- `read_multiple_lines`. Every line takes its CRLF, so there are no more lines than bytes. -/
def readMultipleLines (events : List SocketEvent) : Except Error (List Text) × List SocketEvent :=
  let (lines, events) := readLines ((arrived events).length + 1) [] events
  (if lines = [] then .error .timedOut else .ok lines, events)

/-- `read_raw_data` succeeds if the connection ends before the timer. -/
def readRawData (buffer : Text) : List SocketEvent → Except Error Text
  | .bytes chunk :: events => readRawData (buffer ++ chunk) events
  | .eof :: _ => .ok (buffer.filter fun c => c ≠ '\r')
  | _ => .error .timedOut

/-- `{:0>2x}` -/
def hexByte (n : Nat) : Text :=
  let digits := Nat.toDigits 16 n
  List.replicate (2 - digits.length) '0' ++ digits

/-- `stoi` to the base 16. -/
def stoiHex (digits : Text) : Option Nat :=
  let value := digits.foldl
    (fun value c => 16 * value + if c.isDigit then c.toNat - '0'.toNat else c.toNat - 'a'.toNat + 10) 0
  if value < 2 ^ 31 then some value else none

def passivePort (high low : Text) : Option Nat :=
  (stoi high).bind fun high => (stoi low).bind fun low => stoiHex (hexByte high ++ hexByte low)

/-- The host and the port of the data connection, from the last of the lines that answer PASV. -/
def ftpPassiveMode (control : List SocketEvent) : Except Error (Text × Text) × List SocketEvent :=
  match readMultipleLines control with
  | (.error error, control) => (.error error, control)
  | (.ok reply, control) =>
    match regexMatch getPassivePort (reply.getLastD []) with
    | none => (.error .fault, control)
    | some submatch =>
      match passivePort (str submatch 5) (str submatch 6) with
      | none => (.error .thrown, control)
      | some port =>
        let host := format "{}.{}.{}.{}".toList
          [str submatch 1, str submatch 2, str submatch 3, str submatch 4]
        (.ok (host, decimal port), control)

/-- What has come of a command: its error, what has been printed and sent, and what there is still to
read. -/
structure Executed where
  error : Option Error
  printed : Text := []
  sent : List Text
  control : List SocketEvent
  deriving DecidableEq

/-- `execute` from where the command is sent. -/
def transfer (command : Text) (control dataEvents : List SocketEvent) : Executed :=
  let sent := [pasvCommand, command]
  match readMultipleLines control with
  | (.error error, control) => { error := some error, sent := sent, control := control }
  | (.ok controlLines, control) =>
    match parseReply (controlLines.getLastD []) with
    | none => { error := some .thrown, sent := sent, control := control }
    | some (controlCode, _) =>
      if controlCode = failedToOpen then
        { error := none, printed := fileNotFound ++ ['\n'], sent := sent, control := control }
      else if controlCode = closingData then
        match readRawData [] dataEvents with
        | .error error => { error := some error, sent := sent, control := control }
        | .ok data =>
          let newline := if data.getLast? = some '\n' then [] else ['\n']
          { error := none, printed := data ++ newline, sent := sent, control := control }
      else { error := none, sent := sent, control := control }

/-- `execute`, where `connect` is what `connect_with_timeout` comes to: an error, or a connection with
what comes on it. -/
def execute (command : Text) (control : List SocketEvent)
    (connect : Text → Text → Except Error (List SocketEvent)) : Executed :=
  match ftpPassiveMode control with
  | (.error error, control) => { error := some error, sent := [pasvCommand], control := control }
  | (.ok (dataHost, dataPort), control) =>
    match connect dataHost dataPort with
    | .error error => { error := some error, sent := [pasvCommand], control := control }
    | .ok dataEvents => transfer command control dataEvents

end FtpClient

end Protocols
