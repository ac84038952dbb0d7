import Protocols.LineClient
import Protocols.Regex
import Protocols.Tables

namespace Protocols

open Regex

/-- `mail` of the POP3 client. -/
structure Pop3Mail where
  headers : Table Text Text := ∅
  body : Text := []
  deriving DecidableEq

/-- What the client waits for. In `retr` it has still got the given messages to ask for. -/
inductive Pop3ClientControl
  | greeting
  | user
  | pass
  | list
  | retr (numbers : List Nat)
  | quit
  | ended
  | failed
  deriving DecidableEq

/-- `client` between two answers. -/
structure Pop3Client where
  username : Text
  password : Text
  storage : List Pop3Mail := []
  control : Pop3ClientControl := .greeting
  deriving DecidableEq

namespace Pop3Client

def userCmd (user : Text) : Text := format "USER {}".toList [user]
def passCmd (pass : Text) : Text := format "PASS {}".toList [pass]
def listCmd : Text := "LIST".toList
def retrCmd (number : Nat) : Text := format "RETR {}".toList [decimal number]
def quitCmd : Text := "QUIT".toList
def ok : Text := "+OK".toList
def endList : Text := ".".toList

def messageNumber : Regex :=
  all [bol, group 1 (plus (range '0' '9')), lit " ", plus (range '0' '9'), eol]

def header : Regex :=
  all [bol, group 1 (plus (set fun c => c != ':')), lit ": ", group 2 (plus any), eol]

/-- `response.find(ok, 0) != std::string::npos` -/
def isOk (response : Text) : Bool := ok <:+: response

/-- The first loop of `parse_message`: the headers, and `body_start`, a `uint32_t`. -/
def parseHeaders (headers : Table Text Text) (line : Nat) : List Text → Table Text Text × Nat
  | [] => (headers, 0)
  | text :: rest =>
    let headers := match regexMatch header text with
      | some submatch => headers.modify (str submatch 1) [] fun _ => str submatch 2
      | none => headers
    if text = [] then (headers, (line + 1) % 2 ^ 32) else parseHeaders headers (line + 1) rest

/-- The second loop goes up to `message.size() - 1`, and a message has a line at least. -/
def parseMessage (message : List Text) : Pop3Mail :=
  let (headers, bodyStart) := parseHeaders ∅ 0 message
  { headers := headers
    body := (message.dropLast.drop bodyStart).flatMap fun line => line ++ ['\n'] }

/-- `read_multiline` -/
def readMultiline (chunks : List Text) : Option (List Text × List Text) :=
  readThrough (fun line => line == endList) chunks

/-- The numbers of the lines that have one. `stoi` throws where one of them does not fit. -/
def messageNumbers : List Text → Option (List Nat)
  | [] => some []
  | line :: list =>
    match regexMatch messageNumber line with
    | some submatch =>
      (stoi (str submatch 1)).bind fun number =>
        (messageNumbers list).map fun numbers => number :: numbers
    | none => messageNumbers list

def leave (c : Pop3Client) : Pop3Client × Option Text := ({ c with control := .quit }, some quitCmd)

/-- The loop over the message numbers, and what comes after it. -/
def retrieve (c : Pop3Client) : List Nat → Pop3Client × Option Text
  | [] => c.leave
  | number :: numbers => ({ c with control := .retr numbers }, some (retrCmd number))

def hears (c : Pop3Client) (lines : List Text) : Pop3Client × Option Text :=
  match c.control with
  | .greeting =>
    if isOk (lines.headD []) then ({ c with control := .user }, some (userCmd c.username))
    else c.leave
  | .user =>
    if isOk (lines.headD []) then ({ c with control := .pass }, some (passCmd c.password))
    else c.leave
  | .pass =>
    if isOk (lines.headD []) then ({ c with control := .list }, some listCmd)
    else c.leave
  | .list =>
    match messageNumbers lines with
    | some numbers => c.retrieve numbers
    | none => ({ c with control := .failed }, none)
  | .retr numbers => { c with storage := c.storage ++ [parseMessage lines] }.retrieve numbers
  | .quit => ({ c with control := .ended }, none)
  | .ended | .failed => (c, none)

/-- A reply to LIST or RETR is read by `read_multiline`, any other one by `read_data`. -/
def awaits (c : Pop3Client) : Option (Text → Bool) :=
  match c.control with
  | .list | .retr _ => some fun line => line == endList
  | .greeting | .user | .pass | .quit => some fun _ => true
  | .ended | .failed => none

theorem leave_asks (c : Pop3Client) : c.leave.2 ≠ none := Option.some_ne_none _

theorem retrieve_asks (c : Pop3Client) (numbers : List Nat) : (c.retrieve numbers).2 ≠ none := by
  cases numbers <;> exact Option.some_ne_none _

theorem hears_asks (c : Pop3Client) (lines : List Text) (h : (c.hears lines).2 = none) :
    (c.hears lines).1.awaits = none := by
  unfold hears at h ⊢
  cases hc : c.control with
  | greeting | user | pass =>
    simp only [hc] at h
    split at h
    next => cases h
    next => exact absurd h c.leave_asks
  | list =>
    simp only [hc] at h ⊢
    cases hn : messageNumbers lines with
    | some numbers =>
      rw [hn] at h
      exact absurd h (c.retrieve_asks numbers)
    | none => rfl
  | retr numbers =>
    simp only [hc] at h
    exact absurd h (retrieve_asks _ numbers)
  | quit => rfl
  | ended | failed =>
    simp only
    simp [awaits, hc]

end Pop3Client

/-- The POP3 client as a client of its line protocol. -/
def pop3Client : LineClient Pop3Client where
  awaits := Pop3Client.awaits
  hears := Pop3Client.hears
  asks := Pop3Client.hears_asks

end Protocols
