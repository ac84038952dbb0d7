import Protocols.LineClient
import Protocols.Regex

namespace Protocols

open Regex

/-- `mail` of the IMAP client. `sender` and `recipient` are its fields `from` and `to`. -/
structure ImapMail where
  sender : Text := []
  recipient : Text := []
  date : Text := []
  subject : Text := []
  deriving DecidableEq

/-- What the client waits for: in `examine` of which mailbox of the storage, and in `fetch` of which
of its mails, of how many, with the mails before it. -/
inductive ImapClientControl
  | greeting
  | login
  | list
  | examine (mailbox : Nat)
  | fetch (mailbox i existsAmount : Nat) (mails : List ImapMail)
  | logout
  | ended
  | error
  | failed
  deriving DecidableEq

/-- `client` between two answers. `tag` is a `uint32_t`. -/
structure ImapClient where
  user : Text
  pass : Text
  storage : List (Text × List ImapMail) := []
  tag : Nat := 0
  control : ImapClientControl := .greeting
  deriving DecidableEq

namespace ImapClient

def loginCommand (user pass : Text) (tag : Nat) : Text :=
  format "{} LOGIN {} {}".toList [decimal tag, user, pass]

def listCommand (tag : Nat) : Text := format "{} LIST \"\" *".toList [decimal tag]

def examineCommand (mailboxName : Text) (tag : Nat) : Text :=
  format "{} EXAMINE {}".toList [decimal tag, mailboxName]

def logoutCommand (tag : Nat) : Text := format "{} LOGOUT".toList [decimal tag]

def fetchHeaderSummary (i tag : Nat) : Text :=
  format "{} FETCH {} BODY[HEADER.FIELDS (TO FROM DATE SUBJECT)]".toList [decimal tag, decimal i]

def okReply : Regex := all [bol, plus any, lit " ok", star any, eol]

def parseMailbox : Regex :=
  all [star any, lit "LIST", star any, lit "\"", group 1 (plus any), lit "\"", star space, eol]

/-- `(ok|no|bad|preauth|bye)` -/
def status : Regex := alt (lit "ok") (alt (lit "no") (alt (lit "bad") (alt (lit "preauth") (lit "bye"))))

def hasStatus : Regex := all [bol, plus any, lit " ", group 1 status, star any, eol]

def parseExists : Regex := all [group 1 (plus (range '0' '9')), lit " EXISTS"]

/-- A field of the header, without the blanks at its end. -/
def parseField (name : String) : Regex :=
  all [lit name, group 1 (all [star any, nonSpace]), star space, eol]

def parseFrom : Regex := parseField "from: "
def parseTo : Regex := parseField "to: "
def parseDate : Regex := parseField "date: "
def parseSubject : Regex := parseField "subject: "

/-- `read_multiple_lines` goes on to a line that matches `has_status`. -/
def isLast (line : Text) : Bool := (regexMatch hasStatus line).isSome

def readMultipleLines (chunks : List Text) : Option (List Text × List Text) :=
  readThrough isLast chunks

def isOk (response : Text) : Bool := (regexMatch okReply response).isSome

def extractMailboxNames (response : List Text) : List Text :=
  response.filterMap fun line => (regexMatch parseMailbox line).map fun submatch => str submatch 1

def storeMailboxNames (response : List Text) (storage : List (Text × List ImapMail)) :
    List (Text × List ImapMail) :=
  storage ++ (extractMailboxNames response).map fun name => (name, [])

/-- The last of the amounts counts, and `stoi` throws where one of them does not fit. -/
def getExistsAmount (response : List Text) : Option Nat :=
  response.foldlM (fun amount line =>
    match regexSearch parseExists line with
    | some submatch => stoi (str submatch 1)
    | none => some amount) 0

/-- A field is set by every line in which its pattern is found. -/
def setField (parse : Regex) (line old : Text) : Text :=
  match regexSearch parse line with
  | some submatch => str submatch 1
  | none => old

def extractHeaderSummary (response : List Text) (newMail : ImapMail) : ImapMail :=
  response.foldl (fun mail line =>
    { sender := setField parseFrom line mail.sender
      recipient := setField parseTo line mail.recipient
      date := setField parseDate line mail.date
      subject := setField parseSubject line mail.subject }) newMail

/-- A command is sent with the next tag. -/
def send (c : ImapClient) (control : ImapClientControl) (command : Nat → Text) :
    ImapClient × Option Text :=
  let tag := (c.tag + 1) % 2 ^ 32
  ({ c with tag := tag, control := control }, some (command tag))

/-- The loop over the mailboxes of the storage, and what comes after it. -/
def examine (c : ImapClient) (mailbox : Nat) : ImapClient × Option Text :=
  match c.storage[mailbox]? with
  | some (name, _) => c.send (.examine mailbox) (examineCommand name)
  | none => c.send .logout logoutCommand

/-- The loop over the mails of a mailbox, which has them when all of them have been fetched. -/
def fetch (c : ImapClient) (mailbox i existsAmount : Nat) (mails : List ImapMail) :
    ImapClient × Option Text :=
  if i ≤ existsAmount then
    c.send (.fetch mailbox i existsAmount mails) (fetchHeaderSummary i)
  else
    { c with storage := c.storage.modify mailbox fun (name, _) => (name, mails) }.examine (mailbox + 1)

def hears (c : ImapClient) (response : List Text) : ImapClient × Option Text :=
  match c.control with
  | .greeting =>
    if isOk (response.headD []) then c.send .login (loginCommand c.user c.pass)
    else ({ c with control := .error }, none)
  | .login =>
    if isOk (response.getLastD []) then c.send .list listCommand
    else ({ c with control := .error }, none)
  | .list =>
    if isOk (response.getLastD []) then
      { c with storage := storeMailboxNames response c.storage }.examine 0
    else ({ c with control := .error }, none)
  | .examine mailbox =>
    match getExistsAmount response with
    | some existsAmount => c.fetch mailbox 1 existsAmount []
    | none => ({ c with control := .failed }, none)
  | .fetch mailbox i existsAmount mails =>
    c.fetch mailbox (i + 1) existsAmount (mails ++ [extractHeaderSummary response {}])
  | .logout => ({ c with control := .ended }, none)
  | .ended | .error | .failed => (c, none)

/-- The greeting is read by `read_data`, all that comes after it by `read_multiple_lines`. -/
def awaits (c : ImapClient) : Option (Text → Bool) :=
  match c.control with
  | .greeting => some fun _ => true
  | .login | .list | .examine _ | .fetch .. | .logout => some isLast
  | .ended | .error | .failed => none

/-- A command with the next tag has been sent, and the client waits for its answer. -/
structure Sends (c : ImapClient) (r : ImapClient × Option Text) : Prop where
  command : ∃ text, r.2 = some (decimal ((c.tag + 1) % 2 ^ 32) ++ ' ' :: text)
  tag : r.1.tag = (c.tag + 1) % 2 ^ 32
  waits : r.1.awaits = some isLast

theorem examine_sends (c : ImapClient) (mailbox : Nat) : Sends c (c.examine mailbox) := by
  unfold examine
  split
  next name _ _ => exact ⟨⟨"EXAMINE ".toList ++ name, by simp [send, examineCommand, format]⟩, rfl, rfl⟩
  next => exact ⟨⟨"LOGOUT".toList, by simp [send, logoutCommand, format]⟩, rfl, rfl⟩

theorem fetch_sends (c : ImapClient) (mailbox i existsAmount : Nat) (mails : List ImapMail) :
    Sends c (c.fetch mailbox i existsAmount mails) := by
  unfold fetch
  split
  next =>
    exact ⟨⟨"FETCH ".toList ++ decimal i ++ " BODY[HEADER.FIELDS (TO FROM DATE SUBJECT)]".toList,
      by simp [send, fetchHeaderSummary, format]⟩, rfl, rfl⟩
  next =>
    obtain ⟨hcommand, htag, hwaits⟩ := examine_sends
      { c with storage := c.storage.modify mailbox fun (name, _) => (name, mails) } (mailbox + 1)
    exact ⟨hcommand, htag, hwaits⟩

/-- The client does not go on. -/
structure Stops (c : ImapClient) (r : ImapClient × Option Text) : Prop where
  silent : r.2 = none
  tag : r.1.tag = c.tag
  waits : r.1.awaits = none

/-- Whatever it hears, the client sends a command or does not go on. -/
theorem hears_cases (c : ImapClient) (response : List Text) (hw : c.awaits ≠ none) :
    Sends c (c.hears response) ∨ Stops c (c.hears response) := by
  unfold hears
  cases hc : c.control with
  | greeting =>
    dsimp only
    split
    next =>
      exact Or.inl ⟨⟨"LOGIN ".toList ++ c.user ++ ' ' :: c.pass,
        by simp [send, loginCommand, format]⟩, rfl, rfl⟩
    next => exact Or.inr ⟨rfl, rfl, rfl⟩
  | login =>
    dsimp only
    split
    next => exact Or.inl ⟨⟨"LIST \"\" *".toList, by simp [send, listCommand, format]⟩, rfl, rfl⟩
    next => exact Or.inr ⟨rfl, rfl, rfl⟩
  | list =>
    dsimp only
    split
    next =>
      obtain ⟨hcommand, htag, hwaits⟩ := examine_sends
        { c with storage := storeMailboxNames response c.storage } 0
      exact Or.inl ⟨hcommand, htag, hwaits⟩
    next => exact Or.inr ⟨rfl, rfl, rfl⟩
  | examine mailbox =>
    dsimp only
    split
    next => exact Or.inl (c.fetch_sends _ _ _ _)
    next => exact Or.inr ⟨rfl, rfl, rfl⟩
  | fetch mailbox i existsAmount mails => exact Or.inl (c.fetch_sends _ _ _ _)
  | logout => exact Or.inr ⟨rfl, rfl, rfl⟩
  | ended | error | failed => simp [awaits, hc] at hw

theorem hears_asks (c : ImapClient) (response : List Text) (h : (c.hears response).2 = none) :
    (c.hears response).1.awaits = none := by
  by_cases hw : c.awaits = none
  · unfold awaits at hw
    unfold hears
    cases hc : c.control <;> simp [hc] at hw
    all_goals simp [awaits, hc]
  · rcases hears_cases c response hw with hsends | hstops
    · obtain ⟨text, htext⟩ := hsends.command
      rw [htext] at h
      cases h
    · exact hstops.waits

end ImapClient

/-- The IMAP client as a client of its line protocol. -/
def imapClient : LineClient ImapClient where
  awaits := ImapClient.awaits
  hears := ImapClient.hears
  asks := ImapClient.hears_asks

end Protocols
