import Protocols.MailSession

namespace Protocols

open Regex

inductive Pop3State
  | greeting | authorization | transaction | quit
  deriving DecidableEq

inductive Pop3Command
  | user | pass | list | quit | unknown
  deriving DecidableEq

def negative : Text := "-ERR".toList
def noUser : Text := "-ERR no such user here".toList
def alreadyLocked : Text := "-ERR mail-drop already locked".toList
def positive : Text := "+OK".toList
def pop3Greeting : Text := "+OK POP3 server ready".toList
def quitting : Text := "+OK POP3 server signing off".toList
def listEnd : Text := ".".toList

/-- `get_message_size` adds in an `unsigned long`. -/
def getMessageSize (message : List Text) : Nat :=
  message.foldl (fun acc line => (acc + line.length) % 2 ^ 64) 0

/-- The sum of the sizes of the mails, which is kept in an `int`. -/
def octets (mails : List Mail) : Int :=
  mails.foldl (fun acc mail => (acc + getMessageSize mail.message).bmod (2 ^ 32)) 0

def listOk (mails : List Mail) : Text :=
  format "+OK {} messages ({} octets)".toList [decimal mails.length, decimalInt (octets mails)]

def listOne (messageNum : Nat) (mail : Mail) : Text :=
  format "+OK {} {}".toList [decimal messageNum, decimal (getMessageSize mail.message)]

def listEntry (i : Nat) (mail : Mail) : Text :=
  format "{} {}".toList [decimal (i + 1), decimal (getMessageSize mail.message)]

/-- `[a-z][a-z0-9]*` -/
def pop3Label : Regex := all [range 'a' 'z', star alnum]

/-- `(?:LABEL\.)*(?:LABEL)@(?:LABEL\.)*(?:LABEL)` -/
def pop3Address : Regex :=
  all [star (all [pop3Label, lit "."]), pop3Label, lit "@",
    star (all [pop3Label, lit "."]), pop3Label]

def pop3CommandParser : List (Regex × Pop3Command) :=
  [(all [bol, lit "user ", group 1 pop3Address, eol], .user),
    (all [bol, lit "pass ", plus nonSpace, eol], .pass),
    (all [bol, lit "list", opt (all [lit " ", group 1 (plus (range '0' '9'))]), eol], .list),
    (all [bol, lit "quit", eol], .quit)]

def pop3ParseRequest (request : Text) : Pop3Command × List Text :=
  firstMatch .unknown pop3CommandParser request

/-- What a handler does when its line has been written: it goes on in a state, keeps the lock that
it has acquired, or looks for the next message of the list. -/
inductive Pop3After
  | next (state : Pop3State)
  | begin
  | scan (i : Nat)
  deriving DecidableEq

inductive Pop3Control
  | spawned
  | reading
  | writing (after : Pop3After)
  | ended
  deriving DecidableEq

/-- `pop3_session` between two resumptions. Of its locks, the one of the PASS handler and its own,
it has the user whose maildrop's mutex they own. -/
structure Pop3Session where
  state : Pop3State := .greeting
  user : Text := []
  tryTransaction : Option Text := none
  currentTransaction : Option Text := none
  control : Pop3Control := .spawned
  deriving DecidableEq

/-- The mutex of the maildrop is acquired or released. -/
def MailStorage.setTransaction (storage : MailStorage) (user : Text) (held : Bool) : MailStorage :=
  ⟨storage.maildrops.modify user {} fun drop => { drop with transaction := held }⟩

/-- A lock that goes out of scope releases the mutex that it owns. -/
def MailStorage.release (storage : MailStorage) (lock : Option Text) : MailStorage :=
  match lock with
  | some user => storage.setTransaction user false
  | none => storage

/-- `maildrops[user]` -/
def MailStorage.index (storage : MailStorage) (user : Text) : MailStorage :=
  ⟨storage.maildrops.modify user {} id⟩

abbrev Pop3Outcome := MailStorage × Pop3Session × List SessionEvent

namespace Pop3Session

def reply (s : Pop3Session) (storage : MailStorage) (line : Text) (after : Pop3After) :
    Pop3Outcome :=
  (storage, { s with control := .writing after }, [.sent line])

/-- A line that tells of the user's mails. -/
def tell (s : Pop3Session) (storage : MailStorage) (line : Text) (after : Pop3After) :
    Pop3Outcome :=
  (storage, { s with control := .writing after }, [.listed s.user line])

/-- The coroutine ends, by itself or by an exception, and its locks go out of scope. -/
def finish (s : Pop3Session) (storage : MailStorage) : Pop3Outcome :=
  ((storage.release s.tryTransaction).release s.currentTransaction,
    { s with tryTransaction := none, currentTransaction := none, control := .ended }, [])

/-- The loop goes round in the given state. -/
def enter (s : Pop3Session) (storage : MailStorage) (state : Pop3State) : Pop3Outcome :=
  let s := { s with state := state }
  match state with
  | .greeting => s.reply storage pop3Greeting (.next .authorization)
  | .authorization | .transaction => (storage, { s with control := .reading }, [])
  | .quit => s.finish storage

def authorization (s : Pop3Session) (storage : MailStorage) (command : Pop3Command)
    (arguments : List Text) : Pop3Outcome :=
  match command with
  | .user =>
    if s.user ≠ [] then s.reply storage negative (.next .authorization)
    else
      let triedUser := str arguments 1
      match storage.maildrops.lookup triedUser with
      | none => s.reply storage noUser (.next .authorization)
      | some _ => { s with user := triedUser }.reply storage positive (.next .authorization)
  | .pass =>
    if s.user = [] then s.reply storage negative (.next .authorization)
    else
      match storage.maildrops.lookup s.user with
      -- `at` throws
      | none => s.finish storage
      | some drop =>
        if drop.transaction then s.reply storage alreadyLocked (.next .authorization)
        else
          { s with tryTransaction := some s.user }.reply (storage.setTransaction s.user true)
            positive .begin
  | .quit => s.reply storage quitting (.next .quit)
  | .list | .unknown => s.reply storage negative (.next .authorization)

/-- `try_transaction` is swapped with the session's lock, and what it has got goes out of scope. -/
def begin (s : Pop3Session) (storage : MailStorage) : Pop3Outcome :=
  { s with tryTransaction := none, currentTransaction := s.tryTransaction }.enter
    (storage.release s.currentTransaction) .transaction

/-- The loop over the messages, which looks at the mailbox anew for each of them. -/
def scan (s : Pop3Session) (storage : MailStorage) (i : Nat) : Pop3Outcome :=
  match storage.mailbox s.user inboxName with
  | none => s.finish storage
  | some mails =>
    match mails[i]? with
    | some mail => s.tell storage (listEntry i mail) (.scan (i + 1))
    | none => s.reply storage listEnd (.next .transaction)

def list (s : Pop3Session) (storage : MailStorage) (arguments : List Text) : Pop3Outcome :=
  let storage := storage.index s.user
  match storage.mailbox s.user inboxName with
  | none => s.finish storage
  | some mails =>
    if str arguments 1 ≠ [] then
      match stoi (str arguments 1) with
      | none => s.finish storage
      | some messageNum =>
        if messageNum < 1 ∨ mails.length % 2 ^ 32 < messageNum then
          s.reply storage negative (.next .transaction)
        else
          s.tell storage (listOne messageNum ((mails[messageNum - 1]?).getD {}))
            (.next .transaction)
    else s.tell storage (listOk mails) (.scan 0)

def transaction (s : Pop3Session) (storage : MailStorage) (command : Pop3Command)
    (arguments : List Text) : Pop3Outcome :=
  match command with
  | .list => s.list storage arguments
  | .quit => s.reply storage quitting (.next .quit)
  | .user | .pass | .unknown => s.reply storage negative (.next .transaction)

def request (s : Pop3Session) (storage : MailStorage) (request : Text) : Pop3Outcome :=
  let (command, arguments) := pop3ParseRequest request
  match s.state with
  | .authorization => s.authorization storage command arguments
  | .transaction => s.transaction storage command arguments
  -- the other states read no request
  | .greeting | .quit => (storage, s, [])

/-- What happens after a line has been written. -/
def replied (s : Pop3Session) (storage : MailStorage) (after : Pop3After) : Pop3Outcome :=
  match after with
  | .next state => s.enter storage state
  | .begin => s.begin storage
  | .scan i => s.scan storage i

end Pop3Session

def pop3Resume (storage : MailStorage) (s : Pop3Session) (wake : MailWake) : Option Pop3Outcome :=
  match s.control, wake with
  | .spawned, .scheduled => some (s.enter storage .greeting)
  | .reading, .line request =>
    let (storage, t, out) := s.request storage request
    some (storage, t, .heard request :: out)
  | .writing after, .written => some (s.replied storage after)
  | .reading, .dropped | .writing _, .dropped => some (s.finish storage)
  | _, _ => none

/-- What a resumption of `pop3_session` can do. -/
inductive Pop3Step (storage : MailStorage) (s : Pop3Session) (wake : MailWake) (r : Pop3Outcome) :
    Prop
  | greeted : s.control = .spawned → wake = .scheduled → r = s.enter storage .greeting →
      Pop3Step storage s wake r
  | heard (request : Text) : s.control = .reading → wake = .line request →
      r = ((s.request storage request).1, (s.request storage request).2.1,
        .heard request :: (s.request storage request).2.2) →
      Pop3Step storage s wake r
  | written (after : Pop3After) : s.control = .writing after → wake = .written →
      r = s.replied storage after → Pop3Step storage s wake r
  | dropped : (s.control = .reading ∨ ∃ after, s.control = .writing after) → wake = .dropped →
      r = s.finish storage → Pop3Step storage s wake r

theorem pop3Resume_step {storage : MailStorage} {s : Pop3Session} {wake : MailWake}
    {r : Pop3Outcome} (h : pop3Resume storage s wake = some r) : Pop3Step storage s wake r := by
  unfold pop3Resume at h
  split at h
  next hc => exact .greeted hc rfl (Option.some.inj h).symm
  next request hc => exact .heard request hc rfl (Option.some.inj h).symm
  next after hc => exact .written after hc rfl (Option.some.inj h).symm
  next hc => exact .dropped (Or.inl hc) rfl (Option.some.inj h).symm
  next after hc => exact .dropped (Or.inr ⟨after, hc⟩) rfl (Option.some.inj h).symm
  next => cases h

theorem pop3Resume_scheduled {storage : MailStorage} {s : Pop3Session} {r : Pop3Outcome}
    (h : pop3Resume storage s .scheduled = some r) : r = s.enter storage .greeting := by
  cases pop3Resume_step h with
  | greeted _ _ he => exact he
  | heard _ _ hw => cases hw
  | written _ _ hw => cases hw
  | dropped _ hw => cases hw

theorem pop3Resume_written {storage : MailStorage} {s : Pop3Session} {r : Pop3Outcome}
    (h : pop3Resume storage s .written = some r) :
    ∃ after, s.control = .writing after ∧ r = s.replied storage after := by
  cases pop3Resume_step h with
  | greeted _ hw => cases hw
  | heard _ _ hw => cases hw
  | written after hc _ he => exact ⟨after, hc, he⟩
  | dropped _ hw => cases hw

theorem pop3Resume_dropped {storage : MailStorage} {s : Pop3Session} {r : Pop3Outcome}
    (h : pop3Resume storage s .dropped = some r) : r = s.finish storage := by
  cases pop3Resume_step h with
  | greeted _ hw => cases hw
  | heard _ _ hw => cases hw
  | written _ _ hw => cases hw
  | dropped _ _ he => exact he

end Protocols
