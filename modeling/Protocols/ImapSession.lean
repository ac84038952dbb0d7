import Protocols.MailSession

namespace Protocols

open Regex

inductive ImapState
  | greeting | unauthenticated | authenticated | quit
  deriving DecidableEq

inductive ImapCommand
  | login | logout | list | tagUnknown | unknown
  deriving DecidableEq

def imapGreeting : Text := format "* OK {} IMAP4 Server".toList [hostName.toList]
def no (tag : Text) : Text := format "{} NO".toList [tag]
def ok (tag : Text) : Text := format "{} OK".toList [tag]
def badTag (tag : Text) : Text := format "{} BAD".toList [tag]
def bad : Text := "* BAD".toList
def bye : Text := "* BYE".toList
def listMailbox (mailbox : Text) : Text :=
  format "* LIST () \"{}\" \"{}\"".toList ["/".toList, mailbox]

/-- `[\.\/\-\*_\w]` -/
def atomChar : Regex := alt (oneOf "./-*") word

/-- `[ \.\/\-\*_\w]` -/
def quotedChar : Regex := alt (lit " ") atomChar

def imapCommandParser : List (Regex × ImapCommand) :=
  [(all [bol, group 1 (plus word), lit " login ", group 2 (plus nonSpace), lit " ",
      group 3 (plus nonSpace), eol], .login),
    (all [bol, group 1 (plus word), lit " list ",
      alt (all [lit "\"", group 2 (star quotedChar), lit "\""]) (group 3 (plus atomChar)), lit " ",
      alt (all [lit "\"", group 4 (plus quotedChar), lit "\""]) (group 5 (plus atomChar)), eol],
      .list),
    (all [bol, group 1 (plus word), lit " logout", eol], .logout),
    (all [bol, group 1 (plus word), star any, eol], .tagUnknown),
    (all [bol, star any, eol], .unknown)]

def imapParseRequest (request : Text) : ImapCommand × List Text :=
  firstMatch .unknown imapCommandParser request

/-- What a handler does when its line has been written: it goes on in a state, goes on with its
iteration over the mailboxes, or completes the command. Of the iteration, `keys` is what the map had
when it began, and `mailboxes` is what is left of it. -/
inductive ImapAfter
  | next (state : ImapState)
  | list (tag : Text) (keys mailboxes : List Text)
  | complete (tag : Text) (state : ImapState)
  deriving DecidableEq

/-- `undefined` is where an iterator is used that an insertion may have invalidated. -/
inductive ImapControl
  | spawned
  | reading
  | writing (after : ImapAfter)
  | ended
  | undefined
  deriving DecidableEq

/-- `imap_session` between two resumptions. -/
structure ImapSession where
  state : ImapState := .greeting
  user : Text := []
  control : ImapControl := .spawned
  deriving DecidableEq

namespace ImapSession

def reply (s : ImapSession) (line : Text) (after : ImapAfter) :
    ImapSession × List SessionEvent :=
  ({ s with control := .writing after }, [.sent line])

/-- The loop goes round in the given state. -/
def enter (s : ImapSession) (state : ImapState) : ImapSession × List SessionEvent :=
  let s := { s with state := state }
  match state with
  | .greeting => s.reply imapGreeting (.next .unauthenticated)
  | .unauthenticated | .authenticated => ({ s with control := .reading }, [])
  | .quit => ({ s with control := .ended }, [])

/-- The domain is added to a user without one. -/
def withDomain (user : Text) : Text :=
  if '@' ∈ user then user else user ++ format "@{}".toList [hostName.toList]

def unauthenticated (s : ImapSession) (storage : MailStorage) (command : ImapCommand)
    (arguments : List Text) : ImapSession × List SessionEvent :=
  let tag := str arguments 1
  match command with
  | .login =>
    let triedUser := withDomain (str arguments 2)
    match storage.maildrops.lookup triedUser with
    | none => s.reply (no tag) (.next .unauthenticated)
    | some _ => { s with user := triedUser }.reply (ok tag) (.next .authenticated)
  | .logout => s.reply bye (.complete tag .quit)
  | .tagUnknown => s.reply (badTag tag) (.next .unauthenticated)
  | .list | .unknown => s.reply bad (.next .unauthenticated)

/-- The mailboxes are named one after the other, and the command is completed. -/
def walk (s : ImapSession) (tag : Text) (keys : List Text) :
    List Text → ImapSession × List SessionEvent
  | [] => s.reply (ok tag) (.next .authenticated)
  | mailbox :: mailboxes => s.reply (listMailbox mailbox) (.list tag keys mailboxes)

def list (s : ImapSession) (storage : MailStorage) (arguments : List Text) :
    ImapSession × List SessionEvent :=
  let tag := str arguments 1
  let reference := if str arguments 2 = [] then str arguments 3 else str arguments 2
  let mailboxName := if str arguments 4 = [] then str arguments 5 else str arguments 4
  if ¬ (reference = [] ∨ reference = "/".toList) then s.reply (ok tag) (.next .authenticated)
  else
    match storage.maildrops.lookup s.user with
    -- `at` throws
    | none => ({ s with control := .ended }, [])
    | some drop =>
      if mailboxName = "*".toList then s.walk tag drop.mails.keys drop.mails.keys
      else if mailboxName ∈ drop.mails then
        s.reply (listMailbox mailboxName) (.complete tag .authenticated)
      else s.reply (ok tag) (.next .authenticated)

def authenticated (s : ImapSession) (storage : MailStorage) (command : ImapCommand)
    (arguments : List Text) : ImapSession × List SessionEvent :=
  let tag := str arguments 1
  match command with
  | .list => s.list storage arguments
  | .logout => s.reply bye (.complete tag .quit)
  | .tagUnknown => s.reply (badTag tag) (.next .authenticated)
  | .login | .unknown => s.reply bad (.next .authenticated)

def request (s : ImapSession) (storage : MailStorage) (request : Text) :
    ImapSession × List SessionEvent :=
  let (command, arguments) := imapParseRequest request
  match s.state with
  | .unauthenticated => s.unauthenticated storage command arguments
  | .authenticated => s.authenticated storage command arguments
  -- the other states read no request
  | .greeting | .quit => (s, [])

/-- What happens after a line has been written. The iteration advances an iterator into the user's
map as it is now, which is the one it began with as long as nothing has been inserted. -/
def replied (s : ImapSession) (storage : MailStorage) (after : ImapAfter) :
    ImapSession × List SessionEvent :=
  match after with
  | .next state => s.enter state
  | .list tag keys mailboxes =>
    if storage.mailboxNames s.user = keys then s.walk tag keys mailboxes
    else ({ s with control := .undefined }, [])
  | .complete tag state => s.reply (ok tag) (.next state)

end ImapSession

def imapResume (storage : MailStorage) (s : ImapSession) (wake : MailWake) :
    Option (ImapSession × List SessionEvent) :=
  match s.control, wake with
  | .spawned, .scheduled => some (s.enter .greeting)
  | .reading, .line request =>
    let (t, out) := s.request storage request
    some (t, .heard request :: out)
  | .writing after, .written => some (s.replied storage after)
  | .reading, .dropped | .writing _, .dropped => some ({ s with control := .ended }, [])
  | _, _ => none

/-- What a resumption of `imap_session` can do. -/
inductive ImapStep (storage : MailStorage) (s : ImapSession) (wake : MailWake)
    (r : ImapSession × List SessionEvent) : Prop
  | greeted : s.control = .spawned → wake = .scheduled → r = s.enter .greeting →
      ImapStep storage s wake r
  | heard (request : Text) : s.control = .reading → wake = .line request →
      r = ((s.request storage request).1, .heard request :: (s.request storage request).2) →
      ImapStep storage s wake r
  | written (after : ImapAfter) : s.control = .writing after → wake = .written →
      r = s.replied storage after → ImapStep storage s wake r
  | dropped : (s.control = .reading ∨ ∃ after, s.control = .writing after) → wake = .dropped →
      r = ({ s with control := .ended }, []) → ImapStep storage s wake r

theorem imapResume_step {storage : MailStorage} {s : ImapSession} {wake : MailWake}
    {r : ImapSession × List SessionEvent} (h : imapResume storage s wake = some r) :
    ImapStep storage s wake r := by
  unfold imapResume at h
  split at h
  next hc => exact .greeted hc rfl (Option.some.inj h).symm
  next request hc => exact .heard request hc rfl (Option.some.inj h).symm
  next after hc => exact .written after hc rfl (Option.some.inj h).symm
  next hc => exact .dropped (Or.inl hc) rfl (Option.some.inj h).symm
  next after hc => exact .dropped (Or.inr ⟨after, hc⟩) rfl (Option.some.inj h).symm
  next => cases h

theorem imapResume_scheduled {storage : MailStorage} {s : ImapSession}
    {r : ImapSession × List SessionEvent} (h : imapResume storage s .scheduled = some r) :
    r = s.enter .greeting := by
  cases imapResume_step h with
  | greeted _ _ he => exact he
  | heard _ _ hw => cases hw
  | written _ _ hw => cases hw
  | dropped _ hw => cases hw

theorem imapResume_written {storage : MailStorage} {s : ImapSession}
    {r : ImapSession × List SessionEvent} (h : imapResume storage s .written = some r) :
    ∃ after, s.control = .writing after ∧ r = s.replied storage after := by
  cases imapResume_step h with
  | greeted _ hw => cases hw
  | heard _ _ hw => cases hw
  | written after hc _ he => exact ⟨after, hc, he⟩
  | dropped _ hw => cases hw

theorem imapResume_dropped {storage : MailStorage} {s : ImapSession}
    {r : ImapSession × List SessionEvent} (h : imapResume storage s .dropped = some r) :
    r = ({ s with control := .ended }, []) := by
  cases imapResume_step h with
  | greeted _ hw => cases hw
  | heard _ _ hw => cases hw
  | written _ _ hw => cases hw
  | dropped _ _ he => exact he

theorem imap_says_entering (s : ImapSession) (state : ImapState) : SaysOne (s.enter state).2 := by
  cases state with
  | greeting => exact saysOne_sent _
  | _ => exact Or.inl rfl

theorem imap_says_walking (s : ImapSession) (tag : Text) (keys mailboxes : List Text) :
    SaysOne (s.walk tag keys mailboxes).2 := by
  cases mailboxes with
  | nil => exact saysOne_sent _
  | cons mailbox mailboxes => exact saysOne_sent _

theorem imap_says_listing (s : ImapSession) (storage : MailStorage) (arguments : List Text) :
    SaysOne (s.list storage arguments).2 := by
  unfold ImapSession.list
  extract_lets tag reference mailboxName
  split
  next => exact saysOne_sent _
  next =>
    split
    next => exact Or.inl rfl
    next =>
      split
      next => exact imap_says_walking _ _ _ _
      next =>
        split
        next => exact saysOne_sent _
        next => exact saysOne_sent _

theorem imap_says_requested (s : ImapSession) (storage : MailStorage) (request : Text) :
    SaysOne (s.request storage request).2 := by
  unfold ImapSession.request
  obtain ⟨command, arguments⟩ := imapParseRequest request
  cases s.state with
  | unauthenticated =>
    cases command with
    | login =>
      simp only [ImapSession.unauthenticated]
      split
      next => exact saysOne_sent _
      next => exact saysOne_sent _
    | _ => exact saysOne_sent _
  | authenticated =>
    cases command with
    | list => exact imap_says_listing _ _ _
    | _ => exact saysOne_sent _
  | _ => exact Or.inl rfl

theorem imapResume_speaks {storage : MailStorage} {s t : ImapSession} {wake : MailWake}
    {out : List SessionEvent} (h : imapResume storage s wake = some (t, out)) :
    SaysOne out ∨ ∃ line rest, out = .heard line :: rest ∧ SaysOne rest := by
  cases imapResume_step h with
  | greeted _ _ he =>
    have hs := imap_says_entering s .greeting
    rw [← he] at hs
    exact Or.inl hs
  | heard request _ _ he =>
    cases he
    exact Or.inr ⟨_, _, rfl, imap_says_requested _ _ _⟩
  | written after _ _ he =>
    have hs : SaysOne (s.replied storage after).2 := by
      cases after with
      | next state => exact imap_says_entering _ _
      | list tag keys mailboxes =>
        simp only [ImapSession.replied]
        split
        next => exact imap_says_walking _ _ _ _
        next => exact Or.inl rfl
      | complete tag state => exact saysOne_sent _
    rw [← he] at hs
    exact Or.inl hs
  | dropped _ _ he =>
    cases he
    exact Or.inl (Or.inl rfl)

end Protocols
