import Protocols.MailSession

namespace Protocols

open Regex

inductive SmtpState
  | greet | waitHelo | initTransaction | recipients | data | quit
  deriving DecidableEq

inductive SmtpCommand
  | helo | mail | rcpt | data | quit | unknown
  deriving DecidableEq

def smtpReplies : List (Nat × String) :=
  [(211, "{} System status, or system help make_reply"),
    (214, "{} Help"),
    (220, "{} {} Simple Mail Transfer Service ready"),
    (221, "{} {} Service closing transmission channel"),
    (250, "{} {}"),
    (251, "{} User not local; will forward to {}"),
    (354, "{} Start recipients input; end with <CRLF>.<CRLF>"),
    (421, "{} {} Service not available, closing transmission channel"),
    (450, "{} Requested recipients action not taken: mailbox unavailable"),
    (451, "{} Requested action aborted: local error in processing"),
    (452, "{} Requested action not taken: insufficient system storage"),
    (500, "{} Syntax error, command unrecognized"),
    (501, "{} Syntax error in parameters or arguments"),
    (502, "{} Command not implemented"),
    (503, "{} Bad sequence of commands"),
    (504, "{} Command parameter not implemented"),
    (550, "{} Requested action not taken: mailbox unavailable"),
    (551, "{} User not local; please try {}"),
    (552, "{} Requested recipients action aborted: exceeded storage allocation"),
    (553, "{} Requested action not taken: mailbox name not allowed"),
    (554, "{} Transaction failed")]

/-- Every code that a session replies with is in the table. -/
def makeReply (code : Nat) (args : List Text) : Text :=
  format ((smtpReplies.lookup code).getD "").toList
    (decimal code :: if code = 250 ∧ args = [] then ["OK".toList] else args)

def endOfData : Text := ".".toList

/-- `[a-z][a-z0-9\-]*[a-z0-9]+` -/
def domainLabel : Regex :=
  all [range 'a' 'z', star (alt alnum (lit "-")), plus alnum]

/-- `(?:(?:LABEL)\.)*(?:LABEL)+` -/
def domain : Regex := all [star (all [domainLabel, lit "."]), plus domainLabel]

/-- `(?:(?:(?:[a-z0-9]+)\.)*(?:[a-z0-9]+)+)@(?:DOMAIN)` -/
def smtpAddress : Regex :=
  all [star (all [plus alnum, lit "."]), plus (plus alnum), lit "@", domain]

def smtpRequestParser : List (Regex × SmtpCommand) :=
  [(all [bol, lit "helo ", alt (group 1 domain) (group 2 (plus any)), eol], .helo),
    (all [bol, lit "mail ",
      alt (all [lit "from:<", group 1 smtpAddress, lit ">"]) (group 2 (plus any)), eol], .mail),
    (all [bol, lit "rcpt ",
      alt (all [lit "to:<", group 1 smtpAddress, lit ">"]) (group 2 (plus any)), eol], .rcpt),
    (all [bol, lit "data", eol], .data),
    (all [bol, lit "quit", eol], .quit),
    (all [bol, star any, eol], .unknown)]

def smtpParseRequest (request : Text) : SmtpCommand × List Text :=
  firstMatch .unknown smtpRequestParser request

/-- The last group of the match takes everything that has not the right form. -/
def isInvalid (arguments : List Text) : Bool := str arguments (arguments.length - 1) ≠ []

def isLocal (recipient : Text) : Bool :=
  (regexSearch (lit ("@" ++ hostName)) recipient).isSome

/-- The mail goes to the `INBOX` of each of its local recipients. -/
def MailStorage.deliver (storage : MailStorage) (mail : Mail) : MailStorage :=
  (mail.recipients.toList.filter isLocal).foldl
    (fun storage recipient => storage.push recipient inboxName mail) storage

/-- What a handler does when its reply has been written: it goes on in a state, keeps the address
of the request, reads the mail, or closes the socket. -/
inductive SmtpAfter
  | next (state : SmtpState)
  | sender (address : Text)
  | recipient (address : Text)
  | readBody
  | close
  deriving DecidableEq

/-- A body is read by a call that returns only with the whole of it, so that until then the thread
runs nothing else. -/
inductive SmtpControl
  | spawned
  | reading
  | writing (after : SmtpAfter)
  | readingBody
  | ended
  deriving DecidableEq

/-- `smtp_session` between two resumptions. -/
structure SmtpSession where
  state : SmtpState := .greet
  currentMail : Mail := {}
  control : SmtpControl := .spawned
  deriving DecidableEq

def SmtpSession.reply (s : SmtpSession) (reply : Text) (after : SmtpAfter) :
    SmtpSession × List SessionEvent :=
  ({ s with control := .writing after }, [.sent reply])

/-- The loop goes round in the given state. -/
def SmtpSession.enter (s : SmtpSession) (state : SmtpState) : SmtpSession × List SessionEvent :=
  let s := { s with state := state }
  match state with
  | .greet => s.reply (makeReply 220 [hostName.toList]) (.next .waitHelo)
  | .waitHelo | .initTransaction | .recipients => ({ s with control := .reading }, [])
  | .data => s.reply (makeReply 354 []) .readBody
  | .quit => s.reply (makeReply 221 [hostName.toList]) .close

def SmtpSession.waitHelo (s : SmtpSession) (command : SmtpCommand) (arguments : List Text) :
    SmtpSession × List SessionEvent :=
  match command with
  | .helo =>
    if isInvalid arguments then s.reply (makeReply 501 []) (.next .waitHelo)
    else s.reply (makeReply 250 [hostName.toList]) (.next .initTransaction)
  | .mail | .rcpt | .data => s.reply (makeReply 503 []) (.next .waitHelo)
  | .quit => s.enter .quit
  | .unknown => s.reply (makeReply 500 []) (.next .waitHelo)

def SmtpSession.initTransaction (s : SmtpSession) (command : SmtpCommand)
    (arguments : List Text) : SmtpSession × List SessionEvent :=
  let s := { s with currentMail := {} }
  match command with
  | .helo =>
    if isInvalid arguments then s.reply (makeReply 501 []) (.next .initTransaction)
    else s.reply (makeReply 250 [hostName.toList]) (.next .initTransaction)
  | .mail =>
    if isInvalid arguments then s.reply (makeReply 501 []) (.next .initTransaction)
    else s.reply (makeReply 250 []) (.sender (str arguments 1))
  | .rcpt | .data => s.reply (makeReply 503 []) (.next .initTransaction)
  | .quit => s.enter .quit
  | .unknown => s.reply (makeReply 500 []) (.next .initTransaction)

def SmtpSession.recipients (s : SmtpSession) (command : SmtpCommand) (arguments : List Text) :
    SmtpSession × List SessionEvent :=
  match command with
  | .rcpt =>
    if isInvalid arguments then s.reply (makeReply 501 []) (.next .recipients)
    else s.reply (makeReply 250 []) (.recipient (str arguments 1))
  | .data =>
    if s.currentMail.recipients.toList = [] then s.reply (makeReply 503 []) (.next .recipients)
    else s.enter .data
  | .helo | .mail => s.reply (makeReply 503 []) (.next .recipients)
  | .quit => s.enter .quit
  | .unknown => s.reply (makeReply 500 []) (.next .recipients)

def SmtpSession.request (s : SmtpSession) (request : Text) : SmtpSession × List SessionEvent :=
  let (command, arguments) := smtpParseRequest request
  match s.state with
  | .waitHelo => s.waitHelo command arguments
  | .initTransaction => s.initTransaction command arguments
  | .recipients => s.recipients command arguments
  -- the other states read no request
  | .greet | .data | .quit => (s, [])

/-- What `read_multiple_lines` returns: the lines up to the first `.`, and that one. -/
def IsBody (lines : List Text) : Prop :=
  lines.getLast? = some endOfData ∧ endOfData ∉ lines.dropLast

instance (lines : List Text) : Decidable (IsBody lines) :=
  inferInstanceAs (Decidable (_ ∧ _))

/-- The body has been read: it is delivered under the lock, and acknowledged. -/
def SmtpSession.deliver (s : SmtpSession) (storage : MailStorage) (lines : List Text) :
    MailStorage × SmtpSession × List SessionEvent :=
  let mail := { s.currentMail with message := lines }
  let (s, out) := { s with currentMail := mail }.reply (makeReply 250 []) (.next .initTransaction)
  (storage.deliver mail, s, .heardBody lines :: out)

/-- What happens after a reply has been written. -/
def SmtpSession.replied (s : SmtpSession) (after : SmtpAfter) : SmtpSession × List SessionEvent :=
  match after with
  | .next state => s.enter state
  | .sender address =>
    { s with currentMail := { s.currentMail with sender := address } }.enter .recipients
  | .recipient address =>
    let recipients := s.currentMail.recipients.insert address
    { s with currentMail := { s.currentMail with recipients := recipients } }.enter .recipients
  | .readBody => ({ s with control := .readingBody }, [])
  | .close => ({ s with control := .ended }, [])

def smtpResume (storage : MailStorage) (s : SmtpSession) (wake : MailWake) :
    Option (MailStorage × SmtpSession × List SessionEvent) :=
  match s.control, wake with
  | .spawned, .scheduled => some (storage, s.enter .greet)
  | .reading, .line request =>
    let (t, out) := s.request request
    some (storage, t, .heard request :: out)
  | .writing after, .written => some (storage, s.replied after)
  | .readingBody, .body lines => if IsBody lines then some (s.deliver storage lines) else none
  | .reading, .dropped | .writing _, .dropped | .readingBody, .dropped =>
    some (storage, { s with control := .ended }, [])
  | _, _ => none

/-- What a resumption of `smtp_session` can do. -/
inductive SmtpStep (storage : MailStorage) (s : SmtpSession) (wake : MailWake)
    (r : MailStorage × SmtpSession × List SessionEvent) : Prop
  | greeted : s.control = .spawned → wake = .scheduled → r = (storage, s.enter .greet) →
      SmtpStep storage s wake r
  | heard (request : Text) : s.control = .reading → wake = .line request →
      r = (storage, (s.request request).1, .heard request :: (s.request request).2) →
      SmtpStep storage s wake r
  | heardBody (lines : List Text) : s.control = .readingBody → wake = .body lines →
      IsBody lines → r = s.deliver storage lines → SmtpStep storage s wake r
  | written (after : SmtpAfter) : s.control = .writing after → wake = .written →
      r = (storage, s.replied after) → SmtpStep storage s wake r
  | dropped : (s.control = .reading ∨ (∃ after, s.control = .writing after) ∨
      s.control = .readingBody) → wake = .dropped →
      r = (storage, { s with control := .ended }, []) → SmtpStep storage s wake r

theorem smtpResume_step {storage : MailStorage} {s : SmtpSession} {wake : MailWake}
    {r : MailStorage × SmtpSession × List SessionEvent} (h : smtpResume storage s wake = some r) :
    SmtpStep storage s wake r := by
  unfold smtpResume at h
  split at h
  next hc => exact .greeted hc rfl (Option.some.inj h).symm
  next request hc => exact .heard request hc rfl (Option.some.inj h).symm
  next after hc => exact .written after hc rfl (Option.some.inj h).symm
  next lines hc =>
    split at h
    next hbody => exact .heardBody lines hc rfl hbody (Option.some.inj h).symm
    next => cases h
  next hc => exact .dropped (Or.inl hc) rfl (Option.some.inj h).symm
  next after hc => exact .dropped (Or.inr (Or.inl ⟨after, hc⟩)) rfl (Option.some.inj h).symm
  next hc => exact .dropped (Or.inr (Or.inr hc)) rfl (Option.some.inj h).symm
  next => cases h

theorem smtpResume_scheduled {storage : MailStorage} {s : SmtpSession}
    {r : MailStorage × SmtpSession × List SessionEvent}
    (h : smtpResume storage s .scheduled = some r) : r = (storage, s.enter .greet) := by
  cases smtpResume_step h with
  | greeted _ _ he => exact he
  | heard _ _ hw => cases hw
  | heardBody _ _ hw => cases hw
  | written _ _ hw => cases hw
  | dropped _ hw => cases hw

theorem smtpResume_written {storage : MailStorage} {s : SmtpSession}
    {r : MailStorage × SmtpSession × List SessionEvent}
    (h : smtpResume storage s .written = some r) :
    ∃ after, s.control = .writing after ∧ r = (storage, s.replied after) := by
  cases smtpResume_step h with
  | greeted _ hw => cases hw
  | heard _ _ hw => cases hw
  | heardBody _ _ hw => cases hw
  | written after hc _ he => exact ⟨after, hc, he⟩
  | dropped _ hw => cases hw

theorem smtpResume_dropped {storage : MailStorage} {s : SmtpSession}
    {r : MailStorage × SmtpSession × List SessionEvent}
    (h : smtpResume storage s .dropped = some r) :
    r = (storage, { s with control := .ended }, []) := by
  cases smtpResume_step h with
  | greeted _ hw => cases hw
  | heard _ _ hw => cases hw
  | heardBody _ _ hw => cases hw
  | written _ _ hw => cases hw
  | dropped _ _ he => exact he

def smtpServer : Machine MailStorage SmtpSession MailWake SessionEvent where
  starts s := s = {}
  resume := smtpResume
  holds s := s.control = .readingBody

theorem smtp_says_entering (s : SmtpSession) (state : SmtpState) : SaysOne (s.enter state).2 := by
  cases state with
  | greet => exact saysOne_sent _
  | waitHelo => exact Or.inl rfl
  | initTransaction => exact Or.inl rfl
  | recipients => exact Or.inl rfl
  | data => exact saysOne_sent _
  | quit => exact saysOne_sent _

theorem smtp_says_requested (s : SmtpSession) (request : Text) : SaysOne (s.request request).2 := by
  have either : ∀ (p : Prop) [Decidable p] (a b : SmtpSession × List SessionEvent), SaysOne a.2 →
      SaysOne b.2 → SaysOne (if p then a else b).2 := by
    intro p _ a b ha hb
    split
    next => exact ha
    next => exact hb
  unfold SmtpSession.request
  obtain ⟨command, arguments⟩ := smtpParseRequest request
  cases s.state with
  | waitHelo =>
    cases command with
    | helo => exact either _ _ _ (saysOne_sent _) (saysOne_sent _)
    | quit => exact smtp_says_entering _ _
    | _ => exact saysOne_sent _
  | initTransaction =>
    cases command with
    | helo => exact either _ _ _ (saysOne_sent _) (saysOne_sent _)
    | mail => exact either _ _ _ (saysOne_sent _) (saysOne_sent _)
    | quit => exact smtp_says_entering _ _
    | _ => exact saysOne_sent _
  | recipients =>
    cases command with
    | rcpt => exact either _ _ _ (saysOne_sent _) (saysOne_sent _)
    | data => exact either _ _ _ (saysOne_sent _) (smtp_says_entering _ _)
    | quit => exact smtp_says_entering _ _
    | _ => exact saysOne_sent _
  | _ => exact Or.inl rfl

theorem smtp_says_replied (s : SmtpSession) (after : SmtpAfter) : SaysOne (s.replied after).2 := by
  cases after with
  | next state => exact smtp_says_entering s state
  | sender address => exact smtp_says_entering _ _
  | recipient address => exact smtp_says_entering _ _
  | readBody => exact Or.inl rfl
  | close => exact Or.inl rfl

/-- A resumption says at most one line, after what it has heard. -/
theorem smtpResume_speaks {storage storage' : MailStorage} {s t : SmtpSession} {wake : MailWake}
    {out : List SessionEvent} (h : smtpResume storage s wake = some (storage', t, out)) :
    SaysOne out ∨ (∃ line rest, out = .heard line :: rest ∧ SaysOne rest) ∨
      ∃ lines rest, out = .heardBody lines :: rest ∧ SaysOne rest := by
  cases smtpResume_step h with
  | greeted _ _ he =>
    have hs := smtp_says_entering s .greet
    rw [← (Prod.mk.inj he).2] at hs
    exact Or.inl hs
  | heard request _ _ he =>
    cases he
    exact Or.inr (Or.inl ⟨_, _, rfl, smtp_says_requested _ _⟩)
  | heardBody lines _ _ _ he =>
    cases he
    exact Or.inr (Or.inr ⟨_, _, rfl, saysOne_sent _⟩)
  | written after _ _ he =>
    obtain ⟨_, hout⟩ := Prod.mk.inj (Prod.mk.inj he).2
    exact Or.inl (hout ▸ smtp_says_replied s after)
  | dropped _ _ he =>
    cases he
    exact Or.inl (Or.inl rfl)

end Protocols
