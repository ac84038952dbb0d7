import Protocols.FtpClient
import Protocols.FtpInput

namespace Protocols

namespace FtpClient

inductive LoginStatus
  | loginOk
  | loginFail
  deriving DecidableEq

def serviceReady : Nat := 220
def loginOk : Nat := 230
def enterPassword : Nat := 331

def ftpPrompt : Text := "ftp> ".toList
def optsCommand : Text := "OPTS MLST type;size;modify;UNIX.mode;UNIX.uid;UNIX.gid;".toList
def userCommand (user : Text) : Text := format "USER {}".toList [user]
def passCommand (password : Text) : Text := format "PASS {}".toList [password]
def retrCommand (file : Text) : Text := format "RETR {}".toList [file]

def commands : Text :=
  ("Commands:\nls - list remote files\ncat - output remote file to stdout\n" ++
    "help - this help\nquit - disconnect and quit\n").toList

/-- The code of the last of the lines that answer a command. -/
def replyCode (control : List SocketEvent) : Except Error Nat × List SocketEvent :=
  match readMultipleLines control with
  | (.error error, control) => (.error error, control)
  | (.ok reply, control) =>
    match parseReply (reply.getLastD []) with
    | none => (.error .thrown, control)
    | some (code, _) => (.ok code, control)

/-- What has come of a login, what has been sent, and what there is still to read. -/
structure Login where
  result : Except Error LoginStatus
  sent : List Text
  control : List SocketEvent

/-- `ftp_login`. The reply to OPTS is not looked at. -/
def ftpLogin (user password : Text) (control : List SocketEvent) : Login :=
  match replyCode control with
  | (.error error, control) => ⟨.error error, [], control⟩
  | (.ok greetCode, control) =>
    if greetCode ≠ serviceReady then ⟨.ok .loginFail, [], control⟩
    else
      let sent := [optsCommand, userCommand user]
      match replyCode (readMultipleLines control).2 with
      | (.error error, control) => ⟨.error error, sent, control⟩
      | (.ok userCode, control) =>
        if userCode = loginOk then ⟨.ok .loginOk, sent, control⟩
        else if userCode = enterPassword then
          let sent := sent ++ [passCommand password]
          match replyCode control with
          | (.error error, control) => ⟨.error error, sent, control⟩
          | (.ok passwordCode, control) =>
            ⟨.ok (if passwordCode = loginOk then .loginOk else .loginFail), sent, control⟩
        else ⟨.ok .loginFail, sent, control⟩

/-- `getline`, which leaves the line empty at the end of the input. -/
def getline : List Text → Text × List Text
  | [] => ([], [])
  | line :: lines => (line, lines)

/-- What `connect_with_timeout` comes to for each of the commands that are executed. -/
abbrev Connections := Nat → Text → Text → Except Error (List SocketEvent)

/-- `client` at the head of its loop: the input and the replies that it has not read, how many commands
it has executed, and what it has printed and sent. -/
structure Prompt where
  input : List Text
  control : List SocketEvent
  executed : Nat := 0
  printed : Text := []
  sent : List Text := []

/-- What an iteration comes to: another one, or the end of the client with an error or without. -/
inductive Turn
  | prompts (p : Prompt)
  | returns (error : Option Error) (p : Prompt)

def Prompt.execute (p : Prompt) (connect : Connections) (command : Text) : Turn :=
  let executed := FtpClient.execute command p.control (connect p.executed)
  let p := { p with
    control := executed.control
    executed := p.executed + 1
    printed := p.printed ++ executed.printed
    sent := p.sent ++ executed.sent }
  match executed.error with
  | some error => .returns (some error) p
  | none => .prompts p

def iteration (connect : Connections) (p : Prompt) : Turn :=
  let (input, rest) := getline p.input
  let p := { p with input := rest, printed := p.printed ++ ftpPrompt }
  match parseInput input with
  | (.ls, _) => p.execute connect listCommand
  | (.cat, arguments) => p.execute connect (retrCommand (str arguments 1))
  | (.quit, _) => .returns none p
  | (.help, _) | (.unknown, _) => .prompts { p with printed := p.printed ++ commands }

/-- The loop, up to a number of iterations. -/
def loop (connect : Connections) : Nat → Prompt → Option (Option Error × Prompt)
  | 0, _ => none
  | iterations + 1, p =>
    match iteration connect p with
    | .returns error p => some (error, p)
    | .prompts p => loop connect iterations p

/-- `client`: the error that it returns, if it does so in a number of iterations. -/
def client (user password : Text) (control : List SocketEvent) (input : List Text)
    (connect : Connections) (iterations : Nat) : Option (Option Error × Prompt) :=
  let login := ftpLogin user password control
  let p : Prompt := { input := input, control := login.control, sent := login.sent }
  match login.result with
  | .error error => some (some error, p)
  | .ok .loginFail => some (none, p)
  | .ok .loginOk => loop connect iterations p

end FtpClient

end Protocols
