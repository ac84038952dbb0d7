import Protocols.FtpPassive
import Protocols.FtpSession
import Mathlib.Logic.Function.Iterate

namespace Protocols

open Regex

/-- The number that a line has, if any, fits into an `int`. -/
def FitsInt (has : Text → Nat → Prop) (line : Text) : Prop := ∀ n, has line n → n < 2 ^ 31

namespace FtpClient

/-- What there is to read after the next pause, or from the end of the connection on. -/
def afterPause : List SocketEvent → List SocketEvent
  | .bytes _ :: events => afterPause events
  | .timer :: events => events
  | events => events

/-- The last line that comes before the next pause has the code. -/
def Coded (control : List SocketEvent) (code : Nat) : Prop :=
  ∃ line, LastLine (arrived control) line ∧ HasCode line code

/-- Where the replies begin whose codes the login looks at. The reply to OPTS is none of them. -/
inductive LoginReads (control : List SocketEvent) : List SocketEvent → Prop
  | greeting : LoginReads control control
  | user : Coded control serviceReady → LoginReads control (afterPause^[2] control)
  | pass : Coded control serviceReady → Coded (afterPause^[2] control) enterPassword →
      LoginReads control (afterPause^[3] control)

/-- The numbers of the replies to a login fit. -/
def LoginFits (control : List SocketEvent) : Prop :=
  ∀ replies, LoginReads control replies →
    ∀ line, LastLine (arrived replies) line → FitsInt HasCode line

/-- A login succeeds by its replies and leaves the later ones to be read. -/
inductive LoginSucceeds (control : List SocketEvent) : List SocketEvent → Prop
  | named : Coded control serviceReady → Coded (afterPause^[2] control) loginOk →
      LoginSucceeds control (afterPause^[3] control)
  | passed : Coded control serviceReady → Coded (afterPause^[2] control) enterPassword →
      Coded (afterPause^[3] control) loginOk → LoginSucceeds control (afterPause^[4] control)

/-- The text comes up to the close of the connection, and the timer does not end before it. -/
def Delivers (data : List SocketEvent) (text : Text) : Prop :=
  ∃ (pieces : List Text) (rest : List SocketEvent),
    data = pieces.map .bytes ++ .eof :: rest ∧ pieces.flatten = text

/-- What a command prints by the last line of its reply and by its data connection. -/
inductive Prints (last : Text) (data : List SocketEvent) : Text → Prop
  | failed : HasCode last failedToOpen → Prints last data (fileNotFound ++ ['\n'])
  | closed {text : Text} : HasCode last closingData → Delivers data text →
    Prints last data (normalised text)
  | other : ¬ HasCode last failedToOpen → ¬ HasCode last closingData → FitsInt HasCode last →
    Prints last data []

/-- The reply to PASV tells the address. -/
def PasvTells (control : List SocketEvent) (a : PasvAddress) : Prop :=
  ∃ line, LastLine (arrived control) line ∧ Tells line a

/-- A command is carried out with the output: the reply to PASV tells a data connection that comes
about, and what is printed is told by the next reply and by what comes on the connection. -/
def Served (connect : Text → Text → Except Error (List SocketEvent)) (control : List SocketEvent)
    (output : Text) : Prop :=
  ∃ a data reply, PasvTells control a ∧ a.dataPort < 2 ^ 31 ∧
    connect a.host (decimal a.dataPort) = .ok data ∧
    LastLine (arrived (afterPause control)) reply ∧ Prints reply data output

/-- The numbers of the replies to a command fit, and the connection attempt does not throw. -/
structure CommandFits (connect : Text → Text → Except Error (List SocketEvent))
    (control : List SocketEvent) : Prop where
  port : ∀ a, PasvTells control a → a.dataPort < 2 ^ 31
  connection : ∀ a, PasvTells control a →
    connect a.host (decimal a.dataPort) ≠ .error .thrown
  code : ∀ a data, PasvTells control a → connect a.host (decimal a.dataPort) = .ok data →
    ∀ line, LastLine (arrived (afterPause control)) line → FitsInt HasCode line

section

variable {control events events' : List SocketEvent} {buffer line : Text} {code : Nat}

/-- A wait ends with a line before the next pause, or in vain with it. -/
theorem readLine_after (buffer : Text) (events : List SocketEvent) :
    readLine buffer events = (none, afterPause events) ∨
      ∃ found events', readLine buffer events = (some found, events') ∧
        afterPause events' = afterPause events := by
  induction events generalizing buffer with
  | nil =>
    cases hs : splitCrlf buffer with
    | none => exact .inl (by simp [readLine, hs, afterPause])
    | some found => exact .inr ⟨found, [], by simp [readLine, hs], rfl⟩
  | cons event events ih =>
    cases event with
    | bytes chunk =>
      cases hs : splitCrlf buffer with
      | none =>
        rw [readLine, hs]
        exact ih (buffer ++ chunk)
      | some found => exact .inr ⟨found, .bytes chunk :: events, by rw [readLine, hs], rfl⟩
    | timer =>
      cases hs : splitCrlf buffer with
      | none => exact .inl (by rw [readLine, hs, afterPause])
      | some found => exact .inr ⟨found, .timer :: events, by rw [readLine, hs], rfl⟩
    | eof | failure =>
      cases hs : splitCrlf buffer with
      | none => exact .inl (by simp [readLine, hs, afterPause])
      | some found => exact .inr ⟨found, _, by simp [readLine, hs], rfl⟩

theorem readLines_after {fuel : Nat} (hfuel : (buffer ++ arrived events).length < fuel) :
    (readLines fuel buffer events).2 = afterPause events := by
  induction fuel generalizing buffer events with
  | zero => omega
  | succ fuel ih =>
    obtain hread | ⟨⟨line, rest⟩, events', hread, hafter⟩ := readLine_after buffer events
    · rw [readLines, hread]
    · have hlength := congrArg List.length (splitCrlf_eq (readLine_some hread)).1
      simp only [List.length_append, crlf, List.length_cons, List.length_nil] at hlength hfuel
      have hlt : (rest ++ arrived events').length < fuel := by
        rw [List.length_append]
        omega
      simp only [readLines, hread]
      exact (ih hlt).trans hafter

/-- A reply is all the lines that come before the next pause. -/
theorem readMultipleLines_cases (control : List SocketEvent) :
    (∃ lines, readMultipleLines control = (.ok lines, afterPause control) ∧
      LastLine (arrived control) (lines.getLastD [])) ∨
    readMultipleLines control = (.error .timedOut, afterPause control) ∧
      ∀ line, ¬ LastLine (arrived control) line := by
  have hafter : (readMultipleLines control).2 = afterPause control :=
    readLines_after (Nat.lt_succ_self _)
  rcases hread : readMultipleLines control with ⟨error | lines, rest⟩ <;> rw [hread] at hafter <;>
    subst hafter
  · exact .inr ⟨by rw [readMultipleLines_timedOut hread], fun _ => readMultipleLines_error hread⟩
  · exact .inl ⟨lines, rfl, readMultipleLines_ok hread⟩

theorem readMultipleLines_after : (readMultipleLines control).2 = afterPause control := by
  obtain ⟨lines, hread, _⟩ | ⟨hread, _⟩ := readMultipleLines_cases control <;> rw [hread]

/-- A code that fits into an `int` and is not the one of an unknown reply is read as it stands. -/
theorem parseReply_iff (hsmall : code < 2 ^ 31) (hne : code ≠ unknown) :
    (parseReply line).map Prod.fst = some code ↔ HasCode line code := by
  constructor
  · intro h
    by_cases hcode : ∃ other, HasCode line other
    · obtain ⟨other, hother⟩ := hcode
      rw [parseReply_code hother] at h
      split at h
      · cases h
        exact hother
      · cases h
    · rw [parseReply_unknown (not_exists.mp hcode)] at h
      cases h
      exact absurd rfl hne
  · intro h
    rw [parseReply_code h, if_pos hsmall]

/-- Only a number that does not fit makes the parser throw. -/
theorem parseReply_none : parseReply line = none ↔ ¬ FitsInt HasCode line := by
  by_cases hcode : ∃ code, HasCode line code
  · obtain ⟨code, hcode⟩ := hcode
    have hparse := parseReply_code hcode
    constructor
    · intro hnone hfits
      rw [hnone, if_pos (hfits code hcode)] at hparse
      cases hparse
    · intro h
      simp only [FitsInt, not_forall] at h
      obtain ⟨other, hother, hlarge⟩ := h
      have hnone := parseReply_code hother
      rwa [if_neg hlarge, Option.map_eq_none_iff] at hnone
  · rw [not_exists] at hcode
    rw [parseReply_unknown hcode]
    exact iff_of_false (Option.some_ne_none _) fun h => h fun n hn => absurd hn (hcode n)

theorem replyCode_after : (replyCode control).2 = afterPause control := by
  obtain ⟨lines, hread, _⟩ | ⟨hread, _⟩ := readMultipleLines_cases control
  · rcases hparse : parseReply (lines.getLastD []) with _ | r <;>
      simp only [replyCode, hread, hparse]
  · simp only [replyCode, hread]

/-- The code of a reply is the one of its last line. -/
theorem replyCode_iff (hsmall : code < 2 ^ 31) (hne : code ≠ unknown) :
    (replyCode control).1 = .ok code ↔ Coded control code := by
  obtain ⟨lines, hread, hlast⟩ | ⟨hread, hno⟩ := readMultipleLines_cases control
  · have hcoded : Coded control code ↔ HasCode (lines.getLastD []) code :=
      ⟨fun ⟨_, hline, h⟩ => lastLine_unique hline hlast ▸ h, fun h => ⟨_, hlast, h⟩⟩
    rw [hcoded, ← parseReply_iff hsmall hne]
    rcases hparse : parseReply (lines.getLastD []) with _ | r <;>
      simp only [replyCode, hread, hparse, Option.map_none, Option.map_some, reduceCtorEq,
        Except.ok.injEq, Option.some.injEq]
  · simp only [replyCode, hread, reduceCtorEq, false_iff]
    rintro ⟨line, hline, _⟩
    exact hno line hline

/-- Of the lines that answer a command, only the last one can make `stoi` throw. -/
theorem replyCode_thrown : (replyCode control).1 = .error .thrown ↔
    ¬ ∀ line, LastLine (arrived control) line → FitsInt HasCode line := by
  obtain ⟨lines, hread, hlast⟩ | ⟨hread, hno⟩ := readMultipleLines_cases control
  · have hfits : (∀ line, LastLine (arrived control) line → FitsInt HasCode line) ↔
        FitsInt HasCode (lines.getLastD []) :=
      ⟨fun h => h _ hlast, fun h _ hline => lastLine_unique hlast hline ▸ h⟩
    rw [hfits, ← parseReply_none]
    rcases hparse : parseReply (lines.getLastD []) with _ | r <;>
      simp only [replyCode, hread, hparse, reduceCtorEq]
  · simp only [replyCode, hread, Except.error.injEq, reduceCtorEq, false_iff, not_not]
    exact fun line hline => absurd hline (hno line)

/-- A code that is read is that of the reply, and the next one comes after the pause. -/
theorem replyCode_eq_iff (hsmall : code < 2 ^ 31) (hne : code ≠ unknown) :
    replyCode control = (.ok code, events) ↔ Coded control code ∧ events = afterPause control := by
  rw [← replyCode_iff hsmall hne, ← replyCode_after, Prod.ext_iff]
  exact and_congr_right fun _ => eq_comm

end

section

variable {user password : Text} {control later : List SocketEvent}

theorem login_named (hgreet : Coded control serviceReady)
    (huser : Coded (afterPause^[2] control) loginOk) : ftpLogin user password control =
      ⟨.ok .loginOk, [optsCommand, userCommand user], afterPause^[3] control⟩ := by
  have hgreet := (replyCode_eq_iff (by decide) (by decide)).mpr ⟨hgreet, rfl⟩
  have huser : replyCode (afterPause (afterPause control)) = (.ok loginOk, _) :=
    (replyCode_eq_iff (by decide) (by decide)).mpr ⟨huser, rfl⟩
  simp only [ftpLogin, hgreet, readMultipleLines_after, huser, ne_eq, not_true_eq_false, if_false,
    if_true]
  rfl

theorem login_passed (hgreet : Coded control serviceReady)
    (huser : Coded (afterPause^[2] control) enterPassword)
    (hpass : Coded (afterPause^[3] control) loginOk) : ftpLogin user password control =
      ⟨.ok .loginOk, [optsCommand, userCommand user, passCommand password],
        afterPause^[4] control⟩ := by
  have hne : enterPassword ≠ loginOk := by decide
  have hgreet := (replyCode_eq_iff (by decide) (by decide)).mpr ⟨hgreet, rfl⟩
  have huser : replyCode (afterPause (afterPause control)) = (.ok enterPassword, _) :=
    (replyCode_eq_iff (by decide) (by decide)).mpr ⟨huser, rfl⟩
  have hpass : replyCode (afterPause (afterPause (afterPause control))) = (.ok loginOk, _) :=
    (replyCode_eq_iff (by decide) (by decide)).mpr ⟨hpass, rfl⟩
  simp only [ftpLogin, hgreet, readMultipleLines_after, huser, hpass, ne_eq, not_true_eq_false,
    if_false, if_true, if_neg hne]
  rfl

theorem login_succeeds (h : LoginSucceeds control later) :
    (ftpLogin user password control).result = .ok .loginOk ∧
      (ftpLogin user password control).control = later := by
  cases h with
  | named hgreet huser => simp only [login_named hgreet huser, and_self]
  | passed hgreet huser hpass => simp only [login_passed hgreet huser hpass, and_self]

theorem LoginSucceeds.unique {other : List SocketEvent} (h : LoginSucceeds control later)
    (h' : LoginSucceeds control other) : later = other :=
  (@login_succeeds [] [] _ _ h).2.symm.trans (login_succeeds h').2

/-- A login succeeds exactly if its replies say so. -/
theorem login_ok_iff : (ftpLogin user password control).result = .ok .loginOk ↔
    ∃ later, LoginSucceeds control later := by
  refine ⟨fun h => ?_, fun ⟨_, h⟩ => (login_succeeds h).1⟩
  rcases hgreet : replyCode control with ⟨error | greetCode, c⟩
  · simp [ftpLogin, hgreet] at h
  by_cases hready : greetCode = serviceReady
  swap
  · simp [ftpLogin, hgreet, hready] at h
  subst hready
  obtain ⟨hgreeted, rfl⟩ := (replyCode_eq_iff (by decide) (by decide)).mp hgreet
  rcases huser : replyCode (afterPause (afterPause control)) with ⟨error | userCode, c⟩
  · simp [ftpLogin, hgreet, readMultipleLines_after, huser] at h
  by_cases hnamed : userCode = loginOk
  · subst hnamed
    exact ⟨_, .named hgreeted ((replyCode_eq_iff (by decide) (by decide)).mp huser).1⟩
  by_cases henter : userCode = enterPassword
  swap
  · simp [ftpLogin, hgreet, readMultipleLines_after, huser, hnamed, henter] at h
  subst henter
  obtain ⟨hasked, rfl⟩ := (replyCode_eq_iff (by decide) (by decide)).mp huser
  rcases hpass : replyCode (afterPause (afterPause (afterPause control))) with
    ⟨error | passwordCode, c⟩
  · simp [ftpLogin, hgreet, readMultipleLines_after, huser, hpass, hnamed] at h
  by_cases hpassed : passwordCode = loginOk
  · subst hpassed
    exact ⟨_, .passed hgreeted hasked ((replyCode_eq_iff (by decide) (by decide)).mp hpass).1⟩
  · simp [ftpLogin, hgreet, readMultipleLines_after, huser, hpass, hnamed, hpassed] at h

theorem exists_loginReads {P : List SocketEvent → Prop} :
    (∃ replies, LoginReads control replies ∧ P replies) ↔
      P control ∨ Coded control serviceReady ∧ (P (afterPause^[2] control) ∨
        Coded (afterPause^[2] control) enterPassword ∧ P (afterPause^[3] control)) := by
  constructor
  · rintro ⟨_, hreads, h⟩
    cases hreads with
    | greeting => exact .inl h
    | user hgreet => exact .inr ⟨hgreet, .inl h⟩
    | pass hgreet huser => exact .inr ⟨hgreet, .inr ⟨huser, h⟩⟩
  · rintro (h | ⟨hgreet, h | ⟨huser, h⟩⟩)
    · exact ⟨_, .greeting, h⟩
    · exact ⟨_, .user hgreet, h⟩
    · exact ⟨_, .pass hgreet huser, h⟩

/-- A login ends with an exception exactly if it reads a code that does so. -/
theorem login_thrown_iff : (ftpLogin user password control).result = .error .thrown ↔
    ¬ LoginFits control := by
  have hreads : ¬ LoginFits control ↔
      ∃ replies, LoginReads control replies ∧ (replyCode replies).1 = .error .thrown := by
    simp only [replyCode_thrown, LoginFits, not_forall, exists_prop]
  rw [hreads, exists_loginReads, ← replyCode_iff (by decide) (by decide),
    ← replyCode_iff (by decide) (by decide)]
  rcases hgreet : replyCode control with ⟨error | greetCode, c⟩
  · simp [ftpLogin, hgreet]
  obtain rfl : afterPause control = c := by rw [← replyCode_after, hgreet]
  by_cases hready : greetCode = serviceReady
  swap
  · simp [ftpLogin, hgreet, hready]
  subst hready
  simp only [Function.iterate_succ, Function.iterate_zero, Function.comp_apply, id_eq]
  rcases huser : replyCode (afterPause (afterPause control)) with ⟨error | userCode, c⟩
  · simp [ftpLogin, hgreet, readMultipleLines_after, huser]
  obtain rfl : afterPause (afterPause (afterPause control)) = c := by rw [← replyCode_after, huser]
  by_cases hok : userCode = loginOk
  · have hne : loginOk ≠ enterPassword := by decide
    simp [ftpLogin, hgreet, readMultipleLines_after, huser, hok, hne]
  by_cases henter : userCode = enterPassword
  swap
  · simp [ftpLogin, hgreet, readMultipleLines_after, huser, hok, henter]
  subst henter
  rcases hpass : replyCode (afterPause (afterPause (afterPause control))) with
    ⟨error | passwordCode, c⟩ <;>
    simp [ftpLogin, hgreet, readMultipleLines_after, huser, hok, hpass]

end

section

variable {command buffer output : Text} {control data events : List SocketEvent}

theorem readRawData_error {error : Error}
    (h : readRawData buffer events = .error error) : error = .timedOut := by
  induction events generalizing buffer with
  | nil =>
    cases h
    rfl
  | cons event events ih =>
    cases event with
    | bytes chunk => exact ih h
    | eof => cases h
    | timer | failure =>
      cases h
      rfl

theorem readRawData_iff {data : Text} :
    readRawData buffer events = .ok data ↔
      ∃ text, Delivers events text ∧ data = (buffer ++ text).filter fun c => c ≠ '\r' := by
  constructor
  · intro h
    induction events generalizing buffer with
    | nil => cases h
    | cons event events ih =>
      cases event with
      | bytes piece =>
        obtain ⟨text, ⟨pieces, after, rfl, rfl⟩, rfl⟩ := ih h
        exact ⟨piece ++ pieces.flatten, ⟨piece :: pieces, after, rfl, rfl⟩,
          by rw [List.append_assoc]⟩
      | eof =>
        cases h
        exact ⟨[], ⟨[], events, rfl, rfl⟩, by rw [List.append_nil]⟩
      | timer => cases h
      | failure => cases h
  · rintro ⟨text, ⟨pieces, after, rfl, rfl⟩, rfl⟩
    induction pieces generalizing buffer with
    | nil => rw [List.map_nil, List.nil_append, readRawData, List.flatten_nil, List.append_nil]
    | cons piece pieces ih =>
      rw [List.map_cons, List.cons_append, readRawData, ih, List.flatten_cons, List.append_assoc]

theorem normalised_eq (text : Text) : normalised text =
    (text.filter fun c => c ≠ '\r') ++
      if (text.filter fun c => c ≠ '\r').getLast? = some '\n' then [] else ['\n'] := by
  rw [normalised]
  split
  · rw [List.append_nil]
  · rfl

theorem transfer_after : (transfer command control data).control = afterPause control := by
  obtain ⟨lines, hread, _⟩ | ⟨hread, _⟩ := readMultipleLines_cases control
  · simp only [transfer, hread]
    split
    next => rfl
    next =>
      split_ifs
      · rfl
      · split <;> rfl
      · rfl
  · simp only [transfer, hread]

theorem HasCode.unique {last : Text} {code other : Nat} (h : HasCode last code)
    (h' : HasCode last other) (hsmall : code < 2 ^ 31) : code = other := by
  have hsame := (parseReply_code h).symm.trans (parseReply_code h')
  rw [if_pos hsmall] at hsame
  split at hsame
  · exact Option.some.inj hsame
  · cases hsame

theorem prints_failed {last : Text} (h : HasCode last failedToOpen) :
    Prints last data output ↔ output = fileNotFound ++ ['\n'] := by
  constructor
  · rintro (_ | ⟨hcode, _⟩ | ⟨hno, _, _⟩)
    · rfl
    · exact absurd (h.unique hcode (by decide)) (by decide)
    · exact absurd h hno
  · rintro rfl
    exact .failed h

theorem prints_closed {last : Text} (h : HasCode last closingData) :
    Prints last data output ↔ ∃ text, Delivers data text ∧ output = normalised text := by
  constructor
  · rintro (hcode | ⟨_, htext⟩ | ⟨_, hno, _⟩)
    · exact absurd (h.unique hcode (by decide)) (by decide)
    · exact ⟨_, htext, rfl⟩
    · exact absurd h hno
  · rintro ⟨text, htext, rfl⟩
    exact .closed h htext

theorem prints_other {last : Text} (hfailed : ¬ HasCode last failedToOpen)
    (hclosing : ¬ HasCode last closingData) :
    Prints last data output ↔ FitsInt HasCode last ∧ output = [] := by
  constructor
  · rintro (hcode | ⟨hcode, _⟩ | ⟨_, _, hfits⟩)
    · exact absurd hcode hfailed
    · exact absurd hcode hclosing
    · exact ⟨hfits, rfl⟩
  · rintro ⟨hfits, rfl⟩
    exact .other hfailed hclosing hfits

/-- What a command prints by the last line of its reply. -/
theorem transfer_prints : ((transfer command control data).error = none ∧
      (transfer command control data).printed = output) ↔
    ∃ reply, LastLine (arrived control) reply ∧ Prints reply data output := by
  obtain ⟨lines, hread, hlast⟩ | ⟨hread, hno⟩ := readMultipleLines_cases control
  swap
  · simp only [transfer, hread, reduceCtorEq, false_and, false_iff]
    rintro ⟨reply, hreply, _⟩
    exact hno reply hreply
  generalize hline : lines.getLastD [] = last at hlast
  have hprints : (∃ reply, LastLine (arrived control) reply ∧ Prints reply data output) ↔
      Prints last data output := by
    constructor
    · rintro ⟨reply, hreply, h⟩
      rwa [lastLine_unique hlast hreply]
    · exact fun h => ⟨_, hlast, h⟩
  rw [hprints]
  have hfailed := @parseReply_iff last _ (show failedToOpen < 2 ^ 31 by decide) (by decide)
  have hclosing := @parseReply_iff last _ (show closingData < 2 ^ 31 by decide) (by decide)
  by_cases hopen : HasCode last failedToOpen
  · obtain ⟨⟨code, arguments⟩, hparse, rfl⟩ := Option.map_eq_some_iff.mp (hfailed.mpr hopen)
    rw [prints_failed hopen]
    simp only [transfer, hread, hline, hparse, if_true, true_and, eq_comm]
  by_cases hclose : HasCode last closingData
  · obtain ⟨⟨code, arguments⟩, hparse, rfl⟩ := Option.map_eq_some_iff.mp (hclosing.mpr hclose)
    have hdiffer : closingData ≠ failedToOpen := by decide
    rw [prints_closed hclose]
    simp only [transfer, hread, hline, hparse, if_neg hdiffer, if_true]
    have hraw : ∀ raw, readRawData [] data = .ok raw ↔
        ∃ text, Delivers data text ∧ raw = text.filter fun c => c ≠ '\r' := fun _ => readRawData_iff
    rcases hdata : readRawData [] data with error | raw
    · refine iff_of_false (fun h => Option.some_ne_none _ h.1) ?_
      rintro ⟨text, htext, _⟩
      cases hdata.symm.trans ((hraw _).mpr ⟨text, htext, rfl⟩)
    · obtain ⟨text, htext, rfl⟩ := (hraw raw).mp hdata
      simp only [true_and, ← normalised_eq]
      constructor
      · exact fun h => ⟨text, htext, h.symm⟩
      · rintro ⟨text', htext', rfl⟩
        have hsame := Except.ok.inj (hdata.symm.trans ((hraw _).mpr ⟨text', htext', rfl⟩))
        simp only [normalised_eq, hsame]
  · rw [prints_other hopen hclose, ← not_not (a := FitsInt HasCode last), ← parseReply_none]
    rcases hparse : parseReply last with _ | ⟨code, arguments⟩
    · simp only [transfer, hread, hline, hparse, reduceCtorEq, not_true_eq_false, false_and]
    · rw [hparse, Option.map_some, Option.some.injEq] at hfailed hclosing
      simp only [transfer, hread, hline, hparse, if_neg (mt hfailed.mp hopen),
        if_neg (mt hclosing.mp hclose), reduceCtorEq, not_false_eq_true, true_and, eq_comm]

theorem transfer_thrown_iff : (transfer command control data).error = some .thrown ↔
    ¬ ∀ line, LastLine (arrived control) line → FitsInt HasCode line := by
  rw [← replyCode_thrown]
  rcases hlines : readMultipleLines control with ⟨error | lines, rest⟩
  · simp [transfer, replyCode, hlines]
  · simp only [transfer, replyCode, hlines]
    cases hparse : parseReply (lines.getLastD []) with
    | none => exact iff_of_true rfl rfl
    | some r =>
      refine iff_of_false (fun herror => ?_) nofun
      dsimp only at herror
      split_ifs at herror
      cases hdata : readRawData [] data with
      | ok raw =>
        rw [hdata] at herror
        cases herror
      | error error =>
        rw [hdata, readRawData_error hdata] at herror
        cases herror

end

section

variable {command output : Text} {control : List SocketEvent} {a b : PasvAddress}
  {connect : Text → Text → Except Error (List SocketEvent)}

theorem PasvTells.unique (h : PasvTells control a) (h' : PasvTells control b) :
    a.host = b.host ∧ a.dataPort = b.dataPort := by
  obtain ⟨line, hline, htells⟩ := h
  obtain ⟨line', hline', htells'⟩ := h'
  exact htells.address (lastLine_unique hline' hline ▸ htells')

theorem passive_after : (ftpPassiveMode control).2 = afterPause control := by
  obtain ⟨lines, hread, _⟩ | ⟨hread, _⟩ := readMultipleLines_cases control
  · simp only [ftpPassiveMode, hread]
    split
    next => rfl
    next => split <;> rfl
  · simp only [ftpPassiveMode, hread]

/-- No address is told, or one whose port does not fit, or one to connect to. -/
theorem passive_tells (control : List SocketEvent) :
    (∃ error, ftpPassiveMode control = (.error error, afterPause control) ∧ error ≠ .thrown ∧
      ∀ a, ¬ PasvTells control a) ∨
    ∃ a, PasvTells control a ∧ ftpPassiveMode control =
      (if a.dataPort < 2 ^ 31 then .ok (a.host, decimal a.dataPort) else .error .thrown,
        afterPause control) := by
  obtain ⟨error, herror, hne, hno⟩ | ⟨line, a, hline, htells, htold⟩ := passive_cases control
  · refine .inl ⟨error, Prod.ext herror passive_after, hne, ?_⟩
    rintro a ⟨line, hline, htells⟩
    exact hno line a hline htells
  · exact .inr ⟨a, ⟨line, hline, htells⟩, Prod.ext htold passive_after⟩

/-- A command is carried out exactly if its replies say so. -/
theorem execute_served : ((execute command control connect).error = none ∧
    (execute command control connect).printed = output) ↔ Served connect control output := by
  obtain ⟨error, hpasv, _, hno⟩ | ⟨a, ha, hpasv⟩ := passive_tells control
  · simp only [execute, hpasv, reduceCtorEq, false_and, false_iff]
    rintro ⟨a, _, _, ha, _⟩
    exact hno a ha
  by_cases hport : a.dataPort < 2 ^ 31
  swap
  · simp only [execute, hpasv, if_neg hport, reduceCtorEq, false_and, false_iff]
    rintro ⟨b, _, _, hb, hsmall, _⟩
    exact hport ((ha.unique hb).2 ▸ hsmall)
  rw [if_pos hport] at hpasv
  rcases hconnect : connect a.host (decimal a.dataPort) with error | data
  · simp only [execute, hpasv, hconnect, reduceCtorEq, false_and, false_iff]
    rintro ⟨b, data, _, hb, _, hdata, _⟩
    rw [← (ha.unique hb).1, ← (ha.unique hb).2, hconnect] at hdata
    cases hdata
  · rw [execute_opened hpasv hconnect, transfer_prints]
    constructor
    · rintro ⟨reply, hreply, hprints⟩
      exact ⟨a, data, reply, ha, hport, hconnect, hreply, hprints⟩
    · rintro ⟨b, data', reply, hb, _, hdata, hreply, hprints⟩
      rw [← (ha.unique hb).1, ← (ha.unique hb).2, hconnect] at hdata
      cases hdata
      exact ⟨reply, hreply, hprints⟩

theorem execute_carried :
    (execute command control connect).error = none ↔ ∃ output, Served connect control output :=
  ⟨fun h => ⟨_, execute_served.mp ⟨h, rfl⟩⟩, fun ⟨_, h⟩ => (execute_served.mpr h).1⟩

theorem execute_after (h : (execute command control connect).error = none) :
    (execute command control connect).control = afterPause^[2] control := by
  rcases hpasv : ftpPassiveMode control with ⟨error | ⟨host, port⟩, replies⟩
  · simp [execute, hpasv] at h
  obtain rfl : afterPause control = replies := by rw [← passive_after, hpasv]
  rcases hconnect : connect host port with error | data
  · simp [execute, hpasv, hconnect] at h
  rw [execute_opened hpasv hconnect]
  exact transfer_after

/-- A command ends with an exception exactly if a number of its replies does not fit or the connection
attempt throws. -/
theorem execute_thrown_iff : (execute command control connect).error = some .thrown ↔
    ¬ CommandFits connect control := by
  obtain ⟨error, hpasv, hne, hno⟩ | ⟨a, ha, hpasv⟩ := passive_tells control
  · have hfits : CommandFits connect control := ⟨fun a ha => absurd ha (hno a),
      fun a ha => absurd ha (hno a), fun a _ ha => absurd ha (hno a)⟩
    simp only [execute, hpasv, Option.some.injEq]
    exact iff_of_false hne (not_not.mpr hfits)
  by_cases hport : a.dataPort < 2 ^ 31
  swap
  · simp only [execute, hpasv, if_neg hport, true_iff]
    exact fun h => hport (h.port a ha)
  rw [if_pos hport] at hpasv
  have port : ∀ b, PasvTells control b → b.dataPort < 2 ^ 31 :=
    fun b hb => (ha.unique hb).2 ▸ hport
  have same : ∀ {b}, PasvTells control b →
      connect b.host (decimal b.dataPort) = connect a.host (decimal a.dataPort) := by
    intro b hb
    rw [(ha.unique hb).1, (ha.unique hb).2]
  rcases hconnect : connect a.host (decimal a.dataPort) with error | data
  · simp only [execute, hpasv, hconnect, Option.some.injEq]
    rw [← not_iff_not, not_not]
    constructor
    · intro hne
      refine ⟨port, fun b hb => ?_, fun b data hb hdata => ?_⟩
      · rw [same hb, hconnect]
        exact fun he => hne (Except.error.inj he)
      · rw [same hb, hconnect] at hdata
        cases hdata
    · intro h he
      exact h.connection a ha (by rw [hconnect, he])
  · rw [execute_opened hpasv hconnect, transfer_thrown_iff, not_iff_not]
    constructor
    · intro hfits
      refine ⟨port, fun b hb => ?_, fun _ _ _ _ => hfits⟩
      rw [same hb, hconnect]
      exact fun he => by cases he
    · exact fun h => h.code a data ha hconnect

end

end FtpClient

end Protocols
