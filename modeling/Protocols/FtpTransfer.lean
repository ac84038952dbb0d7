import Protocols.FtpClient
import Protocols.RegexLines

namespace Protocols

open Regex

namespace FtpClient

/-- The last line that has come whole. -/
def LastLine (s line : Text) : Prop :=
  ∃ before tail, s = before ++ line ++ crlf ++ tail ∧ (before = [] ∨ crlf <:+ before) ∧
    CrlfFree line ∧ CrlfFree tail

/-- The line is a reply with the code. -/
def HasCode (line : Text) (code : Nat) : Prop :=
  ∃ number text, line = number ++ ' ' :: text ∧ number ≠ [] ∧ (∀ c ∈ number, c.isDigit = true) ∧
    NoBreak text ∧ Nat.ofDigitChars 10 number 0 = code

/-- What the server sends on a connection up to its orderly end, if it comes to one. -/
def sentUpToClose : List SocketEvent → Option Text
  | [] => none
  | .bytes chunk :: events => (sentUpToClose events).map fun text => chunk ++ text
  | .timer :: events => sentUpToClose events
  | .eof :: _ => some []
  | .failure :: _ => none

/-- Carriage returns are removed, and a final newline is added if it is missing. -/
def normalised (text : Text) : Text :=
  let text := text.filter fun c => c ≠ '\r'
  if text.getLast? = some '\n' then text else text ++ ['\n']

/-- A command that returns without an error has got the reply 550 last and has said so, or has printed
all that came up to the close of the data connection. -/
def CompleteOrReported (command : Text) (control : List SocketEvent)
    (connect : Text → Text → Except Error (List SocketEvent)) : Prop :=
  (execute command control connect).error = none →
    ∃ host port replies data, ftpPassiveMode control = (.ok (host, port), replies) ∧
      connect host port = .ok data ∧
      ((∃ line, LastLine (arrived replies) line ∧ HasCode line failedToOpen ∧
        (execute command control connect).printed = fileNotFound ++ ['\n']) ∨
      ∃ text, sentUpToClose data = some text ∧
        (execute command control connect).printed = normalised text)

/-- Of the replies to the command, the last one that comes before the first pause is 226 or 550, or has
a number that `stoi` does not take. -/
def SettledInTime (control : List SocketEvent)
    (connect : Text → Text → Except Error (List SocketEvent)) : Prop :=
  ∀ host port replies data line, ftpPassiveMode control = (.ok (host, port), replies) →
    connect host port = .ok data → LastLine (arrived replies) line →
      HasCode line closingData ∨ HasCode line failedToOpen ∨ ∃ code, HasCode line code ∧ 2 ^ 31 ≤ code

section

variable {buffer line rest : Text} {events events' : List SocketEvent}

theorem readLine_some (h : readLine buffer events = (some (line, rest), events')) :
    splitCrlf (buffer ++ arrived events) = some (line, rest ++ arrived events') := by
  induction events generalizing buffer with
  | nil =>
    obtain ⟨hs, rfl⟩ := Prod.mk.inj h
    simpa [arrived] using hs
  | cons event events ih =>
    cases event with
    | bytes chunk =>
      rw [readLine] at h
      split at h
      next r hs =>
        obtain ⟨hr, rfl⟩ := Prod.mk.inj h
        cases hr
        exact splitCrlf_append _ hs
      next =>
        rw [arrived, ← List.append_assoc]
        exact ih h
    | timer =>
      rw [readLine] at h
      split at h
      next r hs =>
        obtain ⟨hr, rfl⟩ := Prod.mk.inj h
        cases hr
        simpa [arrived] using hs
      next => cases h
    | eof =>
      obtain ⟨hs, rfl⟩ := Prod.mk.inj h
      simpa [arrived] using hs
    | failure =>
      obtain ⟨hs, rfl⟩ := Prod.mk.inj h
      simpa [arrived] using hs

theorem readLine_none (h : readLine buffer events = (none, events')) :
    CrlfFree (buffer ++ arrived events) := by
  rw [← splitCrlf_none]
  induction events generalizing buffer with
  | nil => simpa [arrived] using (Prod.mk.inj h).1
  | cons event events ih =>
    cases event with
    | bytes chunk =>
      rw [readLine] at h
      split at h
      next => cases h
      next =>
        rw [arrived, ← List.append_assoc]
        exact ih h
    | timer =>
      rw [readLine] at h
      split at h
      next => cases h
      next hs => simpa [arrived] using hs
    | eof => simpa [arrived] using (Prod.mk.inj h).1
    | failure => simpa [arrived] using (Prod.mk.inj h).1

/-- However the bytes come, all their lines are read. -/
theorem readLines_eq {fuel : Nat} (hfuel : (buffer ++ arrived events).length < fuel) :
    ∃ tail, buffer ++ arrived events = unlines (readLines fuel buffer events).1 ++ tail ∧
      (∀ line ∈ (readLines fuel buffer events).1, CrlfFree line) ∧ CrlfFree tail := by
  induction fuel generalizing buffer events with
  | zero => omega
  | succ fuel ih =>
    rcases hr : readLine buffer events with ⟨_ | ⟨line, rest⟩, events'⟩
    · refine ⟨buffer ++ arrived events, ?_⟩
      simp [readLines, hr, readLine_none hr]
    · have hsplit := readLine_some hr
      have heq := (splitCrlf_eq hsplit).1
      have hlt : (rest ++ arrived events').length < fuel := by
        rw [heq] at hfuel
        simp only [List.length_append, crlf, List.length_cons, List.length_nil] at hfuel ⊢
        omega
      obtain ⟨tail, htail, hfree, hfreeTail⟩ := ih hlt
      refine ⟨tail, ?_⟩
      simp only [readLines, hr]
      refine ⟨by rw [heq, htail, unlines_cons, List.append_assoc (line ++ crlf)], ?_, hfreeTail⟩
      exact List.forall_mem_cons.mpr ⟨splitCrlf_free hsplit, hfree⟩

theorem lastLine_iff {s tail : Text} {lines : List Text} (h : s = unlines lines ++ tail)
    (hfree : ∀ line ∈ lines, CrlfFree line) (ht : CrlfFree tail) :
    LastLine s line ↔ lines.getLast? = some line := by
  rw [List.getLast?_eq_some_iff]
  constructor
  · rintro ⟨before, tail', hs, hbefore, hline, htail'⟩
    obtain ⟨init, rfl, hinit⟩ := unlines_of_ended hbefore
    have heq : unlines lines ++ tail = unlines (init ++ [line]) ++ tail' := by
      rw [← h, hs, unlines_append, unlines_cons, unlines_nil]
      simp
    have hall : ∀ l ∈ init ++ [line], CrlfFree l :=
      List.forall_mem_append.mpr ⟨hinit, List.forall_mem_singleton.mpr hline⟩
    exact ⟨init, (unlines_unique hfree hall ht htail' heq).1⟩
  · rintro ⟨init, rfl⟩
    refine ⟨unlines init, tail, ?_, unlines_ended init, hfree line (by simp), ht⟩
    rw [h, unlines_append, unlines_cons, unlines_nil]
    simp

/-- The last of the lines that are read is the last line that has come whole. -/
theorem readMultipleLines_lastLine :
    LastLine (arrived events) line ↔
      (readLines ((arrived events).length + 1) [] events).1.getLast? = some line := by
  have hfuel : ([] ++ arrived events).length < (arrived events).length + 1 := Nat.lt_succ_self _
  obtain ⟨tail, heq, hfree, htail⟩ := readLines_eq hfuel
  exact lastLine_iff heq hfree htail

theorem readMultipleLines_ok {lines : List Text}
    (h : readMultipleLines events = (.ok lines, events')) :
    LastLine (arrived events) (lines.getLastD []) := by
  rw [readMultipleLines_lastLine]
  by_cases hnil : (readLines ((arrived events).length + 1) [] events).1 = []
  · simp [readMultipleLines, hnil] at h
  · simp only [readMultipleLines, if_neg hnil, Prod.mk.injEq, Except.ok.injEq] at h
    rw [← h.1, List.getLastD_eq_getLast?, List.getLast?_eq_some_getLast hnil, Option.getD_some]

theorem readMultipleLines_error {error : Error}
    (h : readMultipleLines events = (.error error, events')) : ¬ LastLine (arrived events) line := by
  rw [readMultipleLines_lastLine]
  by_cases hnil : (readLines ((arrived events).length + 1) [] events).1 = []
  · rw [hnil]
    exact nofun
  · simp [readMultipleLines, hnil] at h

theorem readMultipleLines_timedOut {error : Error}
    (h : readMultipleLines events = (.error error, events')) : error = .timedOut := by
  by_cases hnil : (readLines ((arrived events).length + 1) [] events).1 = []
  · simp only [readMultipleLines, if_pos hnil, Prod.mk.injEq, Except.error.injEq] at h
    exact h.1.symm
  · simp [readMultipleLines, hnil] at h

theorem lastLine_unique {other : Text} (h : LastLine (arrived events) line)
    (h' : LastLine (arrived events) other) : line = other := by
  rw [readMultipleLines_lastLine] at h h'
  exact Option.some.inj (h.symm.trans h')

theorem readRawData_ok {data : Text} (h : readRawData buffer events = .ok data) :
    ∃ text, sentUpToClose events = some text ∧ data = (buffer ++ text).filter fun c => c ≠ '\r' := by
  induction events generalizing buffer with
  | nil => cases h
  | cons event events ih =>
    cases event with
    | bytes chunk =>
      obtain ⟨text, htext, hdata⟩ := ih h
      exact ⟨chunk ++ text, by simp [sentUpToClose, htext], by rw [hdata, List.append_assoc]⟩
    | eof =>
      cases h
      exact ⟨[], rfl, by rw [List.append_nil]⟩
    | timer => cases h
    | failure => cases h

end

section

variable {line : Text} {code : Nat}

theorem getReply_some {arguments : List Text} (h : regexMatch getReply line = some arguments) :
    ∃ number text, line = number ++ ' ' :: text ∧ number ≠ [] ∧
      (∀ c ∈ number, c.isDigit = true) ∧ NoBreak text ∧ arguments = [line, number, text] := by
  obtain ⟨ws, hws, hline, harguments⟩ :=
    regexMatch_line_some [group 1 digits, lit " ", group 2 (star any)] (by decide) h
  obtain _ | ⟨hnumber, _ | ⟨hblank, _ | ⟨htext, ⟨⟩⟩⟩⟩ := hws
  obtain ⟨hne, hdigits⟩ := digits_words.mp hnumber
  rw [(mem_lit_char_words (d := ' ') rfl (by decide)).mp hblank] at hline harguments
  exact ⟨_, _, by simpa using hline, hne, hdigits, star_any_words.mp htext, harguments⟩

theorem getReply_isSome {number text : Text} (hne : number ≠ [])
    (hdigits : ∀ c ∈ number, c.isDigit = true) (htext : NoBreak text) :
    (regexMatch getReply (number ++ ' ' :: text)).isSome = true := by
  refine (regexMatch_line_iff [group 1 digits, lit " ", group 2 (star any)] (by decide)).mpr ?_
  simp only [all_cons, mem_seq_words]
  refine ⟨number, digits_words.mpr ⟨hne, hdigits⟩, _, ⟨[' '], ?_, _, ⟨text, star_any_words.mpr htext,
    [], (Language.mem_one _).mpr rfl, List.append_nil text⟩, rfl⟩, rfl⟩
  exact (mem_lit_char_words (d := ' ') rfl (by decide)).mpr rfl

theorem takeWhile_number {number text : Text} (hdigits : ∀ c ∈ number, c.isDigit = true) :
    (number ++ ' ' :: text).takeWhile Char.isDigit = number := by
  rw [List.takeWhile_append_of_pos hdigits, List.takeWhile_cons_of_neg (by decide), List.append_nil]

/-- The code of a reply is parsed if it fits into an `int`. -/
theorem parseReply_code (h : HasCode line code) :
    (parseReply line).map Prod.fst = if code < 2 ^ 31 then some code else none := by
  obtain ⟨number, text, rfl, hne, hdigits, htext, rfl⟩ := h
  obtain ⟨arguments, hmatch⟩ := Option.isSome_iff_exists.mp (getReply_isSome hne hdigits htext)
  obtain ⟨number', text', heq, _, hdigits', _, rfl⟩ := getReply_some hmatch
  have hnumber : number' = number := by
    rw [← takeWhile_number hdigits', ← heq, takeWhile_number hdigits]
  subst hnumber
  simp [parseReply, hmatch, str, stoi]

theorem parseReply_unknown (h : ∀ code, ¬ HasCode line code) :
    parseReply line = some (unknown, []) := by
  cases hmatch : regexMatch getReply line with
  | none => rw [parseReply, hmatch]
  | some arguments =>
    obtain ⟨number, text, hline, hne, hdigits, htext, _⟩ := getReply_some hmatch
    exact absurd ⟨number, text, hline, hne, hdigits, htext, rfl⟩ (h _)

end

theorem normalised_ne_nil (text : Text) : normalised text ≠ [] := by
  intro h
  rw [normalised] at h
  split at h
  next hlast => exact absurd (h ▸ hlast) nofun
  next => exact List.append_ne_nil_of_right_ne_nil _ (List.cons_ne_nil _ _) h

section

variable {command host port : Text} {control replies data rest : List SocketEvent}
  {connect : Text → Text → Except Error (List SocketEvent)} {lines : List Text}

theorem execute_opened (hpasv : ftpPassiveMode control = (.ok (host, port), replies))
    (hconnect : connect host port = .ok data) :
    execute command control connect = transfer command replies data := by
  simp only [execute, hpasv, hconnect]

theorem transfer_thrown (hlines : readMultipleLines replies = (.ok lines, rest))
    (h : (parseReply (lines.getLastD [])).map Prod.fst = none) :
    (transfer command replies data).error = some .thrown := by
  simp only [transfer, hlines, Option.map_eq_none_iff.mp h]

theorem transfer_failedToOpen (hlines : readMultipleLines replies = (.ok lines, rest))
    (h : (parseReply (lines.getLastD [])).map Prod.fst = some failedToOpen) :
    (transfer command replies data).printed = fileNotFound ++ ['\n'] := by
  obtain ⟨⟨code, arguments⟩, hparse, rfl⟩ := Option.map_eq_some_iff.mp h
  simp only [transfer, hlines, hparse, if_true]

theorem transfer_closingData (hlines : readMultipleLines replies = (.ok lines, rest))
    (h : (parseReply (lines.getLastD [])).map Prod.fst = some closingData)
    (herror : (transfer command replies data).error = none) :
    ∃ text, sentUpToClose data = some text ∧
      (transfer command replies data).printed = normalised text := by
  obtain ⟨⟨code, arguments⟩, hparse, rfl⟩ := Option.map_eq_some_iff.mp h
  have hcode : closingData ≠ failedToOpen := by decide
  simp only [transfer, hlines, hparse, if_neg hcode, if_true] at herror ⊢
  rcases hdata : readRawData [] data with error | raw
  · simp [hdata] at herror
  · obtain ⟨text, htext, rfl⟩ := readRawData_ok hdata
    refine ⟨text, htext, ?_⟩
    simp only [normalised, List.nil_append]
    split
    · rw [List.append_nil]
    · rfl

/-- Any other reply makes the transfer succeed with nothing printed. -/
theorem transfer_other {code : Nat} (hlines : readMultipleLines replies = (.ok lines, rest))
    (h : (parseReply (lines.getLastD [])).map Prod.fst = some code) (hfailed : code ≠ failedToOpen)
    (hclosing : code ≠ closingData) :
    (transfer command replies data).error = none ∧ (transfer command replies data).printed = [] := by
  obtain ⟨⟨code, arguments⟩, hparse, rfl⟩ := Option.map_eq_some_iff.mp h
  simp only [transfer, hlines, hparse, if_neg hfailed, if_neg hclosing, and_self]

/-- Every line is parsed to a code that is not acted on unless it settles the transfer. -/
theorem parseReply_other {line : Text} (hclosing : ¬ HasCode line closingData)
    (hfailed : ¬ HasCode line failedToOpen) (hsmall : ∀ code, HasCode line code → code < 2 ^ 31) :
    ∃ code, (parseReply line).map Prod.fst = some code ∧ code ≠ failedToOpen ∧ code ≠ closingData := by
  by_cases h : ∃ code, HasCode line code
  · obtain ⟨code, hcode⟩ := h
    refine ⟨code, by rw [parseReply_code hcode, if_pos (hsmall code hcode)], ?_, ?_⟩
    · rintro rfl
      exact hfailed hcode
    · rintro rfl
      exact hclosing hcode
  · exact ⟨unknown, by rw [parseReply_unknown (not_exists.mp h)]; rfl, by decide, by decide⟩

/-- The commands that return without an error are complete or reported exactly where the reply that
comes in time settles the transfer. -/
theorem complete_or_reported_iff :
    CompleteOrReported command control connect ↔ SettledInTime control connect := by
  constructor
  · intro h host port replies data line hpasv hconnect hline
    rcases hlines : readMultipleLines replies with ⟨error | lines, rest⟩
    · exact absurd hline (readMultipleLines_error hlines)
    obtain rfl := lastLine_unique hline (readMultipleLines_ok hlines)
    by_contra hunsettled
    simp only [not_or, not_exists, not_and, Nat.not_le] at hunsettled
    obtain ⟨hclosing, hfailed, hsmall⟩ := hunsettled
    obtain ⟨code, hcode, hne, hne'⟩ := parseReply_other hclosing hfailed hsmall
    have hsilent : (execute command control connect).error = none ∧
        (execute command control connect).printed = [] := by
      rw [execute_opened hpasv hconnect]
      exact transfer_other hlines hcode hne hne'
    obtain ⟨_, _, _, _, _, _, ⟨_, _, _, hprinted⟩ | ⟨text, _, hprinted⟩⟩ := h hsilent.1
    · rw [hsilent.2] at hprinted
      exact absurd hprinted (by decide)
    · exact normalised_ne_nil text (hprinted ▸ hsilent.2)
  · intro h herror
    rcases hpasv : ftpPassiveMode control with ⟨error | ⟨host, port⟩, replies⟩
    · simp [execute, hpasv] at herror
    rcases hconnect : connect host port with error | data
    · simp [execute, hpasv, hconnect] at herror
    rw [execute_opened hpasv hconnect] at herror ⊢
    refine ⟨host, port, replies, data, rfl, hconnect, ?_⟩
    rcases hlines : readMultipleLines replies with ⟨error | lines, rest⟩
    · simp [transfer, hlines] at herror
    have hlast := readMultipleLines_ok hlines
    obtain hcode | hcode | ⟨code, hcode, hlarge⟩ := h host port replies data _ hpasv hconnect hlast
    · exact .inr (transfer_closingData hlines (parseReply_code hcode) herror)
    · exact .inl ⟨_, hlast, hcode, transfer_failedToOpen hlines (parseReply_code hcode)⟩
    · have hthrown := parseReply_code hcode
      rw [if_neg (Nat.not_lt.mpr hlarge)] at hthrown
      rw [transfer_thrown hlines hthrown] at herror
      cases herror

end

/-- The replies to PASV and to LIST, with a silence before each that is not the first. -/
def pausedReplies : List SocketEvent :=
  [.bytes "227 Entering Passive Mode (10,0,0,1,4,210).\r\n".toList, .timer,
    .bytes "150 Here comes the directory listing.\r\n".toList, .timer,
    .bytes "226 Directory send OK.\r\n".toList]

/-- A listing that is not read, as the first of its replies has come alone. -/
theorem preliminary_reply_returns :
    ¬ CompleteOrReported listCommand pausedReplies
      fun _ _ => .ok [.bytes "HEADER.html\r\n".toList, .eof] := by
  intro h
  have hexecute : execute listCommand pausedReplies
      (fun _ _ => .ok [.bytes "HEADER.html\r\n".toList, .eof]) =
      { error := none, sent := [pasvCommand, listCommand],
        control := [.bytes "226 Directory send OK.\r\n".toList] } := by decide +kernel
  unfold CompleteOrReported at h
  rw [hexecute] at h
  obtain ⟨_, _, _, _, _, _, ⟨_, _, _, hprinted⟩ | ⟨text, _, hprinted⟩⟩ := h rfl
  · exact absurd hprinted (by decide)
  · exact normalised_ne_nil text hprinted.symm

end FtpClient

end Protocols
