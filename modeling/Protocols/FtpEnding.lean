import Protocols.FtpReplies
import Protocols.StepRelation

namespace Protocols

open Regex

namespace FtpClient

/-- The command that a line of the input makes the client execute. -/
def asked (line : Text) : Option Text :=
  let words := fields spaceChar line
  match commandOf words with
  | .ls => some listCommand
  | .cat => some (retrCommand (words.getD 1 []))
  | .help | .quit | .unknown => none

open Classical in
/-- A line that the client goes on after, by the replies to its command, with those still to come and
the number of commands that have been executed. -/
noncomputable def carryOut (connect : Connections) (s : List SocketEvent × Nat) (line : Text) :
    Option (List SocketEvent × Nat) :=
  match asked line with
  | some _ =>
    if ∃ output, Served (connect s.2) s.1 output then some (afterPause^[2] s.1, s.2 + 1) else none
  | none => if commandOf (fields spaceChar line) = .quit then none else some s

/-- A line that quits, or whose command is not carried out, with no number too large among those of
its replies. -/
def ReturnsAt (connect : Connections) (s : List SocketEvent × Nat) (line : Text) : Prop :=
  commandOf (fields spaceChar line) = .quit ∨ (∃ command, asked line = some command) ∧
    CommandFits (connect s.2) s.1 ∧ ∀ output, ¬ Served (connect s.2) s.1 output

/-- The login does not succeed, or there is a line to return at after lines that are carried out. -/
def IsStopped (control : List SocketEvent) (input : List Text) (connect : Connections) : Prop :=
  (LoginFits control ∧ ∀ later, ¬ LoginSucceeds control later) ∨ ∃ later,
    LoginSucceeds control later ∧ MeetsEvent (carryOut connect) (ReturnsAt connect) (later, 0) input

/-- The client returns after finitely many iterations. -/
def Ends (user password : Text) (control : List SocketEvent) (input : List Text)
    (connect : Connections) : Prop :=
  ∃ iterations error p, client user password control input connect iterations = some (error, p) ∧
    error ≠ some .thrown

/-- The client leaves its loop at the line, with some kind of outcome. -/
def LeavesAt (E : Option Error → Prop) (connect : Connections) (s : List SocketEvent × Nat)
    (line : Text) : Prop :=
  (commandOf (fields spaceChar line) = .quit ∧ E none) ∨ ∃ command error,
    asked line = some command ∧ (execute command s.1 (connect s.2)).error = some error ∧ E (some error)

section

variable {E : Option Error → Prop} {connect : Connections} {p q : Prompt} {line : Text}
  {rest : List Text}

/-- The loop is left from here, with some kind of outcome. -/
def Leaves (E : Option Error → Prop) (connect : Connections) (p : Prompt) : Prop :=
  ∃ iterations error q, loop connect iterations p = some (error, q) ∧ E error

theorem leaves_prompts (h : iteration connect p = .prompts q) :
    Leaves E connect p ↔ Leaves E connect q := by
  constructor
  · rintro ⟨_ | iterations, error, r, hloop, herror⟩
    · cases hloop
    · rw [loop, h] at hloop
      exact ⟨iterations, error, r, hloop, herror⟩
  · rintro ⟨iterations, error, r, hloop, herror⟩
    exact ⟨iterations + 1, error, r, by rw [loop, h]; exact hloop, herror⟩

theorem leaves_now {error : Option Error} (h : iteration connect p = .returns error q) :
    Leaves E connect p ↔ E error := by
  constructor
  · rintro ⟨_ | iterations, error, r, hloop, herror⟩
    · cases hloop
    · rw [loop, h] at hloop
      cases hloop
      exact herror
  · intro herror
    exact ⟨1, error, q, by rw [loop, h], herror⟩

/-- What an iteration does with its line. -/
theorem iteration_eq (h : getline p.input = (line, rest)) : ∃ q : Prompt, q.input = rest ∧
    q.control = p.control ∧ q.executed = p.executed ∧
      iteration connect p = match asked line with
        | some command => q.execute connect command
        | none =>
          if commandOf (fields spaceChar line) = .quit then .returns none q
          else .prompts { q with printed := q.printed ++ commands } := by
  refine ⟨{ p with input := rest, printed := p.printed ++ ftpPrompt }, rfl, rfl, rfl, ?_⟩
  have hcommand := parseInput_command line
  have hfile : commandOf (fields spaceChar line) = .cat → _ := parseInput_file
  rw [iteration, h]
  dsimp only
  rcases hparse : parseInput line with ⟨command, arguments⟩
  rw [hparse] at hcommand hfile
  cases command with
  | cat => simp only [asked, ← hcommand, hfile hcommand.symm]
  | ls | help | quit | unknown => simp [asked, ← hcommand]

/-- At the end of the input the client asks for help over and over. -/
theorem loop_end (h : p.input = []) (iterations : Nat) : loop connect iterations p = none := by
  induction iterations generalizing p with
  | zero => rfl
  | succ iterations ih =>
    have hline : getline p.input = ([], []) := by rw [h]; rfl
    obtain ⟨q, hinput, _, _, hiteration⟩ := @iteration_eq connect p _ _ hline
    rw [loop, hiteration]
    exact ih hinput

/-- The replies to a command are told as it is executed. -/
theorem carryOut_asked {s : List SocketEvent × Nat} {command : Text}
    (h : asked line = some command) : carryOut connect s line =
      if (execute command s.1 (connect s.2)).error = none then
        some ((execute command s.1 (connect s.2)).control, s.2 + 1)
      else none := by
  simp only [carryOut, h]
  by_cases hcarried : (execute command s.1 (connect s.2)).error = none
  · rw [if_pos (execute_carried.mp hcarried), if_pos hcarried, execute_after hcarried]
  · rw [if_neg fun hserved => hcarried (execute_carried.mpr hserved), if_neg hcarried]

theorem asked_quit (h : commandOf (fields spaceChar line) = .quit) : asked line = none := by
  simp only [asked, h]

theorem Prompt.execute_error {error : Error} {command : Text}
    (h : (FtpClient.execute command p.control (connect p.executed)).error = some error) :
    ∃ q, p.execute connect command = .returns (some error) q := by
  simp only [Prompt.execute, h]
  exact ⟨_, rfl⟩

theorem Prompt.execute_carried {command : Text}
    (h : (FtpClient.execute command p.control (connect p.executed)).error = none) :
    ∃ q, p.execute connect command = .prompts q ∧ q.input = p.input ∧
      q.control = (FtpClient.execute command p.control (connect p.executed)).control ∧
      q.executed = p.executed + 1 := by
  simp only [Prompt.execute, h]
  exact ⟨_, rfl, rfl, rfl, rfl⟩

theorem leavesAt_asked {s : List SocketEvent × Nat} {command : Text}
    (h : asked line = some command) : LeavesAt E connect s line ↔
      ∃ error, (execute command s.1 (connect s.2)).error = some error ∧ E (some error) := by
  constructor
  · rintro (⟨hquit, _⟩ | ⟨command', error, hasked, herror⟩)
    · rw [asked_quit hquit] at h
      cases h
    · rw [h] at hasked
      cases hasked
      exact ⟨error, herror⟩
  · rintro ⟨error, herror⟩
    exact .inr ⟨command, error, h, herror⟩

theorem leavesAt_unasked {s : List SocketEvent × Nat} (h : asked line = none) :
    LeavesAt E connect s line ↔ commandOf (fields spaceChar line) = .quit ∧ E none := by
  refine or_iff_left ?_
  rintro ⟨command, _, hasked, _⟩
  rw [h] at hasked
  cases hasked

/-- The loop is left exactly if there is a line to leave at. -/
theorem leaves_iff : Leaves E connect p ↔
    MeetsEvent (carryOut connect) (LeavesAt E connect) (p.control, p.executed) p.input := by
  generalize hinput : p.input = input
  induction input generalizing p with
  | nil =>
    refine iff_of_false ?_ meetsEvent_nil
    rintro ⟨iterations, error, q, hloop, _⟩
    rw [loop_end hinput] at hloop
    cases hloop
  | cons line rest ih =>
    have hline : getline p.input = (line, rest) := by rw [hinput]; rfl
    obtain ⟨q, hrest, hcontrol, hexecuted, hiteration⟩ := @iteration_eq connect p _ _ hline
    rw [meetsEvent_cons, ← hcontrol, ← hexecuted]
    cases hasked : asked line with
    | some command =>
      rw [hasked] at hiteration
      rw [leavesAt_asked hasked, carryOut_asked hasked]
      cases herror : (execute command q.control (connect q.executed)).error with
      | some error =>
        obtain ⟨r, hr⟩ := Prompt.execute_error herror
        rw [leaves_now (hiteration.trans hr)]
        simp
      | none =>
        obtain ⟨r, hr, hinput', hcontrol', hexecuted'⟩ := Prompt.execute_carried herror
        rw [leaves_prompts (hiteration.trans hr), ih (hinput'.trans hrest), hcontrol', hexecuted']
        simp
    | none =>
      rw [hasked] at hiteration
      rw [leavesAt_unasked hasked]
      simp only [carryOut, hasked]
      by_cases hquit : commandOf (fields spaceChar line) = .quit
      · rw [leaves_now (hiteration.trans (if_pos hquit))]
        simp [hquit]
      · have hgoesOn := hiteration.trans (if_neg hquit)
        have hlater := ih (p := { q with printed := q.printed ++ commands }) hrest
        rw [leaves_prompts hgoesOn, hlater]
        simp [hquit]

end

section

variable {E : Option Error → Prop} {user password : Text} {control : List SocketEvent}
  {input : List Text} {connect : Connections}

/-- A client that is logged in ends as it leaves its loop. -/
theorem client_logged_in {later : List SocketEvent} (h : LoginSucceeds control later) :
    (∃ iterations error p,
      client user password control input connect iterations = some (error, p) ∧ E error) ↔
      MeetsEvent (carryOut connect) (LeavesAt E connect) (later, 0) input := by
  obtain ⟨hresult, hcontrol⟩ := @login_succeeds user password _ _ h
  simp only [client, hresult]
  rw [hcontrol]
  exact leaves_iff

/-- A client that is not logged in ends at once. -/
theorem client_turned_away (h : ∀ later, ¬ LoginSucceeds control later) : ∃ error p,
    (∀ iterations, client user password control input connect iterations = some (error, p)) ∧
      (error = some .thrown ↔ ¬ LoginFits control) := by
  have hthrown := @login_thrown_iff user password control
  have hok := @login_ok_iff user password control
  simp only [client]
  cases hresult : (ftpLogin user password control).result with
  | error error =>
    rw [hresult] at hthrown
    refine ⟨some error, _, fun _ => rfl, Iff.trans ?_ hthrown⟩
    rw [Option.some.injEq, Except.error.injEq]
  | ok status =>
    rw [hresult] at hthrown hok
    cases status with
    | loginFail =>
      refine ⟨none, _, fun _ => rfl, Iff.trans ?_ hthrown⟩
      simp only [reduceCtorEq]
    | loginOk =>
      obtain ⟨later, hlater⟩ := hok.mp rfl
      exact absurd hlater (h later)

theorem returnsAt_iff {s : List SocketEvent × Nat} {line : Text} : ReturnsAt connect s line ↔
    LeavesAt (fun error => error ≠ some .thrown) connect s line := by
  simp only [ReturnsAt, LeavesAt, reduceCtorEq, ne_eq, not_false_eq_true, and_true]
  refine or_congr_right ⟨?_, ?_⟩
  · rintro ⟨⟨command, hasked⟩, hfits, hno⟩
    obtain herror | ⟨error, herror⟩ := Option.eq_none_or_eq_some
      (execute command s.1 (connect s.2)).error
    · obtain ⟨output, hserved⟩ := execute_carried.mp herror
      exact absurd hserved (hno output)
    · refine ⟨command, error, hasked, herror, ?_⟩
      rw [← herror, execute_thrown_iff, not_not]
      exact hfits
  · rintro ⟨command, error, hasked, herror, hne⟩
    rw [← herror, execute_thrown_iff, not_not] at hne
    refine ⟨⟨command, hasked⟩, hne, fun output hserved => ?_⟩
    rw [execute_carried.mpr ⟨output, hserved⟩] at herror
    cases herror

/-- The client ends exactly if it is stopped before its input ends. -/
theorem ends_iff :
    Ends user password control input connect ↔ IsStopped control input connect := by
  have hat : LeavesAt (fun error => error ≠ some .thrown) connect = ReturnsAt connect := by
    funext s line
    exact propext returnsAt_iff.symm
  by_cases hsucceeds : ∃ later, LoginSucceeds control later
  · obtain ⟨later, hlater⟩ := hsucceeds
    rw [Ends, client_logged_in hlater, hat]
    constructor
    · exact fun h => .inr ⟨later, hlater, h⟩
    · rintro (⟨_, hno⟩ | ⟨later', hlater', h⟩)
      · exact absurd hlater (hno later)
      · rwa [hlater.unique hlater']
  · rw [not_exists] at hsucceeds
    obtain ⟨error, p, hclient, hthrown⟩ :=
      @client_turned_away user password control input connect hsucceeds
    constructor
    · rintro ⟨iterations, error', _, hends, hne⟩
      cases (hclient iterations).symm.trans hends
      exact .inl ⟨not_not.mp (mt hthrown.mpr hne), hsucceeds⟩
    · rintro (⟨hfits, _⟩ | ⟨later, hlater, _⟩)
      · exact ⟨0, error, p, hclient 0, fun he => hthrown.mp he hfits⟩
      · exact absurd hlater (hsucceeds later)

end

/-- The replies to a login that succeeds. -/
def loginReplies : List SocketEvent :=
  [.bytes "220 ready\r\n".toList, .timer, .bytes "200 ok\r\n".toList, .timer,
    .bytes "331 password\r\n".toList, .timer, .bytes "230 logged in\r\n".toList, .timer]

/-- A session with no input at all. -/
theorem no_input_no_end :
    ¬ Ends "anonymous".toList "anonymous".toList loginReplies [] fun _ _ _ => .error .connection := by
  rintro ⟨iterations, error, p, hclient, _⟩
  have hlogin : (ftpLogin "anonymous".toList "anonymous".toList loginReplies).result =
      .ok .loginOk := by decide +kernel
  simp only [client, hlogin] at hclient
  rw [loop_end rfl] at hclient
  cases hclient

end FtpClient

end Protocols
