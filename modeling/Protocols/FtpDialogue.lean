import Protocols.FtpEnding

namespace Protocols

open Regex Relation

namespace FtpClient

/-- The pieces of a reply, and the silence after them. -/
def paced (pieces : List Text) (control : List SocketEvent) : List SocketEvent :=
  pieces.map .bytes ++ .timer :: control

/-- The replies come in time, each as some lines in whatever pieces before the timer ends, and none
before the silence after the one before it. -/
inductive InTime (rest : List SocketEvent) : List (List Text) → List SocketEvent → Prop
  | done : InTime rest [] rest
  | reply {lines pieces : List Text} {replies : List (List Text)} {control : List SocketEvent} :
    (∀ line ∈ lines, CrlfFree line) → pieces.flatten = unlines lines → InTime rest replies control →
      InTime rest (lines :: replies) (paced pieces control)

/-- A command is carried out with the output, by the replies to PASV and to itself. -/
def Answered (connect : Text → Text → Except Error (List SocketEvent)) (pasv reply : List Text)
    (output : Text) : Prop :=
  ∃ a data, Tells (pasv.getLastD []) a ∧ a.dataPort < 2 ^ 31 ∧
    connect a.host (decimal a.dataPort) = .ok data ∧ reply ≠ [] ∧
    Prints (reply.getLastD []) data output

/-- A login that succeeds: its replies, what is sent, and the replies after them. The reply to OPTS
may be anything. -/
inductive LogsIn (user password : Text) : List (List Text) → List Text → List (List Text) → Prop
  | named {greeting opts name : List Text} {later : List (List Text)} :
    HasCode (greeting.getLastD []) serviceReady → HasCode (name.getLastD []) loginOk →
      LogsIn user password (greeting :: opts :: name :: later) [optsCommand, userCommand user] later
  | passed {greeting opts name word : List Text} {later : List (List Text)} :
    HasCode (greeting.getLastD []) serviceReady → HasCode (name.getLastD []) enterPassword →
      HasCode (word.getLastD []) loginOk →
      LogsIn user password (greeting :: opts :: name :: word :: later)
        [optsCommand, userCommand user, passCommand password] later

/-- A session up to one of its prompts, with a reply to everything that is sent: the lines that have
been put in, how many commands have been executed, what has been sent and printed, and the later
replies. -/
inductive Transcript (connect : Connections) (user password : Text) (replies : List (List Text)) :
    List Text → Nat → List Text → Text → List (List Text) → Prop
  | login {sent : List Text} {later : List (List Text)} : LogsIn user password replies sent later →
    Transcript connect user password replies [] 0 sent [] later
  | helped {lines sent : List Text} {executed : Nat} {printed line : Text}
      {later : List (List Text)} :
    Transcript connect user password replies lines executed sent printed later →
      asked line = none → commandOf (fields spaceChar line) ≠ .quit →
      Transcript connect user password replies (lines ++ [line]) executed sent
        (printed ++ ftpPrompt ++ commands) later
  | carriedOut {lines sent pasv reply : List Text} {executed : Nat}
      {printed line command output : Text} {later : List (List Text)} :
    Transcript connect user password replies lines executed sent printed (pasv :: reply :: later) →
      asked line = some command → Answered (connect executed) pasv reply output →
      Transcript connect user password replies (lines ++ [line]) (executed + 1)
        (sent ++ [pasvCommand, command]) (printed ++ ftpPrompt ++ output) later

/-- The lines are those that `getline` takes from the input, with the rest of it left. Past its end
they are empty. -/
def Taken (input lines rest : List Text) : Prop :=
  ∃ blanks, lines ++ rest = input ++ List.replicate blanks [] ∧ (blanks = 0 ∨ rest = [])

/-- The client comes to the prompt. -/
def Prompts (user password : Text) (control : List SocketEvent) (input : List Text)
    (connect : Connections) (p : Prompt) : Prop :=
  (ftpLogin user password control).result = .ok .loginOk ∧
    ReflTransGen (fun p q => iteration connect p = .prompts q)
      { input := input, control := (ftpLogin user password control).control,
        sent := (ftpLogin user password control).sent } p

section

variable {rest control : List SocketEvent} {line : Text} {lines : List Text}
  {replies : List (List Text)}

theorem paced_cons (piece : Text) (pieces : List Text) (control : List SocketEvent) :
    paced (piece :: pieces) control = .bytes piece :: paced pieces control := rfl

theorem arrived_pieces (pieces : List Text) (control : List SocketEvent) :
    arrived (paced pieces control) = pieces.flatten := by
  induction pieces with
  | nil => rfl
  | cons piece pieces ih => rw [paced_cons, arrived, ih, List.flatten_cons]

theorem afterPause_paced (pieces : List Text) (control : List SocketEvent) :
    afterPause (paced pieces control) = control := by
  induction pieces with
  | nil => rfl
  | cons piece pieces ih => rw [paced_cons, afterPause, ih]

/-- After the pause that ends a reply, the next one is in time. -/
theorem InTime.next (h : InTime rest (lines :: replies) control) :
    InTime rest replies (afterPause control) := by
  obtain _ | ⟨_, _, hlater⟩ := h
  rw [afterPause_paced]
  exact hlater

/-- A reply in time ends as it has been sent. -/
theorem InTime.lastLine (h : InTime rest (lines :: replies) control) :
    LastLine (arrived control) line ↔ lines.getLast? = some line := by
  obtain _ | ⟨hlines, hpieces, _⟩ := h
  rw [arrived_pieces, hpieces]
  have hnone : CrlfFree ([] : Text) := crlfFree_of_not_mem List.not_mem_nil
  exact lastLine_iff (List.append_nil _).symm hlines hnone

theorem hasCode_ne_nil {code : Nat} (h : HasCode (lines.getLastD []) code) : lines ≠ [] := by
  rintro rfl
  obtain ⟨number, text, heq, _⟩ := h
  cases number <;> cases heq

theorem InTime.coded {code : Nat} (h : InTime rest (lines :: replies) control) :
    Coded control code ↔ HasCode (lines.getLastD []) code := by
  simp only [Coded, h.lastLine]
  constructor
  · rintro ⟨line, hline, hcode⟩
    rwa [List.getLastD_eq_getLast?, hline]
  · intro hcode
    have hlast := List.getLast?_eq_some_getLast (hasCode_ne_nil hcode)
    rw [List.getLastD_eq_getLast?, hlast] at hcode
    exact ⟨_, hlast, hcode⟩

/-- A login by replies in time succeeds exactly as they say. -/
theorem login_inTime {user password : Text} {later : List (List Text)} {sent : List Text}
    (hin : InTime rest replies control) (h : LogsIn user password replies sent later) :
    ∃ control', ftpLogin user password control = ⟨.ok .loginOk, sent, control'⟩ ∧
      InTime rest later control' := by
  obtain ⟨hgreeting, hname⟩ | ⟨hgreeting, hname, hword⟩ := h
  · refine ⟨_, login_named (hin.coded.mpr hgreeting) ?_, hin.next.next.next⟩
    exact hin.next.next.coded.mpr hname
  · refine ⟨_, login_passed (hin.coded.mpr hgreeting) ?_ ?_, hin.next.next.next.next⟩
    · exact hin.next.next.coded.mpr hname
    · exact hin.next.next.next.coded.mpr hword

/-- A login that has succeeded with a reply to everything it has sent did so by these replies. -/
theorem login_logsIn {user password : Text} (hin : InTime rest replies control)
    (hok : (ftpLogin user password control).result = .ok .loginOk)
    (hlt : (ftpLogin user password control).sent.length < replies.length) :
    ∃ later, LogsIn user password replies (ftpLogin user password control).sent later ∧
      InTime rest later (ftpLogin user password control).control := by
  obtain ⟨_, ⟨hgreet, huser⟩ | ⟨hgreet, huser, hpass⟩⟩ := login_ok_iff.mp hok
  · rw [login_named hgreet huser] at hlt ⊢
    rcases replies with _ | ⟨greeting, _ | ⟨opts, _ | ⟨name, later⟩⟩⟩
    · exact absurd hlt (by simp)
    · exact absurd hlt (by simp)
    · exact absurd hlt (by simp)
    · refine ⟨later, .named (hin.coded.mp hgreet) ?_, hin.next.next.next⟩
      exact hin.next.next.coded.mp huser
  · rw [login_passed hgreet huser hpass] at hlt ⊢
    rcases replies with _ | ⟨greeting, _ | ⟨opts, _ | ⟨name, _ | ⟨word, later⟩⟩⟩⟩
    · exact absurd hlt (by simp)
    · exact absurd hlt (by simp)
    · exact absurd hlt (by simp)
    · exact absurd hlt (by simp)
    · refine ⟨later, .passed (hin.coded.mp hgreet) ?_ ?_, hin.next.next.next.next⟩
      · exact hin.next.next.coded.mp huser
      · exact hin.next.next.next.coded.mp hpass

/-- The address is told by the last line of the reply. -/
theorem InTime.tells {a : PasvAddress} (h : InTime rest (lines :: replies) control) :
    PasvTells control a ↔ Tells (lines.getLastD []) a := by
  simp only [PasvTells, h.lastLine]
  constructor
  · rintro ⟨line, hline, htells⟩
    rwa [List.getLastD_eq_getLast?, hline]
  · intro htells
    have hne : lines ≠ [] := by
      rintro rfl
      obtain ⟨_, ⟨_, _, _, hline⟩, _⟩ := htells
      cases hline
    have hlast := List.getLast?_eq_some_getLast hne
    rw [List.getLastD_eq_getLast?, hlast] at htells
    exact ⟨_, hlast, htells⟩

/-- A command is carried out exactly if its two replies say so. -/
theorem served_inTime {pasv reply : List Text} {later : List (List Text)} {output : Text}
    {connect : Text → Text → Except Error (List SocketEvent)}
    (h : InTime rest (pasv :: reply :: later) control) :
    Served connect control output ↔ Answered connect pasv reply output := by
  simp only [Served, Answered, h.tells, h.next.lastLine]
  constructor
  · rintro ⟨a, data, last, htells, hport, hconnect, hlast, hprints⟩
    refine ⟨a, data, htells, hport, hconnect, ?_, ?_⟩
    · rintro rfl
      cases hlast
    · rwa [List.getLastD_eq_getLast?, hlast]
  · rintro ⟨a, data, htells, hport, hconnect, hne, hprints⟩
    have hlast := List.getLast?_eq_some_getLast hne
    rw [List.getLastD_eq_getLast?, hlast] at hprints
    exact ⟨a, data, _, htells, hport, hconnect, hlast, hprints⟩

end

section

variable {connect : Connections} {user password : Text} {replies : List (List Text)}
  {rest control : List SocketEvent} {input : List Text}

/-- What an iteration does with its line, and what it leaves of the prompt. -/
theorem iteration_line {p : Prompt} {line : Text} {lines : List Text}
    (h : getline p.input = (line, lines)) : iteration connect p =
      match asked line with
      | some command =>
        Prompt.execute { p with input := lines, printed := p.printed ++ ftpPrompt } connect command
      | none =>
        if commandOf (fields spaceChar line) = .quit then
          .returns none { p with input := lines, printed := p.printed ++ ftpPrompt }
        else .prompts { p with input := lines, printed := p.printed ++ ftpPrompt ++ commands } := by
  have hcommand := parseInput_command line
  have hfile : commandOf (fields spaceChar line) = .cat → _ := parseInput_file
  rw [iteration, h]
  dsimp only
  rcases hparse : parseInput line with ⟨command, arguments⟩
  rw [hparse] at hcommand hfile
  cases command with
  | cat => simp only [asked, ← hcommand, hfile hcommand.symm]
  | ls | help | quit | unknown => simp [asked, ← hcommand]

/-- A command that is carried out is sent after a PASV. -/
theorem execute_sent {command : Text} {connect : Text → Text → Except Error (List SocketEvent)}
    (h : (execute command control connect).error = none) :
    (execute command control connect).sent = [pasvCommand, command] := by
  simp only [execute] at h ⊢
  rcases hpasv : ftpPassiveMode control with ⟨error | ⟨host, portText⟩, control'⟩
  · simp only [hpasv] at h
    cases h
  rcases hconnect : connect host portText with error | data
  · simp only [hpasv, hconnect] at h
    cases h
  simp only [hconnect, transfer]
  rcases readMultipleLines control' with ⟨error | lines, control''⟩
  · rfl
  dsimp only
  rcases parseReply (lines.getLastD []) with _ | ⟨code, arguments⟩
  · rfl
  dsimp only
  split_ifs
  · rfl
  · rcases readRawData [] data with error | raw <;> rfl
  · rfl

theorem iteration_sent {p q : Prompt} (h : iteration connect p = .prompts q) :
    p.sent.length ≤ q.sent.length := by
  rcases hline : getline p.input with ⟨line, left⟩
  rw [iteration_line hline] at h
  cases hasked : asked line with
  | none =>
    rw [hasked] at h
    split_ifs at h with hquit
    cases h
    exact Nat.le_refl _
  | some command =>
    rw [hasked] at h
    simp only [Prompt.execute] at h
    split at h
    next => cases h
    next =>
      cases h
      rw [List.length_append]
      exact Nat.le_add_right _ _

/-- Every command has one reply. -/
theorem Transcript.length {lines sent : List Text} {executed : Nat} {printed : Text}
    {later : List (List Text)}
    (h : Transcript connect user password replies lines executed sent printed later) :
    sent.length + 1 + later.length = replies.length := by
  induction h with
  | login h => cases h <;> simp only [List.length_cons, List.length_nil] <;> omega
  | helped _ _ _ ih => exact ih
  | carriedOut _ _ _ ih =>
    simp only [List.length_append, List.length_cons, List.length_nil] at ih ⊢
    omega

theorem Taken.next {lines left rest' : List Text} {line : Text} (h : Taken input lines left)
    (hline : getline left = (line, rest')) : Taken input (lines ++ [line]) rest' := by
  obtain ⟨blanks, heq, hblanks⟩ := h
  cases left with
  | nil =>
    cases hline
    refine ⟨blanks + 1, ?_, .inr rfl⟩
    rw [List.append_nil] at heq ⊢
    rw [heq, List.append_assoc, List.replicate_succ']
  | cons line' left =>
    cases hline
    refine ⟨blanks, by rw [List.append_assoc]; exact heq, .inl ?_⟩
    exact hblanks.resolve_right (List.cons_ne_nil _ _)

theorem Taken.last {lines rest' : List Text} {line : Text}
    (h : Taken input (lines ++ [line]) rest') :
    ∃ left, Taken input lines left ∧ getline left = (line, rest') := by
  obtain ⟨blanks, heq, rfl | rfl⟩ := h
  · exact ⟨line :: rest', ⟨0, by rw [← heq, List.append_assoc]; rfl, .inl rfl⟩, rfl⟩
  rw [List.append_nil] at heq
  obtain _ | blanks := blanks
  · exact ⟨[line], ⟨0, heq, .inl rfl⟩, rfl⟩
  · rw [List.replicate_succ', ← List.append_assoc] at heq
    obtain ⟨hlines, hline⟩ := List.append_inj' heq rfl
    cases hline
    exact ⟨[], ⟨blanks, by rw [List.append_nil, hlines], .inr rfl⟩, rfl⟩

/-- From one prompt to the next one, both in step. -/
theorem iteration_transcript {p q : Prompt} {lines : List Text} {later : List (List Text)}
    (h : Transcript connect user password replies lines p.executed p.sent p.printed later)
    (htaken : Taken input lines p.input) (hin : InTime rest later p.control)
    (hnext : iteration connect p = .prompts q) (hlt : q.sent.length < replies.length) :
    ∃ lines' later', Transcript connect user password replies lines' q.executed q.sent q.printed
      later' ∧ Taken input lines' q.input ∧ InTime rest later' q.control := by
  rcases hline : getline p.input with ⟨line, left⟩
  have htaken' := htaken.next hline
  rw [iteration_line hline] at hnext
  cases hasked : asked line with
  | none =>
    rw [hasked] at hnext
    split_ifs at hnext with hquit
    cases hnext
    exact ⟨_, later, .helped h hasked hquit, htaken', hin⟩
  | some command =>
    rw [hasked] at hnext
    simp only [Prompt.execute] at hnext
    split at hnext
    next => cases hnext
    next herror =>
      cases hnext
      have hlength := h.length
      rw [execute_sent herror, List.length_append] at hlt
      simp only [List.length_cons, List.length_nil] at hlt
      obtain ⟨pasv, reply, later, rfl⟩ : ∃ pasv reply later', later = pasv :: reply :: later' := by
        rcases later with _ | ⟨pasv, _ | ⟨reply, later⟩⟩
        · simp only [List.length_nil] at hlength
          omega
        · simp only [List.length_cons, List.length_nil] at hlength
          omega
        · exact ⟨pasv, reply, later, rfl⟩
      have hserved := execute_served.mp ⟨herror, rfl⟩
      refine ⟨_, later, ?_, htaken', ?_⟩
      · rw [execute_sent herror]
        exact .carriedOut h hasked ((served_inTime hin).mp hserved)
      · rw [execute_after herror]
        exact hin.next.next

/-- A client whose server replies in time is in step with it: it comes to exactly those prompts that
the replies tell, and what it has still to read there are the later replies. -/
theorem prompts_in_step (hin : InTime rest replies control) :
    (∀ p, Prompts user password control input connect p → p.sent.length < replies.length →
      ∃ lines later, Transcript connect user password replies lines p.executed p.sent p.printed later ∧
        Taken input lines p.input ∧ InTime rest later p.control) ∧
    ∀ lines executed sent printed later left,
      Transcript connect user password replies lines executed sent printed later →
      Taken input lines left →
      ∃ p, Prompts user password control input connect p ∧ p.executed = executed ∧ p.sent = sent ∧
        p.printed = printed ∧ p.input = left ∧ InTime rest later p.control := by
  constructor
  · rintro p ⟨hok, hreach⟩
    induction hreach with
    | refl =>
      intro hlt
      obtain ⟨later, hlogs, hlater⟩ := login_logsIn hin hok hlt
      exact ⟨[], later, .login hlogs, ⟨0, (List.append_nil _).symm, .inl rfl⟩, hlater⟩
    | tail _ hnext ih =>
      intro hlt
      obtain ⟨lines, later, htranscript, htaken, hlater⟩ :=
        ih (Nat.lt_of_le_of_lt (iteration_sent hnext) hlt)
      exact iteration_transcript htranscript htaken hlater hnext hlt
  · intro lines executed sent printed later left h
    induction h generalizing left with
    | login hlogs =>
      rintro ⟨blanks, hleft, hblanks⟩
      obtain ⟨control', hlogin, hlater⟩ := login_inTime hin hlogs
      have hinput : left = input := by
        obtain rfl | rfl := hblanks
        · exact hleft.trans (List.append_nil input)
        · exact (List.append_eq_nil_iff.mp hleft.symm).1.symm
      refine ⟨_, ⟨by rw [hlogin], .refl⟩, rfl, ?_, rfl, hinput.symm, ?_⟩
      · simp only [hlogin]
      · simp only [hlogin]
        exact hlater
    | helped _ hasked hquit ih =>
      intro htaken
      obtain ⟨left', htaken', hline⟩ := htaken.last
      obtain ⟨p, ⟨hok, hreach⟩, rfl, rfl, rfl, rfl, hlater⟩ := ih _ htaken'
      have hnext := @iteration_line connect p _ _ hline
      rw [hasked] at hnext
      simp only [if_neg hquit] at hnext
      exact ⟨_, ⟨hok, hreach.tail hnext⟩, rfl, rfl, rfl, rfl, hlater⟩
    | @carriedOut _ _ _ _ _ _ _ command _ _ _ hasked hanswered ih =>
      intro htaken
      obtain ⟨left', htaken', hline⟩ := htaken.last
      obtain ⟨p, ⟨hok, hreach⟩, rfl, rfl, rfl, rfl, hlater⟩ := ih _ htaken'
      have hnext := @iteration_line connect p _ _ hline
      rw [hasked] at hnext
      obtain ⟨herror, hprinted⟩ := (@execute_served command _ _ _).mpr
        ((served_inTime hlater).mpr hanswered)
      simp only [Prompt.execute, herror] at hnext
      refine ⟨_, ⟨hok, hreach.tail hnext⟩, rfl, ?_, ?_, rfl, ?_⟩
      · exact congrArg (p.sent ++ ·) (execute_sent herror)
      · exact congrArg (p.printed ++ ftpPrompt ++ ·) hprinted
      · rw [execute_after herror]
        exact hlater.next.next

end

/-- The replies to a login without a password and to a listing, each in two pieces. -/
def listingReplies : List (List Text) :=
  [["220 ready".toList], [], ["230 logged in".toList],
    ["227 Entering Passive Mode (10,0,0,1,4,210).".toList],
    ["150 Here it comes.".toList, "226 Sent.".toList]]

def halved (replies : List (List Text)) : List SocketEvent :=
  replies.foldr (fun lines control => paced [(unlines lines).take 5, (unlines lines).drop 5] control) []

theorem halved_inTime {replies : List (List Text)}
    (h : ∀ lines ∈ replies, ∀ line ∈ lines, CrlfFree line) : InTime [] replies (halved replies) := by
  induction replies with
  | nil => exact .done
  | cons lines replies ih =>
    obtain ⟨hlines, hlater⟩ := List.forall_mem_cons.mp h
    refine .reply hlines ?_ (ih hlater)
    rw [List.flatten_cons, List.flatten_cons, List.flatten_nil, List.append_nil,
      List.take_append_drop]

theorem listing_transcript : Transcript
    (fun _ _ _ => .ok [.bytes "a\r\n".toList, .bytes "b".toList, .eof]) "u".toList "".toList listingReplies ["ls".toList] 1
    [optsCommand, userCommand "u".toList, pasvCommand, listCommand] "ftp> a\nb\n".toList [] := by
  have hlogin : LogsIn "u".toList "".toList listingReplies [optsCommand, userCommand "u".toList] _ :=
    .named ((parseReply_iff (by decide) (by decide)).mp (by decide +kernel))
      ((parseReply_iff (by decide) (by decide)).mp (by decide +kernel))
  have hsent : HasCode "226 Sent.".toList closingData :=
    (parseReply_iff (by decide) (by decide)).mp (by decide +kernel)
  have hmatch : regexMatch getPassivePort "227 Entering Passive Mode (10,0,0,1,4,210).".toList =
      some ["227 Entering Passive Mode (10,0,0,1,4,210).".toList, "10".toList, "0".toList, "0".toList,
        "1".toList, "4".toList, "210".toList] := by decide +kernel
  obtain ⟨a, htells, htexts⟩ := getPassivePort_some hmatch
  simp only [PasvAddress.texts, PasvAddress.numbers, List.map_cons, List.map_nil, List.cons.injEq,
    true_and, and_true] at htexts
  have hp1 : a.p1.value = 4 := by
    rw [Number.value, ← htexts.2.2.2.2.1]
    rfl
  have hp2 : a.p2.value = 210 := by
    rw [Number.value, ← htexts.2.2.2.2.2]
    rfl
  have hport : a.dataPort < 2 ^ 31 := by
    rw [dataPort_eq (by omega), PasvAddress.port, hp1, hp2]
    decide
  exact .carriedOut (.login hlogin) (by decide) ⟨a, _, htells, hport, rfl, by decide,
    .closed hsent ⟨["a\r\n".toList, "b".toList], [], rfl, rfl⟩⟩

theorem prompts_in_step_listing :
    ∃ p, Prompts "u".toList "".toList (halved listingReplies) ["ls".toList]
        (fun _ _ _ => .ok [.bytes "a\r\n".toList, .bytes "b".toList, .eof]) p ∧
      p.printed = "ftp> a\nb\n".toList ∧ InTime [] [] p.control := by
  have hfree : ∀ lines ∈ listingReplies, ∀ line ∈ lines, CrlfFree line := by
    simp only [listingReplies, List.forall_mem_cons, List.not_mem_nil, false_imp_iff, implies_true,
      and_true, ← splitCrlf_none]
    decide
  obtain ⟨p, hprompts, -, -, hprinted, -, hlater⟩ :=
    (prompts_in_step (halved_inTime hfree)).2 _ _ _ _ _ [] listing_transcript ⟨0, rfl, .inl rfl⟩
  exact ⟨p, hprompts, hprinted, hlater⟩

end FtpClient

end Protocols
