import Protocols.FtpEnding
import Protocols.ImapClient
import Protocols.LastValue
import Protocols.Pop3Responses
import Protocols.RegexSearch

namespace Protocols

open Regex Relation Conversation

/-- The line has no number that fits into a `uint32_t`. -/
def Unnumbered (has : Text → Nat → Prop) (line : Text) : Prop := ∀ n < 2 ^ 32, ¬ has line n

namespace FtpClient

/-- The code of a reply is its number, or the reply is taken for an unknown one. -/
def ReadsReply (line : Text) : Prop :=
  ∃ code submatch, parseReply line = some (code, submatch) ∧
    (HasCode line code ∨ Unnumbered HasCode line ∧ code = unknown)

/-- The numbers of the replies that the session looks at fit. -/
structure SessionFits (control : List SocketEvent) (input : List Text) (connect : Connections) :
    Prop where
  login : LoginFits control
  commands : ∀ later, LoginSucceeds control later →
    ∀ before line after s command, input = before ++ line :: after →
      before.foldlM (carryOut connect) (later, 0) = some s → asked line = some command →
        CommandFits (connect s.2) s.1

/-- The session does not end with an exception. -/
def NeverThrows (user password : Text) (control : List SocketEvent) (input : List Text)
    (connect : Connections) : Prop :=
  ∀ iterations error p, client user password control input connect iterations = some (error, p) →
    error ≠ some .thrown

section

variable {line : Text}

theorem readsReply_iff : ReadsReply line ↔ FitsInt HasCode line := by
  constructor
  · rintro ⟨code, submatch, hparse, _⟩ n hn
    have hcode := parseReply_code hn
    rw [hparse] at hcode
    by_contra hlarge
    rw [if_neg hlarge] at hcode
    cases hcode
  · intro h
    by_cases hcode : ∃ code, HasCode line code
    · obtain ⟨code, hcode⟩ := hcode
      have hparse := parseReply_code hcode
      rw [if_pos (h code hcode)] at hparse
      obtain ⟨⟨code', submatch⟩, hsome, rfl⟩ := Option.map_eq_some_iff.mp hparse
      exact ⟨code', submatch, hsome, .inl hcode⟩
    · rw [not_exists] at hcode
      exact ⟨unknown, [], parseReply_unknown hcode, .inr ⟨fun n _ => hcode n, rfl⟩⟩

end

section

variable {user password : Text} {control : List SocketEvent} {input : List Text}
  {connect : Connections}

/-- The session does not end with an exception exactly if the numbers that it looks at fit. -/
theorem neverThrows_iff : NeverThrows user password control input connect ↔
    SessionFits control input connect := by
  by_cases hsucceeds : ∃ later, LoginSucceeds control later
  · obtain ⟨later, hlater⟩ := hsucceeds
    have hclient : NeverThrows user password control input connect ↔ ¬ ∃ iterations error p,
        client user password control input connect iterations = some (error, p) ∧
          error = some .thrown := by
      simp only [NeverThrows, not_exists, not_and, ne_eq]
    have hlogin : LoginFits control := by
      rw [← not_not (a := LoginFits control), ← @login_thrown_iff user password,
        (login_succeeds hlater).1]
      exact nofun
    rw [hclient, client_logged_in (E := fun error => error = some .thrown) hlater]
    constructor
    · intro hno
      refine ⟨hlogin, fun later' hlater' before line after s command hinput hbefore hasked => ?_⟩
      rw [← not_not (a := CommandFits _ _), ← @execute_thrown_iff command]
      intro herror
      rw [← hlater.unique hlater'] at hbefore
      exact hno ⟨before, line, after, s, hinput, hbefore, .inr ⟨command, _, hasked, herror, rfl⟩⟩
    · rintro h ⟨before, line, after, s, hinput, hbefore, ⟨_, hnone⟩ | ⟨command, error, hasked, herror,
        he⟩⟩
      · cases hnone
      · rw [he, execute_thrown_iff] at herror
        exact herror (h.commands later hlater before line after s command hinput hbefore hasked)
  · rw [not_exists] at hsucceeds
    obtain ⟨error, p, hclient, hthrown⟩ :=
      @client_turned_away user password control input connect hsucceeds
    constructor
    · intro h
      refine ⟨not_not.mp (mt hthrown.mpr (h 0 error p (hclient 0))), fun later hlater => ?_⟩
      exact absurd hlater (hsucceeds later)
    · intro h iterations error' _ hends he
      cases (hclient iterations).symm.trans hends
      exact hthrown.mp he h.login

end

end FtpClient

namespace Pop3Client

/-- The line of a list has the number of a message. -/
def HasMessageNumber (line : Text) (n : Nat) : Prop :=
  ∃ number size, line = number ++ ' ' :: size ∧ (number ≠ [] ∧ ∀ c ∈ number, c.isDigit = true) ∧
    (size ≠ [] ∧ ∀ c ∈ size, c.isDigit = true) ∧ Nat.ofDigitChars 10 number 0 = n

/-- The numbers are those of the lines that have one. -/
inductive AreNumbers : List Text → List Nat → Prop
  | nil : AreNumbers [] []
  | number {line lines n numbers} : HasMessageNumber line n → AreNumbers lines numbers →
      AreNumbers (line :: lines) (n :: numbers)
  | other {line lines numbers} : Unnumbered HasMessageNumber line → AreNumbers lines numbers →
      AreNumbers (line :: lines) numbers

/-- The numbers of a list are read as they are. -/
def ReadsNumbers (lines : List Text) : Prop :=
  ∃ numbers, messageNumbers lines = some numbers ∧ AreNumbers lines numbers

section

variable {line : Text} {lines : List Text} {n : Nat} {c : Pop3Client}

/-- The number that a line has. -/
def numberOf (line : Text) : Option Nat :=
  (regexMatch messageNumber line).map fun submatch => Nat.ofDigitChars 10 (str submatch 1) 0

theorem messageNumber_some {submatch : List Text} (h : regexMatch messageNumber line = some submatch) :
    ∃ number size, line = number ++ ' ' :: size ∧ (number ≠ [] ∧ ∀ c ∈ number, c.isDigit = true) ∧
      (size ≠ [] ∧ ∀ c ∈ size, c.isDigit = true) ∧ submatch = [line, number] := by
  obtain ⟨ws, hws, hline, hsubmatch⟩ := regexMatch_line_some
    [group 1 (plus (range '0' '9')), lit " ", plus (range '0' '9')] (by decide) h
  obtain _ | ⟨hnumber, _ | ⟨hblank, _ | ⟨hsize, ⟨⟩⟩⟩⟩ := hws
  rw [(mem_lit_char_words (d := ' ') rfl (by decide)).mp hblank] at hline hsubmatch
  exact ⟨_, _, by simpa using hline, digits_words.mp hnumber, digits_words.mp hsize, hsubmatch⟩

theorem messageNumber_isSome {number size : Text}
    (hnumber : number ≠ [] ∧ ∀ c ∈ number, c.isDigit = true)
    (hsize : size ≠ [] ∧ ∀ c ∈ size, c.isDigit = true) :
    (regexMatch messageNumber (number ++ ' ' :: size)).isSome = true := by
  refine (regexMatch_line_iff
    [group 1 (plus (range '0' '9')), lit " ", plus (range '0' '9')] (by decide)).mpr ?_
  simp only [all_cons, mem_seq_words]
  refine ⟨number, digits_words.mpr hnumber, _, ⟨[' '], ?_, _, ⟨size, digits_words.mpr hsize, [],
    (Language.mem_one _).mpr rfl, List.append_nil size⟩, rfl⟩, rfl⟩
  exact (mem_lit_char_words (d := ' ') rfl (by decide)).mpr rfl

theorem numberOf_iff : numberOf line = some n ↔ HasMessageNumber line n := by
  constructor
  · intro h
    obtain ⟨submatch, hmatch, rfl⟩ := Option.map_eq_some_iff.mp h
    obtain ⟨number, size, hline, hnumber, hsize, rfl⟩ := messageNumber_some hmatch
    exact ⟨number, size, hline, hnumber, hsize, rfl⟩
  · rintro ⟨number, size, rfl, hnumber, hsize, rfl⟩
    obtain ⟨submatch, hmatch⟩ := Option.isSome_iff_exists.mp (messageNumber_isSome hnumber hsize)
    obtain ⟨number', size', hline, hnumber', _, rfl⟩ := messageNumber_some hmatch
    have heq : number = number' := by
      rw [← FtpClient.takeWhile_number hnumber.2, hline, FtpClient.takeWhile_number hnumber'.2]
    rw [numberOf, hmatch, heq]
    rfl

theorem numberOf_none : numberOf line = none ↔ ∀ n, ¬ HasMessageNumber line n := by
  simp only [← numberOf_iff, Option.eq_none_iff_forall_ne_some, ne_eq]

theorem messageNumbers_cons : messageNumbers (line :: lines) = match numberOf line with
    | some n => if n < 2 ^ 31 then (messageNumbers lines).map (n :: ·) else none
    | none => messageNumbers lines := by
  rw [messageNumbers, numberOf]
  cases regexMatch messageNumber line with
  | none => rfl
  | some submatch =>
    simp only [stoi, Option.map_some]
    split <;> rfl

theorem readsNumbers_iff :
    ReadsNumbers lines ↔ ∀ line ∈ lines, FitsInt HasMessageNumber line := by
  induction lines with
  | nil => exact iff_of_true ⟨[], rfl, .nil⟩ nofun
  | cons line lines ih =>
    rw [List.forall_mem_cons, ← ih, ReadsNumbers, messageNumbers_cons]
    cases hnumber : numberOf line with
    | none =>
      have hno := numberOf_none.mp hnumber
      constructor
      · rintro ⟨numbers, hsome, hare⟩
        refine ⟨fun n hn => absurd hn (hno n), numbers, hsome, ?_⟩
        cases hare with
        | number hn _ => exact absurd hn (hno _)
        | other _ hare => exact hare
      · rintro ⟨_, numbers, hsome, hare⟩
        exact ⟨numbers, hsome, .other (fun n _ => hno n) hare⟩
    | some n =>
      have hn := numberOf_iff.mp hnumber
      have hfits : FitsInt HasMessageNumber line ↔ n < 2 ^ 31 := by
        refine ⟨fun h => h n hn, fun h m hm => ?_⟩
        rw [← numberOf_iff, hnumber] at hm
        rwa [← Option.some.inj hm]
      rw [hfits]
      dsimp only
      constructor
      · rintro ⟨numbers, hsome, hare⟩
        split_ifs at hsome with hlt
        obtain ⟨numbers', hlater, rfl⟩ := Option.map_eq_some_iff.mp hsome
        refine ⟨hlt, numbers', hlater, ?_⟩
        cases hare with
        | number _ hare => exact hare
        | other hno _ => exact absurd hn (hno n (Nat.lt_trans hlt (by decide)))
      · rintro ⟨hlt, numbers, hsome, hare⟩
        exact ⟨n :: numbers, by rw [if_pos hlt, hsome]; rfl, .number hn hare⟩

theorem hasNumbers_iff : HasNumbers lines ↔ ∀ line ∈ lines, FitsInt HasMessageNumber line := by
  simp only [HasNumbers, FitsInt, ← numberOf_iff, numberOf, Option.map_eq_some_iff,
    forall_exists_index, and_imp, forall_apply_eq_imp_iff₂]

theorem retrieve_runs (c : Pop3Client) (numbers : List Nat) :
    (c.retrieve numbers).1.control ≠ .failed := by
  cases numbers <;> exact nofun

/-- The session fails where it hears a list with a number that does not fit. -/
theorem hears_failed (hw : c.awaits ≠ none) : (c.hears lines).1.control = .failed ↔
    c.control = .list ∧ ¬ ∀ line ∈ lines, FitsInt HasMessageNumber line := by
  rw [← hasNumbers_iff, ← messageNumbers_isSome]
  unfold hears
  cases hc : c.control with
  | greeting | user | pass =>
    refine iff_of_false ?_ nofun
    dsimp only
    split <;> exact nofun
  | list =>
    cases messageNumbers lines with
    | none => exact iff_of_true rfl ⟨rfl, nofun⟩
    | some numbers => exact iff_of_false (c.retrieve_runs numbers) fun h => h.2 rfl
  | retr numbers => exact iff_of_false (retrieve_runs _ numbers) nofun
  | quit => exact iff_of_false nofun nofun
  | ended | failed => simp [awaits, hc] at hw

end

section

variable {user pass : Text} {server : List Text → List Text}

/-- The session does not end with an exception of `stoi`. -/
def NeverFails (user pass : Text) (server : List Text → List Text) : Prop :=
  ∀ d, ReflTransGen (Talks pop3Client server)
    (opening { username := user, password := pass } server) d → d.client.control ≠ .failed

/-- All the numbers of the lists that the session reads fit. -/
def ListsFit (user pass : Text) (server : List Text → List Text) : Prop :=
  ∀ d, ReflTransGen (Talks pop3Client server)
    (opening { username := user, password := pass } server) d → d.client.control = .list →
      ∀ list unread, readMultiline d.unread = some (list, unread) →
        ∀ line ∈ list, FitsInt HasMessageNumber line

theorem neverFails_iff : NeverFails user pass server ↔ ListsFit user pass server := by
  have hstart : ¬ ({ username := user, password := pass } : Pop3Client).control = .failed := nofun
  refine avoids_iff (k := pop3Client) (P := fun c => c.control = .failed) hstart (fun c hlist => ?_)
    fun c lines hw => hears_failed hw
  rw [pop3Client]
  simp [awaits, hlist]

end

end Pop3Client

namespace ImapClient

/-- The text begins with a number and the word `EXISTS`, in letters of any case. -/
def BeginsWithExists (number t : Text) : Prop :=
  ∃ word back, t = number ++ (word ++ back) ∧ (number ≠ [] ∧ ∀ c ∈ number, c.isDigit = true) ∧
    word.map Char.toLower = " exists".toList

/-- The amount of the leftmost number in the line that `EXISTS` follows. -/
def HasExists (line : Text) (n : Nat) : Prop :=
  ∃ front number t, line = front ++ t ∧ BeginsWithExists number t ∧
    Nat.ofDigitChars 10 number 0 = n ∧ ∀ front' number' t', line = front' ++ t' →
      BeginsWithExists number' t' → front.length ≤ front'.length

/-- The amount is that of the last line that has one, or zero. -/
def IsAmount (response : List Text) (amount : Nat) : Prop :=
  (∃ before line after, response = before ++ line :: after ∧ HasExists line amount ∧
    ∀ other ∈ after, Unnumbered HasExists other) ∨
  (∀ line ∈ response, Unnumbered HasExists line) ∧ amount = 0

/-- The amount of a mailbox is read as it is. -/
def ReadsAmount (response : List Text) : Prop :=
  ∃ amount, getExistsAmount response = some amount ∧ IsAmount response amount

section

variable {number number' t line : Text} {n length : Nat} {response lines : List Text}

theorem beginsWithExists_unique (h : BeginsWithExists number t) (h' : BeginsWithExists number' t) :
    number = number' := by
  have first : ∀ {number : Text}, BeginsWithExists number t → t.takeWhile Char.isDigit = number := by
    rintro number ⟨word, back, rfl, hnumber, hword⟩
    obtain ⟨c, rest, rfl, hc, _⟩ := List.map_eq_cons_iff.mp hword
    have hblank : c = ' ' := toLower_eq_of_not_letter hc (by decide)
    rw [hblank]
    exact FtpClient.takeWhile_number hnumber.2
  rw [← first h, first h']

theorem mem_run_exists {p : Text × Captures} (h : p ∈ parseExists.run length t) :
    ∃ number, BeginsWithExists number t ∧ p.2 = [(1, number)] := by
  have hplain : ∀ r ∈ [group 1 (plus (range '0' '9')), lit " EXISTS"], Plain r = true := by decide
  obtain ⟨ws, hws, t', ht, caps, hlast, hcaps⟩ := mem_run_all hplain h
  obtain _ | ⟨hnumber, _ | ⟨hword, ⟨⟩⟩⟩ := hws
  rename_i number word
  cases List.mem_singleton.mp hlast
  exact ⟨number, ⟨word, p.1, by simpa using ht, digits_words.mp hnumber, mem_lit_words.mp hword⟩,
    hcaps⟩

theorem run_exists (h : BeginsWithExists number t) : parseExists.run length t ≠ [] := by
  obtain ⟨word, back, rfl, hnumber, hword⟩ := h
  have hwords : number ++ (word ++ []) ∈ parseExists.words := by
    simp only [parseExists, all_cons, mem_seq_words]
    exact ⟨number, digits_words.mpr hnumber, _, ⟨word, mem_lit_words.mpr hword, [],
      (Language.mem_one _).mpr rfl, rfl⟩, rfl⟩
  have hmatches : Matches length parseExists (number ++ (word ++ []) ++ back) back :=
    words_matches hwords (by decide) back
  obtain ⟨caps, hrun⟩ := matches_run hmatches
  rw [List.append_nil, List.append_assoc] at hrun
  exact List.ne_nil_of_mem hrun

/-- What the pattern captures at a place of a line of the given length. -/
def existsAt (length : Nat) (t : Text) : Option (List Text) :=
  (parseExists.run length t).head?.map fun p =>
    submatches parseExists (t.take (t.length - p.1.length)) p.2

theorem existsAt_some {submatch : List Text} (h : existsAt length t = some submatch) :
    BeginsWithExists (str submatch 1) t := by
  obtain ⟨p, hp, rfl⟩ := Option.map_eq_some_iff.mp h
  obtain ⟨number, hnumber, hcaps⟩ := mem_run_exists (List.mem_of_head? hp)
  rw [hcaps, str_submatches (by decide)]
  exact hnumber

theorem existsAt_none : existsAt length t = none ↔ ∀ number, ¬ BeginsWithExists number t := by
  constructor
  · intro h number hnumber
    rw [existsAt, Option.map_eq_none_iff, List.head?_eq_none_iff] at h
    exact run_exists hnumber h
  · intro h
    cases hat : existsAt length t with
    | none => rfl
    | some submatch => exact absurd (existsAt_some hat) (h _)

/-- The amount that a line shows. -/
def existsOf (line : Text) : Option Nat :=
  (regexSearch parseExists line).map fun submatch => Nat.ofDigitChars 10 (str submatch 1) 0

theorem existsOf_iff : existsOf line = some n ↔ HasExists line n := by
  have hsearch : ∀ submatch, regexSearch parseExists line = some submatch ↔ ∃ front t,
      line = front ++ t ∧ existsAt line.length t = some submatch ∧ ∀ front' t', line = front' ++ t' →
        front'.length < front.length → existsAt line.length t' = none := fun _ => findSome_tails
  simp only [existsOf, Option.map_eq_some_iff, hsearch]
  constructor
  · rintro ⟨submatch, ⟨front, t, hline, hat, hleft⟩, rfl⟩
    refine ⟨front, _, t, hline, existsAt_some hat, rfl, fun front' number' t' hline' hbegins => ?_⟩
    by_contra hlt
    exact existsAt_none.mp (hleft front' t' hline' (Nat.lt_of_not_le hlt)) number' hbegins
  · rintro ⟨front, number, t, hline, hbegins, rfl, hleft⟩
    cases hat : existsAt line.length t with
    | none => exact absurd hbegins (existsAt_none.mp hat number)
    | some submatch =>
      refine ⟨submatch, ⟨front, t, hline, hat, fun front' t' hline' hlt => ?_⟩, ?_⟩
      · exact existsAt_none.mpr fun number' h' =>
          absurd (hleft front' number' t' hline' h') (Nat.not_le.mpr hlt)
      · rw [beginsWithExists_unique (existsAt_some hat) hbegins]

theorem existsOf_none : existsOf line = none ↔ ∀ n, ¬ HasExists line n := by
  simp only [← existsOf_iff, Option.eq_none_iff_forall_ne_some, ne_eq]

/-- What a line makes of the amount. -/
def setAmount (amount : Nat) (line : Text) : Option Nat :=
  match existsOf line with
  | some n => if n < 2 ^ 31 then some n else none
  | none => some amount

theorem getExistsAmount_eq (response : List Text) :
    getExistsAmount response = response.foldlM setAmount 0 := by
  refine congrArg (fun step => response.foldlM step 0) ?_
  funext amount line
  rw [setAmount, existsOf]
  cases regexSearch parseExists line <;> rfl

theorem setAmount_iff {amount m : Nat} : setAmount m line = some amount ↔
    FitsInt HasExists line ∧ amount = (existsOf line).getD m := by
  rw [setAmount]
  cases hline : existsOf line with
  | none =>
    have hfits : FitsInt HasExists line := fun n hn => absurd hn (existsOf_none.mp hline n)
    simp [hfits, eq_comm]
  | some n =>
    have hfits : FitsInt HasExists line ↔ n < 2 ^ 31 := by
      simp only [FitsInt, ← existsOf_iff, hline, Option.some.injEq, forall_eq']
    rw [hfits]
    simp [eq_comm]

theorem foldlM_setAmount {amount m : Nat} : response.foldlM setAmount m = some amount ↔
    (∀ line ∈ response, FitsInt HasExists line) ∧ amount = (lastSome existsOf response).getD m := by
  induction response generalizing m with
  | nil => simp [lastSome, eq_comm]
  | cons line response ih =>
    simp only [List.foldlM_cons, bind, Option.bind_eq_some_iff, ih, setAmount_iff,
      List.forall_mem_cons, lastSome_cons, Option.getD_or]
    constructor
    · rintro ⟨_, ⟨hfits, rfl⟩, hrest, hamount⟩
      exact ⟨⟨hfits, hrest⟩, hamount⟩
    · rintro ⟨⟨hfits, hrest⟩, hamount⟩
      exact ⟨_, ⟨hfits, rfl⟩, hrest, hamount⟩

theorem readsAmount_iff :
    ReadsAmount response ↔ ∀ line ∈ response, FitsInt HasExists line := by
  simp only [ReadsAmount, getExistsAmount_eq, foldlM_setAmount]
  constructor
  · rintro ⟨amount, ⟨hfits, _⟩, _⟩
    exact hfits
  · intro hfits
    refine ⟨_, ⟨hfits, rfl⟩, ?_⟩
    cases hlast : lastSome existsOf response with
    | none =>
      refine .inr ⟨fun line hline n _ => ?_, rfl⟩
      exact existsOf_none.mp (lastSome_eq_none.mp hlast line hline) n
    | some amount =>
      obtain ⟨before, line, after, hresponse, hline, hafter⟩ := lastSome_eq_some.mp hlast
      exact .inl ⟨before, line, after, hresponse, existsOf_iff.mp hline,
        fun other ho n _ => existsOf_none.mp (hafter other ho) n⟩

theorem getExistsAmount_isSome : (getExistsAmount response).isSome = true ↔
    ∀ line ∈ response, FitsInt HasExists line := by
  rw [getExistsAmount_eq, Option.isSome_iff_exists]
  simp only [foldlM_setAmount]
  exact ⟨fun ⟨_, hfits, _⟩ => hfits, fun hfits => ⟨_, hfits, rfl⟩⟩

theorem Sends.runs {c : ImapClient} {r : ImapClient × Option Text} (h : Sends c r) :
    r.1.control ≠ .failed := by
  intro hfailed
  have hwaits := h.waits
  rw [awaits, hfailed] at hwaits
  cases hwaits

/-- The session fails where it hears an amount that does not fit. -/
theorem hears_failed {c : ImapClient} (hw : c.awaits ≠ none) :
    (c.hears response).1.control = .failed ↔
      (∃ mailbox, c.control = .examine mailbox) ∧
        ¬ ∀ line ∈ response, FitsInt HasExists line := by
  rw [← getExistsAmount_isSome]
  unfold hears
  cases hc : c.control with
  | greeting | login =>
    refine iff_of_false ?_ nofun
    dsimp only
    split <;> exact nofun
  | list =>
    refine iff_of_false ?_ nofun
    dsimp only
    split
    next => exact (examine_sends _ 0).runs
    next => exact nofun
  | examine mailbox =>
    cases getExistsAmount response with
    | none => exact iff_of_true rfl ⟨⟨mailbox, rfl⟩, nofun⟩
    | some amount => exact iff_of_false (c.fetch_sends mailbox 1 amount []).runs fun h => h.2 rfl
  | fetch mailbox i amount mails => exact iff_of_false (c.fetch_sends _ _ _ _).runs nofun
  | logout => exact iff_of_false nofun nofun
  | ended | error | failed => simp [awaits, hc] at hw

end

section

variable {user pass : Text} {server : List Text → List Text}

/-- The session does not end with an exception of `stoi`. -/
def NeverFails (user pass : Text) (server : List Text → List Text) : Prop :=
  ∀ d, ReflTransGen (Talks imapClient server)
    (opening { user := user, pass := pass } server) d → d.client.control ≠ .failed

/-- All the amounts that the session reads fit. -/
def AmountsFit (user pass : Text) (server : List Text → List Text) : Prop :=
  ∀ d, ReflTransGen (Talks imapClient server)
    (opening { user := user, pass := pass } server) d → ∀ mailbox, d.client.control = .examine mailbox →
      ∀ response unread, readMultipleLines d.unread = some (response, unread) →
        ∀ line ∈ response, FitsInt HasExists line

theorem neverFails_iff : NeverFails user pass server ↔ AmountsFit user pass server := by
  have hstart : ¬ ({ user := user, pass := pass } : ImapClient).control = .failed := nofun
  have waits : ∀ c : ImapClient, (∃ mailbox, c.control = .examine mailbox) →
      imapClient.awaits c = some isLast := by
    rintro c ⟨mailbox, hexamine⟩
    simp [imapClient, awaits, hexamine]
  refine (avoids_iff (k := imapClient) (P := fun c => c.control = .failed) hstart waits
    fun c response hw => hears_failed hw).trans (forall₂_congr fun d _ => ?_)
  exact ⟨fun h mailbox hexamine => h ⟨mailbox, hexamine⟩, fun h hexamine => hexamine.elim h⟩

end

end ImapClient

/-- The numbers in the lines of the servers are read as they are, and no session ends with an
exception, exactly where the numbers fit into an `int`. -/
theorem numbers_read_iff (line : Text) (lines input : List Text) (user pass : Text)
    (control : List FtpClient.SocketEvent) (connect : FtpClient.Connections)
    (server : List Text → List Text) :
    (FtpClient.ReadsReply line ↔ FitsInt FtpClient.HasCode line) ∧
    (Pop3Client.ReadsNumbers lines ↔
      ∀ line ∈ lines, FitsInt Pop3Client.HasMessageNumber line) ∧
    (ImapClient.ReadsAmount lines ↔ ∀ line ∈ lines, FitsInt ImapClient.HasExists line) ∧
    (FtpClient.NeverThrows user pass control input connect ↔
      FtpClient.SessionFits control input connect) ∧
    (Pop3Client.NeverFails user pass server ↔ Pop3Client.ListsFit user pass server) ∧
    (ImapClient.NeverFails user pass server ↔ ImapClient.AmountsFit user pass server) :=
  ⟨FtpClient.readsReply_iff, Pop3Client.readsNumbers_iff, ImapClient.readsAmount_iff,
    FtpClient.neverThrows_iff, Pop3Client.neverFails_iff, ImapClient.neverFails_iff⟩

/-- The first number that does not fit. -/
theorem number_beyond_int : ¬ FtpClient.ReadsReply "2147483648 x".toList ∧
    ¬ Pop3Client.ReadsNumbers ["2147483648 1".toList, ".".toList] ∧
    ¬ ImapClient.ReadsAmount ["* 2147483648 EXISTS".toList] := by
  refine ⟨?_, ?_, ?_⟩
  · rintro ⟨code, submatch, hparse, _⟩
    have hnone : FtpClient.parseReply "2147483648 x".toList = none := by decide +kernel
    rw [hnone] at hparse
    cases hparse
  · rintro ⟨numbers, hsome, _⟩
    have hnone : Pop3Client.messageNumbers ["2147483648 1".toList, ".".toList] = none := by
      decide +kernel
    rw [hnone] at hsome
    cases hsome
  · rintro ⟨amount, hsome, _⟩
    have hnone : ImapClient.getExistsAmount ["* 2147483648 EXISTS".toList] = none := by
      decide +kernel
    rw [hnone] at hsome
    cases hsome

end Protocols
