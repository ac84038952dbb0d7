import Protocols.Pop3Client
import Protocols.Pop3Session

namespace Protocols

open Regex Relation Conversation

namespace Pop3Client

/-- What a server may reply to LIST or RETR. -/
inductive IsResponse : List Text → Prop
  | err {text} : CrlfFree (negative ++ text) → IsResponse [negative ++ text]
  | ok {text lines} : CrlfFree (positive ++ text) →
      (∀ line ∈ lines, CrlfFree line ∧ line ≠ endList) →
      IsResponse ((positive ++ text) :: (lines ++ [endList]))

/-- However the response is cut, all of it is read, and nothing of what comes after it. -/
def ReadExactly (response : List Text) : Prop :=
  ∀ pieces : List Text, [] ∉ pieces → pieces.flatten = unlines response →
    ∀ later, readMultiline (pieces ++ later) = some (response, later)

def IsPositive (response : List Text) : Prop := positive <+: response.headD []

/-- `stoi` takes the numbers of the response. -/
def HasNumbers (response : List Text) : Prop :=
  ∀ line ∈ response, ∀ submatch, regexMatch messageNumber line = some submatch →
    Nat.ofDigitChars 10 (str submatch 1) 0 < 2 ^ 31

def Multiline (c : Pop3Client) : Prop := c.control = .list ∨ ∃ numbers, c.control = .retr numbers

def AsksMultiline (command : Text) : Prop := command = listCmd ∨ ∃ number, command = retrCmd number

/-- The server answers every command, LIST and RETR with a response of one of the two shapes, and
any other one with a line. -/
structure AnswersEvery (reply : List Text → List Text) : Prop where
  greets : ∃ line, CrlfFree line ∧ reply [] = [line]
  single : ∀ said command, ¬ AsksMultiline command →
    ∃ line, CrlfFree line ∧ reply (said ++ [command]) = [line]
  multiline : ∀ said command, AsksMultiline command → IsResponse (reply (said ++ [command]))

/-- The session gets to where it sends QUIT. -/
def ReachesQuit (server : List Text → List Text) (c : Pop3Client) : Prop :=
  ∃ d, ReflTransGen (Talks pop3Client server) (opening c server) d ∧ quitCmd ∈ d.said

/-- Whenever the client has asked LIST or RETR, the reply is a positive one, and `stoi` takes the
numbers of the list. -/
def OnlyPositive (server reply : List Text → List Text) (c : Pop3Client) : Prop :=
  ∀ d, ReflTransGen (Talks pop3Client server) (opening c server) d → d.client.Multiline →
    IsPositive (reply d.said) ∧ (d.client.control = .list → HasNumbers (reply d.said))

section

variable {response : List Text} {c : Pop3Client} {said : List Text} {ends : Text → Bool}

theorem negative_not_positive (text : Text) : ¬ positive <+: negative ++ text := by
  rintro ⟨rest, h⟩
  exact absurd (List.cons.inj h).1 (by decide)

theorem starts_ne_endList {a : Char} {start text : Text} (ha : a ≠ '.') :
    ((a :: start) ++ text == endList) = false :=
  beq_eq_false_iff_ne.mpr fun h => ha (List.cons.inj h).1

theorem ok_is_answer {text : Text} {lines : List Text} (hfree : CrlfFree (positive ++ text))
    (hlines : ∀ line ∈ lines, CrlfFree line ∧ line ≠ endList) :
    IsAnswer (fun line => line == endList) ((positive ++ text) :: (lines ++ [endList])) := by
  refine .more hfree (starts_ne_endList (by decide)) (isAnswer_concat.mpr ⟨fun l hl => ?_, ?_, ?_⟩)
  · exact ⟨(hlines l hl).1, beq_eq_false_iff_ne.mpr (hlines l hl).2⟩
  · decide
  · rfl

/-- What a response that is not positive leaves the reader waiting for. -/
theorem err_not_read {text : Text} (hfree : CrlfFree (negative ++ text)) {pieces : List Text}
    (h : pieces.flatten = unlines [negative ++ text]) :
    readThrough (fun line => line == endList) pieces = none :=
  readThrough_unending (List.forall_mem_singleton.mpr hfree)
    (List.forall_mem_singleton.mpr (starts_ne_endList (by decide))) h

theorem answer_iff_positive (h : IsResponse response) :
    IsAnswer (fun line => line == endList) response ↔ IsPositive response := by
  cases h with
  | @err text hfree =>
    refine iff_of_false (fun ha => ?_) (negative_not_positive text)
    have hread := readThrough_whole ha (nil_notMem_whole ha.ne_nil) List.flatten_singleton []
    rw [List.append_nil, err_not_read hfree List.flatten_singleton] at hread
    cases hread
  | ok hfree hlines => exact iff_of_true (ok_is_answer hfree hlines) (List.prefix_append _ _)

theorem readExactly_iff (h : IsResponse response) : ReadExactly response ↔ IsPositive response :=
  readThrough_exactly_iff.trans (answer_iff_positive h)

theorem messageNumbers_isSome {list : List Text} :
    (messageNumbers list).isSome = true ↔ HasNumbers list := by
  induction list with
  | nil => simp [messageNumbers, HasNumbers]
  | cons line list ih =>
    rw [HasNumbers, List.forall_mem_cons, ← HasNumbers, ← ih, messageNumbers]
    cases hm : regexMatch messageNumber line with
    | none => simp
    | some submatch =>
      have hfits : (∀ s, some submatch = some s → Nat.ofDigitChars 10 (str s 1) 0 < 2 ^ 31) ↔
          (stoi (str submatch 1)).isSome = true := by
        rw [stoi_isSome]
        simp only [Option.some.injEq, forall_eq']
      rw [hfits]
      dsimp only
      cases stoi (str submatch 1) with
      | none => simp
      | some number => simp

theorem asksMultiline_list : AsksMultiline listCmd := Or.inl rfl

theorem asksMultiline_retr (number : Nat) : AsksMultiline (retrCmd number) := Or.inr ⟨number, rfl⟩

theorem asksMultiline_head {command : Text} (h : AsksMultiline command) :
    command.head? = some 'L' ∨ command.head? = some 'R' := by
  rcases h with rfl | ⟨number, rfl⟩
  · exact Or.inl rfl
  · exact Or.inr rfl

theorem not_asksMultiline {command : Text} (h : command.head? ≠ some 'L')
    (h' : command.head? ≠ some 'R') : ¬ AsksMultiline command := fun hm =>
  (asksMultiline_head hm).elim h h'

/-- How the last command and the state of the client go together. -/
structure Asked (c : Pop3Client) (said : List Text) : Prop where
  greets : c.control = .greeting → said = []
  asks : c.control = .greeting ∨ c.awaits = none ∨
    ∃ before command, said = before ++ [command] ∧ (AsksMultiline command ↔ c.Multiline)
  quits : quitCmd ∈ said ↔ c.control = .quit ∨ c.control = .ended

/-- The client has sent a command. -/
structure Sends (c : Pop3Client) (command : Text) : Prop where
  multiline : AsksMultiline command ↔ c.Multiline
  quits : command = quitCmd ↔ c.control = .quit
  runs : c.control ≠ .greeting ∧ c.control ≠ .ended

theorem Sends.asked {command : Text} (h : Sends c command) (hq : quitCmd ∉ said) :
    Asked c (said ++ [command]) where
  greets hc := absurd hc h.runs.1
  asks := Or.inr (Or.inr ⟨said, command, rfl, h.multiline⟩)
  quits := by
    rw [List.mem_append, List.mem_singleton, eq_comm (a := quitCmd), h.quits]
    simp [hq, h.runs.2]

theorem leave_sends (c : Pop3Client) : Sends c.leave.1 quitCmd where
  multiline := iff_of_false (not_asksMultiline (by decide) (by decide)) (by simp [Multiline, leave])
  quits := iff_of_true rfl rfl
  runs := ⟨by simp [leave], by simp [leave]⟩

theorem sends_retr (c : Pop3Client) (number : Nat) (numbers : List Nat) :
    Sends { c with control := .retr numbers } (retrCmd number) where
  multiline := iff_of_true (asksMultiline_retr number) (Or.inr ⟨numbers, rfl⟩)
  quits := iff_of_false (fun h => absurd (List.cons.inj h).1 (by decide)) (by simp)
  runs := ⟨by simp, by simp⟩

theorem retrieve_sends (c : Pop3Client) (numbers : List Nat) :
    ∃ command, (c.retrieve numbers).2 = some command ∧ Sends (c.retrieve numbers).1 command := by
  cases numbers with
  | nil => exact ⟨quitCmd, rfl, c.leave_sends⟩
  | cons number numbers => exact ⟨retrCmd number, rfl, c.sends_retr number numbers⟩

/-- After a positive reply the client goes on, and after any other it leaves. -/
theorem goes_or_leaves {command : Text} {next : Pop3Client} (h : Sends next command) (positive : Bool) :
    ∃ sent, (if positive then (next, some command) else c.leave).2 = some sent ∧
      Sends (if positive then (next, some command) else c.leave).1 sent := by
  cases positive with
  | true => exact ⟨command, rfl, h⟩
  | false => exact ⟨quitCmd, rfl, c.leave_sends⟩

theorem sends_user (c : Pop3Client) :
    Sends { c with control := .user } (userCmd c.username) where
  multiline := iff_of_false
    (not_asksMultiline (by simp [userCmd, format]) (by simp [userCmd, format])) (by simp [Multiline])
  quits := iff_of_false (fun h => absurd (List.cons.inj h).1 (by decide)) (by simp)
  runs := ⟨by simp, by simp⟩

theorem sends_pass (c : Pop3Client) :
    Sends { c with control := .pass } (passCmd c.password) where
  multiline := iff_of_false
    (not_asksMultiline (by simp [passCmd, format]) (by simp [passCmd, format])) (by simp [Multiline])
  quits := iff_of_false (fun h => absurd (List.cons.inj h).1 (by decide)) (by simp)
  runs := ⟨by simp, by simp⟩

theorem sends_list (c : Pop3Client) : Sends { c with control := .list } listCmd where
  multiline := iff_of_true asksMultiline_list (Or.inl rfl)
  quits := iff_of_false (by decide) (by simp)
  runs := ⟨by simp, by simp⟩

/-- Whatever it hears, the client sends a command, fails in a list or ends after QUIT. -/
theorem hears_cases (hw : c.awaits ≠ none) (lines : List Text) :
    (c.control ≠ .quit ∧ ∃ command, (c.hears lines).2 = some command ∧
      Sends (c.hears lines).1 command) ∨
    (c.control = .list ∧ messageNumbers lines = none ∧
      c.hears lines = ({ c with control := .failed }, none)) ∨
    (c.control = .quit ∧ c.hears lines = ({ c with control := .ended }, none)) := by
  unfold hears
  cases hc : c.control with
  | greeting => exact Or.inl ⟨by simp, goes_or_leaves c.sends_user _⟩
  | user => exact Or.inl ⟨by simp, goes_or_leaves c.sends_pass _⟩
  | pass => exact Or.inl ⟨by simp, goes_or_leaves c.sends_list _⟩
  | list =>
    cases hn : messageNumbers lines with
    | none => exact Or.inr (Or.inl ⟨rfl, rfl, by simp only⟩)
    | some numbers => exact Or.inl ⟨by simp, c.retrieve_sends numbers⟩
  | retr numbers => exact Or.inl ⟨by simp, retrieve_sends _ numbers⟩
  | quit => exact Or.inr (Or.inr ⟨rfl, rfl⟩)
  | ended | failed => simp [awaits, hc] at hw

theorem Asked.hears (h : Asked c said) (hw : c.awaits ≠ none) (lines : List Text) :
    Asked (c.hears lines).1 (said ++ (c.hears lines).2.toList) := by
  have hended : c.control ≠ .ended := fun hc => hw (by simp [awaits, hc])
  rcases hears_cases hw lines with ⟨hquit, command, hcommand, hsends⟩ | ⟨hlist, _, hhears⟩ |
    ⟨hquit, hhears⟩
  · rw [hcommand]
    refine hsends.asked fun hq => ?_
    rcases h.quits.mp hq with hc | hc
    · exact hquit hc
    · exact hended hc
  · rw [hhears, Option.toList_none, List.append_nil]
    refine ⟨by simp, Or.inr (Or.inl rfl), iff_of_false (fun hq => ?_) (by simp)⟩
    rcases h.quits.mp hq with hc | hc
    · rw [hlist] at hc
      cases hc
    · exact hended hc
  · rw [hhears, Option.toList_none, List.append_nil]
    exact ⟨by simp, Or.inr (Or.inl rfl), iff_of_true (h.quits.mpr (Or.inl hquit)) (Or.inr rfl)⟩

/-- Where a positive line takes the client. -/
inductive Accepts : Pop3ClientControl → Pop3ClientControl → Prop
  | greeting : Accepts .greeting .user
  | user : Accepts .user .pass
  | pass : Accepts .pass .list

theorem Accepts.hears {next : Pop3ClientControl} (h : Accepts c.control next) (lines : List Text) :
    (c.hears lines).1.control = next ∨ (c.hears lines).2 = some quitCmd := by
  unfold Pop3Client.hears
  generalize c.control = control at h
  cases h with
  | greeting | user | pass =>
    dsimp only
    split
    next => exact Or.inl rfl
    next => exact Or.inr rfl

theorem Accepts.awaits {next : Pop3ClientControl} (h : Accepts c.control next) : c.awaits ≠ none := by
  unfold Pop3Client.awaits
  generalize c.control = control at h
  cases h <;> exact Option.some_ne_none _

theorem ends_of_awaits (hw : c.awaits = some ends) :
    (c.Multiline ∧ ends = fun line => line == endList) ∨
    (¬ c.Multiline ∧ ends = fun _ => true) := by
  unfold awaits at hw
  cases hc : c.control with
  | list => exact Or.inl ⟨Or.inl hc, by rw [hc] at hw; exact (Option.some.inj hw).symm⟩
  | retr numbers => exact Or.inl ⟨Or.inr ⟨numbers, hc⟩, by rw [hc] at hw; exact (Option.some.inj hw).symm⟩
  | ended | failed => simp [hc] at hw
  | _ =>
    refine Or.inr ⟨by simp [Multiline, hc], ?_⟩
    rw [hc] at hw
    exact (Option.some.inj hw).symm

end

section

variable {server reply : List Text → List Text} {c : Pop3Client} {d e : Conversation Pop3Client}
  {said : List Text} {ends : Text → Bool}

theorem awaits_of_multiline (hm : c.Multiline) : c.awaits = some fun line => line == endList := by
  rcases hm with hc | ⟨numbers, hc⟩ <;> simp [awaits, hc]

theorem multiline_not_greeting (hm : c.Multiline) : c.control ≠ .greeting := by
  rcases hm with hc | ⟨numbers, hc⟩ <;> simp [hc]

theorem asked_response (h : AnswersEvery reply) (ha : Asked c said) (hm : c.Multiline) :
    IsResponse (reply said) := by
  obtain ⟨before, command, rfl, hmulti⟩ := (ha.asks.resolve_left (multiline_not_greeting hm)).resolve_left
    (by simp [awaits_of_multiline hm])
  exact h.multiline before command (hmulti.mpr hm)

/-- What the client waits for is an answer to it, unless it is a negative one to LIST or RETR. -/
theorem reply_is_answer (h : AnswersEvery reply) (ha : Asked c said) (hw : c.awaits = some ends)
    (hpos : c.Multiline → IsPositive (reply said)) : IsAnswer ends (reply said) := by
  rcases ends_of_awaits hw with ⟨hm, rfl⟩ | ⟨hm, rfl⟩
  · exact (answer_iff_positive (asked_response h ha hm)).mpr (hpos hm)
  · have hone : ∃ line, CrlfFree line ∧ reply said = [line] := by
      by_cases hgreet : c.control = .greeting
      · rw [ha.greets hgreet]
        exact h.greets
      · obtain ⟨before, command, rfl, hmulti⟩ := (ha.asks.resolve_left hgreet).resolve_left
          (by simp [hw])
        exact h.single before command fun hask => hm (hmulti.mp hask)
    obtain ⟨line, hfree, hline⟩ := hone
    rw [hline]
    exact .last hfree rfl

/-- A client in step that waits for a negative reply to LIST or RETR waits for ever. -/
theorem negative_stops (hs : Serves server reply) (h : AnswersEvery reply)
    (hd : InStep pop3Client server reply d) (ha : Asked d.client d.said) (hm : d.client.Multiline)
    (hn : ¬ IsPositive (reply d.said)) : d.next pop3Client server = none := by
  have hw : pop3Client.awaits d.client = some fun line => line == endList := awaits_of_multiline hm
  have hwhole := hs.whole d.said
  have hunread := (hd.waiting (by simp [hw])).2
  have hresponse := asked_response h ha hm
  rw [← hunread] at hwhole
  generalize reply d.said = response at hresponse hn hwhole
  cases hresponse with
  | err hfree => simp [Conversation.next, hw, err_not_read hfree hwhole]
  | ok _ _ => exact absurd (List.prefix_append _ _) hn

/-- Every state that the session comes to. -/
theorem session_in_step (hs : Serves server reply) (h : AnswersEvery reply)
    (hc : c.control = .greeting)
    (run : ReflTransGen (Talks pop3Client server) (opening c server) d) :
    InStep pop3Client server reply d ∧ Asked d.client d.said := by
  have start : Asked c [] := ⟨fun _ => rfl, Or.inl hc, by simp [hc]⟩
  refine reaches_invariant (P := fun d => InStep pop3Client server reply d ∧ Asked d.client d.said)
    run ⟨opening_in_step c, start⟩ fun c d hcd hnext => ?_
  obtain ⟨hstep, hasked⟩ := hcd
  cases hw : c.client.awaits with
  | none => simp [Talks, Conversation.next, pop3Client, hw] at hnext
  | some ends =>
    by_cases hpos : c.client.Multiline → IsPositive (reply c.said)
    · obtain ⟨d', htalks, hd, hclient, hsaid, _⟩ :=
        hstep.next hs hw (reply_is_answer h hasked hw hpos)
      rw [talks_unique hnext htalks]
      refine ⟨hd, ?_⟩
      rw [hclient, hsaid]
      exact hasked.hears (by simp [hw]) (reply c.said)
    · obtain ⟨hm, hn⟩ := Classical.not_imp.mp hpos
      rw [Talks, negative_stops hs h hstep hasked hm hn] at hnext
      cases hnext

end

section

variable {server reply : List Text → List Text} {c : Pop3Client} {d e : Conversation Pop3Client}
  {said : List Text}

theorem goes_on (hs : Serves server reply) (h : AnswersEvery reply) (hc : c.control = .greeting)
    (hpos : OnlyPositive server reply c)
    (run : ReflTransGen (Talks pop3Client server) (opening c server) d)
    (hw : d.client.awaits ≠ none) :
    ∃ d', ReflTransGen (Talks pop3Client server) (opening c server) d' ∧
      d'.client = (d.client.hears (reply d.said)).1 ∧
      d'.said = d.said ++ (d.client.hears (reply d.said)).2.toList := by
  obtain ⟨hstep, hasked⟩ := session_in_step hs h hc run
  obtain ⟨ends, hends⟩ := Option.ne_none_iff_exists'.mp hw
  obtain ⟨d', htalks, _, hclient, hsaid, _⟩ := hstep.next hs hends
    (reply_is_answer h hasked hends fun hm => (hpos d run hm).1)
  exact ⟨d', run.tail htalks, hclient, hsaid⟩

/-- The loop over the message numbers comes to its end. -/
theorem retrieve_reaches (hs : Serves server reply) (h : AnswersEvery reply)
    (hc : c.control = .greeting) (hpos : OnlyPositive server reply c) {c' : Pop3Client}
    {numbers : List Nat} (run : ReflTransGen (Talks pop3Client server) (opening c server) d)
    (hclient : d.client = (c'.retrieve numbers).1)
    (hsaid : d.said = said ++ (c'.retrieve numbers).2.toList) : ReachesQuit server c := by
  induction numbers generalizing d c' said with
  | nil => exact ⟨d, run, by simp [hsaid, retrieve, leave]⟩
  | cons number numbers ih =>
    have hretr : d.client.control = .retr numbers := by rw [hclient]; rfl
    obtain ⟨d', run', hclient', hsaid'⟩ := goes_on hs h hc hpos run (by simp [awaits, hretr])
    rw [hears, hretr] at hclient' hsaid'
    exact ih run' hclient' hsaid'

theorem list_reaches (hs : Serves server reply) (h : AnswersEvery reply)
    (hc : c.control = .greeting) (hpos : OnlyPositive server reply c)
    (run : ReflTransGen (Talks pop3Client server) (opening c server) d)
    (hlist : d.client.control = .list) : ReachesQuit server c := by
  obtain ⟨numbers, hnumbers⟩ := Option.isSome_iff_exists.mp
    (messageNumbers_isSome.mpr ((hpos d run (Or.inl hlist)).2 hlist))
  obtain ⟨d', run', hclient, hsaid⟩ := goes_on hs h hc hpos run (by simp [awaits, hlist])
  simp only [hears, hlist, hnumbers] at hclient hsaid
  exact retrieve_reaches hs h hc hpos run' hclient hsaid

/-- After the greeting, USER and PASS the client goes on if it takes the reply for a positive one. -/
theorem line_reaches (hs : Serves server reply) (h : AnswersEvery reply)
    (hc : c.control = .greeting) (hpos : OnlyPositive server reply c)
    (run : ReflTransGen (Talks pop3Client server) (opening c server) d) {next : Pop3ClientControl}
    (hnext : Accepts d.client.control next) : ReachesQuit server c ∨
      ∃ d', ReflTransGen (Talks pop3Client server) (opening c server) d' ∧
        d'.client.control = next := by
  obtain ⟨d', run', hclient, hsaid⟩ := goes_on hs h hc hpos run hnext.awaits
  rcases hnext.hears (reply d.said) with hgoes | hleaves
  · exact Or.inr ⟨d', run', by rw [hclient, hgoes]⟩
  · exact Or.inl ⟨d', run', by simp [hsaid, hleaves]⟩

theorem positive_reaches (hs : Serves server reply) (h : AnswersEvery reply)
    (hc : c.control = .greeting) (hpos : OnlyPositive server reply c) : ReachesQuit server c := by
  have hgreet : Accepts (opening c server).client.control .user := by
    rw [opening, hc]
    exact .greeting
  rcases line_reaches hs h hc hpos .refl hgreet with hq | ⟨d₁, run₁, huser⟩
  · exact hq
  rcases line_reaches hs h hc hpos run₁ (by rw [huser]; exact .user) with hq | ⟨d₂, run₂, hpass⟩
  · exact hq
  rcases line_reaches hs h hc hpos run₂ (by rw [hpass]; exact .pass) with hq | ⟨d₃, run₃, hlist⟩
  · exact hq
  exact list_reaches hs h hc hpos run₃ hlist

/-- A negative reply to LIST or RETR, or a number that does not fit, is the end of the session. -/
theorem quit_unreached (hs : Serves server reply) (h : AnswersEvery reply)
    (hc : c.control = .greeting)
    (run : ReflTransGen (Talks pop3Client server) (opening c server) d)
    (hm : d.client.Multiline)
    (hbad : ¬ (IsPositive (reply d.said) ∧ (d.client.control = .list → HasNumbers (reply d.said))))
    (more : ReflTransGen (Talks pop3Client server) d e) : quitCmd ∉ e.said := by
  obtain ⟨hstep, hasked⟩ := session_in_step hs h hc run
  have hnot : quitCmd ∉ d.said := by
    rw [hasked.quits]
    rcases hm with hcontrol | ⟨numbers, hcontrol⟩ <;> simp [hcontrol]
  rcases ReflTransGen.cases_head more with rfl | ⟨f, hnext, more⟩
  · exact hnot
  · by_cases hpos : IsPositive (reply d.said)
    · have hw := awaits_of_multiline hm
      obtain ⟨d', htalks, _, hclient, hsaid, _⟩ :=
        hstep.next hs hw (reply_is_answer h hasked hw fun _ => hpos)
      rw [talks_unique hnext htalks] at more
      obtain ⟨hlist, hnumbers⟩ := Classical.not_imp.mp fun himp => hbad ⟨hpos, himp⟩
      have hfails : messageNumbers (reply d.said) = none := by
        rwa [← messageNumbers_isSome, Option.not_isSome_iff_eq_none] at hnumbers
      simp only [pop3Client, hears, hlist, hfails, Option.toList_none, List.append_nil] at hclient hsaid
      -- a client that has failed says nothing more
      rcases ReflTransGen.cases_head more with rfl | ⟨g, hnext', _⟩
      · rwa [hsaid]
      · simp [Talks, Conversation.next, pop3Client, hclient, awaits] at hnext'
    · rw [Talks, negative_stops hs h hstep hasked hm hpos] at hnext
      cases hnext

theorem reachesQuit_iff (hs : Serves server reply) (h : AnswersEvery reply)
    (hc : c.control = .greeting) : ReachesQuit server c ↔ OnlyPositive server reply c := by
  constructor
  · intro hquit d run hm
    obtain ⟨e, run', hsaid⟩ := hquit
    by_contra hbad
    have hnever := fun e more => quit_unreached (e := e) hs h hc run hm hbad more
    rcases ReflTransGen.total_of_right_unique talks_unique run run' with hde | hed
    · exact hnever e hde hsaid
    · exact hnever d .refl ((said_grows hed).subset hsaid)
  · exact positive_reaches hs h hc

end

/-- A response is read exactly if and only if it is a positive one, and a session comes to QUIT if and
only if it is answered with such responses, whose numbers fit. -/
theorem one_response_per_command {response : List Text} (h : IsResponse response)
    {server reply : List Text → List Text} (hs : Serves server reply) (ha : AnswersEvery reply)
    {c : Pop3Client} (hc : c.control = .greeting) :
    (ReadExactly response ↔ IsPositive response) ∧
      (ReachesQuit server c ↔ OnlyPositive server reply c) :=
  ⟨readExactly_iff h, reachesQuit_iff hs ha hc⟩

instance (command : Text) : Decidable (AsksMultiline command) :=
  decidable_of_iff
    (command = listCmd ∨ command = retrCmd (Nat.ofDigitChars 10 (command.drop 5) 0)) <| by
      refine or_congr Iff.rfl ⟨fun h => ⟨_, h⟩, ?_⟩
      rintro ⟨number, rfl⟩
      have hdrop : (retrCmd number).drop 5 = decimal number := by
        simp [retrCmd, format]
      rw [hdrop, decimal, Nat.ofDigitChars_ten_toDigits]

/-- A server with fixed answers to LIST and RETR, which says yes to everything else. -/
def answering (list retr : List Text) (said : List Text) : List Text :=
  match said.getLast? with
  | none => [positive]
  | some command =>
    if command = listCmd then list else if AsksMultiline command then retr else [positive]

theorem answering_every {list retr : List Text} (hl : IsResponse list) (hr : IsResponse retr) :
    AnswersEvery (answering list retr) where
  greets := ⟨positive, by decide, rfl⟩
  single said command h := by
    have hlist : command ≠ listCmd := fun he => h (Or.inl he)
    exact ⟨positive, by decide, by simp [answering, hlist, h]⟩
  multiline said command h := by
    by_cases hlist : command = listCmd
    · simpa [answering, hlist] using hl
    · simpa [answering, hlist, h] using hr

theorem response_ne_nil {response : List Text} (h : IsResponse response) : response ≠ [] := by
  cases h <;> exact List.cons_ne_nil _ _

theorem replies_ne_nil {reply : List Text → List Text} (h : AnswersEvery reply) (said : List Text) :
    reply said ≠ [] := by
  rcases said.eq_nil_or_concat' with rfl | ⟨before, command, rfl⟩
  · obtain ⟨line, _, hline⟩ := h.greets
    simp [hline]
  · by_cases hm : AsksMultiline command
    · exact response_ne_nil (h.multiline before command hm)
    · obtain ⟨line, _, hline⟩ := h.single before command hm
      simp [hline]

/-- A maildrop with one mail, and what it holds. -/
def oneMail : List Text := [positive, "1 5".toList, endList]

def itsText : List Text := [positive, "Subject: a".toList, [], "b".toList, endList]

theorem oneMail_response : IsResponse oneMail := by
  have h : IsResponse ((positive ++ []) :: (["1 5".toList] ++ [endList])) :=
    .ok (by decide) (by decide)
  exact h

theorem itsText_response : IsResponse itsText := by
  have h : IsResponse ((positive ++ []) :: (["Subject: a".toList, [], "b".toList] ++ [endList])) :=
    .ok (by decide) (by decide)
  exact h

/-- A server that lists a mail and retrieves it. -/
def retrieving : List Text → List Text := inOnePiece (answering oneMail itsText)

theorem retrieving_quits : ReachesQuit retrieving ⟨[], [], [], .greeting⟩ := by
  have greeted : Talks pop3Client retrieving (opening ⟨[], [], [], .greeting⟩ retrieving)
    ⟨⟨[], [], [], .user⟩, [unlines [positive]], [userCmd []], [[positive]]⟩ := rfl
  have named : Talks pop3Client retrieving
    ⟨⟨[], [], [], .user⟩, [unlines [positive]], [userCmd []], [[positive]]⟩
    ⟨⟨[], [], [], .pass⟩, [unlines [positive]], [userCmd [], passCmd []],
      [[positive], [positive]]⟩ := rfl
  have loggedIn : Talks pop3Client retrieving
    ⟨⟨[], [], [], .pass⟩, [unlines [positive]], [userCmd [], passCmd []], [[positive], [positive]]⟩
    ⟨⟨[], [], [], .list⟩, [unlines oneMail], [userCmd [], passCmd [], listCmd],
      [[positive], [positive], [positive]]⟩ := rfl
  have listed : Talks pop3Client retrieving
    ⟨⟨[], [], [], .list⟩, [unlines oneMail], [userCmd [], passCmd [], listCmd],
      [[positive], [positive], [positive]]⟩
    ⟨⟨[], [], [], .retr []⟩, [unlines itsText], [userCmd [], passCmd [], listCmd, retrCmd 1],
      [[positive], [positive], [positive], oneMail]⟩ := rfl
  exact ⟨_, ((((ReflTransGen.single greeted).tail named).tail loggedIn).tail listed).tail rfl,
    by decide⟩

theorem one_response_retrieved : ReadExactly oneMail ∧
    OnlyPositive retrieving (answering oneMail itsText) ⟨[], [], [], .greeting⟩ :=
  have hanswers := answering_every oneMail_response itsText_response
  have h := one_response_per_command oneMail_response
    (inOnePiece_serves (replies_ne_nil hanswers)) hanswers (c := ⟨[], [], [], .greeting⟩) rfl
  ⟨h.1.mpr List.prefix_rfl, h.2.mp retrieving_quits⟩

/-- A server that lists a mail and does not retrieve it. -/
def unretrieving : List Text → List Text := inOnePiece (answering oneMail [negative])

theorem retr_unanswered : IsResponse [negative] ∧ ¬ ReadExactly [negative] ∧
    AnswersEvery (answering oneMail [negative]) ∧
    ¬ ReachesQuit unretrieving ⟨[], [], [], .greeting⟩ := by
  have herr : IsResponse [negative ++ []] := .err (by decide)
  have hanswers := answering_every oneMail_response herr
  have hneg : ¬ IsPositive [negative] := negative_not_positive []
  refine ⟨herr, fun h => hneg ((readExactly_iff herr).mp h), hanswers, fun h => ?_⟩
  have hpos := (reachesQuit_iff (inOnePiece_serves (replies_ne_nil hanswers)) hanswers rfl).mp h
  -- the client logs in, lists the mail and asks for it
  have run : ReflTransGen (Talks pop3Client unretrieving)
      (opening ⟨[], [], [], .greeting⟩ unretrieving)
      ⟨⟨[], [], [], .retr []⟩, [unlines [negative]], [userCmd [], passCmd [], listCmd, retrCmd 1],
        [[positive], [positive], [positive], oneMail]⟩ := by
    have greeted : Talks pop3Client unretrieving (opening ⟨[], [], [], .greeting⟩ unretrieving)
      ⟨⟨[], [], [], .user⟩, [unlines [positive]], [userCmd []], [[positive]]⟩ := rfl
    have named : Talks pop3Client unretrieving
      ⟨⟨[], [], [], .user⟩, [unlines [positive]], [userCmd []], [[positive]]⟩
      ⟨⟨[], [], [], .pass⟩, [unlines [positive]], [userCmd [], passCmd []],
        [[positive], [positive]]⟩ := rfl
    have loggedIn : Talks pop3Client unretrieving
      ⟨⟨[], [], [], .pass⟩, [unlines [positive]], [userCmd [], passCmd []], [[positive], [positive]]⟩
      ⟨⟨[], [], [], .list⟩, [unlines oneMail], [userCmd [], passCmd [], listCmd],
        [[positive], [positive], [positive]]⟩ := rfl
    exact (((ReflTransGen.single greeted).tail named).tail loggedIn).tail rfl
  exact hneg (hpos _ run (Or.inr ⟨[], rfl⟩)).1

end Pop3Client

end Protocols
