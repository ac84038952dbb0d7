import Protocols.Pop3Responses

namespace Protocols

open Regex Relation Conversation

namespace Pop3Client

def Begins (word : String) (command : Text) : Prop := word.toList <+: command

instance (word : String) (command : Text) : Decidable (Begins word command) :=
  inferInstanceAs (Decidable (word.toList <+: command))

/-- The command has the word, and the reply that has been read for it is a positive one. -/
def PositiveAfter (word : String) (j : Nat) (d : Conversation Pop3Client) : Prop :=
  ∃ command reply, d.said[j]? = some command ∧ Begins word command ∧
    d.heard[j + 1]? = some reply ∧ IsPositive reply

/-- The answer is the greeting, or the reply to USER or PASS. -/
def AtLogin (n : Nat) (d : Conversation Pop3Client) : Prop :=
  n = 0 ∨ ∃ k command, n = k + 1 ∧ d.said[k]? = some command ∧
    (Begins "USER" command ∨ Begins "PASS" command)

/-- What the client has said, it has said after the positive replies that allow it, and after a
negative one nothing but QUIT. -/
structure AdvancesOnPositive (d : Conversation Pop3Client) : Prop where
  user : ∀ (k : Nat) command, d.said[k]? = some command → Begins "USER" command →
    ∃ greeting, d.heard[0]? = some greeting ∧ IsPositive greeting
  pass : ∀ (k : Nat) command, d.said[k]? = some command → Begins "PASS" command →
    ∃ j < k, PositiveAfter "USER" j d
  transaction : ∀ (k : Nat) command, d.said[k]? = some command →
    Begins "LIST" command ∨ Begins "RETR" command → ∃ j < k, PositiveAfter "PASS" j d
  refused : ∀ (n : Nat) reply, AtLogin n d → d.heard[n]? = some reply → negative <+: reply.headD [] →
    ∀ (k : Nat) command, n ≤ k → d.said[k]? = some command → command = quitCmd

def Accepted (reply : List Text) : Prop := isOk (reply.headD []) = true

/-- Of the first three lines, one that has the indicator somewhere begins with it, as far as all those
before it have it. -/
def IndicatorsFirst (heard : List (List Text)) : Prop :=
  ∀ n < 3, ∀ reply, heard[n]? = some reply → (∀ other ∈ heard.take (n + 1), Accepted other) →
    IsPositive reply

def logins (c : Pop3Client) : List Text := [userCmd c.username, passCmd c.password, listCmd]

def stages : List Pop3ClientControl := [.greeting, .user, .pass, .list]

/-- The client waits for none of the answers of the login. -/
structure IsPast (c : Pop3Client) : Prop where
  greeting : c.control ≠ .greeting
  user : c.control ≠ .user
  pass : c.control ≠ .pass

/-- How far the client has come: it waits for the greeting or the reply to USER or PASS, has been
refused there, or has passed. -/
inductive LoginStage (d : Conversation Pop3Client) : Prop
  | waiting (n : Nat) : n < 3 → stages[n]? = some d.client.control →
      d.said = (logins d.client).take n → d.heard.length = n →
      (∀ reply ∈ d.heard, Accepted reply) → LoginStage d
  | refused (n : Nat) (refusal : List Text) : n < 3 → d.heard[n]? = some refusal →
      ¬ Accepted refusal → d.client.control = .quit ∨ d.client.control = .ended →
      d.said = (logins d.client).take n ++ [quitCmd] →
      (∀ reply ∈ d.heard.take n, Accepted reply) → LoginStage d
  | passed (more : List Text) : 3 ≤ d.heard.length → IsPast d.client →
      d.said = logins d.client ++ more →
      (∀ command ∈ more, command = quitCmd ∨ ∃ number, command = retrCmd number) →
      (∀ reply ∈ d.heard.take 3, Accepted reply) → LoginStage d

section

variable {c : Pop3Client} {d e : Conversation Pop3Client} {server : List Text → List Text} {n k : Nat}
  {command : Text}

theorem retrieve_logins (c : Pop3Client) (numbers : List Nat) :
    logins (c.retrieve numbers).1 = logins c := by
  cases numbers <;> rfl

theorem hears_logins (c : Pop3Client) (lines : List Text) :
    logins (c.hears lines).1 = logins c := by
  unfold hears
  cases c.control with
  | greeting | user | pass =>
    dsimp only
    split
    next => rfl
    next => rfl
  | list =>
    dsimp only
    split
    next => exact retrieve_logins _ _
    next => rfl
  | retr numbers => exact retrieve_logins _ _
  | quit | ended | failed => rfl

/-- One line of the login. -/
theorem hears_login (hn : n < 3) (hc : stages[n]? = some c.control) (lines : List Text) :
    ∃ next command, stages[n + 1]? = some next ∧ (logins c)[n]? = some command ∧
      c.hears lines =
        if isOk (lines.headD []) then ({ c with control := next }, some command) else c.leave := by
  rcases n with _ | _ | _ | n
  · have hcontrol : c.control = .greeting := (Option.some.inj hc).symm
    exact ⟨.user, userCmd c.username, rfl, rfl, by simp only [hears, hcontrol]⟩
  · have hcontrol : c.control = .user := (Option.some.inj hc).symm
    exact ⟨.pass, passCmd c.password, rfl, rfl, by simp only [hears, hcontrol]⟩
  · have hcontrol : c.control = .pass := (Option.some.inj hc).symm
    exact ⟨.list, listCmd, rfl, rfl, by simp only [hears, hcontrol]⟩
  · omega

theorem retrieve_past (c : Pop3Client) (numbers : List Nat) : IsPast (c.retrieve numbers).1 ∧
    ∀ command ∈ (c.retrieve numbers).2, command = quitCmd ∨ ∃ number, command = retrCmd number := by
  cases numbers with
  | nil => exact ⟨⟨nofun, nofun, nofun⟩, fun command h => Or.inl (Option.some.inj h).symm⟩
  | cons number numbers =>
    exact ⟨⟨nofun, nofun, nofun⟩, fun command h => Or.inr ⟨number, (Option.some.inj h).symm⟩⟩

/-- After the login the client says nothing but RETR and QUIT, and never goes back. -/
theorem hears_past (hc : IsPast c) (hw : c.awaits ≠ none) (lines : List Text) :
    IsPast (c.hears lines).1 ∧
      ∀ command ∈ (c.hears lines).2, command = quitCmd ∨ ∃ number, command = retrCmd number := by
  unfold hears
  cases hcontrol : c.control with
  | greeting => exact absurd hcontrol hc.greeting
  | user => exact absurd hcontrol hc.user
  | pass => exact absurd hcontrol hc.pass
  | list =>
    dsimp only
    split
    next numbers _ => exact retrieve_past c numbers
    next => exact ⟨⟨nofun, nofun, nofun⟩, nofun⟩
  | retr numbers => exact retrieve_past _ numbers
  | quit => exact ⟨⟨nofun, nofun, nofun⟩, nofun⟩
  | ended | failed => simp [awaits, hcontrol] at hw

theorem LoginStage.step (h : LoginStage d) (hs : Talks pop3Client server d e) : LoginStage e := by
  obtain ⟨ends, lines, _, hw, _, hclient, hsaid, hheard⟩ := talks_cases hs
  have hlogins : logins e.client = logins d.client := by
    rw [hclient]
    exact hears_logins d.client lines
  cases h with
  | waiting n hn hc hd hlen hall =>
    obtain ⟨next, command, hnext, hcommand, hhears⟩ := hears_login hn hc lines
    have hclient' : e.client = (d.client.hears lines).1 := hclient
    have hsaid' : e.said = d.said ++ (d.client.hears lines).2.toList := hsaid
    rw [hhears] at hclient' hsaid'
    by_cases hok : isOk (lines.headD []) = true
    · rw [if_pos hok] at hclient' hsaid'
      have htake : e.said = (logins e.client).take (n + 1) := by
        rw [hsaid', hd, hlogins, List.take_add_one, hcommand]
      have hall' : ∀ reply ∈ e.heard, Accepted reply := by
        rw [hheard]
        exact List.forall_mem_append.mpr ⟨hall, List.forall_mem_singleton.mpr hok⟩
      have hlen' : e.heard.length = n + 1 := by
        rw [hheard, List.length_append, hlen, List.length_singleton]
      by_cases hlast : n + 1 = 3
      · obtain rfl : n = 2 := by omega
        have hpast : IsPast e.client := by
          rw [hclient', ← Option.some.inj hnext]
          exact ⟨nofun, nofun, nofun⟩
        refine .passed [] hlen'.ge hpast ?_ nofun fun reply hr => hall' reply (List.mem_of_mem_take hr)
        rw [htake, List.append_nil]
        rfl
      · exact .waiting (n + 1) (by omega) (by rw [hclient']; exact hnext) htake hlen' hall'
    · rw [if_neg hok] at hclient' hsaid'
      refine .refused n lines hn ?_ hok (Or.inl (by rw [hclient']; rfl)) ?_ ?_
      · rw [hheard, ← hlen, List.getElem?_concat_length]
      · rw [hsaid', hd, hlogins]
        rfl
      · rw [hheard, List.take_append_of_le_length hlen.ge]
        exact fun reply hr => hall reply (List.mem_of_mem_take hr)
  | refused n refusal hn hr hrefused hc hd hall =>
    have hlt : n < d.heard.length := (List.getElem?_eq_some_iff.mp hr).1
    rcases hc with hc | hc
    · have hhears : d.client.hears lines = ({ d.client with control := .ended }, none) := by
        simp only [hears, hc]
      have hclient' : e.client = (d.client.hears lines).1 := hclient
      have hsaid' : e.said = d.said ++ (d.client.hears lines).2.toList := hsaid
      rw [hhears] at hclient' hsaid'
      refine .refused n refusal hn ?_ hrefused (Or.inr (by rw [hclient'])) ?_ ?_
      · rw [hheard, List.getElem?_append_left hlt, hr]
      · rw [hsaid', hd, hlogins, Option.toList_none, List.append_nil]
      · rw [hheard, List.take_append_of_le_length hlt.le]
        exact hall
    · have hnone : d.client.awaits = some ends := hw
      simp [awaits, hc] at hnone
  | passed more hlen hc hd hmore hall =>
    have hw' : d.client.awaits = some ends := hw
    obtain ⟨hpast, hsays⟩ := hears_past hc (by simp [hw']) lines
    refine .passed (more ++ (d.client.hears lines).2.toList) ?_ ?_ ?_ ?_ ?_
    · rw [hheard, List.length_append]
      exact Nat.le_add_right_of_le hlen
    · rw [hclient]
      exact hpast
    · have hsaid' : e.said = d.said ++ (d.client.hears lines).2.toList := hsaid
      rw [hsaid', hd, hlogins, List.append_assoc]
    · exact List.forall_mem_append.mpr ⟨hmore, fun command hm => hsays command (by simpa using hm)⟩
    · rw [hheard, List.take_append_of_le_length hlen]
      exact hall

theorem login_stage (hc : c.control = .greeting)
    (run : ReflTransGen (Talks pop3Client server) (opening c server) d) : LoginStage d := by
  have start : LoginStage (opening c server) :=
    .waiting 0 (by decide) (congrArg some hc.symm) rfl rfl nofun
  exact reaches_invariant run start fun _ _ h hs => h.step hs

/-- What the client has said, and what it has heard before. -/
theorem LoginStage.said_cases (h : LoginStage d) (hk : d.said[k]? = some command) :
    command = quitCmd ∨
    (k < 3 ∧ (logins d.client)[k]? = some command ∧ k < d.heard.length ∧
      ∀ reply ∈ d.heard.take (k + 1), Accepted reply) ∨
    (3 ≤ k ∧ (∃ number, command = retrCmd number) ∧ 3 ≤ d.heard.length ∧
      ∀ reply ∈ d.heard.take 3, Accepted reply) := by
  have taken : ∀ n, n < 3 → n ≤ d.heard.length → (∀ reply ∈ d.heard.take n, Accepted reply) →
      ((logins d.client).take n)[k]? = some command →
      k < 3 ∧ (logins d.client)[k]? = some command ∧ k < d.heard.length ∧
        ∀ reply ∈ d.heard.take (k + 1), Accepted reply := by
    intro n hn hlen hall htake
    have hlt : k < n := by
      have hlt := (List.getElem?_eq_some_iff.mp htake).1
      rw [List.length_take] at hlt
      omega
    rw [List.getElem?_take_of_lt hlt] at htake
    exact ⟨by omega, htake, by omega, fun reply hr => hall reply (List.take_subset_take_left _ hlt hr)⟩
  cases h with
  | waiting n hn hc hd hlen hall =>
    rw [hd] at hk
    exact Or.inr (Or.inl (taken n hn hlen.ge (fun reply hr => hall reply (List.mem_of_mem_take hr)) hk))
  | refused n refusal hn hr hrefused hc hd hall =>
    have hlt : n < d.heard.length := (List.getElem?_eq_some_iff.mp hr).1
    rw [hd] at hk
    rcases List.mem_append.mp (List.mem_of_getElem? hk) with hin | hin
    · by_cases hlast : k < ((logins d.client).take n).length
      · rw [List.getElem?_append_left hlast] at hk
        exact Or.inr (Or.inl (taken n hn hlt.le hall hk))
      · rw [List.getElem?_append_right (by omega)] at hk
        exact Or.inl (List.mem_singleton.mp (List.mem_of_getElem? hk))
    · exact Or.inl (List.mem_singleton.mp hin)
  | passed more hlen hc hd hmore hall =>
    rw [hd] at hk
    have hthree : (logins d.client).length = 3 := rfl
    by_cases hlt : k < 3
    · rw [List.getElem?_append_left (by omega)] at hk
      exact Or.inr (Or.inl ⟨hlt, hk, by omega,
        fun reply hr => hall reply (List.take_subset_take_left _ hlt hr)⟩)
    · rw [List.getElem?_append_right (by omega)] at hk
      rcases hmore command (List.mem_of_getElem? hk) with hquit | hretr
      · exact Or.inl hquit
      · exact Or.inr (Or.inr ⟨by omega, hretr, hlen, hall⟩)

/-- The client goes on from a line that it accepts. -/
theorem LoginStage.said_accepted (h : LoginStage d) (hn : n < 3) (hlen : n < d.heard.length)
    (hall : ∀ reply ∈ d.heard.take (n + 1), Accepted reply) :
    d.said[n]? = (logins d.client)[n]? := by
  have hthree : (logins d.client).length = 3 := rfl
  cases h with
  | waiting m hm hc hd hlen' _ => rw [hd, List.getElem?_take_of_lt (by omega)]
  | refused m refusal hm hr hrefused hc hd _ =>
    have hlt : n < m := by
      by_contra hle
      refine hrefused (hall refusal (List.mem_iff_getElem?.mpr ⟨m, ?_⟩))
      rw [List.getElem?_take_of_lt (by omega), hr]
    rw [hd, List.getElem?_append_left (by rw [List.length_take]; omega), List.getElem?_take_of_lt hlt]
  | passed more hlen' hc hd _ _ => rw [hd, List.getElem?_append_left (by omega)]

theorem begins_head {word : String} {x : Char} {rest : Text} (hw : word.toList = x :: rest)
    (h : Begins word command) : command.head? = some x := by
  obtain ⟨more, rfl⟩ := h
  rw [hw]
  rfl

/-- The first letter of a command of the login tells where it stands. -/
theorem login_letter {x : Char} (hk : (logins c)[k]? = some command) (hx : command.head? = some x) :
    (x = 'U' ∧ k = 0) ∨ (x = 'P' ∧ k = 1) ∨ (x = 'L' ∧ k = 2) := by
  rcases k with _ | _ | _ | k
  · cases hk
    exact Or.inl ⟨(Option.some.inj hx).symm, rfl⟩
  · cases hk
    exact Or.inr (Or.inl ⟨(Option.some.inj hx).symm, rfl⟩)
  · cases hk
    exact Or.inr (Or.inr ⟨(Option.some.inj hx).symm, rfl⟩)
  · cases hk

theorem LoginStage.said_login (h : LoginStage d) (hk : d.said[k]? = some command) {x : Char}
    (hx : command.head? = some x) (hq : x ≠ 'Q') (hr : x ≠ 'R') :
    ((x = 'U' ∧ k = 0) ∨ (x = 'P' ∧ k = 1) ∨ (x = 'L' ∧ k = 2)) ∧ k < d.heard.length ∧
      ∀ reply ∈ d.heard.take (k + 1), Accepted reply := by
  rcases h.said_cases hk with rfl | ⟨hlt, hlogin, hrest⟩ | ⟨_, ⟨number, rfl⟩, _⟩
  · exact absurd (Option.some.inj hx).symm hq
  · exact ⟨login_letter hlogin hx, hrest⟩
  · exact absurd (Option.some.inj hx).symm hr

theorem negative_excludes {line : Text} (h : negative <+: line) : ¬ positive <+: line := by
  obtain ⟨rest, rfl⟩ := h
  exact negative_not_positive rest

/-- The client is past USER and PASS, and has accepted what it has heard. -/
theorem LoginStage.passed_positive (h : LoginStage d) (hfirst : IndicatorsFirst d.heard)
    (hlen : 2 < d.heard.length) (hall : ∀ reply ∈ d.heard.take 3, Accepted reply) :
    PositiveAfter "PASS" 1 d := by
  have hsaid := h.said_accepted (n := 1) (by decide) (by omega) fun reply hr =>
    hall reply (List.take_subset_take_left _ (by decide) hr)
  have hreply := List.getElem?_eq_getElem hlen
  exact ⟨passCmd d.client.password, _, hsaid, List.prefix_append _ _, hreply,
    hfirst 2 (by decide) _ hreply hall⟩

theorem LoginStage.advances (h : LoginStage d) (hfirst : IndicatorsFirst d.heard) :
    AdvancesOnPositive d := by
  refine ⟨fun k command hk hb => ?_, fun k command hk hb => ?_, fun k command hk hb => ?_,
    fun n reply hat hn hneg k command hle hk => ?_⟩
  · obtain ⟨_, hlen, hall⟩ := h.said_login hk (begins_head (x := 'U') rfl hb) (by decide) (by decide)
    have hreply := List.getElem?_eq_getElem (Nat.zero_lt_of_lt hlen)
    exact ⟨_, hreply, hfirst 0 (by decide) _ hreply fun other ho =>
      hall other (List.take_subset_take_left _ (by omega) ho)⟩
  · obtain ⟨hletter, hlen, hall⟩ := h.said_login hk (begins_head (x := 'P') rfl hb) (by decide) (by decide)
    obtain rfl : k = 1 := by simpa using hletter
    have hsaid := h.said_accepted (n := 0) (by decide) (by omega) fun reply hr =>
      hall reply (List.take_subset_take_left _ (by decide) hr)
    have hreply := List.getElem?_eq_getElem hlen
    exact ⟨0, by decide, userCmd d.client.username, _, hsaid, List.prefix_append _ _, hreply,
      hfirst 1 (by decide) _ hreply hall⟩
  · rcases hb with hb | hb
    · obtain ⟨hletter, hlen, hall⟩ := h.said_login hk (begins_head (x := 'L') rfl hb) (by decide) (by decide)
      obtain rfl : k = 2 := by simpa using hletter
      exact ⟨1, by decide, h.passed_positive hfirst hlen hall⟩
    · have hletter := begins_head (x := 'R') rfl hb
      rcases h.said_cases hk with rfl | ⟨_, hlogin, _⟩ | ⟨hle, _, hlen, hall⟩
      · exact absurd hletter (by decide)
      · exact absurd (login_letter hlogin hletter) (by simp)
      · exact ⟨1, by omega, h.passed_positive hfirst hlen hall⟩
  · have hlt : n < 3 := by
      rcases hat with rfl | ⟨j, other, rfl, hj, hb | hb⟩
      · decide
      · have hletter := (h.said_login hj (begins_head (x := 'U') rfl hb) (by decide) (by decide)).1
        obtain rfl : j = 0 := by simpa using hletter
        decide
      · have hletter := (h.said_login hj (begins_head (x := 'P') rfl hb) (by decide) (by decide)).1
        obtain rfl : j = 1 := by simpa using hletter
        decide
    -- the client would not have gone on from a line that it does not accept
    have accepted : ∀ m, n < m → (∀ other ∈ d.heard.take m, Accepted other) → False := by
      intro m hm hall
      refine negative_excludes hneg (hfirst n hlt reply hn fun other ho => hall other ?_)
      exact List.take_subset_take_left _ hm ho
    rcases h.said_cases hk with rfl | ⟨_, _, _, hall⟩ | ⟨_, _, _, hall⟩
    · rfl
    · exact (accepted (k + 1) (by omega) hall).elim
    · exact (accepted 3 hlt hall).elim

theorem LoginStage.indicators (h : LoginStage d) (ha : AdvancesOnPositive d) :
    IndicatorsFirst d.heard := by
  intro n hn reply hreply hall
  have hlen : n < d.heard.length := (List.getElem?_eq_some_iff.mp hreply).1
  have said : ∀ m ≤ n, d.said[m]? = (logins d.client)[m]? := fun m hm =>
    h.said_accepted (by omega) (by omega) fun other ho =>
      hall other (List.take_subset_take_left _ (by omega) ho)
  rcases n with _ | _ | _ | n
  · obtain ⟨greeting, hgreeting, hpos⟩ := ha.user 0 _ (said 0 le_rfl) (List.prefix_append _ _)
    cases hreply.symm.trans hgreeting
    exact hpos
  · obtain ⟨j, hj, _, reply', _, _, hreply', hpos⟩ :=
      ha.pass 1 _ (said 1 le_rfl) (List.prefix_append _ _)
    obtain rfl : j = 0 := by omega
    cases hreply.symm.trans hreply'
    exact hpos
  · obtain ⟨j, hj, command, reply', hcommand, hb, hreply', hpos⟩ :=
      ha.transaction 2 _ (said 2 le_rfl) (Or.inl (List.prefix_append _ _))
    rcases j with _ | _ | j
    · rw [said 0 (by decide)] at hcommand
      exact absurd (login_letter hcommand (begins_head (x := 'P') rfl hb)) (by simp)
    · cases hreply.symm.trans hreply'
      exact hpos
    · omega
  · omega

/-- The client has gone on after positive replies only if and only if of its first three lines those
that it accepted began with the indicator. -/
theorem advances_iff (hc : c.control = .greeting)
    (run : ReflTransGen (Talks pop3Client server) (opening c server) d) :
    AdvancesOnPositive d ↔ IndicatorsFirst d.heard :=
  ⟨(login_stage hc run).indicators, (login_stage hc run).advances⟩

end

/-- A server that greets and never says anything else. -/
def greets (greeting : Text) (said : List Text) : List Text :=
  if said = [] then [unlines [greeting]] else []

/-- The client when it has heard a greeting that it accepts. -/
def greeted (greeting : Text) : Conversation Pop3Client :=
  ⟨⟨[], [], [], .user⟩, [], [userCmd []], [[greeting]]⟩

theorem advances_greeted :
    AdvancesOnPositive (greeted positive) ↔ IndicatorsFirst (greeted positive).heard := by
  have hnext : Talks pop3Client (greets positive)
      (opening ⟨[], [], [], .greeting⟩ (greets positive)) (greeted positive) := rfl
  exact advances_iff rfl (.single hnext)

/-- A greeting that refuses and is accepted. -/
theorem refusal_accepted : ∃ d, ReflTransGen (Talks pop3Client (greets "-ERR no +OK".toList))
    (opening ⟨[], [], [], .greeting⟩ (greets "-ERR no +OK".toList)) d ∧ ¬ AdvancesOnPositive d := by
  have hnext : Talks pop3Client (greets "-ERR no +OK".toList)
      (opening ⟨[], [], [], .greeting⟩ (greets "-ERR no +OK".toList))
      (greeted "-ERR no +OK".toList) := rfl
  refine ⟨greeted "-ERR no +OK".toList, .single hnext, fun h => ?_⟩
  have hquit := h.refused 0 ["-ERR no +OK".toList] (Or.inl rfl) rfl (by decide) 0 _ le_rfl rfl
  exact absurd hquit (by decide)

end Pop3Client

end Protocols
