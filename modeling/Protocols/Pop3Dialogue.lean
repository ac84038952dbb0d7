import Protocols.MailPairing
import Protocols.Pop3Responses
import Protocols.RegexWords

namespace Protocols

open Regex Pop3Client

/-- The letter that the requests of a command begin with. -/
def Pop3Command.letter : Pop3Command → Option Char
  | .user => some 'u'
  | .pass => some 'p'
  | .list => some 'l'
  | .quit => some 'q'
  | .unknown => none

/-- The session reads a request in the authorization state, or goes on to do so. -/
structure Pop3Session.LoggingIn (s : Pop3Session) (username : Text) : Prop where
  named : s.user = [] ∨ s.user = username
  control : s.control = .writing (.next .authorization) ∨
    (s.control = .reading ∧ s.state = .authorization)

/-- The session has accepted a PASS for the user, and answers no LIST. -/
structure Pop3Session.LoggedIn (s : Pop3Session) (username : Text) : Prop where
  named : s.user = username
  control : s.control = .writing .begin ∨ (s.state = .transaction ∧
    (s.control = .writing (.next .transaction) ∨ s.control = .reading))

theorem lit_letter {str : String} {length : Nat} {line t : Text} {c : Char}
    (h : Matches length (lit str) line t) (hstr : (str.toList.map Char.toLower).head? = some c) :
    line.head?.map Char.toLower = some c := by
  obtain ⟨taken, rfl, htaken⟩ := matches_lit h
  rw [← htaken] at hstr
  cases taken with
  | nil => cases hstr
  | cons x taken => exact hstr

/-- A request of a command begins with its letter. -/
theorem pop3ParseRequest_letter (line : Text) : (pop3ParseRequest line).1 = .unknown ∨
    line.head?.map Char.toLower = (pop3ParseRequest line).1.letter := by
  rcases firstMatch_cases Pop3Command.unknown pop3CommandParser line with
    ⟨p, hp, arguments, hmatch, hfirst⟩ | hnone
  · right
    have hsome : Matches line.length p.1 line [] := regexMatch_isSome.mp (by rw [hmatch]; rfl)
    rw [pop3ParseRequest, hfirst]
    simp only [pop3CommandParser, List.mem_cons, List.not_mem_nil, or_false] at hp
    rcases hp with rfl | rfl | rfl | rfl
    all_goals
      obtain ⟨t, hbol, hrest⟩ := matches_seq.mp hsome
      rw [matches_bol hbol] at hrest
      obtain ⟨u, hlit, _⟩ := matches_seq.mp hrest
      exact lit_letter hlit (by decide)
  · left
    rw [pop3ParseRequest, firstMatch_none hnone]

theorem parsed_by_letter {line : Text} {c : Char} {command : Pop3Command}
    (h : line.head?.map Char.toLower = some c) (hne : ∀ other, other.letter = some c → other = command) :
    (pop3ParseRequest line).1 = command ∨ (pop3ParseRequest line).1 = .unknown := by
  rcases pop3ParseRequest_letter line with hu | hl
  · exact Or.inr hu
  · exact Or.inl (hne _ (hl.symm.trans h))

theorem userCmd_parsed (user : Text) : (pop3ParseRequest (userCmd user)).1 = .user ∨
    (pop3ParseRequest (userCmd user)).1 = .unknown := by
  refine parsed_by_letter (c := 'u') (by simp [userCmd, format]) fun other h => ?_
  cases other <;> simp [Pop3Command.letter] at h ⊢

theorem passCmd_parsed (pass : Text) : (pop3ParseRequest (passCmd pass)).1 = .pass ∨
    (pop3ParseRequest (passCmd pass)).1 = .unknown := by
  refine parsed_by_letter (c := 'p') (by simp [passCmd, format]) fun other h => ?_
  cases other <;> simp [Pop3Command.letter] at h ⊢

/-- The server has no RETR. -/
theorem retrCmd_parsed (number : Nat) : (pop3ParseRequest (retrCmd number)).1 = .unknown := by
  have h : (pop3ParseRequest (retrCmd number)).1 = .unknown ∨
      (pop3ParseRequest (retrCmd number)).1 = .unknown := by
    refine parsed_by_letter (c := 'r') (by simp [retrCmd, format]) fun other h => ?_
    cases other <;> simp [Pop3Command.letter] at h ⊢
  exact h.elim id id

theorem listCmd_parsed : pop3ParseRequest listCmd = (.list, [listCmd, []]) := by decide +kernel

theorem quitCmd_parsed : (pop3ParseRequest quitCmd).1 = .quit := by decide +kernel

/-- What a USER of the client names. -/
theorem userCmd_names {user : Text} {arguments : List Text}
    (h : pop3ParseRequest (userCmd user) = (.user, arguments)) : str arguments 1 = user := by
  have hline : userCmd user = "USER ".toList ++ user := by simp [userCmd, format]
  rcases firstMatch_cases Pop3Command.unknown pop3CommandParser (userCmd user) with
    ⟨p, hp, arguments', hmatch, hfirst⟩ | hnone
  · rw [pop3ParseRequest, hfirst] at h
    obtain ⟨hcommand, rfl⟩ := Prod.mk.inj h
    simp only [pop3CommandParser, List.mem_cons, List.not_mem_nil, or_false] at hp
    rcases hp with rfl | rfl | rfl | rfl
    · obtain ⟨q, hq, rfl⟩ := Option.map_eq_some_iff.mp hmatch
      rw [hline, find_line_append _ (by decide)] at hq
      have hend : q.1 = [] := by simpa using List.find?_some hq
      obtain ⟨w, _, hs, hcapture⟩ := mem_run_group (by decide) rfl (List.mem_of_find?_eq_some hq)
      rw [hs, hend, hcapture, List.append_nil]
      rfl
    · cases hcommand
    · cases hcommand
    · cases hcommand
  · rw [pop3ParseRequest, firstMatch_none hnone] at h
    cases h

section

variable {s : Pop3Session} {line : Text}

/-- What USER is answered. -/
theorem user_replied (storage : MailStorage) (hs : s.state = .authorization)
    (hp : (pop3ParseRequest line).1 = .user ∨ (pop3ParseRequest line).1 = .unknown) :
    ∃ reply t, s.request storage line = (storage, t, [.sent reply]) ∧
      t.control = .writing (.next .authorization) ∧ CrlfFree reply ∧
      (t.user = s.user ∨ ∃ arguments, pop3ParseRequest line = (.user, arguments) ∧
        t.user = str arguments 1) := by
  unfold Pop3Session.request
  rw [hs]
  rcases hparse : pop3ParseRequest line with ⟨command, arguments⟩
  rw [hparse] at hp
  rcases hp with rfl | rfl
  · dsimp only [Pop3Session.authorization]
    split
    next => exact ⟨negative, _, rfl, rfl, by decide, Or.inl rfl⟩
    next =>
      split
      next => exact ⟨noUser, _, rfl, rfl, by decide, Or.inl rfl⟩
      next => exact ⟨positive, _, rfl, rfl, by decide, Or.inr ⟨_, rfl, rfl⟩⟩
  · exact ⟨negative, _, rfl, rfl, by decide, Or.inl rfl⟩

/-- What PASS is answered: the session goes on, has a user and enters, or ends. -/
theorem pass_replied (storage : MailStorage) (hs : s.state = .authorization)
    (hp : (pop3ParseRequest line).1 = .pass ∨ (pop3ParseRequest line).1 = .unknown) :
    (∃ reply t, s.request storage line = (storage, t, [.sent reply]) ∧ t.user = s.user ∧
      t.control = .writing (.next .authorization) ∧ CrlfFree reply ∧ isOk reply = false) ∨
    (∃ storage' t, s.request storage line = (storage', t, [.sent positive]) ∧ t.user = s.user ∧
      s.user ≠ [] ∧ t.control = .writing .begin) ∨
    s.request storage line = s.finish storage := by
  unfold Pop3Session.request
  rw [hs]
  rcases hparse : pop3ParseRequest line with ⟨command, arguments⟩
  rw [hparse] at hp
  rcases hp with rfl | rfl
  · dsimp only [Pop3Session.authorization]
    split
    next => exact Or.inl ⟨negative, _, rfl, rfl, rfl, by decide, by decide⟩
    next huser =>
      split
      next => exact Or.inr (Or.inr rfl)
      next =>
        split
        next => exact Or.inl ⟨alreadyLocked, _, rfl, rfl, rfl, by decide, by decide⟩
        next => exact Or.inr (Or.inl ⟨_, _, rfl, rfl, huser, rfl⟩)
  · exact Or.inl ⟨negative, _, rfl, rfl, rfl, by decide, by decide⟩

theorem list_replied (storage : MailStorage) (hs : s.state = .transaction) :
    (∃ storage' mails, s.request storage listCmd = s.tell storage' (listOk mails) (.scan 0)) ∨
    ∃ storage', s.request storage listCmd = s.finish storage' := by
  unfold Pop3Session.request
  rw [hs, listCmd_parsed]
  dsimp only [Pop3Session.transaction, Pop3Session.list]
  split
  next => exact Or.inr ⟨_, rfl⟩
  next mails _ =>
    rw [if_neg (by simp [str])]
    exact Or.inl ⟨_, mails, rfl⟩

theorem retr_replied (storage : MailStorage) (hs : s.state = .transaction) (number : Nat) :
    s.request storage (retrCmd number) = s.reply storage negative (.next .transaction) := by
  unfold Pop3Session.request
  have hp := retrCmd_parsed number
  rcases hparse : pop3ParseRequest (retrCmd number) with ⟨command, arguments⟩
  rw [hparse] at hp
  rw [hs, show command = .unknown from hp]
  rfl

theorem quit_replied (storage : MailStorage) (hs : s.state = .authorization ∨ s.state = .transaction) :
    s.request storage quitCmd = s.reply storage quitting (.next .quit) := by
  unfold Pop3Session.request
  have hp := quitCmd_parsed
  rcases hparse : pop3ParseRequest quitCmd with ⟨command, arguments⟩
  rw [hparse] at hp
  rw [show command = .quit from hp]
  rcases hs with hs | hs
  · rw [hs]
    rfl
  · rw [hs]
    rfl

theorem scan_replied (storage : MailStorage) (s : Pop3Session) (i : Nat) :
    (∃ mail, s.scan storage i = s.tell storage (listEntry i mail) (.scan (i + 1))) ∨
    s.scan storage i = s.reply storage listEnd (.next .transaction) ∨
    s.scan storage i = s.finish storage := by
  unfold Pop3Session.scan
  split
  next => exact Or.inr (Or.inr rfl)
  next =>
    split
    next mail _ => exact Or.inl ⟨mail, rfl⟩
    next => exact Or.inr (Or.inl rfl)

end

/-- The client waits for the reply to a command, which the session has not read. -/
inductive Pop3Asked (c : Pop3Client) (s : Pop3Session) : Text → Prop
  | user : c.control = .user → s.LoggingIn c.username → Pop3Asked c s (userCmd c.username)
  | pass : c.control = .pass → s.LoggingIn c.username → Pop3Asked c s (passCmd c.password)
  | list : c.control = .list → s.LoggedIn c.username → Pop3Asked c s listCmd
  | retr {number numbers} : c.control = .retr numbers → s.LoggedIn c.username →
      Pop3Asked c s (retrCmd number)
  | quit : c.control = .quit → s.LoggingIn c.username ∨ s.LoggedIn c.username →
      Pop3Asked c s quitCmd

/-- The session has sent a line, which the client has not read. -/
inductive Pop3Replied (c : Pop3Client) (s : Pop3Session) : Text → Prop
  | greeting : c.control = .greeting → s.LoggingIn c.username → Pop3Replied c s pop3Greeting
  | user {reply} : c.control = .user → s.LoggingIn c.username → CrlfFree reply →
      Pop3Replied c s reply
  | refused {reply} : c.control = .pass → s.LoggingIn c.username → CrlfFree reply →
      isOk reply = false → Pop3Replied c s reply
  | accepted : c.control = .pass → s.LoggedIn c.username → Pop3Replied c s positive
  | retr {numbers} : c.control = .retr numbers → s.LoggedIn c.username → Pop3Replied c s negative
  | quit : c.control = .quit → s.control = .writing (.next .quit) → Pop3Replied c s quitting

/-- Where the client and its session stand, what the session has not read and what the client has not
read. -/
inductive Pop3Stage (c : Pop3Client) (s : Pop3Session) : Text → Text → Prop
  | fresh : c.control = .greeting → s.control = .spawned → s.user = [] → Pop3Stage c s [] []
  | asked {line} : Pop3Asked c s line → Pop3Stage c s (unlines [line]) []
  | replied {line} : Pop3Replied c s line → Pop3Stage c s [] (unlines [line])
  | listing {lines i} : c.control = .list → s.state = .transaction → s.user = c.username →
      s.control = .writing (.scan i) → (∀ line ∈ lines, CrlfFree line ∧ line ≠ endList) →
      Pop3Stage c s [] (unlines lines)
  | listed {lines} : c.control = .list → s.LoggedIn c.username →
      (∀ line ∈ lines, CrlfFree line ∧ line ≠ endList) →
      Pop3Stage c s [] (unlines (lines ++ [endList]))
  | gone {up down} : c.control = .ended ∨ c.control = .failed → Pop3Stage c s up down

theorem decimal_no_break {n : Nat} {c : Char} (hc : c ∈ decimal n) : c ≠ '\r' := by
  rintro rfl
  exact absurd (digit_decimal hc) (by decide)

theorem decimalInt_no_break {n : Int} {c : Char} (hc : c ∈ decimalInt n) : c ≠ '\r' := by
  unfold decimalInt at hc
  split at hc
  next =>
    rcases List.mem_cons.mp hc with rfl | hc
    · decide
    · exact decimal_no_break hc
  next => exact decimal_no_break hc

theorem listOk_line (mails : List Mail) : CrlfFree (listOk mails) ∧ listOk mails ≠ endList := by
  constructor
  · refine crlfFree_of_not_mem fun h => ?_
    have hdigits : '\r' ∈ decimal mails.length ∨ '\r' ∈ decimalInt (octets mails) := by
      simpa [listOk, format] using h
    exact hdigits.elim (fun hc => decimal_no_break hc rfl) fun hc => decimalInt_no_break hc rfl
  · intro h
    simp [listOk, format, endList] at h

theorem listEntry_line (i : Nat) (mail : Mail) :
    CrlfFree (listEntry i mail) ∧ listEntry i mail ≠ endList := by
  constructor
  · refine crlfFree_of_not_mem fun h => ?_
    have hdigits : '\r' ∈ decimal (i + 1) ∨ '\r' ∈ decimal (getMessageSize mail.message) := by
      simpa [listEntry, format] using h
    exact hdigits.elim (fun hc => decimal_no_break hc rfl) fun hc => decimal_no_break hc rfl
  · intro h
    have hspace : ' ' ∈ listEntry i mail := by simp [listEntry, format]
    rw [h] at hspace
    simp [endList] at hspace

section

variable {c : Pop3Client} {s t : Pop3Session} {up down : Text} {storage storage' : MailStorage}
  {out : List SessionEvent}

theorem Pop3Session.LoggingIn.reads {username : Text} (h : s.LoggingIn username)
    (hc : s.control = .reading) : s.state = .authorization := by
  rcases h.control with h | ⟨_, h⟩
  · simp [h] at hc
  · exact h

theorem Pop3Session.LoggedIn.reads {username : Text} (h : s.LoggedIn username)
    (hc : s.control = .reading) : s.state = .transaction := by
  rcases h.control with h | ⟨h, _⟩
  · simp [h] at hc
  · exact h

theorem Pop3Session.LoggingIn.written {username : Text} {after : Pop3After}
    (h : s.LoggingIn username) (hc : s.control = .writing after)
    (hr : s.replied storage after = (storage', t, out)) : out = [] ∧ t.LoggingIn username := by
  rcases h.control with h' | ⟨h', _⟩
  · rw [h'] at hc
    cases hc
    cases hr
    exact ⟨rfl, h.named, Or.inr ⟨rfl, rfl⟩⟩
  · simp [h'] at hc

theorem Pop3Session.LoggedIn.written {username : Text} {after : Pop3After}
    (h : s.LoggedIn username) (hc : s.control = .writing after)
    (hr : s.replied storage after = (storage', t, out)) : out = [] ∧ t.LoggedIn username := by
  rcases h.control with h' | ⟨_, h' | h'⟩
  · rw [h'] at hc
    cases hc
    cases hr
    exact ⟨rfl, h.named, Or.inr ⟨rfl, Or.inr rfl⟩⟩
  · rw [h'] at hc
    cases hc
    cases hr
    exact ⟨rfl, h.named, Or.inr ⟨rfl, Or.inr rfl⟩⟩
  · simp [h'] at hc

theorem Pop3Asked.written {line : Text} {after : Pop3After} (h : Pop3Asked c s line)
    (hc : s.control = .writing after) (hr : s.replied storage after = (storage', t, out)) :
    out = [] ∧ Pop3Asked c t line := by
  cases h with
  | user hcl hl => exact (hl.written hc hr).imp_right (.user hcl)
  | pass hcl hl => exact (hl.written hc hr).imp_right (.pass hcl)
  | list hcl hl => exact (hl.written hc hr).imp_right (.list hcl)
  | retr hcl hl => exact (hl.written hc hr).imp_right (.retr hcl)
  | quit hcl hl =>
    rcases hl with hl | hl
    · exact (hl.written hc hr).imp_right fun hl => .quit hcl (Or.inl hl)
    · exact (hl.written hc hr).imp_right fun hl => .quit hcl (Or.inr hl)

theorem Pop3Replied.written {line : Text} {after : Pop3After} (h : Pop3Replied c s line)
    (hc : s.control = .writing after) (hr : s.replied storage after = (storage', t, out)) :
    out = [] ∧ (Pop3Replied c t line ∨ t.control = .ended) := by
  cases h with
  | greeting hcl hl => exact (hl.written hc hr).imp_right fun hl => Or.inl (.greeting hcl hl)
  | user hcl hl hfree => exact (hl.written hc hr).imp_right fun hl => Or.inl (.user hcl hl hfree)
  | refused hcl hl hfree hok =>
    exact (hl.written hc hr).imp_right fun hl => Or.inl (.refused hcl hl hfree hok)
  | accepted hcl hl => exact (hl.written hc hr).imp_right fun hl => Or.inl (.accepted hcl hl)
  | retr hcl hl => exact (hl.written hc hr).imp_right fun hl => Or.inl (.retr hcl hl)
  | quit hcl hquit =>
    rw [hquit] at hc
    cases hc
    cases hr
    exact ⟨rfl, Or.inr rfl⟩

/-- The session goes on when its line has been written. -/
theorem Pop3Stage.written (h : Pop3Stage c s up down) {after : Pop3After}
    (hc : s.control = .writing after) (hr : s.replied storage after = (storage', t, out)) :
    Pop3Stage c t up (down ++ unlines (saidLines out)) ∨ (t.control = .ended ∧ out = []) := by
  cases h with
  | fresh _ hs => simp [hs] at hc
  | asked ha =>
    obtain ⟨rfl, ha'⟩ := ha.written hc hr
    exact Or.inl (.asked ha')
  | replied hl =>
    obtain ⟨rfl, hl' | hend⟩ := hl.written hc hr
    · exact Or.inl (by simpa [saidLines] using .replied hl')
    · exact Or.inr ⟨hend, rfl⟩
  | @listing lines i hcl hstate huser hscan hlines =>
    rw [hscan] at hc
    cases hc
    rcases scan_replied storage s i with ⟨mail, he⟩ | he | he
    · cases hr.symm.trans he
      rw [show saidLines [.listed s.user (listEntry i mail)] = [listEntry i mail] from rfl,
        ← unlines_append]
      refine Or.inl (.listing hcl hstate huser rfl ?_)
      exact List.forall_mem_append.mpr ⟨hlines, by simpa using listEntry_line i mail⟩
    · cases hr.symm.trans he
      rw [show saidLines [.sent listEnd] = [endList] from rfl, ← unlines_append]
      exact Or.inl (.listed hcl ⟨huser, Or.inr ⟨hstate, Or.inl rfl⟩⟩ hlines)
    · cases hr.symm.trans he
      exact Or.inr ⟨rfl, rfl⟩
  | listed hcl hl hlines =>
    obtain ⟨rfl, hl'⟩ := hl.written hc hr
    exact Or.inl (by simpa [saidLines] using .listed hcl hl' hlines)
  | gone hcl => exact Or.inl (.gone hcl)

/-- The client's commands are lines. -/
structure Pop3Client.Plain (c : Pop3Client) : Prop where
  username : CrlfFree (userCmd c.username)
  password : CrlfFree (passCmd c.password)

theorem plain_of_free {username password : Text} (hu : CrlfFree username)
    (hp : CrlfFree password) : Pop3Client.Plain { username, password } where
  username := by
    rw [show userCmd username = "USER ".toList ++ username by simp [userCmd, format]]
    exact crlfFree_append (by decide) hu
  password := by
    rw [show passCmd password = "PASS ".toList ++ password by simp [passCmd, format]]
    exact crlfFree_append (by decide) hp

theorem retrCmd_free (number : Nat) : CrlfFree (retrCmd number) := by
  refine crlfFree_of_not_mem fun h => ?_
  have hdigits : '\r' ∈ decimal number := by simpa [retrCmd, format] using h
  exact decimal_no_break hdigits rfl

theorem Pop3Asked.free {line : Text} (h : Pop3Asked c s line) (hp : c.Plain) : CrlfFree line := by
  cases h with
  | user => exact hp.username
  | pass => exact hp.password
  | list => decide
  | retr => exact retrCmd_free _
  | quit => decide

theorem Pop3Asked.heard {line : Text} (h : Pop3Asked c s line) (hc : s.control = .reading)
    (hr : s.request storage line = (storage', t, out)) :
    Pop3Stage c t [] (unlines (saidLines out)) ∨ (t.control = .ended ∧ out = []) := by
  cases h with
  | user hcl hl =>
    obtain ⟨reply, t', ht, hcontrol, hfree, huser⟩ :=
      user_replied storage (hl.reads hc) (userCmd_parsed _)
    cases hr.symm.trans ht
    have hnamed : t.user = [] ∨ t.user = c.username := by
      rcases huser with hsame | ⟨arguments, hparse, hname⟩
      · exact hsame ▸ hl.named
      · exact Or.inr (hname.trans (userCmd_names hparse))
    exact Or.inl (.replied (.user hcl ⟨hnamed, Or.inl hcontrol⟩ hfree))
  | pass hcl hl =>
    rcases pass_replied storage (hl.reads hc) (passCmd_parsed _) with
      ⟨reply, t', ht, huser, hcontrol, hfree, hok⟩ | ⟨_, t', ht, huser, hne, hcontrol⟩ | ht
    · cases hr.symm.trans ht
      exact Or.inl (.replied (.refused hcl ⟨huser ▸ hl.named, Or.inl hcontrol⟩ hfree hok))
    · cases hr.symm.trans ht
      have hnamed : t.user = c.username := huser.trans (hl.named.resolve_left hne)
      exact Or.inl (.replied (.accepted hcl ⟨hnamed, Or.inl hcontrol⟩))
    · cases hr.symm.trans ht
      exact Or.inr ⟨rfl, rfl⟩
  | list hcl hl =>
    have hstate := hl.reads hc
    rcases list_replied storage hstate with ⟨_, mails, ht⟩ | ⟨_, ht⟩
    · cases hr.symm.trans ht
      have hlines : ∀ line ∈ [listOk mails], CrlfFree line ∧ line ≠ endList := by
        simpa using listOk_line mails
      exact Or.inl (.listing hcl hstate hl.named rfl hlines)
    · cases hr.symm.trans ht
      exact Or.inr ⟨rfl, rfl⟩
  | @retr number _ hcl hl =>
    have hstate := hl.reads hc
    cases hr.symm.trans (retr_replied storage hstate number)
    exact Or.inl (.replied (.retr hcl ⟨hl.named, Or.inr ⟨hstate, Or.inl rfl⟩⟩))
  | quit hcl hl =>
    have hstate : s.state = .authorization ∨ s.state = .transaction :=
      hl.imp (fun hl => hl.reads hc) fun hl => hl.reads hc
    cases hr.symm.trans (quit_replied storage hstate)
    exact Or.inl (.replied (.quit hcl rfl))

/-- The session goes on when it reads the line of a command. -/
theorem Pop3Stage.heard (h : Pop3Stage c s up down) (hp : c.Plain) (hc : s.control = .reading)
    {chunks unread : List Text} {line : Text} (hup : chunks.flatten = up)
    (hread : readData chunks = some (line, unread))
    (hr : s.request storage line = (storage', t, out)) :
    Pop3Stage c t unread.flatten (down ++ unlines (saidLines out)) ∨
      (t.control = .ended ∧ out = []) := by
  cases h with
  | asked ha =>
    obtain ⟨rfl, hunread⟩ := line_read (ha.free hp) hup hread
    rw [hunread, List.nil_append]
    exact ha.heard hc hr
  | gone hcl => exact Or.inl (.gone hcl)
  | fresh => exact absurd hread (no_line_read hup)
  | replied => exact absurd hread (no_line_read hup)
  | listing => exact absurd hread (no_line_read hup)
  | listed => exact absurd hread (no_line_read hup)

theorem Pop3Session.LoggingIn.not_spawned {username : Text} (h : s.LoggingIn username) :
    s.control ≠ .spawned := by
  rcases h.control with h | ⟨h, _⟩
  · simp [h]
  · simp [h]

theorem Pop3Session.LoggedIn.not_spawned {username : Text} (h : s.LoggedIn username) :
    s.control ≠ .spawned := by
  rcases h.control with h | ⟨_, h | h⟩
  · simp [h]
  · simp [h]
  · simp [h]

theorem Pop3Asked.not_spawned {line : Text} (h : Pop3Asked c s line) : s.control ≠ .spawned := by
  cases h with
  | user _ hl => exact hl.not_spawned
  | pass _ hl => exact hl.not_spawned
  | list _ hl => exact hl.not_spawned
  | retr _ hl => exact hl.not_spawned
  | quit _ hl => exact hl.elim (fun hl => hl.not_spawned) fun hl => hl.not_spawned

theorem Pop3Replied.not_spawned {line : Text} (h : Pop3Replied c s line) :
    s.control ≠ .spawned := by
  cases h with
  | greeting _ hl => exact hl.not_spawned
  | user _ hl => exact hl.not_spawned
  | refused _ hl => exact hl.not_spawned
  | accepted _ hl => exact hl.not_spawned
  | retr _ hl => exact hl.not_spawned
  | quit _ hquit => simp [hquit]

/-- The session greets its client first. -/
theorem Pop3Stage.greeted (h : Pop3Stage c s up down) (hc : s.control = .spawned)
    (hr : s.enter storage .greeting = (storage', t, out)) :
    Pop3Stage c t up (down ++ unlines (saidLines out)) := by
  cases hr
  cases h with
  | fresh hcl _ huser => exact .replied (.greeting hcl ⟨Or.inl huser, Or.inl rfl⟩)
  | gone hcl => exact .gone hcl
  | asked ha => exact absurd hc ha.not_spawned
  | replied hl => exact absurd hc hl.not_spawned
  | listing _ _ _ hscan => simp [hscan] at hc
  | listed _ hl => exact absurd hc hl.not_spawned

/-- What a resumption of the session leaves of the stage: it has ended, or goes on to the next. -/
theorem Pop3Stage.served (h : Pop3Stage c s up down) (hp : c.Plain) {wake : MailWake}
    {toServer toServer' : List Text} (hup : toServer.flatten = up)
    (hw : ((wake = .scheduled ∨ wake = .written ∨ wake = .dropped) ∧ toServer' = toServer) ∨
      ∃ line, wake = .line line ∧ readData toServer = some (line, toServer'))
    (hr : pop3Resume storage s wake = some (storage', t, out)) :
    Pop3Stage c t toServer'.flatten (down ++ unlines (saidLines out)) ∨
      (t.control = .ended ∧ saidLines out = []) := by
  have ends : t.control = .ended ∧ out = [] → t.control = .ended ∧ saidLines out = [] :=
    fun hend => hend.imp_right (congrArg saidLines)
  cases pop3Resume_step hr with
  | greeted hc hwake he =>
    subst hwake
    rcases hw with ⟨_, rfl⟩ | ⟨_, hline, _⟩
    · rw [hup]
      exact Or.inl (h.greeted hc he.symm)
    · cases hline
  | heard request hc hwake he =>
    subst hwake
    rcases hw with ⟨hwake, _⟩ | ⟨_, hline, hread⟩
    · simp at hwake
    · cases hline
      have ht := congrArg (fun o : Pop3Outcome => o.2.1) he
      have hout := congrArg (fun o : Pop3Outcome => o.2.2) he
      dsimp only at ht hout
      subst ht hout
      exact (h.heard hp hc hup hread rfl).imp_right fun hend =>
        ⟨hend.1, congrArg saidLines hend.2⟩
  | written after hc hwake he =>
    subst hwake
    rcases hw with ⟨_, rfl⟩ | ⟨_, hline, _⟩
    · rw [hup]
      exact (h.written hc he.symm).imp_right ends
    · cases hline
  | dropped _ _ he =>
    cases he
    exact Or.inr ⟨rfl, rfl⟩

/-- The client goes on when it reads a line. It reads no refusal of a RETR: it waits for its end. -/
theorem Pop3Replied.reads {ends : Text → Bool} {line : Text} {chunks lines unread : List Text}
    (h : Pop3Replied c s line) (hw : c.awaits = some ends) (hdown : chunks.flatten = unlines [line])
    (hread : readThrough ends chunks = some (lines, unread)) :
    ∃ control, (c.hears lines).1 = { c with control := control } ∧
      Pop3Stage (c.hears lines).1 s (unlines (c.hears lines).2.toList) unread.flatten := by
  have one : c.awaits = some (fun _ => true) → CrlfFree line →
      lines = [line] ∧ unread.flatten = [] := by
    intro hone hfree
    cases hw.symm.trans hone
    exact answer_read (.last hfree rfl) hdown hread
  have quits : s.LoggingIn c.username →
      Pop3Stage { c with control := .quit } s (unlines [quitCmd]) [] :=
    fun hl => .asked (.quit rfl (Or.inl hl))
  cases h with
  | greeting hcl hl =>
    obtain ⟨rfl, hunread⟩ := one (by rw [awaits, hcl]) (by decide)
    have hears : c.hears [pop3Greeting] =
        ({ c with control := .user }, some (userCmd c.username)) := by
      unfold hears
      rw [hcl]
      exact if_pos (by decide)
    rw [hears, hunread]
    exact ⟨_, rfl, .asked (.user rfl hl)⟩
  | user hcl hl hfree =>
    obtain ⟨rfl, hunread⟩ := one (by rw [awaits, hcl]) hfree
    have hears : c.hears [line] = if isOk line then
        ({ c with control := .pass }, some (passCmd c.password)) else c.leave := by
      unfold hears
      rw [hcl]
      rfl
    rw [hears, hunread]
    split
    next => exact ⟨_, rfl, .asked (.pass rfl hl)⟩
    next => exact ⟨_, rfl, quits hl⟩
  | refused hcl hl hfree hok =>
    obtain ⟨rfl, hunread⟩ := one (by rw [awaits, hcl]) hfree
    have hears : c.hears [line] = c.leave := by
      unfold hears
      rw [hcl]
      exact if_neg (by simp [hok])
    rw [hears, hunread]
    exact ⟨_, rfl, quits hl⟩
  | accepted hcl hl =>
    obtain ⟨rfl, hunread⟩ := one (by rw [awaits, hcl]) (by decide)
    have hears : c.hears [positive] = ({ c with control := .list }, some listCmd) := by
      unfold hears
      rw [hcl]
      exact if_pos (by decide)
    rw [hears, hunread]
    exact ⟨_, rfl, .asked (.list rfl hl)⟩
  | retr hcl hl =>
    obtain rfl : ends = fun line => line == endList :=
      Option.some.inj (hw.symm.trans (by rw [awaits, hcl]))
    have hnone := @err_not_read [] (by decide) _ hdown
    rw [hnone] at hread
    cases hread
  | quit hcl hquit =>
    have hears : c.hears lines = ({ c with control := .ended }, none) := by
      unfold hears
      rw [hcl]
    rw [hears]
    exact ⟨_, rfl, .gone (Or.inl rfl)⟩

/-- The client goes on when it reads an answer. -/
theorem Pop3Stage.reads {ends : Text → Bool} {chunks lines unread : List Text}
    (h : Pop3Stage c s up down) (hw : c.awaits = some ends) (hdown : chunks.flatten = down)
    (hread : readThrough ends chunks = some (lines, unread)) :
    ∃ control, (c.hears lines).1 = { c with control := control } ∧
      Pop3Stage (c.hears lines).1 s (up ++ unlines (c.hears lines).2.toList) unread.flatten := by
  have multiline : c.control = .list → ends = fun line => line == endList :=
    fun hcl => Option.some.inj (hw.symm.trans (by rw [awaits, hcl]))
  cases h with
  | fresh => exact absurd hread (no_answer_read hdown)
  | asked => exact absurd hread (no_answer_read hdown)
  | replied hl => exact hl.reads hw hdown hread
  | listing hcl _ _ _ hlines =>
    rw [multiline hcl, readThrough_unending (fun line hline => (hlines line hline).1)
      (fun line hline => beq_eq_false_iff_ne.mpr (hlines line hline).2) hdown] at hread
    cases hread
  | @listed list hcl hl hlines =>
    have hanswer : IsAnswer ends (list ++ [endList]) := by
      rw [multiline hcl]
      exact isAnswer_concat.mpr ⟨fun line hline =>
        ⟨(hlines line hline).1, beq_eq_false_iff_ne.mpr (hlines line hline).2⟩, by decide, rfl⟩
    obtain ⟨rfl, hunread⟩ := answer_read hanswer hdown hread
    cases hnumbers : messageNumbers (list ++ [endList]) with
    | some numbers =>
      have hears : c.hears (list ++ [endList]) = c.retrieve numbers := by
        simp only [hears, hcl, hnumbers]
      rw [hears, hunread]
      cases numbers with
      | nil => exact ⟨_, rfl, .asked (.quit rfl (Or.inr hl))⟩
      | cons number numbers => exact ⟨_, rfl, .asked (.retr rfl hl)⟩
    | none =>
      have hears : c.hears (list ++ [endList]) = ({ c with control := .failed }, none) := by
        simp only [hears, hcl, hnumbers]
      rw [hears, hunread]
      exact ⟨_, rfl, .gone (Or.inr rfl)⟩
  | gone hcl =>
    rcases hcl with hcl | hcl
    · simp [awaits, hcl] at hw
    · simp [awaits, hcl] at hw

end

end Protocols
