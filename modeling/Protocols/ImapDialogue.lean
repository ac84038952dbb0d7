import Protocols.ImapCommands
import Protocols.ImapList
import Protocols.ImapLogins
import Protocols.MailPairing
import Protocols.ServerNumbers

namespace Protocols

open Regex ImapClient

/-- A name that the client takes from the list, and takes no line of the list for the last one. -/
structure IsPlainName (name : Text) : Prop where
  isName : IsMailboxName name
  notLast : ¬ LooksLast (listMailbox name)

/-- A line that the client takes for a refusal. -/
structure IsRefusal (reply : Text) : Prop where
  free : CrlfFree reply
  last : isLast reply = true
  refused : isOk reply = false

/-- The session reads a request in the unauthenticated state, or goes on to do so. -/
structure ImapSession.LoggingIn (s : ImapSession) : Prop where
  nobody : s.user = []
  control : s.control = .writing (.next .unauthenticated) ∨
    (s.control = .reading ∧ s.state = .unauthenticated)

/-- The session has accepted a LOGIN for the user, and answers no LIST. -/
structure ImapSession.LoggedIn (s : ImapSession) (user : Text) : Prop where
  named : s.user = ImapSession.withDomain user
  control : s.control = .writing (.next .authenticated) ∨
    (s.control = .reading ∧ s.state = .authenticated)

section

variable {n : Nat} {name line : Text}

theorem noBreak_decimal (n : Nat) : NoBreak (decimal n) := by
  intro c hc
  have hdigit := digit_decimal hc
  constructor
  · rintro rfl
    cases hdigit
  · rintro rfl
    cases hdigit

theorem noBreak_free (h : NoBreak line) : CrlfFree line :=
  crlfFree_of_not_mem fun hc => (h _ hc).2 rfl

/-- A reply with the tag of its command and a status. -/
theorem completion_last {status : String} (hs : status ∈ ["OK", "NO", "BAD"]) :
    CrlfFree (decimal n ++ ' ' :: status.toList) ∧ isLast (decimal n ++ ' ' :: status.toList) = true := by
  have hbreak : NoBreak (decimal n ++ ' ' :: status.toList) := by
    refine noBreak_append.mpr ⟨noBreak_decimal n, ?_⟩
    simp only [List.mem_cons, List.not_mem_nil, or_false] at hs
    rcases hs with rfl | rfl | rfl
    · decide
    · decide
    · decide
  refine ⟨noBreak_free hbreak, isLast_iff.mpr ⟨hbreak, _, lower_status status hs, ?_⟩⟩
  obtain ⟨c, digits, hdigits⟩ := List.exists_cons_of_ne_nil (decimal_ne_nil n)
  exact ⟨digits.map Char.toLower, [], by rw [hdigits]; simp⟩

theorem ok_last : CrlfFree (ok (decimal n)) ∧ isLast (ok (decimal n)) = true := by
  rw [ok_eq]
  exact completion_last (by simp)

theorem isOk_completion : isOk (ok (decimal n)) = true := by
  obtain ⟨c, digits, hdigits⟩ := List.exists_cons_of_ne_nil (decimal_ne_nil n)
  rw [isOk_iff]
  refine ⟨(isLast_iff.mp ok_last.2).1, digits.map Char.toLower, [], ?_⟩
  rw [ok_eq, hdigits]
  simp

/-- Where there is no K there is no OK. -/
theorem isOk_without_k (h : 'k' ∉ line.map Char.toLower) : isOk line = false := by
  rw [Bool.eq_false_iff, ne_eq, isOk_iff]
  rintro ⟨_, before, after, hshows⟩
  have hk : 'k' ∈ line.tail.map Char.toLower := by
    rw [← hshows]
    simp
  rw [List.map_tail] at hk
  exact h (List.mem_of_mem_tail hk)

theorem lower_decimal {c : Char} (hc : c ∈ (decimal n).map Char.toLower) : c.isDigit = true := by
  obtain ⟨d, hd, rfl⟩ := List.mem_map.mp hc
  have hdigit := digit_decimal hd
  have hnat := toNat_toLower d
  have hsmall : ¬ (65 ≤ d.toNat ∧ d.toNat ≤ 90) := by
    have := Char.isDigit_iff_toNat.mp hdigit
    simp at this
    omega
  rw [if_neg hsmall] at hnat
  rwa [Char.toNat_inj.mp hnat]

/-- A letter is none of the tag, and none of the rest. -/
theorem letter_without {c : Char} {rest : Text} (hc : c.isDigit = false)
    (hrest : c ∉ rest.map Char.toLower) : c ∉ (decimal n ++ rest).map Char.toLower := by
  rw [List.map_append, List.mem_append, not_or]
  refine ⟨fun hin => ?_, hrest⟩
  rw [lower_decimal hin] at hc
  cases hc

theorem no_refusal : IsRefusal (no (decimal n)) := by
  obtain ⟨hfree, hlast⟩ := @completion_last n "NO" (by simp)
  rw [no_eq]
  refine ⟨hfree, hlast, isOk_without_k (letter_without (by decide) (by decide))⟩

theorem badTag_refusal : IsRefusal (badTag (decimal n)) := by
  obtain ⟨hfree, hlast⟩ := @completion_last n "BAD" (by simp)
  rw [badTag_eq]
  refine ⟨hfree, hlast, isOk_without_k (letter_without (by decide) (by decide))⟩

theorem bad_refusal : IsRefusal bad :=
  ⟨by decide, isLast_iff.mpr (by decide), isOk_without_k (by decide)⟩

theorem bye_last : isLast bye = true := isLast_iff.mpr (by decide)

/-- There is no number of mails in the reply to an unknown command. -/
theorem badTag_amount : getExistsAmount [badTag (decimal n)] = some 0 := by
  have hnone : existsOf (badTag (decimal n)) = none := by
    rw [existsOf_none]
    rintro _ ⟨front, number, t, hline, ⟨word, back, rfl, _, hword⟩, _⟩
    have hx : 'x' ∈ (badTag (decimal n)).map Char.toLower := by
      rw [hline]
      simp [hword]
    rw [badTag_eq] at hx
    exact letter_without (by decide) (by decide) hx
  rw [getExistsAmount_eq, List.foldlM_cons, setAmount, hnone]
  rfl

end

section

variable {storage : MailStorage} {s t : ImapSession} {user pass name : Text} {n : Nat}
  {after : ImapAfter} {out : List SessionEvent}

/-- What LOGIN is answered. -/
theorem login_replied (storage : MailStorage) (user pass : Text) (n : Nat)
    (hs : s.state = .unauthenticated) : ∃ reply t,
      s.request storage (loginCommand user pass n) = (t, [.sent reply]) ∧
      ((IsRefusal reply ∧ t.user = s.user ∧ t.control = .writing (.next .unauthenticated)) ∨
        (reply = ok (decimal n) ∧ t.user = ImapSession.withDomain user ∧
          t.control = .writing (.next .authenticated))) := by
  unfold ImapSession.request
  rw [hs]
  rcases hparse : imapParseRequest (loginCommand user pass n) with ⟨command, arguments⟩
  rcases loginCommand_parsed hparse with ⟨rfl, htag, huser⟩ | ⟨rfl, htag⟩ | rfl
  · dsimp only [ImapSession.unauthenticated]
    rw [htag, huser]
    split
    next => exact ⟨_, _, rfl, Or.inl ⟨no_refusal, rfl, rfl⟩⟩
    next => exact ⟨_, _, rfl, Or.inr ⟨rfl, rfl, rfl⟩⟩
  · dsimp only [ImapSession.unauthenticated]
    rw [htag]
    exact ⟨_, _, rfl, Or.inl ⟨badTag_refusal, rfl, rfl⟩⟩
  · exact ⟨_, _, rfl, Or.inl ⟨bad_refusal, rfl, rfl⟩⟩

theorem listCommand_replied (n : Nat) (hs : s.state = .authenticated)
    (hu : s.user ∈ storage.maildrops) : s.request storage (listCommand n) =
      s.walk (decimal n) (storage.mailboxNames s.user) (storage.mailboxNames s.user) := by
  obtain ⟨drop, hdrop⟩ := mem_maildrops_iff.mp hu
  have hall : listedNames storage s.user [listCommand n, decimal n, [], [], [], "*".toList] =
      storage.mailboxNames s.user := if_pos (Or.inl rfl)
  unfold ImapSession.request
  rw [hs, listCommand_parsed]
  exact (list_walks hdrop rfl).trans (by rw [hall])

theorem examine_replied (storage : MailStorage) (n : Nat) (hs : s.state = .authenticated)
    (hname : NoBreak name) : s.request storage (examineCommand name n) =
      s.reply (badTag (decimal n)) (.next .authenticated) := by
  obtain ⟨arguments, hparse, htag⟩ := @examineCommand_parsed n name hname
  unfold ImapSession.request
  rw [hs, hparse, ← htag]
  rfl

theorem logout_replied (storage : MailStorage) (n : Nat) (hs : s.state = .authenticated) :
    s.request storage (logoutCommand n) = s.reply bye (.complete (decimal n) .quit) := by
  unfold ImapSession.request
  rw [hs, logoutCommand_parsed]
  rfl

theorem ImapSession.LoggingIn.reads (h : s.LoggingIn) (hc : s.control = .reading) :
    s.state = .unauthenticated := by
  rcases h.control with h | ⟨_, h⟩
  · simp [h] at hc
  · exact h

theorem ImapSession.LoggedIn.reads (h : s.LoggedIn user) (hc : s.control = .reading) :
    s.state = .authenticated := by
  rcases h.control with h | ⟨_, h⟩
  · simp [h] at hc
  · exact h

theorem ImapSession.LoggingIn.written (h : s.LoggingIn) (hc : s.control = .writing after)
    (hr : s.replied storage after = (t, out)) : out = [] ∧ t.LoggingIn := by
  rcases h.control with h' | ⟨h', _⟩
  · rw [h'] at hc
    cases hc
    cases hr
    exact ⟨rfl, h.nobody, Or.inr ⟨rfl, rfl⟩⟩
  · simp [h'] at hc

theorem ImapSession.LoggedIn.written (h : s.LoggedIn user) (hc : s.control = .writing after)
    (hr : s.replied storage after = (t, out)) : out = [] ∧ t.LoggedIn user := by
  rcases h.control with h' | ⟨h', _⟩
  · rw [h'] at hc
    cases hc
    cases hr
    exact ⟨rfl, h.named, Or.inr ⟨rfl, rfl⟩⟩
  · simp [h'] at hc

end

theorem enter_user (s : ImapSession) (state : ImapState) : (s.enter state).1.user = s.user := by
  cases state with
  | greeting | unauthenticated | authenticated | quit => rfl

theorem walk_user (s : ImapSession) (tag : Text) (keys rest : List Text) :
    (s.walk tag keys rest).1.user = s.user := by
  cases rest with
  | nil | cons => rfl

theorem replied_user (s : ImapSession) (storage : MailStorage) (after : ImapAfter) :
    (s.replied storage after).1.user = s.user := by
  cases after with
  | next state => exact enter_user s state
  | list tag keys rest =>
    unfold ImapSession.replied
    dsimp only
    split
    next => exact walk_user s tag keys rest
    next => rfl
  | complete tag state => rfl

/-- The mailboxes of the names, without any mails. -/
def emptyMailboxes (names : List Text) : List (Text × List ImapMail) := names.map fun name => (name, [])

/-- The client waits for the answer to a command, which the session has not read. -/
inductive ImapAsked (names : List Text) (c : ImapClient) (s : ImapSession) : Text → Prop
  | login : c.control = .login → c.storage = [] → s.LoggingIn →
      ImapAsked names c s (loginCommand c.user c.pass c.tag)
  | list : c.control = .list → c.storage = [] → s.LoggedIn c.user →
      ImapAsked names c s (listCommand c.tag)
  | examine {mailbox name} : c.control = .examine mailbox → c.storage = emptyMailboxes names →
      name ∈ names → s.LoggedIn c.user → ImapAsked names c s (examineCommand name c.tag)
  | logout : c.control = .logout → c.storage = emptyMailboxes names → s.LoggedIn c.user →
      ImapAsked names c s (logoutCommand c.tag)

/-- The session has sent a line, which the client has not read. -/
inductive ImapReplied (names : List Text) (c : ImapClient) (s : ImapSession) : Text → Prop
  | greeting : c.control = .greeting → c.storage = [] → s.LoggingIn →
      ImapReplied names c s imapGreeting
  | refused {reply} : c.control = .login → c.storage = [] → s.LoggingIn → IsRefusal reply →
      ImapReplied names c s reply
  | accepted : c.control = .login → c.storage = [] → s.LoggedIn c.user →
      ImapReplied names c s (ok (decimal c.tag))
  | examined {mailbox} : c.control = .examine mailbox → c.storage = emptyMailboxes names →
      s.LoggedIn c.user → ImapReplied names c s (badTag (decimal c.tag))

/-- The session answers LOGOUT. -/
def ImapSession.Leaving (s : ImapSession) : Prop :=
  (∃ tag, s.control = .writing (.complete tag .quit)) ∨ s.control = .writing (.next .quit)

/-- Where the client and its session stand, what the session has not read and what the client has not
read. -/
inductive ImapStage (names : List Text) (c : ImapClient) (s : ImapSession) : Text → Text → Prop
  | fresh : c.control = .greeting → c.storage = [] → s.control = .spawned → s.user = [] →
      ImapStage names c s [] []
  | asked {line} : ImapAsked names c s line → ImapStage names c s (unlines [line]) []
  | replied {line} : ImapReplied names c s line → ImapStage names c s [] (unlines [line])
  | listing {done rest} : c.control = .list → c.storage = [] →
      s.user = ImapSession.withDomain c.user →
      s.control = .writing (.list (decimal c.tag) names rest) → done ++ rest = names →
      ImapStage names c s [] (unlines (done.map listMailbox))
  | listed : c.control = .list → c.storage = [] → s.LoggedIn c.user →
      ImapStage names c s [] (unlines (names.map listMailbox ++ [ok (decimal c.tag)]))
  | leaving {more} : c.control = .logout → c.storage = emptyMailboxes names →
      s.user = ImapSession.withDomain c.user → s.Leaving →
      ImapStage names c s [] (unlines [bye] ++ more)
  | left {down} : c.control = .ended → c.storage = emptyMailboxes names →
      s.user = ImapSession.withDomain c.user → s.Leaving → ImapStage names c s [] down
  | rejected {down} : c.control = .error → c.storage = [] → s.LoggingIn →
      ImapStage names c s [] down

section

variable {names : List Text} {c : ImapClient} {s t : ImapSession} {up down line : Text}
  {storage : MailStorage} {after : ImapAfter} {out : List SessionEvent}

theorem ImapAsked.written (h : ImapAsked names c s line) (hc : s.control = .writing after)
    (hr : s.replied storage after = (t, out)) : out = [] ∧ ImapAsked names c t line := by
  cases h with
  | login hcl hst hl => exact (hl.written hc hr).imp_right (.login hcl hst)
  | list hcl hst hl => exact (hl.written hc hr).imp_right (.list hcl hst)
  | examine hcl hst hname hl => exact (hl.written hc hr).imp_right (.examine hcl hst hname)
  | logout hcl hst hl => exact (hl.written hc hr).imp_right (.logout hcl hst)

theorem ImapReplied.written (h : ImapReplied names c s line) (hc : s.control = .writing after)
    (hr : s.replied storage after = (t, out)) : out = [] ∧ ImapReplied names c t line := by
  cases h with
  | greeting hcl hst hl => exact (hl.written hc hr).imp_right (.greeting hcl hst)
  | refused hcl hst hl href =>
    exact (hl.written hc hr).imp_right fun hl => .refused hcl hst hl href
  | accepted hcl hst hl => exact (hl.written hc hr).imp_right (.accepted hcl hst)
  | examined hcl hst hl => exact (hl.written hc hr).imp_right (.examined hcl hst)

theorem ImapSession.Leaving.written (h : s.Leaving) (hc : s.control = .writing after)
    (hr : s.replied storage after = (t, out)) :
    t.Leaving ∨ (t.control = .ended ∧ out = []) := by
  rcases h with ⟨tag, h⟩ | h
  · rw [h] at hc
    cases hc
    cases hr
    exact Or.inl (Or.inr rfl)
  · rw [h] at hc
    cases hc
    cases hr
    exact Or.inr ⟨rfl, rfl⟩

/-- The session goes on when its line has been written. -/
theorem ImapStage.written (h : ImapStage names c s up down)
    (hkeys : ∀ tag keys rest, s.control = .writing (.list tag keys rest) →
      storage.mailboxNames s.user = keys)
    (hc : s.control = .writing after) (hr : s.replied storage after = (t, out)) :
    ImapStage names c t up (down ++ unlines (saidLines out)) ∨
      (t.control = .ended ∧ out = []) := by
  have hsame : t.user = s.user := by
    rw [← replied_user s storage after, hr]
  cases h with
  | fresh _ _ hs => simp [hs] at hc
  | asked ha =>
    obtain ⟨rfl, ha'⟩ := ha.written hc hr
    exact Or.inl (.asked ha')
  | replied hl =>
    obtain ⟨rfl, hl'⟩ := hl.written hc hr
    exact Or.inl (by simpa [saidLines] using .replied hl')
  | @listing done rest hcl hst huser hlist hdone =>
    have hwalk : s.replied storage (.list (decimal c.tag) names rest) =
        s.walk (decimal c.tag) names rest := if_pos (hkeys _ _ _ hlist)
    rw [hlist] at hc
    cases hc
    cases rest with
    | nil =>
      rw [List.append_nil] at hdone
      cases hr.symm.trans hwalk
      rw [show saidLines [.sent (ok (decimal c.tag))] = [ok (decimal c.tag)] from rfl,
        ← unlines_append, hdone]
      exact Or.inl (.listed hcl hst ⟨huser, Or.inl rfl⟩)
    | cons name rest =>
      cases hr.symm.trans hwalk
      rw [show saidLines [.sent (listMailbox name)] = [name].map listMailbox from rfl,
        ← unlines_append, ← List.map_append]
      exact Or.inl (.listing hcl hst huser rfl (by rw [List.append_assoc]; exact hdone))
  | listed hcl hst hl =>
    obtain ⟨rfl, hl'⟩ := hl.written hc hr
    exact Or.inl (by simpa [saidLines] using .listed hcl hst hl')
  | leaving hcl hst huser hl =>
    rcases hl.written hc hr with hl' | ⟨hend, rfl⟩
    · rw [List.append_assoc]
      exact Or.inl (.leaving hcl hst (hsame.trans huser) hl')
    · exact Or.inr ⟨hend, rfl⟩
  | left hcl hst huser hl =>
    rcases hl.written hc hr with hl' | ⟨hend, rfl⟩
    · exact Or.inl (.left hcl hst (hsame.trans huser) hl')
    · exact Or.inr ⟨hend, rfl⟩
  | rejected hcl hst hl =>
    obtain ⟨rfl, hl'⟩ := hl.written hc hr
    exact Or.inl (.rejected hcl hst hl')

theorem ImapSession.LoggedIn.somebody {user : Text} (h : s.LoggedIn user) : s.user ≠ [] := by
  rw [h.named]
  exact withDomain_ne_nil user

/-- The session goes on when it reads a command, and with a LOGIN it gets a user. -/
theorem ImapAsked.heard (h : ImapAsked names c s line) (hc : s.control = .reading)
    (hknown : s.user ≠ [] → s.user ∈ storage.maildrops)
    (hnames : s.user ≠ [] → storage.mailboxNames s.user = names)
    (plain : ∀ name ∈ names, IsPlainName name) (hr : s.request storage line = (t, out)) :
    ∃ names', (names' = names ∨ names' = storage.mailboxNames t.user) ∧
      (t.user ≠ [] → storage.mailboxNames t.user = names') ∧
      ImapStage names' c t [] (unlines (saidLines out)) := by
  cases h with
  | login hcl hst hl =>
    obtain ⟨reply, t', ht, ⟨href, huser, hcontrol⟩ | ⟨rfl, huser, hcontrol⟩⟩ :=
      login_replied storage c.user c.pass c.tag (hl.reads hc)
    · cases hr.symm.trans ht
      have hnobody : t.user = [] := huser.trans hl.nobody
      exact ⟨names, Or.inl rfl, fun hne => absurd hnobody hne,
        .replied (.refused hcl hst ⟨hnobody, Or.inl hcontrol⟩ href)⟩
    · cases hr.symm.trans ht
      exact ⟨_, Or.inr rfl, fun _ => rfl, .replied (.accepted hcl hst ⟨huser, Or.inl hcontrol⟩)⟩
  | list hcl hst hl =>
    have hwalk := listCommand_replied c.tag (hl.reads hc) (hknown hl.somebody)
    rw [hnames hl.somebody] at hwalk
    refine ⟨names, Or.inl rfl, ?_⟩
    cases names with
    | nil =>
      cases hr.symm.trans hwalk
      exact ⟨hnames, .listed hcl hst ⟨hl.named, Or.inl rfl⟩⟩
    | cons name rest =>
      cases hr.symm.trans hwalk
      refine ⟨hnames, ?_⟩
      rw [show saidLines [.sent (listMailbox name)] = [name].map listMailbox from rfl]
      exact .listing hcl hst hl.named rfl rfl
  | @examine mailbox name hcl hst hname hl =>
    have ht := examine_replied storage c.tag (hl.reads hc) (plain name hname).isName.oneLine
    cases hr.symm.trans ht
    exact ⟨names, Or.inl rfl, hnames, .replied (.examined hcl hst ⟨hl.named, Or.inl rfl⟩)⟩
  | logout hcl hst hl =>
    cases hr.symm.trans (logout_replied storage c.tag (hl.reads hc))
    refine ⟨names, Or.inl rfl, hnames, ?_⟩
    rw [show saidLines [.sent bye] = [bye] from rfl, ← List.append_nil (unlines [bye])]
    exact .leaving hcl hst hl.named (Or.inl ⟨_, rfl⟩)

/-- The client's commands are lines. -/
structure ImapClient.Plain (c : ImapClient) : Prop where
  user : CrlfFree c.user
  pass : CrlfFree c.pass

theorem crlfFree_blank {a b : Text} (ha : CrlfFree a) (hb : CrlfFree b) :
    CrlfFree (a ++ ' ' :: b) := by
  induction a with
  | nil => exact crlfFree_append (a := [' ']) (by decide) hb
  | cons c a ih =>
    have hrest : CrlfFree a := fun h => ha (List.infix_cons h)
    intro h
    rcases List.infix_cons_iff.mp h with hpre | hin
    · obtain ⟨rfl, hlf⟩ := List.cons_prefix_cons.mp hpre
      cases a with
      | nil => simp at hlf
      | cons d a =>
        obtain ⟨rfl, _⟩ := List.cons_prefix_cons.mp hlf
        exact ha ⟨[], a, rfl⟩
    · exact ih hrest hin

theorem ImapAsked.free (h : ImapAsked names c s line) (hp : c.Plain)
    (plain : ∀ name ∈ names, IsPlainName name) : CrlfFree line := by
  have tagged : ∀ rest, CrlfFree rest → CrlfFree (decimal c.tag ++ rest) := fun rest hrest =>
    crlfFree_append (fun hc => (noBreak_decimal _ _ hc).2 rfl) hrest
  cases h with
  | login =>
    rw [loginCommand_eq]
    exact tagged _ (crlfFree_append (by decide) (crlfFree_blank hp.user hp.pass))
  | list =>
    rw [listCommand_eq]
    exact tagged _ (by decide)
  | @examine _ name _ _ hname =>
    rw [examineCommand_eq]
    exact tagged _ (crlfFree_append (by decide) (noBreak_free (plain name hname).isName.oneLine))
  | logout =>
    rw [logoutCommand_eq]
    exact tagged _ (by decide)

/-- The session goes on when it reads the line of a command. -/
theorem ImapStage.heard (h : ImapStage names c s up down) (hp : c.Plain)
    (plain : ∀ name ∈ names, IsPlainName name) (hc : s.control = .reading)
    (hknown : s.user ≠ [] → s.user ∈ storage.maildrops)
    (hnames : s.user ≠ [] → storage.mailboxNames s.user = names)
    {chunks unread : List Text} (hup : chunks.flatten = up)
    (hread : readData chunks = some (line, unread)) (hr : s.request storage line = (t, out)) :
    ∃ names', (names' = names ∨ names' = storage.mailboxNames t.user) ∧
      (t.user ≠ [] → storage.mailboxNames t.user = names') ∧
      ImapStage names' c t unread.flatten (down ++ unlines (saidLines out)) := by
  cases h with
  | asked ha =>
    obtain ⟨rfl, hunread⟩ := line_read (ha.free hp plain) hup hread
    rw [hunread, List.nil_append]
    exact ha.heard hc hknown hnames plain hr
  | fresh => exact absurd hread (no_line_read hup)
  | replied => exact absurd hread (no_line_read hup)
  | listing => exact absurd hread (no_line_read hup)
  | listed => exact absurd hread (no_line_read hup)
  | leaving => exact absurd hread (no_line_read hup)
  | left => exact absurd hread (no_line_read hup)
  | rejected => exact absurd hread (no_line_read hup)

theorem ImapSession.LoggingIn.not_spawned (h : s.LoggingIn) : s.control ≠ .spawned := by
  rcases h.control with h | ⟨h, _⟩
  · simp [h]
  · simp [h]

theorem ImapSession.LoggedIn.not_spawned {user : Text} (h : s.LoggedIn user) :
    s.control ≠ .spawned := by
  rcases h.control with h | ⟨h, _⟩
  · simp [h]
  · simp [h]

theorem ImapSession.Leaving.not_spawned (h : s.Leaving) : s.control ≠ .spawned := by
  rcases h with ⟨_, h⟩ | h
  · simp [h]
  · simp [h]

/-- The session greets its client first. -/
theorem ImapStage.greeted (h : ImapStage names c s up down) (hc : s.control = .spawned)
    (hr : s.enter .greeting = (t, out)) :
    ImapStage names c t up (down ++ unlines (saidLines out)) := by
  cases hr
  cases h with
  | fresh hcl hst _ huser => exact .replied (.greeting hcl hst ⟨huser, Or.inl rfl⟩)
  | asked ha =>
    cases ha with
    | login _ _ hl => exact absurd hc hl.not_spawned
    | list _ _ hl => exact absurd hc hl.not_spawned
    | examine _ _ _ hl => exact absurd hc hl.not_spawned
    | logout _ _ hl => exact absurd hc hl.not_spawned
  | replied hl =>
    cases hl with
    | greeting _ _ hl => exact absurd hc hl.not_spawned
    | refused _ _ hl => exact absurd hc hl.not_spawned
    | accepted _ _ hl => exact absurd hc hl.not_spawned
    | examined _ _ hl => exact absurd hc hl.not_spawned
  | listing _ _ _ hlist => simp [hlist] at hc
  | listed _ _ hl => exact absurd hc hl.not_spawned
  | leaving _ _ _ hl => exact absurd hc hl.not_spawned
  | left _ _ _ hl => exact absurd hc hl.not_spawned
  | rejected _ _ hl => exact absurd hc hl.not_spawned

/-- What a resumption of the session leaves of the stage: it has ended, or goes on to the next. -/
theorem ImapStage.served (h : ImapStage names c s up down) (hp : c.Plain)
    (plain : ∀ name ∈ names, IsPlainName name) (hg : s.Grounded storage)
    (hnames : s.user ≠ [] → storage.mailboxNames s.user = names) {wake : MailWake}
    {toServer toServer' : List Text} (hup : toServer.flatten = up)
    (hw : ((wake = .scheduled ∨ wake = .written ∨ wake = .dropped) ∧ toServer' = toServer) ∨
      ∃ line, wake = .line line ∧ readData toServer = some (line, toServer'))
    (hr : imapResume storage s wake = some (t, out)) :
    (∃ names', (names' = names ∨ names' = storage.mailboxNames t.user) ∧
      (t.user ≠ [] → storage.mailboxNames t.user = names') ∧
      ImapStage names' c t toServer'.flatten (down ++ unlines (saidLines out))) ∨
    (t.control = .ended ∧ saidLines out = [] ∧ t.user = s.user) := by
  cases imapResume_step hr with
  | greeted hc hwake he =>
    subst hwake
    rcases hw with ⟨_, rfl⟩ | ⟨_, hline, _⟩
    · have huser : t.user = s.user := by
        rw [← enter_user s .greeting, ← he]
      rw [hup]
      exact Or.inl ⟨names, Or.inl rfl, huser ▸ hnames, h.greeted hc he.symm⟩
    · cases hline
  | heard request hc hwake he =>
    subst hwake
    rcases hw with ⟨hwake, _⟩ | ⟨_, hline, hread⟩
    · simp at hwake
    · cases hline
      have ht := congrArg Prod.fst he
      have hout := congrArg Prod.snd he
      dsimp only at ht hout
      subst ht hout
      have hnext := h.heard hp plain hc hg.known hnames hup hread
        (Prod.mk.eta (p := s.request storage request)).symm
      exact Or.inl hnext
  | written after hc hwake he =>
    subst hwake
    rcases hw with ⟨_, rfl⟩ | ⟨_, hline, _⟩
    · have huser : t.user = s.user := by
        rw [← replied_user s storage after, ← he]
      rw [hup]
      rcases h.written hg.iterates hc he.symm with hnext | ⟨hend, hout⟩
      · exact Or.inl ⟨names, Or.inl rfl, huser ▸ hnames, hnext⟩
      · exact Or.inr ⟨hend, congrArg saidLines hout, huser⟩
    · cases hline
  | dropped _ _ he =>
    cases he
    exact Or.inr ⟨rfl, rfl, rfl⟩

/-- The client goes over its mailboxes, and takes all of them for empty. -/
theorem examine_asks (hst : c.storage = emptyMailboxes names) (hl : s.LoggedIn c.user)
    (mailbox : Nat) : ∃ command, (c.examine mailbox).2 = some command ∧
      (c.examine mailbox).1.user = c.user ∧ (c.examine mailbox).1.pass = c.pass ∧
      ImapAsked names (c.examine mailbox).1 s command := by
  unfold ImapClient.examine
  cases hat : c.storage[mailbox]? with
  | none => exact ⟨_, rfl, rfl, rfl, .logout rfl hst hl⟩
  | some entry =>
    obtain ⟨name, mails⟩ := entry
    refine ⟨_, rfl, rfl, rfl, .examine rfl hst ?_ hl⟩
    rw [hst, emptyMailboxes, List.getElem?_map] at hat
    obtain ⟨name', hname, he⟩ := Option.map_eq_some_iff.mp hat
    cases he
    exact List.mem_of_getElem? hname

theorem modify_empty (mailbox : Nat) : (emptyMailboxes names).modify mailbox
    (fun entry => (entry.1, [])) = emptyMailboxes names := by
  refine List.ext_getElem? fun k => ?_
  rw [List.getElem?_modify, emptyMailboxes, List.getElem?_map]
  cases names[k]? with
  | none => rfl
  | some name => split <;> rfl

/-- Every line that the session has sent is an answer to the client. -/
theorem ImapReplied.answers {ends : Text → Bool} (h : ImapReplied names c s line)
    (hw : c.awaits = some ends) : IsAnswer ends [line] := by
  cases h with
  | greeting hcl =>
    rw [awaits, hcl] at hw
    cases hw
    exact .last (by decide) rfl
  | refused hcl _ _ href =>
    cases (awaits_last (Or.inl hcl)).symm.trans hw
    exact .last href.free href.last
  | accepted hcl =>
    cases (awaits_last (Or.inl hcl)).symm.trans hw
    exact .last ok_last.1 ok_last.2
  | examined hcl =>
    rw [awaits, hcl] at hw
    cases hw
    exact .last badTag_refusal.free badTag_refusal.last

/-- The client goes on when it reads a line. -/
theorem ImapReplied.reads {ends : Text → Bool} {chunks lines unread : List Text}
    (h : ImapReplied names c s line) (hw : c.awaits = some ends)
    (hdown : chunks.flatten = unlines [line])
    (hread : readThrough ends chunks = some (lines, unread)) :
    (c.hears lines).1.user = c.user ∧ (c.hears lines).1.pass = c.pass ∧
      ImapStage names (c.hears lines).1 s (unlines (c.hears lines).2.toList) unread.flatten := by
  obtain ⟨rfl, hunread⟩ := answer_read (h.answers hw) hdown hread
  rw [hunread]
  cases h with
  | greeting hcl hst hl =>
    have hears : c.hears [imapGreeting] = c.send .login (loginCommand c.user c.pass) := by
      unfold hears
      rw [hcl]
      exact if_pos (isOk_iff.mpr (by decide))
    rw [hears]
    exact ⟨rfl, rfl, .asked (.login rfl hst hl)⟩
  | refused hcl hst hl href =>
    have hears : c.hears [line] = ({ c with control := .error }, none) := by
      unfold hears
      rw [hcl]
      exact if_neg (by simp [href.refused])
    rw [hears]
    exact ⟨rfl, rfl, .rejected rfl hst hl⟩
  | accepted hcl hst hl =>
    have hears : c.hears [ok (decimal c.tag)] = c.send .list listCommand := by
      unfold hears
      rw [hcl]
      exact if_pos isOk_completion
    rw [hears]
    exact ⟨rfl, rfl, .asked (.list rfl hst hl)⟩
  | @examined mailbox hcl hst hl =>
    have hfetch : c.hears [badTag (decimal c.tag)] = ({ c with
        storage := c.storage.modify mailbox fun entry => (entry.1, []) } : ImapClient).examine
          (mailbox + 1) := by
      unfold hears
      rw [hcl]
      dsimp only
      rw [badTag_amount]
      rfl
    have hsame : ({ c with
        storage := c.storage.modify mailbox fun entry => (entry.1, []) } : ImapClient) = c := by
      rw [show (c.storage.modify mailbox fun entry => (entry.1, [])) = c.storage by
        rw [hst]
        exact modify_empty mailbox]
    rw [hfetch, hsame]
    obtain ⟨command, hcommand, huser, hpass, hasked⟩ := examine_asks hst hl (mailbox + 1)
    rw [hcommand]
    exact ⟨huser, hpass, .asked hasked⟩

theorem listLine_plain {name : Text} (h : IsPlainName name) :
    CrlfFree (listMailbox name) ∧ isLast (listMailbox name) = false := by
  have hbreak : NoBreak (listMailbox name) := by
    rw [listMailbox_eq]
    refine noBreak_append.mpr ⟨by decide, List.forall_mem_cons.mpr ⟨by decide, ?_⟩⟩
    exact noBreak_append.mpr ⟨h.isName.oneLine, by decide⟩
  refine ⟨noBreak_free hbreak, ?_⟩
  rw [Bool.eq_false_iff, ne_eq, isLast_iff]
  exact h.notLast

theorem listLines_plain (plain : ∀ name ∈ names, IsPlainName name) :
    ∀ line ∈ names.map listMailbox, CrlfFree line ∧ isLast line = false := by
  intro line hline
  obtain ⟨name, hname, rfl⟩ := List.mem_map.mp hline
  exact listLine_plain (plain name hname)

theorem list_answers (plain : ∀ name ∈ names, IsPlainName name) (n : Nat) :
    IsAnswer isLast (names.map listMailbox ++ [ok (decimal n)]) :=
  isAnswer_concat.mpr ⟨listLines_plain plain, ok_last⟩

/-- The client goes on when it reads an answer. -/
theorem ImapStage.reads {ends : Text → Bool} {chunks lines unread : List Text}
    (h : ImapStage names c s up down) (plain : ∀ name ∈ names, IsPlainName name)
    (hw : c.awaits = some ends) (hdown : chunks.flatten = down)
    (hread : readThrough ends chunks = some (lines, unread)) :
    (c.hears lines).1.user = c.user ∧ (c.hears lines).1.pass = c.pass ∧
      ImapStage names (c.hears lines).1 s (up ++ unlines (c.hears lines).2.toList)
        unread.flatten := by
  cases h with
  | fresh => exact absurd hread (no_answer_read hdown)
  | asked => exact absurd hread (no_answer_read hdown)
  | replied hl => exact hl.reads hw hdown hread
  | @listing done rest hcl _ _ _ hdone =>
    obtain rfl : isLast = ends := Option.some.inj ((awaits_last (Or.inr hcl)).symm.trans hw)
    have hall := listLines_plain fun name (hname : name ∈ done) =>
      plain name (hdone ▸ List.mem_append_left _ hname)
    rw [readThrough_unending (fun line hline => (hall line hline).1)
      (fun line hline => (hall line hline).2) hdown] at hread
    cases hread
  | listed hcl hst hl =>
    obtain rfl : isLast = ends := Option.some.inj ((awaits_last (Or.inr hcl)).symm.trans hw)
    obtain ⟨rfl, hunread⟩ := answer_read (list_answers plain _) hdown hread
    have hnames : storeMailboxNames (names.map listMailbox ++ [ok (decimal c.tag)]) c.storage =
        emptyMailboxes names := by
      rw [storeMailboxNames, hst, mailbox_names_survive (fun name hname => (plain name hname).isName)
        (isTag_decimal _)]
      rfl
    have hears : c.hears (names.map listMailbox ++ [ok (decimal c.tag)]) =
        ({ c with storage := emptyMailboxes names } : ImapClient).examine 0 := by
      unfold hears
      rw [hcl]
      dsimp only
      rw [if_pos (by rw [List.getLastD_concat]; exact isOk_completion), hnames]
    rw [hears, hunread]
    obtain ⟨command, hcommand, huser, hpass, hasked⟩ := @examine_asks names
      { c with storage := emptyMailboxes names } s rfl hl 0
    rw [hcommand]
    exact ⟨huser, hpass, .asked hasked⟩
  | leaving hcl hst huser hl =>
    have hears : c.hears lines = ({ c with control := .ended }, none) := by
      unfold hears
      rw [hcl]
    rw [hears]
    exact ⟨rfl, rfl, .left rfl hst huser hl⟩
  | left hcl => simp [awaits, hcl] at hw
  | rejected hcl => simp [awaits, hcl] at hw

end

end Protocols
