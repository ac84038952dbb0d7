import Protocols.ImapAnswers
import Protocols.MaildropAccess
import Protocols.RegexSearch

namespace Protocols

open Regex Relation Conversation

/-- A name that the format of LIST can carry. -/
structure IsMailboxName (name : Text) : Prop where
  named : name ≠ []
  unquoted : '"' ∉ name
  oneLine : NoBreak name

namespace ImapClient

section

variable {line name tag : Text} {arguments : List Text}

theorem quote_words {w : Text} : w ∈ (lit "\"").words ↔ w = ['"'] :=
  mem_lit_char_words rfl (by decide)

/-- What follows the last quote but one. -/
def quotedEnd : List Regex := [lit "\"", group 1 (plus any), lit "\"", star space]

theorem quotedEnd_words {value blanks : Text} (hvalue : value ≠ [] ∧ NoBreak value)
    (hblanks : blanks ∈ (star space).words) :
    '"' :: (value ++ '"' :: blanks) ∈ (all quotedEnd).words := by
  simp only [quotedEnd, all_cons, mem_seq_words]
  exact ⟨['"'], quote_words.mpr rfl, _, ⟨value, plus_any_words.mpr hvalue, _, ⟨['"'],
    quote_words.mpr rfl, _, ⟨blanks, hblanks, [], (Language.mem_one _).mpr rfl,
    List.append_nil blanks⟩, rfl⟩, rfl⟩, rfl⟩

/-- The value is what stands between the last quotes that there is something between. -/
theorem parseMailbox_some (h : regexMatch parseMailbox line = some arguments) :
    ∃ before value blanks, line = before ++ '"' :: (value ++ '"' :: blanks) ∧
      (value ≠ [] ∧ NoBreak value) ∧ blanks ∈ (star space).words ∧ str arguments 1 = value ∧
      ∀ front back, value = front ++ '"' :: back → back = [] := by
  rw [regexMatch_eq] at h
  obtain ⟨caps, hwhole, rfl⟩ := Option.map_eq_some_iff.mp h
  obtain ⟨u, t, hline, hu, ht, _⟩ := whole_star_some hwhole
  obtain ⟨spelled, t, rfl, hspelled, ht⟩ := whole_lit_some ht
  obtain ⟨u', t, rfl, hu', ht, hlongest⟩ := whole_star_some ht
  obtain ⟨ws, hws, rfl, rfl⟩ := @whole_parts _ _ quotedEnd (by decide) _ ht
  obtain _ | ⟨hquote, _ | ⟨hword, _ | ⟨hquote', _ | ⟨hblanks, ⟨⟩⟩⟩⟩⟩ := hws
  rw [quote_words.mp hquote, quote_words.mp hquote'] at hline hlongest
  have hvalue := plus_any_words.mp hword
  refine ⟨u ++ (spelled ++ u'), _, _, by simpa using hline, hvalue, hblanks, rfl,
    fun front back hsplit => ?_⟩
  -- a later quote would have been taken by the repetition before it
  by_contra hback
  have hparts := hvalue.2
  rw [hsplit, NoBreak, List.forall_mem_append, List.forall_mem_cons] at hparts
  obtain ⟨hfront, _, hrest⟩ := hparts
  have hmore : NoBreak ('"' :: front) := List.forall_mem_cons.mpr ⟨by decide, hfront⟩
  refine hlongest (u' ++ '"' :: front) ('"' :: (back ++ '"' :: _)) ?_
    (List.forall_mem_append.mpr ⟨hu', noBreak_iff.mpr hmore⟩) ?_
    ((matches_all_eol quotedEnd (by decide)).mpr (quotedEnd_words ⟨hback, hrest⟩ hblanks))
  · simp [hsplit]
  · simp

/-- A line with a quoted value at its end. -/
theorem parseMailbox_isSome {before value : Text} (hbefore : NoBreak before)
    (hlist : ∃ front back, before = front ++ ("LIST".toList ++ back))
    (hvalue : value ≠ [] ∧ NoBreak value) :
    (regexMatch parseMailbox (before ++ '"' :: (value ++ ['"']))).isSome = true := by
  obtain ⟨front, back, rfl⟩ := hlist
  rw [NoBreak, List.forall_mem_append, List.forall_mem_append] at hbefore
  have hparts : parseMailbox = all ((star any :: lit "LIST" :: star any :: quotedEnd) ++ [eol]) := rfl
  rw [regexMatch_isSome, hparts, matches_all_eol _ (by decide)]
  simp only [all_cons, mem_seq_words]
  refine ⟨front, star_any_words.mpr hbefore.1, _, ⟨"LIST".toList, mem_lit_words.mpr rfl, _,
    ⟨back, star_any_words.mpr hbefore.2.2, _,
      quotedEnd_words hvalue (nil_mem_star_words space), rfl⟩, rfl⟩, ?_⟩
  simp

/-- What stands before the name in the format of LIST. -/
def beforeName : Text := "* LIST () \"/\" ".toList

theorem listMailbox_eq (name : Text) : listMailbox name = beforeName ++ '"' :: (name ++ ['"']) :=
  rfl

/-- The name that is taken from the line. -/
def mailboxOf (line : Text) : Option Text :=
  (regexMatch parseMailbox line).map fun submatch => str submatch 1

theorem extractMailboxNames_eq (response : List Text) :
    extractMailboxNames response = response.filterMap mailboxOf := rfl

theorem mailboxOf_listMailbox (h : IsMailboxName name) : mailboxOf (listMailbox name) = some name := by
  have hsome := @parseMailbox_isSome beforeName name (by decide)
    ⟨"* ".toList, " () \"/\" ".toList, rfl⟩ ⟨h.named, h.oneLine⟩
  rw [← listMailbox_eq] at hsome
  obtain ⟨submatch, hmatch⟩ := Option.isSome_iff_exists.mp hsome
  rw [mailboxOf, hmatch, Option.map_some]
  obtain ⟨before, value, blanks, hline, _, hblanks, hvalue, hlast⟩ := parseMailbox_some hmatch
  rw [listMailbox_eq] at hline
  rw [hvalue]
  -- the line from its end: no blank follows the last quote, and none is in the name
  have hend := congrArg List.reverse hline
  simp only [List.reverse_append, List.reverse_cons, List.reverse_nil, List.nil_append,
    List.singleton_append, List.append_assoc] at hend
  have hnone : blanks = [] := by
    cases hback : blanks.reverse with
    | nil => exact List.reverse_eq_nil_iff.mp hback
    | cons c rest =>
      rw [hback] at hend
      have hspace := star_space_words.mp hblanks c
        (List.mem_reverse.mp (by rw [hback]; exact List.mem_cons_self))
      rw [← (List.cons.inj hend).1] at hspace
      exact absurd hspace (by decide)
  subst hnone
  have hparts := (List.cons.inj hend).2
  have hname : '"' ∉ name.reverse := fun hin => h.unquoted (List.mem_reverse.mp hin)
  have hquote : '"' ∉ value.reverse := by
    intro hin
    obtain ⟨front, back, rfl⟩ := List.append_of_mem (List.mem_reverse.mp hin)
    rw [hlast front back rfl] at hparts
    obtain ⟨c, rest, hcons⟩ := List.exists_cons_of_ne_nil
      (List.reverse_eq_nil_iff.not.mpr h.named)
    rw [hcons, List.reverse_append] at hparts
    refine hname ?_
    rw [hcons, (List.cons.inj hparts).1]
    exact List.mem_cons_self
  rw [List.reverse_inj.mp (split_unique hname hquote hparts).1]

theorem mailboxOf_ok (ht : IsTag tag) : mailboxOf (ok tag) = none := by
  rw [mailboxOf, Option.map_eq_none_iff]
  refine Option.eq_none_iff_forall_ne_some.mpr fun submatch hmatch => ?_
  obtain ⟨before, value, blanks, hline, _⟩ := parseMailbox_some hmatch
  have hquote : '"' ∈ ok tag := by
    rw [hline]
    simp
  have hok : ok tag = tag ++ " OK".toList := by
    simp [ok, format]
  rw [hok] at hquote
  rcases List.mem_append.mp hquote with hin | hin
  · exact absurd (ht.2 _ hin) (by decide)
  · exact absurd hin (by decide)

/-- The names that the server lists are the names that the client takes from the list. -/
theorem mailbox_names_survive {names : List Text} (h : ∀ name ∈ names, IsMailboxName name)
    (ht : IsTag tag) : extractMailboxNames (names.map listMailbox ++ [ok tag]) = names := by
  rw [extractMailboxNames_eq]
  induction names with
  | nil => rw [List.map_nil, List.nil_append, List.filterMap_cons_none (mailboxOf_ok ht), List.filterMap_nil]
  | cons name names ih =>
    obtain ⟨hname, hnames⟩ := List.forall_mem_cons.mp h
    rw [List.map_cons, List.cons_append, List.filterMap_cons_some (mailboxOf_listMailbox hname),
      ih hnames]

theorem mailbox_names_blanks :
    extractMailboxNames (["Sent Items".toList, " to LIST/ ".toList].map listMailbox ++ [ok ['2']]) =
      ["Sent Items".toList, " to LIST/ ".toList] := by
  refine mailbox_names_survive (List.forall_mem_cons.mpr ⟨⟨by decide, by decide, by decide⟩,
    List.forall_mem_singleton.mpr ⟨by decide, by decide, by decide⟩⟩) ⟨by decide, ?_⟩
  exact List.forall_mem_singleton.mpr (by decide)

end

/-- A character of an argument without quotes. -/
def IsAtomChar (c : Char) : Prop := c ∈ "./-*".toList ∨ wordChar c = true

/-- The argument is the name, as the parser of the server takes it: in quotes or as it is. -/
def Denotes (argument name : Text) : Prop :=
  (name ∈ (plus quotedChar).words ∧ argument = '"' :: (name ++ ['"'])) ∨
    (name ∈ (plus atomChar).words ∧ argument = name)

def names (c : ImapClient) : List Text := c.storage.map Prod.fst

/-- The argument of the EXAMINE that the client has sent last. -/
def Examines (d : Conversation ImapClient) (argument : Text) : Prop :=
  d.said.getLast? = some (decimal d.client.tag ++ (" EXAMINE ".toList ++ argument))

section

variable {name : Text}

theorem atom_words : name ∈ (plus atomChar).words ↔ name ≠ [] ∧ ∀ c ∈ name, IsAtomChar c := by
  have hset : ∀ u, u ∈ atomChar.words ↔ ∃ c, IsAtomChar c ∧ u = [c] := by
    intro u
    rw [atomChar, mem_alt_words, oneOf, mem_set_words, word, mem_alt_words, alnum_words,
      mem_lit_char_words (d := '_') rfl (by decide)]
    simp only [IsAtomChar, wordChar, Bool.or_eq_true, beq_iff_eq, or_and_right, exists_or,
      exists_eq_left, List.contains_iff_mem]
  exact mem_plus_set_words hset

/-- A name denotes itself if it needs no quotes. -/
theorem denotes_self : Denotes name name ↔ name ≠ [] ∧ ∀ c ∈ name, IsAtomChar c := by
  rw [← atom_words]
  constructor
  · rintro (⟨_, hquoted⟩ | ⟨hatoms, _⟩)
    · have hlen := congrArg List.length hquoted
      simp only [List.length_cons, List.length_append] at hlen
      omega
    · exact hatoms
  · exact fun hatoms => Or.inr ⟨hatoms, rfl⟩

end

section

variable {server : List Text → List Text} {c : ImapClient} {d e : Conversation ImapClient}
  {before : List Text} {k : Nat}

/-- The client is past the list: it has the names, and examines one of them or none. -/
structure PastList (names' : List Text) (r : ImapClient × Option Text) : Prop where
  names : names r.1 = names'
  past : r.1.control ≠ .greeting ∧ r.1.control ≠ .login ∧ r.1.control ≠ .list
  examines : ∀ k, r.1.control = .examine k →
    ∃ name, names'[k]? = some name ∧ r.2 = some (examineCommand name r.1.tag)

theorem examine_pastList (c : ImapClient) (mailbox : Nat) : PastList (names c) (c.examine mailbox) := by
  unfold examine
  split
  next name _ hname =>
    refine ⟨rfl, ⟨nofun, nofun, nofun⟩, fun k hk => ?_⟩
    cases hk
    exact ⟨name, by rw [names, List.getElem?_map, hname]; rfl, rfl⟩
  next => exact ⟨rfl, ⟨nofun, nofun, nofun⟩, fun k hk => by cases hk⟩

theorem names_modify (storage : List (Text × List ImapMail)) (mailbox : Nat) (mails : List ImapMail) :
    (storage.modify mailbox fun (name, _) => (name, mails)).map Prod.fst = storage.map Prod.fst := by
  induction storage generalizing mailbox with
  | nil => simp
  | cons entry storage ih =>
    cases mailbox with
    | zero => rfl
    | succ mailbox => rw [List.modify_succ_cons, List.map_cons, ih, List.map_cons]

theorem fetch_pastList (c : ImapClient) (mailbox i existsAmount : Nat) (mails : List ImapMail) :
    PastList (names c) (c.fetch mailbox i existsAmount mails) := by
  unfold fetch
  split
  next => exact ⟨rfl, ⟨nofun, nofun, nofun⟩, fun k hk => by cases hk⟩
  next =>
    have hnames : names { c with
        storage := c.storage.modify mailbox fun (name, _) => (name, mails) } = names c :=
      names_modify _ _ _
    rw [← hnames]
    exact examine_pastList _ _

theorem hears_pastList (hpast : c.control ≠ .greeting ∧ c.control ≠ .login ∧ c.control ≠ .list)
    (hw : c.awaits ≠ none) (response : List Text) : PastList (names c) (c.hears response) := by
  unfold hears
  cases hc : c.control with
  | greeting => exact absurd hc hpast.1
  | login => exact absurd hc hpast.2.1
  | list => exact absurd hc hpast.2.2
  | examine mailbox =>
    dsimp only
    split
    next => exact fetch_pastList _ _ _ _ _
    next => exact ⟨rfl, ⟨nofun, nofun, nofun⟩, fun k hk => by cases hk⟩
  | fetch mailbox i existsAmount mails => exact fetch_pastList _ _ _ _ _
  | logout => exact ⟨rfl, ⟨nofun, nofun, nofun⟩, fun k hk => by cases hk⟩
  | ended | error | failed => simp [awaits, hc] at hw

theorem PastList.said {names' : List Text} {r : ImapClient × Option Text} (h : PastList names' r)
    (said : List Text) : PastList names' (r.1, (said ++ r.2.toList).getLast?) := by
  refine ⟨h.names, h.past, fun k hk => ?_⟩
  obtain ⟨name, hname, hcommand⟩ := h.examines k hk
  exact ⟨name, hname, by rw [hcommand, Option.toList_some, List.getLast?_concat]⟩

/-- How far the client has come with the list: it has not got it, has stored its names, or has
stopped. -/
inductive ListStage (before : List Text) (d : Conversation ImapClient) : Prop
  | early (n : Nat) :
      ([.greeting, .login, .list] : List ImapClientControl)[n]? = some d.client.control →
      d.heard.length = n → names d.client = before → ListStage before d
  | late (response : List Text) : d.heard[2]? = some response →
      PastList (before ++ extractMailboxNames response) (d.client, d.said.getLast?) →
      ListStage before d
  | stopped : d.client.control = .error → ListStage before d

theorem ListStage.step (h : ListStage before d) (hs : Talks imapClient server d e) :
    ListStage before e := by
  obtain ⟨ends, response, _, hw, _, hclient, hsaid, hheard⟩ := talks_cases hs
  have hclient' : e.client = (d.client.hears response).1 := hclient
  have hsaid' : e.said = d.said ++ (d.client.hears response).2.toList := hsaid
  have hawaits : d.client.awaits = some ends := hw
  cases h with
  | early n hn hlen hnames =>
    have hlen' : e.heard.length = n + 1 := by
      rw [hheard, List.length_append, hlen, List.length_singleton]
    rcases n with _ | _ | _ | n
    · have hc : d.client.control = .greeting := (Option.some.inj hn).symm
      simp only [hears, hc] at hclient'
      split at hclient'
      next => exact .early 1 (by rw [hclient']; rfl) hlen' (by rw [hclient']; exact hnames)
      next => exact .stopped (by rw [hclient'])
    · have hc : d.client.control = .login := (Option.some.inj hn).symm
      simp only [hears, hc] at hclient'
      split at hclient'
      next => exact .early 2 (by rw [hclient']; rfl) hlen' (by rw [hclient']; exact hnames)
      next => exact .stopped (by rw [hclient'])
    · have hc : d.client.control = .list := (Option.some.inj hn).symm
      simp only [hears, hc] at hclient' hsaid'
      by_cases hok : isOk (response.getLastD []) = true
      · rw [if_pos hok] at hclient' hsaid'
        refine .late response ?_ ?_
        · have htwo : d.heard.length = 2 := hlen
          rw [hheard, ← htwo, List.getElem?_concat_length]
        · have hstored : names { d.client with
              storage := storeMailboxNames response d.client.storage } =
                before ++ extractMailboxNames response := by
            rw [← hnames, names, names, storeMailboxNames, List.map_append, List.map_map]
            exact congrArg _ (List.map_id _)
          rw [hclient', hsaid', ← hstored]
          exact (examine_pastList _ _).said _
      · rw [if_neg hok] at hclient'
        exact .stopped (by rw [hclient'])
    · cases hn
  | late response' hr hlate =>
    refine .late response' ?_ ?_
    · rw [hheard, List.getElem?_append_left (List.getElem?_eq_some_iff.mp hr).1, hr]
    · rw [hclient', hsaid', ← hlate.names]
      exact (hears_pastList hlate.past (by simp [hawaits]) response).said _
  | stopped herror => simp [awaits, herror] at hawaits

/-- The names are those of the storage as it was and those of the answer to LIST, and the argument of
an EXAMINE denotes its name if and only if the name needs no quotes. -/
theorem examines_names_iff (hc : c.control = .greeting)
    (run : ReflTransGen (Talks imapClient server) (opening c server) d)
    (hk : d.client.control = .examine k) :
    ∃ response name argument, d.heard[2]? = some response ∧
      (names c ++ extractMailboxNames response)[k]? = some name ∧ Examines d argument ∧
      (Denotes argument name ↔ name ≠ [] ∧ ∀ c ∈ name, IsAtomChar c) := by
  have start : ListStage (names c) (opening c server) := .early 0 (congrArg some hc.symm) rfl rfl
  have reached := reaches_invariant run start fun _ _ h hs => h.step hs
  cases reached with
  | early n hn _ _ =>
    rw [hk] at hn
    rcases n with _ | _ | _ | n
    · cases hn
    · cases hn
    · cases hn
    · cases hn
  | late response hr hlate =>
    obtain ⟨name, hname, hsaid⟩ := hlate.examines k hk
    refine ⟨response, name, name, hr, hname, ?_, denotes_self⟩
    have hcommand : d.said.getLast? = some (examineCommand name d.client.tag) := hsaid
    rw [Examines, hcommand]
    simp [examineCommand, format]
  | stopped herror =>
    rw [hk] at herror
    cases herror

end

/-- A server with one mailbox. -/
def listing (said : List Text) : List Text :=
  match said with
  | [] => [unlines ["* OK".toList]]
  | [_] => [unlines ["1 OK".toList]]
  | [_, _] => [unlines [listMailbox "Sent Items".toList, "2 OK".toList]]
  | _ => []

/-- The client when it has asked for the mailbox. -/
def examining : Conversation ImapClient :=
  ⟨⟨[], [], [("Sent Items".toList, [])], 3, .examine 0⟩, [],
    ["1 LOGIN  ".toList, "2 LIST \"\" *".toList, "3 EXAMINE Sent Items".toList],
    [["* OK".toList], ["1 OK".toList], [listMailbox "Sent Items".toList, "2 OK".toList]]⟩

theorem examining_reached : ReflTransGen (Talks imapClient listing)
    (opening ⟨[], [], [], 0, .greeting⟩ listing) examining := by
  have greeted : Talks imapClient listing (opening ⟨[], [], [], 0, .greeting⟩ listing)
    ⟨⟨[], [], [], 1, .login⟩, [unlines ["1 OK".toList]], ["1 LOGIN  ".toList],
      [["* OK".toList]]⟩ := rfl
  have loggedIn : Talks imapClient listing
    ⟨⟨[], [], [], 1, .login⟩, [unlines ["1 OK".toList]], ["1 LOGIN  ".toList], [["* OK".toList]]⟩
    ⟨⟨[], [], [], 2, .list⟩, [unlines [listMailbox "Sent Items".toList, "2 OK".toList]],
      ["1 LOGIN  ".toList, "2 LIST \"\" *".toList], [["* OK".toList], ["1 OK".toList]]⟩ := rfl
  have listed : Talks imapClient listing
    ⟨⟨[], [], [], 2, .list⟩, [unlines [listMailbox "Sent Items".toList, "2 OK".toList]],
      ["1 LOGIN  ".toList, "2 LIST \"\" *".toList], [["* OK".toList], ["1 OK".toList]]⟩
    examining := rfl
  exact ((ReflTransGen.single greeted).tail loggedIn).tail listed

theorem examines_names_sent :
    ∃ response name argument, examining.heard[2]? = some response ∧
      (names ⟨[], [], [], 0, .greeting⟩ ++ extractMailboxNames response)[0]? = some name ∧
      Examines examining argument ∧
      (Denotes argument name ↔ name ≠ [] ∧ ∀ c ∈ name, IsAtomChar c) :=
  examines_names_iff rfl examining_reached rfl

/-- A name with a blank is asked for without quotes. -/
theorem blank_unquoted :
    ReflTransGen (Talks imapClient listing) (opening ⟨[], [], [], 0, .greeting⟩ listing) examining ∧
    extractMailboxNames [listMailbox "Sent Items".toList, "2 OK".toList] = ["Sent Items".toList] ∧
    ∀ argument, Examines examining argument → ¬ Denotes argument "Sent Items".toList := by
  refine ⟨examining_reached, by decide +kernel, fun argument h hd => ?_⟩
  have hsame : argument = "Sent Items".toList := by
    have hsaid : decimal 3 ++ (" EXAMINE ".toList ++ "Sent Items".toList) =
        decimal 3 ++ (" EXAMINE ".toList ++ argument) := Option.some.inj h
    exact (List.append_cancel_left (List.append_cancel_left hsaid)).symm
  rw [hsame] at hd
  have hblank := (denotes_self.mp hd).2 ' ' (by decide)
  rcases hblank with hin | hword
  · exact absurd hin (by decide)
  · exact absurd hword (by decide)

end ImapClient

end Protocols
