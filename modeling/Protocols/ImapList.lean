import Protocols.MailInvariant

namespace Protocols

open Relation

def listReference (arguments : List Text) : Text :=
  if str arguments 2 = [] then str arguments 3 else str arguments 2

def listPattern (arguments : List Text) : Text :=
  if str arguments 4 = [] then str arguments 5 else str arguments 4

/-- What a LIST of all mailboxes names: under any other reference than the root, nothing. -/
def listedNames (storage : MailStorage) (user : Text) (arguments : List Text) : List Text :=
  if listReference arguments = [] ∨ listReference arguments = "/".toList then
    storage.mailboxNames user
  else []

def namingLines (names : List Text) : List SessionEvent :=
  names.map fun mailbox => .sent (listMailbox mailbox)

/-- Every mailbox is named, and the command is completed. -/
def imapListAnswer (tag : Text) (names : List Text) : List SessionEvent :=
  namingLines names ++ [.sent (ok tag)]

/-- An authenticated session hears in `c₁` a LIST with the pattern `*`. -/
structure ImapListHeard (n : Nat) (s : ImapSession) (line : Text) (arguments : List Text)
    (c c₁ : MailConfig) : Prop where
  session : c.threads n = some (.imap s)
  reading : s.control = .reading
  authenticated : s.state = .authenticated
  request : imapParseRequest line = (.list, arguments)
  pattern : listPattern arguments = "*".toList
  step : MailStep c c₁
  heard : ∃ out, c₁.logOf n = c.logOf n ++ .heard line :: out

theorem mem_mailboxNames {storage : MailStorage} {user box : Text} :
    box ∈ storage.mailboxNames user ↔ ∃ mails, storage.mailbox user box = some mails := by
  unfold MailStorage.mailboxNames MailStorage.mailbox
  cases storage.maildrops.lookup user with
  | none => simp
  | some drop =>
    simp only [Option.map_some, Option.getD_some, Option.bind_some]
    rw [← Option.isSome_iff_exists, AList.lookup_isSome]
    exact Iff.rfl

theorem mailboxNames_nodup (storage : MailStorage) (user : Text) :
    (storage.mailboxNames user).Nodup := by
  unfold MailStorage.mailboxNames
  cases storage.maildrops.lookup user with
  | none => exact List.nodup_nil
  | some drop => exact AList.keys_nodup drop.mails

theorem listMailbox_ne_ok (mailbox tag : Text) : listMailbox mailbox ≠ ok tag := by
  have hm : listMailbox mailbox = "* LIST () \"/\" \"".toList ++ mailbox ++ ['"'] := by
    simp [listMailbox, format]
  have hl : (listMailbox mailbox).getLast? = some '"' := by
    rw [hm, List.getLast?_concat]
  have ho : (ok tag).getLast? = some 'K' := by
    simp [ok, format]
  intro he
  rw [he, ho] at hl
  exact absurd hl (by decide)

theorem namingLines_take {names : List Text} {mailbox : Text} {rest : List Text} {k : Nat}
    (h : names.drop k = mailbox :: rest) : namingLines (names.take (k + 1)) =
      namingLines (names.take k) ++ [.sent (listMailbox mailbox)] := by
  have hk : names[k]? = some mailbox := by
    rw [← List.head?_drop, h]
    rfl
  rw [List.take_add_one, hk]
  simp [namingLines]

/-- Where the answer to a LIST of all mailboxes can be: the first `k` of them have been named, the
command is complete, or the session has ended among them. -/
def Naming (n : Nat) (user tag : Text) (names : List Text) (before : List SessionEvent)
    (c : MailConfig) : Prop :=
  (∃ k s, c.threads n = some (.imap s) ∧ s.user = user ∧ c.store.mailboxNames user = names ∧
    s.control = .writing (.list tag names (names.drop k)) ∧
    c.logOf n = before ++ namingLines (names.take k)) ∨
  before ++ imapListAnswer tag names <+: c.logOf n ∨
  ∃ k s, c.threads n = some (.imap s) ∧ s.control = .ended ∧
    c.logOf n = before ++ namingLines (names.take k)

/-- The next mailbox is named, or there is none and the command is completed. -/
theorem naming_walk {n k : Nat} {tag : Text} {names : List Text} {before : List SessionEvent}
    {s : ImapSession} {d : MailConfig}
    (hd : d.threads n = some (.imap (s.walk tag names (names.drop k)).1))
    (hnames : names = [] ∨ d.store.mailboxNames s.user = names)
    (hlog : d.logOf n = before ++ namingLines (names.take k) ++
      (s.walk tag names (names.drop k)).2) : Naming n s.user tag names before d := by
  cases hdrop : names.drop k with
  | nil =>
    rw [hdrop] at hlog
    have htake : names.take k = names := List.take_of_length_le (List.drop_eq_nil_iff.mp hdrop)
    refine Or.inr (Or.inl ?_)
    rw [hlog, htake]
    simp [ImapSession.walk, ImapSession.reply, imapListAnswer]
  | cons mailbox rest =>
    have hrest : rest = names.drop (k + 1) := by
      rw [← List.tail_drop, hdrop]
      rfl
    have hnames : d.store.mailboxNames s.user = names := by
      refine hnames.resolve_left fun he => ?_
      simp [he] at hdrop
    rw [hdrop] at hd hlog
    refine Or.inl ⟨k + 1, _, hd, rfl, hnames, by rw [← hrest]; rfl, ?_⟩
    rw [hlog, namingLines_take hdrop, List.append_assoc]
    rfl

theorem naming_step {n : Nat} {user tag : Text} {names : List Text} {before : List SessionEvent}
    {c d : MailConfig} (h : Naming n user tag names before c)
    (hs : MailStep c d) (stay : d.store.mailboxNames user = c.store.mailboxNames user) :
    Naming n user tag names before d := by
  rcases h with ⟨k, s, hn, rfl, hk, hc, hlog⟩ | h | ⟨k, s, hn, hc, hlog⟩
  · rcases machineStep_running_cases hs hn with ⟨wake, l', out, hr, hd, hdlog⟩ | ⟨hd, hdlog⟩
    · obtain ⟨t, rfl, ht, _⟩ := mailResume_imap hr
      rw [hlog] at hdlog
      cases imapResume_step ht with
      | greeted hspawned => cases hc.symm.trans hspawned
      | heard _ hreading => cases hc.symm.trans hreading
      | written after hwriting _ he =>
        cases hc.symm.trans hwriting
        rw [ImapSession.replied, if_pos hk] at he
        rw [show t = _ from congrArg Prod.fst he] at hd
        rw [show out = _ from congrArg Prod.snd he] at hdlog
        exact naming_walk hd (Or.inr (stay.trans hk)) hdlog
      | dropped _ _ he =>
        cases he
        exact Or.inr (Or.inr ⟨k, _, hd, rfl, by rw [hdlog, List.append_nil]⟩)
    · exact Or.inl ⟨k, s, hd, rfl, stay.trans hk, hc, hdlog.trans hlog⟩
  · exact Or.inr (Or.inl (h.trans (machineStep_log_grows n hs)))
  · rcases machineStep_running_cases hs hn with ⟨wake, l', out, hr, _, _⟩ | ⟨hd, hdlog⟩
    · obtain ⟨_, _, ht, _⟩ := mailResume_imap hr
      simp [imapResume, hc] at ht
    · exact Or.inr (Or.inr ⟨k, s, hd, hc, hdlog.trans hlog⟩)

/-- Under another reference than the root, there is nothing to go over. -/
theorem list_walks {storage : MailStorage} {s : ImapSession} {arguments : List Text}
    {drop : Maildrop} (hdrop : storage.maildrops.lookup s.user = some drop)
    (hp : listPattern arguments = "*".toList) :
    s.list storage arguments = s.walk (str arguments 1) (listedNames storage s.user arguments)
      (listedNames storage s.user arguments) := by
  have hkeys : storage.mailboxNames s.user = drop.mails.keys := by
    simp [MailStorage.mailboxNames, hdrop]
  unfold listPattern at hp
  unfold ImapSession.list listedNames listReference
  simp only [hdrop, hkeys, hp, if_true]
  generalize (if str arguments 2 = [] then str arguments 3 else str arguments 2) = reference
  by_cases hroot : reference = [] ∨ reference = "/".toList
  · rw [if_neg (not_not.mpr hroot), if_pos hroot]
  · rw [if_pos hroot, if_neg hroot]
    rfl

theorem naming_heard {n : Nat} {s : ImapSession} {line : Text} {arguments : List Text}
    {c c₁ : MailConfig} (sound : StoreSound c) (h : ImapListHeard n s line arguments c c₁) :
    Naming n s.user (str arguments 1) (listedNames c.store s.user arguments)
      (c.logOf n ++ [.heard line]) c₁ := by
  obtain ⟨out, hheard⟩ := h.heard
  have hg := sound.imap n s h.session
  have hu : s.user ∈ c.store.maildrops := hg.known (hg.past (Or.inl h.authenticated))
  obtain ⟨drop, hdrop⟩ := mem_maildrops_iff.mp hu
  have stay := mailboxNames_stay sound h.step.parallel hu
  rcases machineStep_running_cases h.step h.session with ⟨wake, l', out', hr, hd, hlog⟩ | ⟨_, hlog⟩
  · obtain ⟨t, rfl, ht, _⟩ := mailResume_imap hr
    rw [hlog, List.append_cancel_left_eq] at hheard
    cases imapResume_step ht with
    | greeted hspawned => cases h.reading.symm.trans hspawned
    | written _ hwriting => cases h.reading.symm.trans hwriting
    | dropped _ _ he =>
      cases he
      cases hheard
    | heard request _ _ he =>
      have hreq : request = line := by
        rw [(Prod.mk.inj he).2] at hheard
        exact SessionEvent.heard.inj (List.cons.inj hheard).1
      subst hreq
      simp only [ImapSession.request, h.request, h.authenticated, ImapSession.authenticated,
        Prod.mk.injEq] at he
      obtain ⟨rfl, rfl⟩ := he
      rw [list_walks hdrop h.pattern] at hd hlog
      refine naming_walk (k := 0) hd ?_ ?_
      · unfold listedNames
        split
        next => exact Or.inr stay
        next => exact Or.inl rfl
      · rw [hlog]
        simp [namingLines]
  · rw [hlog] at hheard
    simp at hheard

/-- What has been said since the request is a beginning of the whole answer, and all of it once the
command is completed. -/
structure Enumerates (tag : Text) (names : List Text) (answer : List SessionEvent) : Prop where
  comparable : answer <+: imapListAnswer tag names ∨ imapListAnswer tag names <+: answer
  complete : .sent (ok tag) ∈ answer → imapListAnswer tag names <+: answer

theorem naming_enumerates {n : Nat} {user tag : Text} {names : List Text}
    {before : List SessionEvent} {c : MailConfig} (h : Naming n user tag names before c) :
    ∃ answer, c.logOf n = before ++ answer ∧ Enumerates tag names answer := by
  have partly : ∀ k, Enumerates tag names (namingLines (names.take k)) := by
    intro k
    refine ⟨Or.inl ?_, fun hm => ?_⟩
    · have hp := (List.take_prefix k names).map fun mailbox => SessionEvent.sent (listMailbox mailbox)
      exact hp.trans (List.prefix_append _ _)
    · obtain ⟨mailbox, _, he⟩ := List.mem_map.mp hm
      exact absurd (SessionEvent.sent.inj he) (listMailbox_ne_ok mailbox tag)
  rcases h with ⟨k, _, _, _, _, _, hlog⟩ | ⟨rest, hlog⟩ | ⟨k, _, _, _, hlog⟩
  · exact ⟨_, hlog, partly k⟩
  · refine ⟨imapListAnswer tag names ++ rest, by rw [← hlog, List.append_assoc], ?_⟩
    exact ⟨Or.inr (List.prefix_append _ _), fun _ => List.prefix_append _ _⟩
  · exact ⟨_, hlog, partly k⟩

/-- A LIST of all mailboxes goes over the mailboxes of the user, each of them once, whatever comes
in for the user and for others meanwhile. -/
theorem imap_list_enumerates {n : Nat} {s : ImapSession} {line : Text} {arguments : List Text}
    {c c₁ : MailConfig} (run : ReflTransGen MailStep (Config.init mockData) c)
    (h : ImapListHeard n s line arguments c c₁) :
    (c.store.mailboxNames s.user).Nodup ∧
    (∀ box, box ∈ c.store.mailboxNames s.user ↔
      ∃ mails, c.store.mailbox s.user box = some mails) ∧
    ∀ d, ReflTransGen MailStep c₁ d →
      (∀ m t, d.threads m = some (.imap t) → t.control ≠ .undefined) ∧
      d.store.mailboxNames s.user = c.store.mailboxNames s.user ∧
      ∃ answer, d.logOf n = c.logOf n ++ .heard line :: answer ∧
        Enumerates (str arguments 1) (listedNames c.store s.user arguments) answer := by
  have sound := storeSound_reaches run
  have hg := sound.imap n s h.session
  have hu : s.user ∈ c.store.maildrops := hg.known (hg.past (Or.inl h.authenticated))
  refine ⟨mailboxNames_nodup _ _, fun _ => mem_mailboxNames, fun d run' => ?_⟩
  have kept : StoreSound d ∧ s.user ∈ d.store.maildrops ∧
      d.store.mailboxNames s.user = c.store.mailboxNames s.user ∧
      Naming n s.user (str arguments 1) (listedNames c.store s.user arguments)
        (c.logOf n ++ [.heard line]) d := by
    refine reaches_invariant (P := fun e => StoreSound e ∧ s.user ∈ e.store.maildrops ∧
      e.store.mailboxNames s.user = c.store.mailboxNames s.user ∧
      Naming n s.user (str arguments 1) (listedNames c.store s.user arguments)
        (c.logOf n ++ [.heard line]) e) run' ?_ ?_
    · exact ⟨storeSound_step sound h.step.parallel, maildrops_stay sound h.step.parallel hu,
        mailboxNames_stay sound h.step.parallel hu, naming_heard sound h⟩
    · rintro e f ⟨he, hmem, hnames, hnaming⟩ hs
      have stay := mailboxNames_stay he hs.parallel hmem
      exact ⟨storeSound_step he hs.parallel, maildrops_stay he hs.parallel hmem, stay.trans hnames,
        naming_step hnaming hs stay⟩
  obtain ⟨hd, _, hnames, hnaming⟩ := kept
  obtain ⟨answer, hlog, hanswer⟩ := naming_enumerates hnaming
  refine ⟨fun m t hm => (hd.imap m t hm).defined, hnames, answer, ?_, hanswer⟩
  rw [hlog, List.append_assoc]
  rfl

/-- An IMAP session, and an SMTP session that comes while it runs. -/
def imapSessions : MailConfig :=
  ⟨mockData, Function.update (Function.update (fun _ => none) 0 (some (.imap {}))) 1
    (some (.smtp {})), []⟩

/-- The IMAP session has logged in, and the SMTP session is about to get the text of a mail. -/
def imapReady : Option MailConfig :=
  imapSessions.replay mailServer <|
    ([.scheduled, .written, .line "a login liia x".toList, .written].map fun wake => (0, wake)) ++
    ([.scheduled, .written, .line "helo ab".toList, .written, .line "mail from:<a@bc>".toList,
      .written, .line "rcpt to:<liia@localhost>".toList, .written, .line "data".toList].map
      fun wake => (1, wake))

theorem imapReady_isSome : imapReady.isSome = true := by decide +kernel

theorem imapSessions_free : imapSessions.Free mailServer 0 :=
  free_update mockData [] (free_update mockData [] (free_init mockData 0) (Or.inr rfl)) (Or.inr rfl)

theorem imapReady_free : (imapReady.get imapReady_isSome).Free mailServer 0 :=
  replay_free (List.cons_ne_nil _ _) (fun e he => by cases he; exact imapSessions_free)
    (Option.some_get imapReady_isSome).symm (by decide +kernel)

theorem imapReady_reached :
    ReflTransGen MailStep (Config.init mockData) (imapReady.get imapReady_isSome) := by
  have second : MailStep oneImap imapSessions :=
    .spawn rfl (Or.inl rfl) (free_update mockData [] (free_init mockData 0) (Or.inr rfl))
  exact .head oneImap_spawned (.head second (machine_replay_reaches
    (fun e he => by cases he; exact imapSessions_free) (Option.some_get imapReady_isSome).symm))

def imapLoggedIn : ImapSession := { state := .authenticated, user := liia, control := .reading }

/-- The configuration in which the request has been heard. -/
def afterImapList (line : Text) : Option MailConfig :=
  (imapReady.get imapReady_isSome).resumed mailServer 0 (.line line)

theorem afterImapList_heard {line : Text} {arguments : List Text} {c₁ : MailConfig}
    (hc : afterImapList line = some c₁) (request : imapParseRequest line = (.list, arguments))
    (pattern : listPattern arguments = "*".toList)
    (heard : ∃ out, c₁.logOf 0 = (imapReady.get imapReady_isSome).logOf 0 ++ .heard line :: out) :
    ImapListHeard 0 imapLoggedIn line arguments (imapReady.get imapReady_isSome) c₁ :=
  ⟨by decide +kernel, rfl, rfl, request, pattern, resumed_step hc imapReady_free, heard⟩

def rootList : Text := "a list / *".toList

theorem rootList_parsed :
    imapParseRequest rootList = (.list, [rootList, ['a'], [], ['/'], [], ['*']]) := by
  decide +kernel

theorem rootList_isSome : (afterImapList rootList).isSome = true := by decide +kernel

theorem rootList_heard : ImapListHeard 0 imapLoggedIn rootList
    [rootList, ['a'], [], ['/'], [], ['*']] (imapReady.get imapReady_isSome)
    ((afterImapList rootList).get rootList_isSome) :=
  afterImapList_heard (Option.some_get rootList_isSome).symm rootList_parsed rfl
    ⟨[.sent (listMailbox "Sent".toList)], by decide +kernel⟩

/-- A mail comes in after the first mailbox has been named. -/
def busyNaming : Option MailConfig :=
  ((afterImapList rootList).get rootList_isSome).replay mailServer
    [(1, .written), (1, .body ["hi".toList, ".".toList]), (0, .written), (0, .written)]

theorem busyNaming_isSome : busyNaming.isSome = true := by decide +kernel

theorem imap_list_enumerates_busy :
    ∃ answer, (busyNaming.get busyNaming_isSome).logOf 0 =
      (imapReady.get imapReady_isSome).logOf 0 ++ .heard rootList :: answer ∧
      Enumerates ['a'] ["Sent".toList, inboxName] answer := by
  obtain ⟨_, _, answers⟩ := imap_list_enumerates imapReady_reached rootList_heard
  have free : ((afterImapList rootList).get rootList_isSome).Free mailServer 1 :=
    resumed_free (Option.some_get rootList_isSome).symm imapReady_free (by decide +kernel)
  obtain ⟨_, _, answer, hlog, hanswer⟩ := answers _ (machine_replay_reaches
    (fun e he => by cases he; exact free) (Option.some_get busyNaming_isSome).symm)
  have hnames : listedNames (imapReady.get imapReady_isSome).store imapLoggedIn.user
      [rootList, ['a'], [], ['/'], [], ['*']] = ["Sent".toList, inboxName] := by
    decide +kernel
  rw [hnames] at hanswer
  exact ⟨answer, hlog, hanswer⟩

def otherList : Text := "a list other *".toList

theorem otherList_isSome : (afterImapList otherList).isSome = true := by decide +kernel

/-- Under another reference, no mailbox is named. -/
theorem imap_list_names_nothing : ∃ n s line arguments c c₁,
    ReflTransGen MailStep (Config.init mockData) c ∧ ImapListHeard n s line arguments c c₁ ∧
    c₁.logOf n = c.logOf n ++ [.heard line, .sent (ok (str arguments 1))] ∧
    inboxName ∈ c.store.mailboxNames s.user := by
  refine ⟨0, imapLoggedIn, otherList, [otherList, ['a'], [], "other".toList, [], ['*']],
    imapReady.get imapReady_isSome, (afterImapList otherList).get otherList_isSome,
    imapReady_reached, afterImapList_heard (Option.some_get otherList_isSome).symm ?_ rfl
      ⟨[.sent (ok ['a'])], ?_⟩, ?_, ?_⟩
  · decide +kernel
  · decide +kernel
  · decide +kernel
  · decide +kernel

end Protocols
