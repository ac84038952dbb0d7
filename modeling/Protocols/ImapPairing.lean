import Protocols.ImapDialogue

namespace Protocols

open Relation Regex ImapClient

/-- Every mailbox has a name that LIST can carry. -/
def MailStorage.PlainNames (storage : MailStorage) : Prop :=
  ∀ user, ∀ name ∈ storage.mailboxNames user, IsPlainName name

theorem inboxName_plain : IsPlainName inboxName :=
  ⟨⟨by decide, by decide, by decide⟩, by decide⟩

theorem plainNames_step {c d : MailConfig} (sound : StoreSound c) (h : c.store.PlainNames)
    (hs : MachineStep mailServer.parallel c d) : d.store.PlainNames := by
  intro user name hname
  rcases storeSound_effect sound hs with hsame | ⟨mail, hd⟩
  · rw [hsame.names user] at hname
    exact h user name hname
  · by_cases hinbox : name = inboxName
    · rw [hinbox]
      exact inboxName_plain
    · rw [hd, mem_mailboxNames, (deliver_exactly c.store mail).mailbox user name hinbox,
        ← mem_mailboxNames] at hname
      exact h user name hname

/-- What holds of the client and its session in every run. -/
structure ImapInStage (n : Nat) (start : ImapClient) (p : Pairing ImapClient) : Prop where
  sound : StoreSound p.config
  plain : p.config.store.PlainNames
  login : p.client.user = start.user ∧ p.client.pass = start.pass
  stage : ∃ s, p.config.threads n = some (.imap s) ∧ ∃ names s₀ up,
    (∀ name ∈ names, IsPlainName name) ∧ ImapStage names p.client s₀ up p.toClient.flatten ∧
      s₀.user = s.user ∧ (s.user ≠ [] → p.config.store.mailboxNames s.user = names) ∧
      (s.control = .ended ∨ (s₀ = s ∧ p.toServer.flatten = up))

section

variable {n : Nat} {start : ImapClient} {p q : Pairing ImapClient}

/-- The user's mailboxes keep their names in every step of the server. -/
theorem names_stay {s : ImapSession} {names : List Text} (h : ImapInStage n start p)
    (hn : p.config.threads n = some (.imap s)) {config : MailConfig}
    (hs : MailStep p.config config)
    (hnames : s.user ≠ [] → p.config.store.mailboxNames s.user = names) :
    s.user ≠ [] → config.store.mailboxNames s.user = names := fun hu =>
  (mailboxNames_stay h.sound hs.parallel ((h.sound.imap n s hn).known hu)).trans (hnames hu)

theorem ImapInStage.next (h : ImapInStage n start p) (hp : start.Plain)
    (hs : PairStep imapClient n p q) : ImapInStage n start q := by
  have both : StoreSound q.config ∧ q.config.store.PlainNames :=
    reaches_invariant (P := fun c => StoreSound c ∧ c.store.PlainNames) (pairStep_server hs)
      ⟨h.sound, h.plain⟩ fun _ _ hc hd =>
        ⟨storeSound_step hc.1 hd.parallel, plainNames_step hc.1 hc.2 hd.parallel⟩
  have hplain : p.client.Plain := ⟨h.login.1 ▸ hp.user, h.login.2 ▸ hp.pass⟩
  obtain ⟨s, hn, names, s₀, up, hall, hstage, huser, hnames, hs₀⟩ := h.stage
  rcases pairStep_cases hs hn with ⟨hn', hcl, hto, hfrom, hstep⟩ |
    ⟨wake, l', out, hr, hn', hcl, hfrom, hstep, hwake⟩ | ⟨ends, lines, hw, hread, hconfig, hcl, hto⟩
  · refine ⟨both.1, both.2, hcl ▸ h.login, s, hn', names, s₀, up, hall, ?_, huser,
      names_stay h hn hstep hnames, hto ▸ hs₀⟩
    rwa [hcl, hfrom]
  · obtain ⟨t, rfl, ht, hstore⟩ := mailResume_imap hr
    refine ⟨both.1, both.2, hcl ▸ h.login, t, hn', ?_⟩
    rw [hcl, hfrom]
    rcases hs₀ with hend | ⟨rfl, hup⟩
    · -- an ended session is not resumed
      cases imapResume_step ht with
      | greeted hc => simp [hend] at hc
      | heard _ hc => simp [hend] at hc
      | written _ hc => simp [hend] at hc
      | dropped hc => simp [hend] at hc
    · rcases hstage.served hplain hall (h.sound.imap n _ hn) hnames hup hwake ht with
        ⟨names', hwhich, hnames', hnext⟩ | ⟨hend, hsaid, hsame⟩
      · refine ⟨names', t, _, ?_, hnext, rfl, hstore ▸ hnames', Or.inr ⟨rfl, rfl⟩⟩
        rcases hwhich with rfl | rfl
        · exact hall
        · exact h.plain t.user
      · rw [hsaid, unlines_nil, List.append_nil]
        exact ⟨names, s₀, up, hall, hstage, hsame.symm, by rw [hsame, hstore]; exact hnames,
          Or.inl hend⟩
  · obtain ⟨hu, hpass, hnext⟩ := hstage.reads hall hw rfl hread
    rw [← hconfig] at hn hnames
    refine ⟨both.1, both.2, ?_, s, hn, names, s₀, _, hall, hcl ▸ hnext, huser, hnames, ?_⟩
    · rw [hcl]
      exact ⟨hu.trans h.login.1, hpass.trans h.login.2⟩
    · exact hs₀.imp_right fun ⟨hsame, hup⟩ => ⟨hsame, by rw [hto, hup]; rfl⟩

theorem imapInStage_start {storage : MailStorage} {config : MailConfig}
    (inboxes : storage.HasInboxes) (plain : storage.PlainNames)
    (run : ReflTransGen MailStep (Config.init storage) config)
    (hn : config.threads n = some (.imap {})) (hcl : start.control = .greeting)
    (hst : start.storage = []) : ImapInStage n start { config, client := start } := by
  have both : StoreSound config ∧ config.store.PlainNames :=
    reaches_invariant (P := fun c => StoreSound c ∧ c.store.PlainNames) run
      ⟨⟨inboxes, by simp [Config.init], by simp [Config.init]⟩, plain⟩
      fun _ _ hc hd =>
        ⟨storeSound_step hc.1 hd.parallel, plainNames_step hc.1 hc.2 hd.parallel⟩
  exact ⟨both.1, both.2, ⟨rfl, rfl⟩, {}, hn, [], {}, [], List.forall_mem_nil _,
    .fresh hcl hst rfl rfl, rfl, fun hne => absurd rfl hne, Or.inr ⟨rfl, rfl⟩⟩

theorem imapInStage_reaches (hp : start.Plain) (h : ImapInStage n start p)
    (run : ReflTransGen (PairStep imapClient n) p q) : ImapInStage n start q :=
  reaches_invariant run h fun _ _ h hs => h.next hp hs

/-- The client or its session can do something else than to lose the connection. -/
def CanGoOn (n : Nat) (p : Pairing ImapClient) : Prop :=
  ∃ m q, p.move imapClient n m = some q ∧ PairStep imapClient n p q ∧ m ≠ .session .dropped

theorem canGoOn_writing {s : ImapSession} {after : ImapAfter} (hf : p.config.Free mailServer n)
    (hn : p.config.threads n = some (.imap s)) (hc : s.control = .writing after) : CanGoOn n p := by
  obtain ⟨q, hq⟩ := session_moves imapClient (Or.inr (Or.inl rfl)) hn
    (show mailResume p.config.store (.imap s) .written = some
      (p.config.store, .imap (s.replied p.config.store after).1, (s.replied p.config.store after).2)
      by simp [mailResume, imapResume, hc])
  exact ⟨_, q, hq, move_step hq hf, by simp⟩

theorem canGoOn_client {ends : Text → Bool} {answer : List Text}
    (hw : p.client.awaits = some ends) (ha : IsAnswer ends answer)
    (h : unlines answer <+: p.toClient.flatten) : CanGoOn n p := by
  obtain ⟨q, hq⟩ := client_moves (k := imapClient) hw ha h
  exact ⟨_, q, hq, client_step hq, by simp⟩

theorem canGoOn_reading {s : ImapSession} {line : Text} (hf : p.config.Free mailServer n)
    (hn : p.config.threads n = some (.imap s)) (hc : s.control = .reading) (hfree : CrlfFree line)
    (h : p.toServer.flatten = unlines [line]) : CanGoOn n p := by
  obtain ⟨q, hq⟩ := request_moves imapClient hn hfree h
    (show mailResume p.config.store (.imap s) (.line line) = some
      (p.config.store, .imap (s.request p.config.store line).1,
        .heard line :: (s.request p.config.store line).2)
      by simp [mailResume, imapResume, hc])
  exact ⟨_, q, hq, move_step hq hf, by simp⟩

/-- The session reads the command, or goes on to do so. -/
theorem ImapAsked.control {names : List Text} {c : ImapClient} {s : ImapSession} {line : Text}
    (h : ImapAsked names c s line) : s.control = .reading ∨ ∃ after, s.control = .writing after := by
  cases h with
  | login _ _ hl => exact hl.control.symm.imp And.left fun hc => ⟨_, hc⟩
  | list _ _ hl => exact hl.control.symm.imp And.left fun hc => ⟨_, hc⟩
  | examine _ _ _ hl => exact hl.control.symm.imp And.left fun hc => ⟨_, hc⟩
  | logout _ _ hl => exact hl.control.symm.imp And.left fun hc => ⟨_, hc⟩

/-- As long as its session lives, and no body is awaited, a client that waits does not wait in vain. -/
theorem ImapInStage.goes_on (h : ImapInStage n start p) (hp : start.Plain) {ends : Text → Bool}
    (hw : p.client.awaits = some ends) :
    (∃ s, p.config.threads n = some (.imap s) ∧ s.control = .ended) ∨ BodyAwaited p.config ∨
      CanGoOn n p := by
  have hplain : p.client.Plain := ⟨h.login.1 ▸ hp.user, h.login.2 ▸ hp.pass⟩
  obtain ⟨s, hn, names, s₀, up, hall, hstage, _, _, hs₀⟩ := h.stage
  rcases hs₀ with hend | ⟨rfl, hup⟩
  · exact Or.inl ⟨s, hn, hend⟩
  · right
    refine (free_or_bodyAwaited p.config n).symm.imp_right fun hf => ?_
    generalize hdown : p.toClient.flatten = down at hstage
    cases hstage with
    | fresh _ _ hc =>
      obtain ⟨q, hq⟩ := session_moves imapClient (Or.inl rfl) hn
        (show mailResume p.config.store (.imap s₀) .scheduled = some
          (p.config.store, .imap (s₀.enter .greeting).1, (s₀.enter .greeting).2)
          by simp [mailResume, imapResume, hc])
      exact ⟨_, q, hq, move_step hq hf, by simp⟩
    | asked ha =>
      rcases ha.control with hc | ⟨after, hc⟩
      · exact canGoOn_reading hf hn hc (ha.free hplain hall) hup
      · exact canGoOn_writing hf hn hc
    | replied hl => exact canGoOn_client hw (hl.answers hw) (hdown ▸ List.prefix_refl _)
    | listing _ _ _ hlist => exact canGoOn_writing hf hn hlist
    | listed hcl =>
      cases (awaits_last (Or.inr hcl)).symm.trans hw
      exact canGoOn_client hw (list_answers hall _) (by rw [hdown])
    | leaving hcl =>
      rw [awaits, hcl] at hw
      cases hw
      exact canGoOn_client (by rw [awaits, hcl]) (.last (by decide) bye_last)
        (by rw [hdown]; exact List.prefix_append _ _)
    | left hcl => simp [awaits, hcl] at hw
    | rejected hcl => simp [awaits, hcl] at hw

end

/-- The client has the names of the user's mailboxes and not one mail, and waits in vain only while the
body of a mail is awaited. -/
structure FindsNoMail (n : Nat) (user : Text) (p : Pairing ImapClient) : Prop where
  stored : p.client.storage = [] ∨
    p.client.storage = emptyMailboxes (p.config.store.mailboxNames (ImapSession.withDomain user))
  ended : p.client.control = .ended →
    p.client.storage = emptyMailboxes (p.config.store.mailboxNames (ImapSession.withDomain user))
  runs : p.client.control ≠ .failed
  goesOn : p.client.awaits ≠ none →
    (∃ s, p.config.threads n = some (.imap s) ∧ s.control = .ended) ∨ BodyAwaited p.config ∨
      CanGoOn n p

theorem ImapStage.outcome {names : List Text} {c : ImapClient} {s : ImapSession} {up down : Text}
    (h : ImapStage names c s up down) : c.control ≠ .failed ∧
      ((c.storage = [] ∧ c.control ≠ .ended) ∨
        (c.storage = emptyMailboxes names ∧ s.user = ImapSession.withDomain c.user)) := by
  cases h with
  | fresh hcl hst => simp [hcl, hst]
  | asked ha =>
    cases ha with
    | login hcl hst => simp [hcl, hst]
    | list hcl hst => simp [hcl, hst]
    | examine hcl hst _ hl => exact ⟨by simp [hcl], Or.inr ⟨hst, hl.named⟩⟩
    | logout hcl hst hl => exact ⟨by simp [hcl], Or.inr ⟨hst, hl.named⟩⟩
  | replied hl =>
    cases hl with
    | greeting hcl hst => simp [hcl, hst]
    | refused hcl hst => simp [hcl, hst]
    | accepted hcl hst => simp [hcl, hst]
    | examined hcl hst hl => exact ⟨by simp [hcl], Or.inr ⟨hst, hl.named⟩⟩
  | listing hcl hst => simp [hcl, hst]
  | listed hcl hst => simp [hcl, hst]
  | leaving hcl hst huser => exact ⟨by simp [hcl], Or.inr ⟨hst, huser⟩⟩
  | left hcl hst huser => exact ⟨by simp [hcl], Or.inr ⟨hst, huser⟩⟩
  | rejected hcl hst => simp [hcl, hst]

/-- The IMAP client finds no mail on this server, whatever mails there are and however its session and
the others go on: the server takes its EXAMINE for no command, and the client the refusal for an
empty mailbox. -/
theorem imap_programs_find_no_mail {storage : MailStorage} {config : MailConfig} {n : Nat}
    {user pass : Text} {p : Pairing ImapClient} (inboxes : storage.HasInboxes)
    (plain : storage.PlainNames) (started : ReflTransGen MailStep (Config.init storage) config)
    (spawned : config.threads n = some (.imap {})) (free : CrlfFree user ∧ CrlfFree pass)
    (run : ReflTransGen (PairStep imapClient n) { config, client := { user, pass } } p) :
    FindsNoMail n user p := by
  have hp : ImapClient.Plain { user, pass } := ⟨free.1, free.2⟩
  have h := imapInStage_reaches hp
    (imapInStage_start inboxes plain started spawned rfl rfl) run
  obtain ⟨s, hn, names, s₀, up, hall, hstage, huser, hnames, hs₀⟩ := h.stage
  obtain ⟨hruns, hout⟩ := hstage.outcome
  have hstored : (p.client.storage = [] ∧ p.client.control ≠ .ended) ∨ p.client.storage =
      emptyMailboxes (p.config.store.mailboxNames (ImapSession.withDomain user)) := by
    refine hout.imp_right fun ⟨hst, hs⟩ => ?_
    have hnamed : s.user = ImapSession.withDomain user := by
      rw [← huser, hs, h.login.1]
    rw [hst, ← hnamed, hnames (by rw [hnamed]; exact withDomain_ne_nil user)]
  refine ⟨hstored.imp_left And.left, fun hend => ?_, hruns, fun hw => ?_⟩
  · exact hstored.resolve_left fun hnone => hnone.2 hend
  · obtain ⟨ends, hends⟩ := Option.ne_none_iff_exists'.mp hw
    exact h.goes_on hp hends

theorem mockData_inboxes : mockData.HasInboxes := fun user drop hdrop => by
  have hall : ∀ e ∈ mockData.maildrops.entries, inboxName ∈ e.2.mails := by decide
  exact hall ⟨user, drop⟩ (AList.mem_lookup_iff.mp hdrop)

theorem mockData_plain : mockData.PlainNames := by
  intro user name hname
  have hall : ∀ e ∈ mockData.maildrops.entries, ∀ name ∈ e.2.mails.keys,
      (name ≠ [] ∧ '"' ∉ name ∧ NoBreak name) ∧ ¬ LooksLast (listMailbox name) := by decide +kernel
  unfold MailStorage.mailboxNames at hname
  cases hdrop : mockData.maildrops.lookup user with
  | none => simp [hdrop] at hname
  | some drop =>
    rw [hdrop, Option.map_some, Option.getD_some] at hname
    obtain ⟨⟨hne, hquote, hline⟩, hlast⟩ :=
      hall ⟨user, drop⟩ (AList.mem_lookup_iff.mp hdrop) name hname
    exact ⟨⟨hne, hquote, hline⟩, hlast⟩

def liiaFetches : Pairing ImapClient where
  config := oneImap
  client := { user := "liia".toList, pass := "x".toList }

/-- The login, the list of two mailboxes, an EXAMINE for each of them, and LOGOUT. -/
def untilLogout : List PairMove :=
  [.session .scheduled, .session .written, .client, .request, .session .written, .client, .request,
    .session .written, .session .written, .session .written, .client, .request, .session .written,
    .client, .request, .session .written, .client, .request, .client]

def loggedOut : Option (Pairing ImapClient) :=
  untilLogout.foldlM (Pairing.move imapClient 0) liiaFetches

theorem loggedOut_isSome : loggedOut.isSome = true := by decide +kernel

theorem imap_programs_find_no_mail_one : ∃ p, ReflTransGen (PairStep imapClient 0) liiaFetches p ∧
    p.client.storage = [("Sent".toList, []), (inboxName, [])] ∧
    (mockData.mailbox "liia@localhost".toList inboxName).map List.length = some 1 ∧
    FindsNoMail 0 "liia".toList p := by
  have run := moves_reach (Option.some_get loggedOut_isSome).symm oneImap_free
  have hfinds := imap_programs_find_no_mail mockData_inboxes mockData_plain
    (.single oneImap_spawned) rfl ⟨by decide, by decide⟩ run
  exact ⟨_, run, by decide +kernel, by decide +kernel, hfinds⟩

end Protocols
