import Protocols.Pop3Dialogue
import Protocols.Pop3Lock

namespace Protocols

open Relation Pop3Client

/-- What holds of the client and its session in every run. -/
structure InStage (n : Nat) (start : Pop3Client) (p : Pairing Pop3Client) : Prop where
  locks : LocksHeld p.config
  client : ∃ control, p.client = { start with control := control }
  stage : ∃ s, p.config.threads n = some (.pop3 s) ∧ ∃ s₀ up,
    Pop3Stage p.client s₀ up p.toClient.flatten ∧
      (s.control = .ended ∨ (s₀ = s ∧ p.toServer.flatten = up))

section

variable {n : Nat} {start : Pop3Client} {p q : Pairing Pop3Client}

theorem Pop3Client.Plain.with_control (h : start.Plain) (control : Pop3ClientControl) :
    ({ start with control := control } : Pop3Client).Plain := ⟨h.username, h.password⟩

theorem InStage.next (h : InStage n start p) (hp : start.Plain) (hs : PairStep pop3Client n p q) :
    InStage n start q := by
  have hlocks : LocksHeld q.config :=
    reaches_invariant (pairStep_server hs) h.locks fun _ _ => locksHeld_step
  obtain ⟨control, hclient⟩ := h.client
  obtain ⟨s, hn, s₀, up, hstage, hs₀⟩ := h.stage
  rcases pairStep_cases hs hn with ⟨hn', hcl, hto, hfrom, _⟩ |
    ⟨wake, l', out, hr, hn', hcl, hfrom, _, hwake⟩ | ⟨ends, lines, hw, hread, hconfig, hcl, hto⟩
  · refine ⟨hlocks, ⟨control, hcl.trans hclient⟩, s, hn', s₀, up, ?_, hto ▸ hs₀⟩
    rwa [hcl, hfrom]
  · obtain ⟨t, rfl, ht⟩ := mailResume_pop3 hr
    refine ⟨hlocks, ⟨control, hcl.trans hclient⟩, t, hn', ?_⟩
    rcases hs₀ with hend | ⟨rfl, hup⟩
    · -- an ended session is not resumed
      cases pop3Resume_step ht with
      | greeted hc => simp [hend] at hc
      | heard _ hc => simp [hend] at hc
      | written _ hc => simp [hend] at hc
      | dropped hc => simp [hend] at hc
    · have hplain : p.client.Plain := hclient ▸ hp.with_control control
      rcases hstage.served hplain hup hwake ht with hnext | ⟨hend, hsaid⟩
      · exact ⟨t, _, by rwa [hcl, hfrom], Or.inr ⟨rfl, rfl⟩⟩
      · refine ⟨s₀, up, ?_, Or.inl hend⟩
        rwa [hcl, hfrom, hsaid, unlines_nil, List.append_nil]
  · obtain ⟨control', hhears, hnext⟩ := hstage.reads hw rfl hread
    refine ⟨hlocks, ⟨control', ?_⟩, s, hconfig ▸ hn, s₀, _, hcl ▸ hnext, ?_⟩
    · rw [hcl]
      exact hhears.trans (by rw [hclient])
    · exact hs₀.imp_right fun ⟨hsame, hup⟩ => ⟨hsame, by rw [hto, hup]; rfl⟩

theorem inStage_reaches (hp : start.Plain) (h : InStage n start p)
    (run : ReflTransGen (PairStep pop3Client n) p q) : InStage n start q :=
  reaches_invariant run h fun _ _ h hs => h.next hp hs

theorem inStage_start {storage : MailStorage} {config : MailConfig}
    (unlocked : ∀ user, storage.locked user = false)
    (run : ReflTransGen MailStep (Config.init storage) config)
    (hn : config.threads n = some (.pop3 {})) (hcl : start.control = .greeting) :
    InStage n start { config, client := start } where
  locks := locksHeld_reaches unlocked run
  client := ⟨start.control, rfl⟩
  stage := ⟨{}, hn, {}, _, .fresh hcl rfl rfl, Or.inr ⟨rfl, rfl⟩⟩

/-- While the client waits for a message its session is the user's. -/
theorem Pop3Stage.retrieving {c : Pop3Client} {s : Pop3Session} {up down : Text} {numbers : List Nat}
    (h : Pop3Stage c s up down) (hc : c.control = .retr numbers) : s.LoggedIn c.username := by
  cases h with
  | fresh hcl => simp [hc] at hcl
  | asked ha =>
    cases ha with
    | retr _ hl => exact hl
    | user hcl | pass hcl | list hcl | quit hcl => simp [hc] at hcl
  | replied hl =>
    cases hl with
    | retr _ hl => exact hl
    | greeting hcl | user hcl | refused hcl | accepted hcl | quit hcl => simp [hc] at hcl
  | listing hcl => simp [hc] at hcl
  | listed hcl => simp [hc] at hcl
  | gone hcl => simp [hc] at hcl

theorem Pop3Session.LoggedIn.owns {s : Pop3Session} {username : Text} (h : s.LoggedIn username)
    (hv : s.Valid) : s.Owns username := by
  rw [valid_owns hv]
  rcases h.control with hb | ⟨hstate, hc⟩
  · exact ⟨Or.inl hb, h.named.symm⟩
  · refine ⟨Or.inr ⟨hstate, ?_⟩, h.named.symm⟩
    rcases hc with hc | hc
    · simp [hc]
    · simp [hc]

theorem Pop3Session.LoggedIn.not_ended {s : Pop3Session} {username : Text}
    (h : s.LoggedIn username) : s.control ≠ .ended := by
  rcases h.control with h | ⟨_, h | h⟩
  · simp [h]
  · simp [h]
  · simp [h]

/-- There is no answer to a RETR for the client to read. -/
theorem Pop3Stage.unread {c : Pop3Client} {s : Pop3Session} {up down : Text} {numbers : List Nat}
    {chunks : List Text} (h : Pop3Stage c s up down) (hc : c.control = .retr numbers)
    (hdown : chunks.flatten = down) : readThrough (fun line => line == endList) chunks = none := by
  cases h with
  | fresh => exact Option.eq_none_iff_forall_ne_some.mpr fun _ => no_answer_read hdown
  | asked => exact Option.eq_none_iff_forall_ne_some.mpr fun _ => no_answer_read hdown
  | replied hl =>
    cases hl with
    | retr => exact @err_not_read [] (by decide) _ hdown
    | greeting hcl | user hcl | refused hcl | accepted hcl | quit hcl => simp [hc] at hcl
  | listing hcl => simp [hc] at hcl
  | listed hcl => simp [hc] at hcl
  | gone hcl => simp [hc] at hcl

/-- While the client waits for a message nothing but the loss of the connection ends its session. -/
theorem Pop3Stage.lasts {c : Pop3Client} {s t : Pop3Session} {up down : Text} {numbers : List Nat}
    {storage storage' : MailStorage} {out : List SessionEvent} {wake : MailWake}
    {toServer unread : List Text} (h : Pop3Stage c s up down) (hc : c.control = .retr numbers)
    (hup : toServer.flatten = up)
    (hw : wake = .scheduled ∨ wake = .written ∨
      ∃ line, wake = .line line ∧ readData toServer = some (line, unread))
    (hr : pop3Resume storage s wake = some (storage', t, out)) : t.control ≠ .ended := by
  have hl := h.retrieving hc
  cases pop3Resume_step hr with
  | greeted _ _ he =>
    cases he
    exact nofun
  | heard request hreads hwake he =>
    subst hwake
    rcases hw with hw | hw | ⟨_, hline, hread⟩
    · cases hw
    · cases hw
    · cases hline
      cases h with
      | asked ha =>
        cases ha with
        | @retr number =>
          obtain ⟨rfl, _⟩ := line_read (retrCmd_free number) hup hread
          rw [retr_replied _ (hl.reads hreads)] at he
          cases he
          exact nofun
        | user hcl | pass hcl | list hcl | quit hcl => simp [hc] at hcl
      | gone hcl => simp [hc] at hcl
      | fresh => exact absurd hread (no_line_read hup)
      | replied => exact absurd hread (no_line_read hup)
      | listing => exact absurd hread (no_line_read hup)
      | listed => exact absurd hread (no_line_read hup)
  | written after hwrites _ he => exact (hl.written hwrites he.symm).2.not_ended
  | dropped _ hwake =>
    subst hwake
    simp at hw

end

def SessionEnded (n : Nat) (p : Pairing Pop3Client) : Prop :=
  ∃ s, p.config.threads n = some (.pop3 s) ∧ s.control = .ended

/-- The client goes no further, and the user's maildrop stays locked until its session loses the
connection, which is all that can end the session. -/
structure Stalled (n : Nat) (p : Pairing Pop3Client) : Prop where
  waits : ∀ q, ReflTransGen (PairStep pop3Client n) p q → q.client = p.client
  locked : ∀ q, ReflTransGen (PairStep pop3Client n) p q →
    SessionEnded n q ∨ q.config.store.locked p.client.username = true
  ends : ∀ q r, ReflTransGen (PairStep pop3Client n) p q → PairStep pop3Client n q r →
    ¬ SessionEnded n q → SessionEnded n r → q.config.resumed mailServer n .dropped = some r.config

section

variable {n : Nat} {start : Pop3Client} {p q r : Pairing Pop3Client} {numbers : List Nat}

theorem InStage.waits (h : InStage n start p) (hc : p.client.control = .retr numbers)
    (hs : PairStep pop3Client n p q) : q.client = p.client := by
  cases hs with
  | others => rfl
  | session => rfl
  | request => rfl
  | client hw hread =>
    obtain ⟨s, _, s₀, up, hstage, _⟩ := h.stage
    obtain rfl := Option.some.inj (hw.symm.trans (show p.client.awaits = _ by rw [awaits, hc]))
    rw [hstage.unread hc rfl] at hread
    cases hread

theorem InStage.locked (h : InStage n start p) (hc : p.client.control = .retr numbers) :
    SessionEnded n p ∨ p.config.store.locked p.client.username = true := by
  obtain ⟨s, hn, s₀, up, hstage, hend | ⟨rfl, _⟩⟩ := h.stage
  · exact Or.inl ⟨s, hn, hend⟩
  · have howns := (hstage.retrieving hc).owns (h.locks.tracked n _ hn).valid
    exact Or.inr ((h.locks.held _).mpr ⟨n, _, hn, howns⟩)

theorem InStage.ends (h : InStage n start p) (hc : p.client.control = .retr numbers)
    (hs : PairStep pop3Client n p q) (hruns : ¬ SessionEnded n p) (hend : SessionEnded n q) :
    p.config.resumed mailServer n .dropped = some q.config := by
  obtain ⟨s, hn, s₀, up, hstage, hs₀⟩ := h.stage
  obtain ⟨rfl, hup⟩ := hs₀.resolve_left fun hended => hruns ⟨s, hn, hended⟩
  obtain ⟨t, hn', htend⟩ := hend
  have lasts : ∀ unread {wake config}, p.config.resumed mailServer n wake = some config →
      config.threads n = some (.pop3 t) → ¬ (wake = .scheduled ∨ wake = .written ∨
        ∃ line, wake = .line line ∧ readData p.toServer = some (line, unread)) := by
    intro unread wake config hr hthread hw
    obtain ⟨l', out, hres, hl', _⟩ := resumed_cases hr hn
    obtain ⟨t', rfl, ht⟩ := mailResume_pop3 hres
    rw [hthread] at hl'
    cases hl'
    exact hstage.lasts hc hup hw ht htend
  cases hs with
  | others hs =>
    rcases stepWith_running_cases hs hn with ⟨_, _, _, hfalse, _⟩ | ⟨hl, _⟩
    · exact hfalse.elim
    · cases hl.symm.trans hn'
      exact absurd ⟨_, hn, htend⟩ hruns
  | session hwake hr =>
    rcases hwake with rfl | rfl | rfl
    · exact absurd (Or.inl rfl) (lasts [] hr hn')
    · exact absurd (Or.inr (Or.inl rfl)) (lasts [] hr hn')
    · exact hr
  | request hread hr => exact absurd (Or.inr (Or.inr ⟨_, rfl, hread⟩)) (lasts _ hr hn')
  | client => exact absurd ⟨t, hn', htend⟩ hruns

theorem InStage.stalled (h : InStage n start p) (hp : start.Plain)
    (hc : p.client.control = .retr numbers) : Stalled n p := by
  have stays : ∀ q, ReflTransGen (PairStep pop3Client n) p q →
      q.client = p.client ∧ InStage n start q := by
    intro q run
    refine reaches_invariant (P := fun q => q.client = p.client ∧ InStage n start q) run ⟨rfl, h⟩ ?_
    intro q r ⟨hq, hstage⟩ hs
    exact ⟨(hstage.waits (hq ▸ hc) hs).trans hq, hstage.next hp hs⟩
  refine ⟨fun q run => (stays q run).1, fun q run => ?_, fun q r run hs hruns hend => ?_⟩
  · obtain ⟨hq, hstage⟩ := stays q run
    rw [← hq]
    exact hstage.locked (hq ▸ hc)
  · obtain ⟨hq, hstage⟩ := stays q run
    exact hstage.ends (hq ▸ hc) hs hruns hend

end

/-- The POP3 client retrieves no mail from this server, however its session and the others go on: as
soon as it has asked for one, it waits for ever, with the user's maildrop locked. -/
theorem pop3_programs_stall {storage : MailStorage} {config : MailConfig} {n : Nat}
    {username password : Text} {p : Pairing Pop3Client}
    (unlocked : ∀ user, storage.locked user = false)
    (started : ReflTransGen MailStep (Config.init storage) config)
    (spawned : config.threads n = some (.pop3 {}))
    (plain : CrlfFree username ∧ CrlfFree password)
    (run : ReflTransGen (PairStep pop3Client n) { config, client := { username, password } } p) :
    p.client.storage = [] ∧
      ∀ numbers, p.client.control = .retr numbers → Stalled n p := by
  have hp : Pop3Client.Plain { username, password } := plain_of_free plain.1 plain.2
  have h := inStage_reaches hp (inStage_start unlocked started spawned rfl) run
  obtain ⟨control, hclient⟩ := h.client
  exact ⟨by rw [hclient], fun numbers hc => h.stalled hp hc⟩

def liiaReads : Pairing Pop3Client where
  config := oneLogin
  client := { username := "liia@localhost".toList, password := "x".toList }

/-- The login, the list of one mail, and the RETR of it. -/
def untilRetr : List PairMove :=
  [.session .scheduled, .session .written, .client, .request, .session .written, .client, .request,
    .session .written, .client, .request, .session .written, .session .written, .session .written,
    .client]

def retrAsked : Option (Pairing Pop3Client) := untilRetr.foldlM (Pairing.move pop3Client 0) liiaReads

theorem retrAsked_isSome : retrAsked.isSome = true := by decide +kernel

theorem pop3_programs_stall_one : ∃ p, ReflTransGen (PairStep pop3Client 0) liiaReads p ∧
    p.client.control = .retr [] ∧ p.client.storage = [] ∧ Stalled 0 p := by
  have run := moves_reach (Option.some_get retrAsked_isSome).symm oneLogin_free
  have hc : (retrAsked.get retrAsked_isSome).client.control = .retr [] := by decide +kernel
  obtain ⟨hstored, hstalled⟩ := pop3_programs_stall mockData_unlocked (.single oneLogin_spawned) rfl
    ⟨by decide, by decide⟩ run
  exact ⟨_, run, hc, hstored, hstalled [] hc⟩

end Protocols
