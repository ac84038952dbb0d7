import Protocols.TftpForwarding

namespace Protocols

open Relation

/-- A connection works for the client whose request it has accepted: nobody else is on its link,
and what comes over the link to be stored comes out of that client's file. -/
def Owned (a : Addresses) (clients : Nat → Option ClientProgram) (n : Nat)
    (role : Bool × Endpoint × List UInt8) (l : Link) : Prop :=
  ∃ k c, clients k = some c ∧ role = c.role (a.client k) ∧
    (l.Untouched role.1 ∨ c.Entered (a.connection n)) ∧
    ∀ w, c = .write w → l.blocks.flatten <+: w.source

/-- The state of the whole service. `still` tells of which connections the files stay as they
are. -/
structure ServiceInv (allowed : Disk → Prop) (a : Addresses) (still : Nat → List UInt8 → Prop)
    (before : Directory) (g : Nat → Link) (x : Service) : Prop where
  server : ReflTransGen ServerStep (Config.init before) x.server
  clients_fresh : ∀ k, x.clients.threads k = none → x.clients.logOf k = []
  spare : ∀ n, x.server.threads n = none → g n = .init
  ports : ∀ m n, x.roles m ≠ none → x.roles n ≠ none → a.connection m = a.connection n → m = n
  links : ∀ n, LinkInv (g n)
  connections : ∀ n l, x.server.threads n = some l →
    ConnectionOn allowed (still n) x.server.store (g n) l (x.server.logOf n)
  on : ∀ k c, x.clients.threads k = some c → ClientOn a k x.roles still x.server.store g c
  talks : ∀ k c, x.clients.threads k = some c →
    ClientTalks a k x.roles g c (x.clients.logOf k)
  owned : ∀ n role, x.roles n = some role → Owned a x.clients.threads n role (g n)

theorem roles_some {x : Service} {n : Nat} {role : Bool × Endpoint × List UInt8}
    (h : x.roles n = some role) : ∃ l, x.server.threads n = some l ∧ l.role = role :=
  Option.map_eq_some_iff.mp h

theorem roles_of_thread {x : Service} {n : Nat} {l : Connection}
    (h : x.server.threads n = some l) : x.roles n = some l.role := by
  simp [Service.roles, h]

section

variable {allowed : Disk → Prop} {a : Addresses} {still : Nat → List UInt8 → Prop}
  {before : Directory} {g : Nat → Link} {x : Service}

theorem ServiceInv.thread_of_log (inv : ServiceInv allowed a still before g x) {n : Nat}
    {q : Endpoint × List UInt8} (h : q ∈ x.server.logOf n) : ∃ l, x.server.threads n = some l := by
  cases hn : x.server.threads n with
  | none =>
    rw [server_reaches_fresh inv.server hn] at h
    cases h
  | some l => exact ⟨l, rfl⟩

theorem ServiceInv.client_of_log (inv : ServiceInv allowed a still before g x) {k : Nat}
    {q : Endpoint × List UInt8} (h : q ∈ x.clients.logOf k) : ∃ c, x.clients.threads k = some c := by
  cases hk : x.clients.threads k with
  | none =>
    rw [inv.clients_fresh k hk] at h
    cases h
  | some c => exact ⟨c, rfl⟩

/-- A reading connection has read a beginning of its file. -/
theorem ServiceInv.served (inv : ServiceInv allowed a still before g x) {n : Nat} {e : Endpoint}
    {path : List UInt8} (h : x.roles n = some (false, e, path)) :
    (∃ stream, ReadBlocks (x.server.store.contents path) (g n).blocks stream) ∧
      (still n path → Short (g n).blocks →
        (g n).blocks.flatten = x.server.store.contents path) := by
  obtain ⟨l, hl, hrole⟩ := roles_some h
  have hon := inv.connections n l hl
  cases l with
  | read r =>
    rw [← show r.path = path from congrArg (fun r => r.2.2) hrole]
    exact ⟨hon.2.1, hon.2.2.1⟩
  | write w => cases hrole

/-- What a connection sends to somebody is its part of the link, or an error. -/
theorem connectionOn_talks {same : List UInt8 → Prop} {dir : Directory} {g : Link} {l : Connection}
    {sent : Outgoing} (h : ConnectionOn allowed same dir g l sent) :
    Talks l.role.2.1 (g.Carries (!l.role.1)) sent := by
  cases l with
  | read r => exact h.1
  | write w => exact h.1

/-- What a client hears, but for errors, comes from a connection that works for it. -/
theorem ServiceInv.client_hears (inv : ServiceInv allowed a still before g x) {k : Nat}
    {c : ClientProgram} (hc : x.clients.threads k = some c) {sender : Endpoint} {bytes : List UInt8}
    (h : x.Sent a sender (a.client k) bytes) (hop : getOpcode bytes ≠ .error) :
    ∃ n, sender = a.connection n ∧ x.roles n = some (c.role (a.client k)) ∧
      (g n).Carries (!(c.role (a.client k)).1) bytes := by
  rcases h with ⟨m, _, hm⟩ | ⟨n, rfl, hn⟩
  · obtain ⟨d, hd⟩ := inv.client_of_log hm
    rcases inv.talks m d hd _ hm with ⟨hl, _⟩ | ⟨n, hn, hrole, _⟩ | herr
    · exact absurd hl (a.client_ne_listener k)
    · exact absurd hn (a.client_ne_connection k n)
    · exact absurd herr hop
  · obtain ⟨l, hl⟩ := inv.thread_of_log hn
    have hrole := roles_of_thread hl
    rcases connectionOn_talks (inv.connections n l hl) _ hn with ⟨hp, hcarries⟩ | herr
    · obtain ⟨k', c', hc', hr, _⟩ := inv.owned n _ hrole
      have hk : k = k' := a.client_injective (by rw [hr] at hp; simpa using hp)
      subst hk
      rw [hc] at hc'
      cases hc'
      exact ⟨n, rfl, by rw [hrole, hr], by rw [← hr]; exact hcarries⟩
    · exact absurd herr hop

/-- What a connection hears from the one it works for, but for errors, is that one's part of the
link. -/
theorem ServiceInv.connection_hears (inv : ServiceInv allowed a still before g x) {n : Nat}
    {l : Connection} (hl : x.server.threads n = some l) {sender : Endpoint} {bytes : List UInt8}
    (h : x.Sent a sender (a.connection n) bytes) (hop : getOpcode bytes ≠ .error) :
    (g n).Carries l.role.1 bytes := by
  have hrole := roles_of_thread hl
  rcases h with ⟨k, rfl, hk⟩ | ⟨m, rfl, hm⟩
  · obtain ⟨c, hc⟩ := inv.client_of_log hk
    rcases inv.talks k c hc _ hk with ⟨heq, _⟩ | ⟨m, hm, hrolem, hcarries⟩ | herr
    · exact absurd heq (a.connection_ne_listener n)
    · have hnm := inv.ports n m (by simp [hrole]) (by simp [hrolem]) hm
      subst hnm
      rw [hrole, Option.some.injEq] at hrolem
      rw [hrolem]
      exact hcarries
    · exact absurd herr hop
  · obtain ⟨l', hl'⟩ := inv.thread_of_log hm
    rcases connectionOn_talks (inv.connections m l' hl') _ hm with ⟨hp, _⟩ | herr
    · obtain ⟨k, c, _, hr, _⟩ := inv.owned m _ (roles_of_thread hl')
      rw [hr, role_endpoint] at hp
      exact absurd hp.symm (a.client_ne_connection k n)
    · exact absurd herr hop

/-- What arrives at the listening socket, but for errors, is the request of a client. -/
theorem ServiceInv.listener_hears (inv : ServiceInv allowed a still before g x)
    {sender : Endpoint} {bytes : List UInt8} (h : x.Sent a sender a.listener bytes)
    (hop : getOpcode bytes ≠ .error) :
    ∃ k c, x.clients.threads k = some c ∧ sender = a.client k ∧ bytes = c.request := by
  rcases h with ⟨k, rfl, hk⟩ | ⟨m, rfl, hm⟩
  · obtain ⟨c, hc⟩ := inv.client_of_log hk
    rcases inv.talks k c hc _ hk with ⟨_, hreq⟩ | ⟨n, hn, hrole, _⟩ | herr
    · exact ⟨k, c, hc, rfl, hreq⟩
    · exact absurd hn.symm (a.connection_ne_listener n)
    · exact absurd herr hop
  · obtain ⟨l', hl'⟩ := inv.thread_of_log hm
    rcases connectionOn_talks (inv.connections m l' hl') _ hm with ⟨hp, _⟩ | herr
    · obtain ⟨k, c, _, hr, _⟩ := inv.owned m _ (roles_of_thread hl')
      rw [hr, role_endpoint] at hp
      exact absurd hp.symm (a.client_ne_listener k)
    · exact absurd herr hop

theorem connection_resume_on {same : List UInt8 → Prop} {disk : Disk} {dir dir' : Directory}
    {l l' : Connection} {wake : Wake} {out sent : Outgoing} {g : Link} (inv : LinkInv g)
    (hd : allowed disk) (hw : ∀ path, same path → disk.Works)
    (h : ConnectionOn allowed same dir g l sent)
    (heard : ∀ bytes, wake = .datagram l.role.2.1 bytes → getOpcode bytes ≠ .error →
      g.Carries l.role.1 bytes)
    (hs : connectionResume disk dir l wake = some (dir', l', out)) :
    ∃ g', g.Moves g' (!l.role.1) ∧ ConnectionOn allowed same dir' g' l' (sent ++ out) := by
  cases l with
  | read r =>
    obtain ⟨⟨r', o⟩, hr, hs⟩ := Option.map_eq_some_iff.mp hs
    cases hs
    exact readConnection_resume_on inv (hw _) h
      (fun bytes hw hop => heard bytes hw (by rw [hop]; simp)) hr
  | write w =>
    obtain ⟨⟨d, w', o⟩, hw, hs⟩ := Option.map_eq_some_iff.mp hs
    cases hs
    exact writeConnection_resume_on inv hd h
      (fun bytes hw hop => heard bytes hw (by rw [hop]; simp)) hw

/-- What a client keeps: what it is about, and the link it has entered. -/
structure ClientProgram.Continues (c c' : ClientProgram) : Prop where
  role : ∀ e, c'.role e = c.role e
  request : c'.request = c.request
  entered : ∀ e, c.Entered e → c'.Entered e
  source : ∀ w', c' = .write w' → ∃ w, c = .write w ∧ w'.source = w.source

theorem client_resume_continues {c c' : ClientProgram} {disk : Disk} {wake : Wake} {out : Outgoing}
    (hs : clientResume disk c wake = some (c', out)) : c.Continues c' := by
  cases c with
  | write c =>
    obtain ⟨⟨d, o⟩, hw, hs⟩ := Option.map_eq_some_iff.mp hs
    cases hs
    cases writeClientResume_step hw with
    | requested hc =>
      exact ⟨fun _ => rfl, rfl, fun _ he => absurd hc he.2.1, by rintro w ⟨⟩; exact ⟨c, rfl, rfl⟩⟩
    | unsent _ hc =>
      exact ⟨fun _ => rfl, rfl, fun _ he => absurd hc he.2.1, by rintro w ⟨⟩; exact ⟨c, rfl, rfl⟩⟩
    | refused _ hc =>
      exact ⟨fun _ => rfl, rfl, fun _ he => absurd hc he.2.2.1, by rintro w ⟨⟩; exact ⟨c, rfl, rfl⟩⟩
    | answered _ _ hc =>
      exact ⟨fun _ => rfl, rfl, fun _ he => absurd hc he.2.2.1, by rintro w ⟨⟩; exact ⟨c, rfl, rfl⟩⟩
    | started hc =>
      exact ⟨fun _ => rfl, rfl, fun _ he => absurd hc he.2.2.2, by rintro w ⟨⟩; exact ⟨c, rfl, rfl⟩⟩
    | returned =>
      exact ⟨fun _ => rfl, rfl, fun _ he => ⟨he.1, by simp⟩, by rintro w ⟨⟩; exact ⟨c, rfl, rfl⟩⟩
    | looped =>
      exact ⟨fun _ => rfl, rfl, fun _ he => ⟨he.1, by simp⟩, by rintro w ⟨⟩; exact ⟨c, rfl, rfl⟩⟩
  | read own c =>
    obtain ⟨⟨own', d, o⟩, hr, hs⟩ := Option.map_eq_some_iff.mp hs
    cases hs
    cases readClientResume_step hr with
    | requested hc => exact ⟨fun _ => rfl, rfl, fun _ he => absurd hc he.2.1, by simp⟩
    | unsent _ hc => exact ⟨fun _ => rfl, rfl, fun _ he => absurd hc he.2.1, by simp⟩
    | refused _ hc => exact ⟨fun _ => rfl, rfl, fun _ he => absurd hc he.2.2.1, by simp⟩
    | unopened _ _ hc => exact ⟨fun _ => rfl, rfl, fun _ he => absurd hc he.2.2.1, by simp⟩
    | answered _ _ hc => exact ⟨fun _ => rfl, rfl, fun _ he => absurd hc he.2.2.1, by simp⟩
    | started _ _ hc => exact ⟨fun _ => rfl, rfl, fun _ he => absurd hc (he.2.2.2 _ _), by simp⟩
    | failed => exact ⟨fun _ => rfl, rfl, fun _ he => ⟨he.1, by simp⟩, by simp⟩
    | succeeded => exact ⟨fun _ => rfl, rfl, fun _ he => ⟨he.1, by simp⟩, by simp⟩
    | looped => exact ⟨fun _ => rfl, rfl, fun _ he => ⟨he.1, by simp⟩, by simp⟩

/-- A link of which the client is not on yet is as the client's end has found it. -/
theorem Owned.untouched {a : Addresses} {clients : Nat → Option ClientProgram} {n k : Nat}
    {l : Link} {c : ClientProgram} (h : Owned a clients n (c.role (a.client k)) l)
    (hc : clients k = some c) (he : ¬ c.Entered (a.connection n)) :
    l.Untouched (c.role (a.client k)).1 := by
  obtain ⟨k', c', hc', hr, h, _⟩ := h
  have hk : k = k' := by
    apply a.client_injective
    simpa using congrArg (fun r => r.2.1) hr
  subst hk
  rw [hc] at hc'
  cases hc'
  exact h.resolve_right he

theorem ServiceInv.client_resumes (inv : ServiceInv allowed a still before g x) {k : Nat}
    {c c' : ClientProgram} {disk : Disk} {wake : Wake} {out : Outgoing}
    (hc : x.clients.threads k = some c)
    (heard : ∀ sender bytes, wake = .datagram sender bytes → x.Sent a sender (a.client k) bytes)
    (hs : clientResume disk c wake = some (c', out)) :
    ∃ n l, ClientMoves a k x.roles still x.server.store g c' out n l := by
  have hears := fun sender bytes hw hop => inv.client_hears hc (heard sender bytes hw) hop
  have fresh : ∀ n, x.roles n = some (c.role (a.client k)) → ¬ c.Entered (a.connection n) →
      (g n).Untouched (c.role (a.client k)).1 := fun n hr he => (inv.owned n _ hr).untouched hc he
  cases c with
  | write c =>
    obtain ⟨⟨d, o⟩, hw, hs⟩ := Option.map_eq_some_iff.mp hs
    cases hs
    exact writeClient_resume_on inv.links inv.ports (inv.on k _ hc) fresh hears hw
  | read own c =>
    obtain ⟨⟨own', d, o⟩, hr, hs⟩ := Option.map_eq_some_iff.mp hs
    cases hs
    exact readClient_resume_on inv.links inv.ports (inv.on k _ hc) fresh (fun n => inv.served) hears
      hr

theorem server_step_contents {before : Directory} {c d : ServerConfig}
    (run : ReflTransGen ServerStep (Config.init before) c) (h : ServerStep c d)
    (name : List UInt8) :
    c.store.contents name <+: d.store.contents name := by
  rcases server_step_grows (server_reaches_inv name run) h with hst | hnone | ⟨b, b', hb, hb', hp⟩
  · simp only [Directory.contents, hst]
    exact List.prefix_refl _
  · simp only [Directory.contents, hnone]
    exact List.nil_prefix
  · simpa only [Directory.contents, hb, hb'] using hp

theorem service_step_client {k : Nat} {disk : Disk} {wake : Wake}
    {clients : Config Unit ClientProgram (Endpoint × List UInt8)}
    (inv : ServiceInv allowed a still before g x)
    (heard : ∀ sender bytes, wake = .datagram sender bytes → x.Sent a sender (a.client k) bytes)
    (hs : x.clients.resumed (tftpClients a.listener) k (disk, wake) = some clients) :
    ∃ g', ServiceInv allowed a still before g' { x with clients } := by
  obtain ⟨c, c', out, hc, hr, rfl⟩ := clients_resumed hs
  have hcont := client_resume_continues hr
  obtain ⟨n, l, hm⟩ := inv.client_resumes hc heard hr
  -- only the client's own link moves
  have other : ∀ m, (∀ role, x.roles m = some role → role.2.1 ≠ a.client k) →
      Function.update g n l m = g m := by
    intro m hrole
    by_cases hmn : m = n
    · subst hmn
      rw [Function.update_self]
      rcases hm.entered with hl | ⟨hr, _⟩
      · exact hl
      · exact absurd (role_endpoint _ _) (hrole _ hr)
    · exact Function.update_of_ne hmn _ _
  have moves : ∀ m, x.roles m = some (c.role (a.client k)) ∨ Function.update g n l m = g m := by
    intro m
    by_cases hmn : m = n
    · subst hmn
      rw [Function.update_self, ← hcont.role]
      exact hm.entered.symm.imp_left And.left
    · exact Or.inr (Function.update_of_ne hmn _ _)
  have moved : ∀ m, (g m).Moves (Function.update g n l m) (c.role (a.client k)).1 := by
    intro m
    by_cases hmn : m = n
    · subst hmn
      rw [Function.update_self, ← hcont.role]
      exact hm.moves
    · rw [Function.update_of_ne hmn]
      exact Link.Moves.refl (inv.links m) _
  refine ⟨Function.update g n l, inv.server, fun j hj => ?_, fun m hmnone => ?_, inv.ports,
    fun m => (moved m).inv, fun m l' hl' => ?_, fun j d hd => ?_,
    fun j d hd => ?_, fun m role hrole => ?_⟩
  · by_cases hjk : j = k
    · subst hjk
      simp at hj
    · rw [logOf_append_ne _ _ _ _ (Ne.symm hjk)]
      exact inv.clients_fresh j (by simpa only [Function.update_of_ne hjk] using hj)
  · rw [other m (by simp [Service.roles, show x.server.threads m = none from hmnone])]
    exact inv.spare m hmnone
  · refine (inv.connections m l' hl').stable (inv.links m) (fun _ => List.prefix_refl _)
      (fun _ _ => rfl) ?_
    rcases moves m with hrole | hsame
    · rw [@roles_of_thread x m l' hl', Option.some.injEq] at hrole
      rw [hrole]
      exact moved m
    · rw [hsame]
      exact Link.Moves.refl (inv.links m) _
  · by_cases hjk : j = k
    · subst hjk
      simp only [Function.update_self, Option.some.injEq] at hd
      subst hd
      exact hm.on
    · simp only [Function.update_of_ne hjk] at hd
      refine (inv.on j d hd).stable inv.links (fun _ _ h => h) (fun _ => List.prefix_refl _)
        (fun _ _ _ _ => rfl) ?_
      intro m hrole
      rw [other m (by
        intro role hr
        rw [hrole, Option.some.injEq] at hr
        rw [← hr, role_endpoint]
        exact fun he => hjk (a.client_injective he))]
      exact Link.Moves.refl (inv.links m) _
  · by_cases hjk : j = k
    · subst hjk
      simp only [Function.update_self, Option.some.injEq] at hd
      subst hd
      rw [logOf_append_self]
      intro q hq
      rcases List.mem_append.mp hq with hq | hq
      · have hold := (inv.talks j c hc).stable inv.links (fun _ _ h => h)
          (fun m _ => (moved m).grows) q hq
        rwa [← hcont.request, ← hcont.role] at hold
      · exact hm.talks q hq
    · simp only [Function.update_of_ne hjk] at hd
      rw [logOf_append_ne _ _ _ _ (Ne.symm hjk)]
      exact (inv.talks j d hd).stable inv.links (fun _ _ h => h) fun m _ => (moved m).grows
  · obtain ⟨j, d, hd, hr, htouched, hsource⟩ := inv.owned m role hrole
    by_cases hjk : j = k
    · subst hjk
      rw [hc, Option.some.injEq] at hd
      subst hd
      refine ⟨j, c', Function.update_self _ _ _, hr.trans (hcont.role _).symm, ?_, ?_⟩
      · by_cases hmn : m = n
        · subst hmn
          rw [Function.update_self]
          rcases hm.entered with hl | ⟨_, he, _⟩
          · rw [hl]
            exact htouched.imp_right (hcont.entered _)
          · exact Or.inr he
        · rw [Function.update_of_ne hmn]
          exact htouched.imp_right (hcont.entered _)
      · intro w' hw'
        obtain ⟨w, hw, hsrc⟩ := hcont.source w' hw'
        by_cases hmn : m = n
        · subst hmn
          rw [Function.update_self]
          rcases hm.entered with hl | ⟨_, _, hsup⟩
          · rw [hl, hsrc]
            exact hsource w hw
          · exact hsup w' hw'
        · rw [Function.update_of_ne hmn, hsrc]
          exact hsource w hw
    · have hsame := other m (by
        intro r hr'
        rw [show x.roles m = some role from hrole, Option.some.injEq] at hr'
        rw [← hr', hr, role_endpoint]
        exact fun he => hjk (a.client_injective he))
      rw [hsame]
      exact ⟨j, d, by simpa only [Function.update_of_ne hjk] using hd, hr, htouched, hsource⟩

theorem service_step_connection {n : Nat} {disk : Disk} {wake : Wake} {server : ServerConfig}
    (inv : ServiceInv allowed a still before g x) (hd : allowed disk)
    (hw : ∀ m name, x.roles m ≠ none → still m name → disk.Works)
    (hstill : ∀ m name, x.roles m ≠ none → still m name →
      server.store.contents name = x.server.store.contents name)
    (heard : ∀ sender bytes, wake = .datagram sender bytes →
      x.Sent a sender (a.connection n) bytes)
    (hs : x.server.resumed tftpServer n (disk, wake) = some server) :
    ∃ g', ServiceInv allowed a still before g' { x with server } := by
  have hstep := resumed_step hs (tftpServer_free _ _)
  obtain ⟨l, hl, hs⟩ := Option.bind_eq_some_iff.mp hs
  obtain ⟨⟨dir, l', out⟩, hr, rfl⟩ := Option.map_eq_some_iff.mp hs
  have hrole := roles_of_thread hl
  have hrole' : l'.role = l.role := connection_resume_role hr
  obtain ⟨link, hmoves, hon⟩ := connection_resume_on (inv.links n) hd
    (fun path => hw n path (by simp [hrole])) (inv.connections n l hl)
    (fun bytes hb hop => inv.connection_hears hl (heard _ _ hb) hop) hr
  have grows := server_step_contents inv.server hstep
  have roles : ∀ m, Service.roles ⟨x.clients, ⟨dir, Function.update x.server.threads n (some l'),
      x.server.log ++ out.map fun e => (n, e)⟩⟩ m = x.roles m := by
    intro m
    by_cases hmn : m = n
    · subst hmn
      rw [hrole, ← hrole']
      exact roles_of_thread (Function.update_self _ _ _)
    · simp [Service.roles, Function.update_of_ne hmn]
  have moved : ∀ m, (g m).Grows (Function.update g n link m) ∧
      LinkInv (Function.update g n link m) := by
    intro m
    by_cases hmn : m = n
    · subst hmn
      rw [Function.update_self]
      exact ⟨hmoves.grows, hmoves.inv⟩
    · rw [Function.update_of_ne hmn]
      exact ⟨Link.Grows.refl _, inv.links m⟩
  refine ⟨Function.update g n link, inv.server.tail hstep, inv.clients_fresh, fun m hm => ?_,
    fun m m' hm hm' => ?_, fun m => (moved m).2,
    fun m l₁ hl₁ => ?_, fun k c hc => ?_, fun k c hc => ?_, fun m role hm => ?_⟩
  · by_cases hmn : m = n
    · subst hmn
      simp at hm
    · rw [Function.update_of_ne hmn]
      exact inv.spare m (by simpa only [Function.update_of_ne hmn] using hm)
  · exact inv.ports m m' (by rwa [roles] at hm) (by rwa [roles] at hm')
  · by_cases hmn : m = n
    · subst hmn
      simp only [Function.update_self, Option.some.injEq] at hl₁ ⊢
      subst hl₁
      rw [logOf_append_self]
      exact hon
    · simp only [Function.update_of_ne hmn] at hl₁ ⊢
      rw [logOf_append_ne _ _ _ _ (Ne.symm hmn)]
      exact (inv.connections m l₁ hl₁).stable (inv.links m) grows
        (fun name => hstill m name (by simp [Service.roles, hl₁])) (Link.Moves.refl (inv.links m) _)
  · refine (inv.on k c hc).stable inv.links (fun m r hm => (roles m).trans hm) grows hstill
      fun m hm => ?_
    by_cases hmn : m = n
    · subst hmn
      rw [hrole, Option.some.injEq] at hm
      rw [Function.update_self, ← hm]
      exact hmoves
    · rw [Function.update_of_ne hmn]
      exact Link.Moves.refl (inv.links m) _
  · exact (inv.talks k c hc).stable inv.links (fun m r hm => (roles m).trans hm)
      fun m _ => (moved m).1
  · rw [roles] at hm
    obtain ⟨k, c, hc, hr₁, htouched, hsource⟩ := inv.owned m role hm
    by_cases hmn : m = n
    · subst hmn
      rw [hrole, Option.some.injEq] at hm
      subst hm
      rw [Function.update_self]
      refine ⟨k, c, hc, hr₁, ?_, fun w hw => ?_⟩
      · refine htouched.imp_left fun hu => ?_
        unfold Link.Untouched at hu ⊢
        unfold Link.Moves at hmoves
        split at hu
        next hb =>
          simp only [hb, Bool.not_true, Bool.false_eq_true, if_false, if_true] at hmoves ⊢
          rw [hmoves.unread]
          exact hu
        next hb =>
          simp only [hb, Bool.not_false, if_true] at hmoves ⊢
          rw [hmoves.received]
          exact hu
      · subst hw
        unfold Link.Moves at hmoves
        rw [hr₁] at hmoves
        rw [show link.blocks = _ from Link.ReceiverMoves.unread hmoves]
        exact hsource w rfl
    · rw [Function.update_of_ne hmn]
      exact ⟨k, c, hc, hr₁, htouched, hsource⟩

theorem service_step_start {k : Nat} {c : ClientProgram}
    (inv : ServiceInv allowed a still before g x)
    (hk : x.clients.threads k = none) (hb : c.Begins a.listener) :
    ServiceInv allowed a still before g (x.start k c) := by
  refine { inv with clients_fresh := fun j hj => ?_, on := fun j d hd => ?_,
                    talks := fun j d hd => ?_, owned := fun n role hn => ?_ }
  · by_cases hjk : j = k
    · subst hjk
      simp [Service.start] at hj
    · exact inv.clients_fresh j (by simpa only [Service.start, Function.update_of_ne hjk] using hj)
  · by_cases hjk : j = k
    · subst hjk
      simp only [Service.start, Function.update_self, Option.some.injEq] at hd
      subst hd
      cases c with
      | write c =>
        simp only [ClientOn, hb.1]
        exact hb.2
      | read own c =>
        simp only [ClientOn, hb.1]
        exact hb.2
    · simp only [Service.start, Function.update_of_ne hjk] at hd
      exact inv.on j d hd
  · by_cases hjk : j = k
    · subst hjk
      have hempty := inv.clients_fresh j hk
      exact (show ClientTalks _ _ _ _ _ (x.clients.logOf j) by rw [hempty]; exact clientTalks_nil _)
    · simp only [Service.start, Function.update_of_ne hjk] at hd
      exact inv.talks j d hd
  · obtain ⟨j, d, hd, h⟩ := inv.owned n role hn
    have hjk : j ≠ k := by
      rintro rfl
      rw [hk] at hd
      cases hd
    exact ⟨j, d, by simpa only [Service.start, Function.update_of_ne hjk] using hd, h⟩

theorem connectionOn_spawned {same : List UInt8 → Prop} {dir : Directory} {sender : Endpoint}
    {c : ClientProgram} {l : Connection} (h : spawnConnection sender c.request = some l) :
    ConnectionOn allowed same dir .init l [] := by
  cases c with
  | write c =>
    simp only [ClientProgram.request, spawnConnection, getOpcode_wrq, Option.some.injEq] at h
    subst h
    exact ⟨talks_nil _ _, rfl, rfl⟩
  | read own c =>
    simp only [ClientProgram.request, spawnConnection, getOpcode_rrq, Option.some.injEq] at h
    subst h
    refine ⟨talks_nil _ _, ⟨{}, readBlocks_nil _⟩, ?_, rfl⟩
    rintro _ ⟨_, hb, _⟩
    exact absurd hb List.not_mem_nil

theorem service_step_accept {n : Nat} {sender : Endpoint} {request : List UInt8} {l : Connection}
    (inv : ServiceInv allowed a still before g x) (hn : x.server.threads n = none)
    (hfree : ∀ m, x.server.threads m ≠ none → a.port m ≠ a.port n)
    (heard : x.Sent a sender a.listener request) (hl : spawnConnection sender request = some l) :
    ServiceInv allowed a still before g (x.accept n l) := by
  have hop : getOpcode request ≠ .error := by
    intro he
    rw [spawn_error he] at hl
    cases hl
  obtain ⟨k, c, hc, rfl, rfl⟩ := inv.listener_hears heard hop
  have hrole := spawn_role hl
  have hspare := inv.spare n hn
  have used : ∀ m, (x.accept n l).roles m ≠ none → m ≠ n → x.roles m ≠ none := by
    intro m hm hmn
    simpa [Service.roles, Service.accept, Function.update_of_ne hmn] using hm
  have extended : ∀ m r, x.roles m = some r → (x.accept n l).roles m = some r := by
    intro m r hm
    have hmn : m ≠ n := by
      rintro rfl
      simp [Service.roles, hn] at hm
    simpa [Service.roles, Service.accept, Function.update_of_ne hmn] using hm
  have taken : ∀ m, x.roles m ≠ none → a.connection m ≠ a.connection n := by
    intro m hm he
    exact hfree m (by simpa [Service.roles] using hm) (congrArg Endpoint.port he)
  refine ⟨inv.server.tail (.spawn hn ⟨_, _, hl⟩ (tftpServer_free _ _)), inv.clients_fresh,
    fun m hm => ?_,
    fun m m' hm hm' he => ?_, inv.links, fun m l₁ hl₁ => ?_, fun j d hd => ?_, fun j d hd => ?_,
    fun m role hm => ?_⟩
  · by_cases hmn : m = n
    · subst hmn
      simp [Service.accept] at hm
    · exact inv.spare m (by simpa only [Service.accept, Function.update_of_ne hmn] using hm)
  · by_cases hmn : m = n
    · by_cases hmn' : m' = n
      · rw [hmn, hmn']
      · rw [hmn] at he
        exact absurd he.symm (taken m' (used m' hm' hmn'))
    · by_cases hmn' : m' = n
      · rw [hmn'] at he
        exact absurd he (taken m (used m hm hmn))
      · exact inv.ports m m' (used m hm hmn) (used m' hm' hmn') he
  · by_cases hmn : m = n
    · subst hmn
      simp only [Service.accept, Function.update_self, Option.some.injEq] at hl₁
      subst hl₁
      have hempty : x.server.logOf m = [] := server_reaches_fresh inv.server hn
      refine (show ConnectionOn _ _ _ _ _ (x.server.logOf m) from ?_)
      rw [hempty, hspare]
      exact connectionOn_spawned hl
    · simp only [Service.accept, Function.update_of_ne hmn] at hl₁
      exact inv.connections m l₁ hl₁
  · exact (inv.on j d hd).stable inv.links extended (fun _ => List.prefix_refl _)
      (fun _ _ _ _ => rfl) fun m _ => Link.Moves.refl (inv.links m) _
  · exact (inv.talks j d hd).stable inv.links extended fun m _ => Link.Grows.refl _
  · by_cases hmn : m = n
    · subst hmn
      simp only [Service.roles, Service.accept, Function.update_self, Option.map_some,
        Option.some.injEq] at hm
      subst hm
      rw [hspare]
      refine ⟨k, c, hc, hrole, Or.inl ?_, fun w _ => List.nil_prefix⟩
      unfold Link.Untouched
      split <;> rfl
    · refine inv.owned m role ?_
      simpa [Service.roles, Service.accept, Function.update_of_ne hmn] using hm

end

end Protocols
