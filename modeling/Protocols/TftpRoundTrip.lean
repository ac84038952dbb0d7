import Protocols.TftpServiceInvariant

namespace Protocols

open Relation

section

variable {allowed : Disk → Prop} {a : Addresses} {still : Nat → List UInt8 → Prop}
  {before : Directory} {g : Nat → Link} {x y : Service}

theorem service_step_inv (inv : ServiceInv allowed a still before g x)
    (hw : ∀ n name, still n name → ∀ disk, allowed disk → disk.Works)
    (hstill : ∀ n name, still n name →
      y.server.store.contents name = x.server.store.contents name)
    (h : ServiceStep allowed a x y) : ∃ g', ServiceInv allowed a still before g' y := by
  cases h with
  | start hk hb => exact ⟨g, service_step_start inv hk hb⟩
  | client _ heard hr => exact service_step_client inv heard hr
  | accept hn hfree heard hl => exact ⟨g, service_step_accept inv hn hfree heard hl⟩
  | connection hd heard hr =>
    exact service_step_connection inv hd (fun m name _ hs => hw m name hs _ hd)
      (fun m name _ => hstill m name) heard hr

theorem service_init_inv : ServiceInv allowed a still before (fun _ => .init) (.init before) := by
  refine ⟨.refl, fun _ _ => rfl, fun _ _ => rfl, ?_, fun _ => link_init_inv, ?_, ?_, ?_, ?_⟩
  · intro m n h
    exact absurd rfl h
  · intro n l h
    cases h
  · intro k c h
    cases h
  · intro k c h
    cases h
  · intro n role h
    cases h

theorem service_reaches_inv (run : ReflTransGen (ServiceStep allowed a) (.init before) x) :
    ∃ g, ServiceInv allowed a (fun _ _ => False) before g x := by
  refine reaches_invariant (P := fun y => ∃ g, ServiceInv allowed a (fun _ _ => False) before g y)
    run ⟨_, service_init_inv⟩ ?_
  rintro y z ⟨g, inv⟩ hs
  exact service_step_inv inv (fun _ _ h => h.elim) (fun _ _ h => h.elim) hs

/-- A client is uploading the bytes, or has: its file begins with them. -/
def Service.Supplies (x : Service) (name bytes : List UInt8) : Prop :=
  ∃ k c, x.clients.threads k = some (.write c) ∧ uploadPath c.filename = name ∧ bytes <+: c.source

/-- The stream of an upload holds what the receiver of the link has received. -/
theorem connectionOn_upload {same : List UInt8 → Prop} {dir : Directory} {l : Link}
    {w : WriteConnection} {sent : Outgoing} {name : List UInt8} {s : OfStream}
    (h : ConnectionOn allowed same dir l (.write w) sent)
    (hs : (Connection.write w).upload name = some s) :
    w.path = name ∧ s.contents = l.state.received.flatten := by
  obtain ⟨_, hon⟩ := h
  have hpath : w.path = name := by
    by_contra hne
    simp [Connection.upload, hne] at hs
  refine ⟨hpath, ?_⟩
  simp only [Connection.upload, hpath, if_true] at hs
  split at hs
  next hc =>
    simp only [hc] at hon
    split at hs <;> cases hs
    rw [hon.1, hon.2.2.1]
    rfl
  next hc =>
    simp only [hc] at hon
    split at hs <;> cases hs
    exact hon.1.contents
  next hc =>
    simp only [hc] at hon
    split at hs <;> cases hs
    exact hon.1
  next => cases hs
  next => cases hs

/-- What an upload has stored comes out of the file of the client it works for. -/
theorem ServiceInv.upload_supplied (inv : ServiceInv allowed a still before g x)
    {name : List UInt8} {n : Nat} {s : OfStream} (h : uploads x.server name n = some s) :
    x.Supplies name s.contents := by
  obtain ⟨l, hl, hup⟩ := Option.bind_eq_some_iff.mp h
  cases l with
  | read r => cases hup
  | write w =>
    obtain ⟨hpath, hcontents⟩ := connectionOn_upload (inv.connections n _ hl) hup
    obtain ⟨k, c, hc, hr, _, hsource⟩ := inv.owned n _ (roles_of_thread hl)
    cases c with
    | read own c => cases hr
    | write c =>
      refine ⟨k, c, hc, ?_, ?_⟩
      · rw [← hpath]
        exact (congrArg (fun r => r.2.2) hr).symm
      · rw [hcontents]
        exact (linkInv_flatten (inv.links n)).trans (hsource c rfl)

/-- A file of the server is as it was before the server started, or a beginning of the file of a
client that has asked to write it. -/
theorem ServiceInv.directory (inv : ServiceInv allowed a still before g x) (name : List UInt8) :
    x.server.store.status name = before.status name ∨ before.status name = none ∧
      ∃ bytes, x.server.store.status name = some (.file bytes) ∧ x.Supplies name bytes := by
  have up := server_reaches_inv name inv.server
  by_cases hb : before.status name = none
  · by_cases hs : x.server.store.status name = none
    · exact Or.inl (hs.trans hb.symm)
    · rcases up.created hs with hne | ⟨n, s, hup⟩
      · exact absurd hb hne
      · obtain ⟨k, c, hc, hpath, hprefix⟩ := inv.upload_supplied hup
        exact Or.inr ⟨hb, s.stored, up.stored n s hup, k, c, hc, hpath,
          (List.prefix_append _ _).trans hprefix⟩
  · exact Or.inl (up.existing hb).1

/-- What a reading client has written is a beginning of the server's file. -/
theorem ServiceInv.fetched (inv : ServiceInv allowed a still before g x) {k : Nat} {own : Directory}
    {c : ReadClient} {stream : OfStream} (hc : x.clients.threads k = some (.read own c))
    (hs : c.fileStream = some stream) :
    stream.contents <+: x.server.store.contents (requestedPath c.target) := by
  have hon := inv.on k _ hc
  unfold ReadClient.fileStream at hs
  unfold ClientOn at hon
  dsimp only at hon
  split at hs
  next hctl =>
    simp only [hctl] at hon
    obtain ⟨_, _, _, hempty, _⟩ := hon
    cases hs
    rw [hempty]
    exact List.nil_prefix
  next hctl =>
    simp only [hctl] at hon
    obtain ⟨n, _, hrole, hat⟩ := hon
    cases hs
    obtain ⟨⟨_, hread⟩, _⟩ := inv.served hrole
    rw [hat.contents]
    exact (linkInv_flatten (inv.links n)).trans hread.begins
  next hctl =>
    simp only [hctl] at hon
    cases hs
    exact hon.1
  next => cases hs
  next => cases hs
  next => cases hs

/-- Whatever the clients and the file systems do and the network does to the datagrams: the
server's files, and what is read of them, are as they were when the server started, or beginnings
of what is uploaded under the same name. -/
theorem service_forwards (run : ReflTransGen (ServiceStep allowed a) (.init before) x) :
    (∀ name, x.server.store.status name = before.status name ∨ before.status name = none ∧
      ∃ bytes, x.server.store.status name = some (.file bytes) ∧ x.Supplies name bytes) ∧
    ∀ k own c stream, x.clients.threads k = some (.read own c) → c.fileStream = some stream →
      stream.contents <+: before.contents (requestedPath c.target) ∨
        x.Supplies (requestedPath c.target) stream.contents := by
  obtain ⟨g, inv⟩ := service_reaches_inv run
  refine ⟨inv.directory, fun k own c stream hc hs => ?_⟩
  have hfetched := inv.fetched hc hs
  rcases inv.directory (requestedPath c.target) with
    hsame | ⟨_, bytes, hfile, j, w, hw, hpath, hsup⟩
  · left
    simpa only [Directory.contents, hsame] using hfetched
  · right
    simp only [Directory.contents, hfile] at hfetched
    exact ⟨j, w, hw, hpath, hfetched.trans hsup⟩

/-- An upload that its client takes for complete is complete, and so is its file once the
connection has returned. -/
theorem ServiceInv.uploaded (inv : ServiceInv allowed a still before g x)
    (hworks : ∀ disk, allowed disk → disk.Works) {j : Nat} {w : WriteClient}
    (hj : x.clients.threads j = some (.write w)) (hw : w.control = .returned none)
    (hlen : w.source.length ≤ 65535 * dataChunkSize)
    (hs : Settled x.server (uploadPath w.filename)) :
    x.server.store.status (uploadPath w.filename) = some (.file w.source) := by
  have hon := inv.on j _ hj
  simp only [ClientOn, hw] at hon
  obtain ⟨n, hrole, hconf, hblocks, hlast, hnext, stream, hread⟩ := hon
  have hreceived : (g n).state.received.flatten = w.source := by
    rw [← hblocks]
    exact ended_received (inv.links n) hread hnext hlast (by rwa [hblocks])
  obtain ⟨l, hl, hlr⟩ := roles_some hrole
  cases l with
  | read r => cases hlr
  | write c =>
    have hpath : c.path = uploadPath w.filename := congrArg (fun r => r.2.2) hlr
    obtain ⟨_, hc⟩ := inv.connections n _ hl
    -- the connection has confirmed something, so it has opened the file
    have hup : ∃ s, uploads x.server (uploadPath w.filename) n = some s ∧
        s.contents = w.source ∧ ∀ e t, c.control = .returned e t → s = t ∧ t.buffered = [] := by
      simp only [uploads, hl, Option.bind_some, Connection.upload, hpath, if_true]
      split at hc
      next => exact absurd hc.2 hconf
      next => exact absurd hc.2 hconf
      next => exact absurd hc.2.1 hconf
      next s hctl =>
        have ho : s.fileStream.isOpen = true := by
          by_contra ho
          exact hconf (hc.2 (by simpa using ho)).1
        simp only [hctl, ho, if_true, Option.some.injEq, exists_eq_left']
        exact ⟨hc.1.contents.trans hreceived, by simp⟩
      next e t hctl =>
        have ho : t.isOpen = true := by
          by_contra ho
          exact hconf (hc.2.1 (by simpa using ho))
        simp only [hctl, ho, if_true, Option.some.injEq, exists_eq_left']
        refine ⟨hc.1.trans hreceived, ?_⟩
        rintro _ _ ⟨⟩
        exact ⟨rfl, hc.2.2 hworks⟩
    obtain ⟨s, hup, hcontents, hreturned⟩ := hup
    have hstatus := (server_reaches_inv (uploadPath w.filename) inv.server).stored n s hup
    have hdone := hs.2 n _ s hl (by simpa [uploads, hl] using hup)
    unfold Connection.uploaded at hdone
    dsimp only at hdone
    split at hdone
    next e t hctl =>
      obtain ⟨rfl, hnil⟩ := hreturned _ _ hctl
      rw [hstatus, ← hcontents, OfStream.contents, hnil, List.append_nil]
    next => cases hdone

/-- Connections of which the run does not know yet may be expected to be served a file that stays
as it is. -/
theorem ServiceInv.expect (inv : ServiceInv allowed a (fun _ _ => False) before g x)
    {same : Nat → List UInt8 → Prop}
    (h : ∀ n name, same n name → x.server.threads n = none) :
    ServiceInv allowed a same before g x := by
  have never : ∀ n l, x.server.threads n = some l → ∀ name, ¬ same n name := by
    intro n l hl name hs
    rw [h n name hs] at hl
    cases hl
  refine { inv with connections := fun n l hl => ?_, on := fun k c hc => ?_ }
  · have hon := inv.connections n l hl
    cases l with
    | read r => exact ⟨hon.1, hon.2.1, fun hs => absurd hs (never n _ hl _), hon.2.2.2⟩
    | write w => exact hon
  · have hon := inv.on k c hc
    cases c with
    | write c => exact hon
    | read own c =>
      unfold ClientOn at hon ⊢
      dsimp only at hon ⊢
      split at hon
      next => exact hon
      next => exact hon
      next => exact hon
      next => exact hon
      next =>
        refine ⟨hon.1, fun he => ?_⟩
        obtain ⟨n, hrole, _⟩ := hon.2 he
        obtain ⟨l, hl, _⟩ := roles_some hrole
        exact ⟨n, hrole, fun hs => absurd hs (never n l hl _)⟩
      next => trivial

/-- A client that has returned without an error has fetched the whole file, if the file was there
and nobody was uploading it any more before the client was started. -/
theorem service_fetches {x₀ : Service} {name : List UInt8}
    (run₀ : ReflTransGen (ServiceStep allowed a) (.init before) x₀)
    (hworks : ∀ disk, allowed disk → disk.Works) (hs : Settled x₀.server name)
    (run : ReflTransGen (ServiceStep allowed a) x₀ x) {k : Nat} {own : Directory} {c : ReadClient}
    {stream : OfStream} (hk : x₀.clients.threads k = none)
    (hc : x.clients.threads k = some (.read own c)) (hr : c.control = .returned none stream)
    (hname : requestedPath c.target = name) :
    stream.contents = x₀.server.store.contents name := by
  obtain ⟨g₀, inv₀⟩ := service_reaches_inv run₀
  -- the connections that are accepted from now on are served the file as it is
  have reached : (∃ g, ServiceInv allowed a
      (fun n path => x₀.server.threads n = none ∧ path = name) before g x) ∧
      (∀ n role, x₀.roles n = some role → x.roles n = some role) ∧
      Settled x.server name ∧ x.server.store.status name = x₀.server.store.status name := by
    refine reaches_invariant (P := fun y => (∃ g, ServiceInv allowed a
        (fun n path => x₀.server.threads n = none ∧ path = name) before g y) ∧
        (∀ n role, x₀.roles n = some role → y.roles n = some role) ∧
        Settled y.server name ∧ y.server.store.status name = x₀.server.store.status name) run
      ⟨⟨g₀, inv₀.expect fun _ _ h => h.1⟩, fun _ _ h => h, hs, rfl⟩ ?_
    rintro y z ⟨⟨g, inv⟩, hroles, hsettled, hsame⟩ hstep
    have hnext : Settled z.server name ∧
        z.server.store.status name = y.server.store.status name := by
      rcases service_step_server hstep with he | hserver
      · rw [he]
        exact ⟨hsettled, rfl⟩
      · exact server_step_settled (server_reaches_inv name inv.server) hsettled hserver
    refine ⟨service_step_inv inv (fun _ _ _ => hworks) ?_ hstep,
      fun n role h => service_step_roles hstep (hroles n role h), hnext.1, hnext.2.trans hsame⟩
    rintro n path ⟨_, rfl⟩
    simp only [Directory.contents, hnext.2]
  obtain ⟨⟨g, inv⟩, hroles, _, hsame⟩ := reached
  have hon := inv.on k _ hc
  simp only [ClientOn, hr, forall_const] at hon
  obtain ⟨_, n, hrole, hwhole⟩ := hon
  rw [hname] at hwhole
  have hnew : x₀.server.threads n = none := by
    by_contra hold
    obtain ⟨l, hl⟩ := Option.ne_none_iff_exists'.mp hold
    -- its client would have been there
    have hrole₀ := roles_of_thread hl
    obtain ⟨j, d, hd, hrd, _⟩ := inv₀.owned n _ hrole₀
    have heq := (hroles n _ hrole₀).symm.trans hrole
    rw [Option.some.injEq] at heq
    have hjk : j = k := by
      apply a.client_injective
      rw [heq] at hrd
      simpa using (congrArg (fun r => r.2.1) hrd).symm
    rw [hjk, hk] at hd
    cases hd
  rw [hwhole ⟨hnew, rfl⟩]
  simp only [Directory.contents, hsame]

/-- The directory of a `read_client` shows at its target what its stream has stored. -/
def Shown (own : Directory) (c : ReadClient) : Prop :=
  match c.control with
  | .requesting | .responding => own.status c.target = none
  | .opened stream _ => stream.isOpen = true ∧ own.status c.target = some (.file stream.stored)
  | .looping l => l.fileStream.isOpen = true ∧
      own.status c.target = some (.file l.fileStream.stored)
  | .returned none stream => own.status c.target = some (.file stream.contents)
  | .returned (some _) _ | .threw => True

theorem store_status {dir : Directory} {name bytes : List UInt8} {s : OfStream}
    (h : dir.status name = some (.file bytes)) (ho : s.isOpen = true) :
    (dir.store name s).status name = some (.file s.stored) := by
  rw [Directory.store, if_pos ho]
  exact status_update_self bytes (Or.inr h)

theorem shown_resume {own own' : Directory} {c c' : ReadClient} {disk : Disk} {wake : Wake}
    {out : Outgoing} (hd : disk.closes = true) (h : Shown own c)
    (hs : readClientResume disk own c wake = some (own', c', out)) : Shown own' c' := by
  unfold Shown at h
  cases readClientResume_step hs with
  | requested hc =>
    simp only [hc] at h
    exact h
  | unsent | refused | unopened | failed => trivial
  | answered sender response hc _ hthere =>
    simp only [hc] at h
    -- a target that is there now has just been created
    unfold Directory.openOut at hthere ⊢
    split
    next hopens => exact ⟨rfl, status_update_self [] (Or.inl ⟨hopens.2.1, h⟩)⟩
    next hclosed =>
      rw [if_neg hclosed] at hthere
      exact absurd h hthere
  | started stream response hc =>
    simp only [hc] at h
    have hopen : (clientReceiveStart disk stream response).fileStream.isOpen = true := by
      simpa only [clientReceiveStart, receiveLoop_head_fileStream, ofStream_write_isOpen] using h.1
    exact ⟨hopen, store_status h.2 hopen⟩
  | succeeded loop hc =>
    simp only [hc] at h
    have hstored := store_status h.2 ((close_isOpen disk loop.fileStream).trans h.1)
    rwa [close_stored _ hd] at hstored
  | looped loop loop' out hc hloop =>
    simp only [hc] at h
    have hopen := (receiveLoop_resume_isOpen hloop).trans h.1
    exact ⟨hopen, store_status h.2 hopen⟩

theorem service_reaches_shown (hworks : ∀ disk, allowed disk → disk.Works)
    (run : ReflTransGen (ServiceStep allowed a) (.init before) x) :
    ∀ k own c, x.clients.threads k = some (.read own c) → Shown own c := by
  refine reaches_invariant (P := fun y : Service => ∀ k own c,
    y.clients.threads k = some (.read own c) → Shown own c) run (fun _ _ _ hc => by cases hc) ?_
  intro y z ih hs k own c hc
  cases hs with
  | @start j d _ hb =>
    by_cases hjk : k = j
    · subst hjk
      simp only [Service.start, Function.update_self, Option.some.injEq] at hc
      subst hc
      simp only [Shown, hb.1, hb.2.2]
    · exact ih k own c (by simpa only [Service.start, Function.update_of_ne hjk] using hc)
  | @client j disk wake clients hd _ hr =>
    obtain ⟨d, d', out, hold, hresume, rfl⟩ := clients_resumed hr
    by_cases hjk : k = j
    · subst hjk
      simp only [Function.update_self, Option.some.injEq] at hc
      subst hc
      cases d with
      | write w =>
        obtain ⟨_, _, he⟩ := Option.map_eq_some_iff.mp hresume
        cases he
      | read own₀ c₀ =>
        obtain ⟨⟨own', c', o⟩, hread, he⟩ := Option.map_eq_some_iff.mp hresume
        cases he
        exact shown_resume (hworks _ hd).closes (ih k own₀ c₀ hold) hread
    · exact ih k own c (by simpa only [Function.update_of_ne hjk] using hc)
  | accept => exact ih k own c hc
  | connection => exact ih k own c hc

/-- What one client has uploaded is what another one downloads, byte for byte, and it is in the
other one's directory when its download has returned. -/
theorem service_round_trip {x₀ : Service}
    (run₀ : ReflTransGen (ServiceStep Disk.Works a) (.init before) x₀) {j : Nat} {w : WriteClient}
    (hj : x₀.clients.threads j = some (.write w)) (hw : w.control = .returned none)
    (hlen : w.source.length ≤ 65535 * dataChunkSize)
    (hs : Settled x₀.server (uploadPath w.filename))
    (run : ReflTransGen (ServiceStep Disk.Works a) x₀ x) {k : Nat} {own : Directory}
    {c : ReadClient} {stream : OfStream} (hk : x₀.clients.threads k = none)
    (hc : x.clients.threads k = some (.read own c)) (hr : c.control = .returned none stream)
    (hname : requestedPath c.target = uploadPath w.filename) :
    stream.contents = w.source ∧ own.status c.target = some (.file w.source) := by
  obtain ⟨g₀, inv₀⟩ := service_reaches_inv run₀
  have hfile := inv₀.uploaded (fun _ h => h) hj hw hlen hs
  have hcontents : stream.contents = w.source := by
    rw [service_fetches run₀ (fun _ h => h) hs run hk hc hr hname, Directory.contents, hfile]
  have hshown := service_reaches_shown (fun _ h => h) (run₀.trans run) k own c hc
  simp only [Shown, hr, hcontents] at hshown
  exact ⟨hcontents, hshown⟩

end

/-- Two clients and two connections. -/
def twoClients : Addresses where
  listener := ⟨1, 69⟩
  client k := ⟨k + 2, 50000⟩
  port n := if n = 0 then 40000 else 40001
  client_injective := fun j k h => by simpa using congrArg Endpoint.address h
  client_ne_listener := fun k h => by simpa using congrArg Endpoint.address h
  client_ne_connection := fun k n h => by simpa using congrArg Endpoint.address h
  connection_ne_listener := fun n h => by
    have := congrArg Endpoint.port h
    split at this <;> simp at this

/-- A client asks to upload a file of one byte. -/
def uploadAsked : Option Service :=
  ((Service.init fun _ => none).start 0
    (.write ⟨twoClients.listener, literal "f", [7], .requesting⟩)).next twoClients
      (.client 0 (.sent none))

theorem uploadAsked_isSome : uploadAsked.isSome = true := by decide +kernel

/-- The upload, up to the return of both ends. -/
def oneByteUpload : Option Service :=
  [.connection 0 .scheduled, .connection 0 .scheduled, .connection 0 (.sent none),
    .clientHears 0 0 (ackBytes 0), .client 0 .scheduled, .client 0 (.sent none),
    .connectionHears 0 0 (dataBytes [7] 1), .connection 0 (.sent none),
    .clientHears 0 0 (ackBytes 1), .client 0 .scheduled, .connection 0 .timeout,
    .connection 0 .scheduled].foldlM (Service.next twoClients)
      ((uploadAsked.get uploadAsked_isSome).accept 0
        (.write ⟨twoClients.client 0, literal "f", .spawned⟩))

theorem oneByteUpload_isSome : oneByteUpload.isSome = true := by decide +kernel

/-- Another client asks for the file. -/
def downloadAsked : Option Service :=
  ((oneByteUpload.get oneByteUpload_isSome).start 1 (.read (fun _ => none)
    ⟨twoClients.listener, literal "f", .requesting⟩)).next twoClients (.client 1 (.sent none))

theorem downloadAsked_isSome : downloadAsked.isSome = true := by decide +kernel

def oneByteDownload : Option Service :=
  [.connection 1 .scheduled, .connection 1 .scheduled, .connection 1 (.sent none),
    .clientHears 1 1 (dataBytes [7] 1), .client 1 .scheduled, .client 1 (.sent none),
    .connectionHears 1 1 (ackBytes 1), .connection 1 .scheduled, .client 1 .timeout,
    .client 1 .scheduled].foldlM (Service.next twoClients)
      ((downloadAsked.get downloadAsked_isSome).accept 1
        (.read ⟨twoClients.client 1, literal "f", .spawned⟩))

theorem oneByteDownload_isSome : oneByteDownload.isSome = true := by decide +kernel

set_option maxRecDepth 8000 in
theorem oneByteUpload_reached : ReflTransGen (ServiceStep Disk.Works twoClients)
    (.init fun _ => none) (oneByteUpload.get oneByteUpload_isSome) := by
  have asked : ReflTransGen (ServiceStep Disk.Works twoClients) (.init fun _ => none)
      (uploadAsked.get uploadAsked_isSome) :=
    (ReflTransGen.single (.start (k := 0) rfl ⟨rfl, rfl⟩)).tail
      (service_next_step disk_works (Option.some_get uploadAsked_isSome).symm)
  have spawned : spawnConnection (twoClients.client 0)
      (WrqPacket.toBuffer { filename := literal "f" }) =
    some (.write ⟨twoClients.client 0, literal "f", .spawned⟩) := rfl
  refine (asked.tail (.accept rfl (fun m h => absurd rfl h) (Or.inl ⟨0, rfl, ?_⟩) spawned)).trans
    (service_events_reach disk_works (Option.some_get oneByteUpload_isSome).symm)
  decide +kernel

set_option maxRecDepth 8000 in
theorem oneByteDownload_reached : ReflTransGen (ServiceStep Disk.Works twoClients)
    (oneByteUpload.get oneByteUpload_isSome) (oneByteDownload.get oneByteDownload_isSome) := by
  have asked : ReflTransGen (ServiceStep Disk.Works twoClients)
      (oneByteUpload.get oneByteUpload_isSome) (downloadAsked.get downloadAsked_isSome) :=
    (ReflTransGen.single (.start (k := 1) rfl ⟨rfl, rfl, by decide +kernel⟩)).tail
      (service_next_step disk_works (Option.some_get downloadAsked_isSome).symm)
  have spawned : spawnConnection (twoClients.client 1)
      (RrqPacket.toBuffer { filename := literal "f" }) =
    some (.read ⟨twoClients.client 1, literal "f", .spawned⟩) := rfl
  refine (asked.tail (.accept rfl ?_ (Or.inl ⟨1, rfl, ?_⟩) spawned)).trans
    (service_events_reach disk_works (Option.some_get oneByteDownload_isSome).symm)
  · rintro (_ | m) h
    · decide
    · exact absurd rfl h
  · decide +kernel

set_option maxRecDepth 8000 in
theorem service_forwards_one_byte : ∃ own c stream,
    (oneByteDownload.get oneByteDownload_isSome).clients.threads 1 = some (.read own c) ∧
      c.fileStream = some stream ∧ stream.contents = [7] ∧
      (oneByteDownload.get oneByteDownload_isSome).Supplies (literal "f") [7] := by
  refine ⟨_, _, _, rfl, rfl, rfl, ?_⟩
  rcases (service_forwards (oneByteUpload_reached.trans oneByteDownload_reached)).2 1 _ _ _ rfl rfl
    with h | h
  · exact absurd h (by decide +kernel)
  · exact h

set_option maxRecDepth 8000 in
theorem oneByteUpload_settled :
    Settled (oneByteUpload.get oneByteUpload_isSome).server (literal "f") := by
  refine ⟨by decide +kernel, ?_⟩
  rintro (_ | n) l s hl hs
  · cases hl
    rfl
  · cases hl

set_option maxRecDepth 8000 in
theorem service_round_trip_one_byte : ∃ own c stream,
    (oneByteDownload.get oneByteDownload_isSome).clients.threads 1 = some (.read own c) ∧
      c.control = .returned none stream ∧ stream.contents = [7] ∧
      own.status c.target = some (.file [7]) :=
  ⟨_, _, _, rfl, rfl, service_round_trip oneByteUpload_reached (j := 0) rfl rfl (by decide)
    oneByteUpload_settled oneByteDownload_reached (k := 1) rfl rfl rfl rfl⟩

end Protocols
