import Protocols.Interleaving
import Protocols.TftpFailure
import Protocols.TftpServing

namespace Protocols

open Relation

/-- `spawn_connections`: any request datagram may spawn a connection at any time, and every
connection goes on with whatever the file system and the network do. -/
def tftpServer : Machine Directory Connection (Disk × Wake) (Endpoint × List UInt8) where
  starts c := ∃ clientEndpoint request, spawnConnection clientEndpoint request = some c
  resume dir c i := connectionResume i.1 dir c i.2

abbrev ServerConfig := Config Directory Connection (Endpoint × List UInt8)

abbrev ServerStep : ServerConfig → ServerConfig → Prop := MachineStep tftpServer

/-- Its coroutines never wait without giving the thread away. -/
theorem tftpServer_free (c : ServerConfig) (n : Nat) : c.Free tftpServer n :=
  free_of_never (fun _ => rfl) c n

/-- The stream of an upload to the name, if its connection has created the file. -/
def Connection.upload (name : List UInt8) : Connection → Option OfStream
  | .read _ => none
  | .write c =>
    if c.path = name then
      match c.control with
      | .opened stream => if stream.isOpen then some stream else none
      | .looping loop => if loop.fileStream.isOpen then some loop.fileStream else none
      | .returned _ stream => if stream.isOpen then some stream else none
      | .spawned | .refusing => none
    else none

/-- `write_connection` has returned, and its stream is destroyed. -/
def Connection.uploaded : Connection → Bool
  | .read _ => false
  | .write c => match c.control with
    | .returned _ _ => true
    | _ => false

theorem status_update_ne {dir : Directory} {path name : List UInt8} {e : Option Entry}
    (h : name ≠ path) :
    Directory.status (Function.update dir path e) name = dir.status name := by
  simp [Directory.status, Function.update_of_ne h]

theorem status_update_self {dir : Directory} {name : List UInt8} {e : Entry} (bytes : List UInt8)
    (h : dir.Nameable name ∨ dir.status name = some (.file bytes)) :
    Directory.status (Function.update dir name (some e)) name = some e := by
  unfold Directory.Nameable Directory.status at h
  unfold Directory.status
  by_cases hne : name = []
  · simp [hne] at h
  · by_cases hdot : name = [46] ∨ name = [46, 46]
    · simp [hne, hdot] at h
    · simp [hne, hdot]

/-- What a resumption of a connection does to a name and to its upload there: nothing, or it
creates the empty file, or it passes on what it has received. -/
def ResumesUpload (name : List UInt8) (dir dir' : Directory) (c c' : Connection) : Prop :=
  (dir'.status name = dir.status name ∧ c'.upload name = c.upload name) ∨
  (c.upload name = none ∧ dir.status name = none ∧ c'.upload name = some {} ∧
    dir'.status name = some (.file [])) ∨
  (c.uploaded = false ∧ ∃ s s', c.upload name = some s ∧ c'.upload name = some s' ∧
    s.stored <+: s'.stored ∧ s.contents <+: s'.contents ∧
    dir'.status name = some (.file s'.stored))

theorem store_resumes {name : List UInt8} {dir : Directory} {w : WriteConnection}
    {control : WriteControl} {s s' : OfStream} (ho : s'.isOpen = s.isOpen)
    (hc : (Connection.write w).upload name =
      if w.path = name then if s.isOpen then some s else none else none)
    (hc' : (Connection.write { w with control }).upload name =
      if w.path = name then if s'.isOpen then some s' else none else none)
    (hrun : (Connection.write w).uploaded = false)
    (hshown : ∀ t, (Connection.write w).upload name = some t →
      dir.status name = some (.file t.stored))
    (hstored : s.stored <+: s'.stored) (hcontents : s.contents <+: s'.contents) :
    ResumesUpload name dir (dir.store w.path s') (.write w) (.write { w with control }) := by
  by_cases hp : w.path = name
  · subst hp
    rw [if_pos rfl] at hc hc'
    by_cases hopen : s.isOpen = true
    · rw [if_pos hopen] at hc
      rw [if_pos (ho.trans hopen)] at hc'
      refine Or.inr (Or.inr ⟨hrun, s, s', hc, hc', hstored, hcontents, ?_⟩)
      simp only [Directory.store, ho, hopen, if_true]
      exact status_update_self _ (Or.inr (hshown s hc))
    · rw [if_neg hopen] at hc
      rw [ho, if_neg hopen] at hc'
      exact Or.inl ⟨by simp [Directory.store, ho, hopen], by rw [hc, hc']⟩
  · rw [if_neg hp] at hc hc'
    refine Or.inl ⟨?_, by rw [hc, hc']⟩
    unfold Directory.store
    split
    next => exact status_update_ne (Ne.symm hp)
    next => rfl

theorem connection_resume_upload {disk : Disk} {dir dir' : Directory} {c c' : Connection}
    {wake : Wake} {out : Outgoing} (name : List UInt8)
    (hshown : ∀ s, c.upload name = some s → dir.status name = some (.file s.stored))
    (hs : connectionResume disk dir c wake = some (dir', c', out)) :
    ResumesUpload name dir dir' c c' := by
  cases c with
  | read r =>
    obtain ⟨⟨r', o⟩, _, hs⟩ := Option.map_eq_some_iff.mp hs
    simp only [Prod.mk.injEq] at hs
    obtain ⟨rfl, rfl, rfl⟩ := hs
    exact Or.inl ⟨rfl, rfl⟩
  | write w =>
    obtain ⟨⟨d, w', o⟩, hw, hs⟩ := Option.map_eq_some_iff.mp hs
    simp only [Prod.mk.injEq] at hs
    obtain ⟨rfl, rfl, rfl⟩ := hs
    cases writeConnectionResume_step hw with
    | present hc => exact Or.inl ⟨rfl, by simp [Connection.upload, hc]⟩
    | created hc _ hnone =>
      unfold Directory.openOut
      -- the file is created here, unless it cannot be
      split
      next hopen =>
        by_cases hp : w.path = name
        · subst hp
          exact Or.inr (Or.inl ⟨by simp [Connection.upload, hc], hnone, by simp [Connection.upload],
            status_update_self [] (Or.inl ⟨hopen.2.1, hnone⟩)⟩)
        · exact Or.inl ⟨status_update_ne (Ne.symm hp), by simp [Connection.upload, hp]⟩
      next => exact Or.inl ⟨rfl, by simp [Connection.upload, hc]⟩
    | refused hc => exact Or.inl ⟨rfl, by simp [Connection.upload, hc]⟩
    | unsent error hc => exact Or.inl ⟨rfl, by simp [Connection.upload, hc]⟩
    | started stream hc =>
      exact Or.inl ⟨rfl, by simp [Connection.upload, hc, serverReceiveStart]⟩
    | returned loop error hc =>
      exact store_resumes (close_isOpen _ _) (by simp [Connection.upload, hc]) rfl
        (by simp [Connection.uploaded, hc]) hshown (close_stored_grows _ _) (by rw [close_contents])
    | looped loop loop' out hc hloop =>
      obtain ⟨hstored, hcontents⟩ := receiveLoop_resume_appends hloop
      exact store_resumes (receiveLoop_resume_isOpen hloop) (by simp [Connection.upload, hc]) rfl
        (by simp [Connection.uploaded, hc]) hshown hstored hcontents

/-- The uploads to a name, by connection. -/
def uploads (c : ServerConfig) (name : List UInt8) (n : Nat) : Option OfStream :=
  (c.threads n).bind (Connection.upload name)

theorem spawned_upload {l : Connection} (h : tftpServer.starts l) (name : List UInt8) :
    l.upload name = none := by
  obtain ⟨client, request, hs⟩ := h
  unfold spawnConnection at hs
  dsimp only at hs
  split at hs
  next => cases hs; rfl
  next => cases hs; simp [Connection.upload]
  next => simp at hs

/-- What a step of the server does to a name and to the uploads there. -/
inductive UploadStep (name : List UInt8) (c d : ServerConfig) : Prop
  | keeps : d.store.status name = c.store.status name → uploads d name = uploads c name →
      UploadStep name c d
  | creates (n) : c.store.status name = none → d.store.status name = some (.file []) →
      uploads d name = Function.update (uploads c name) n (some {}) → UploadStep name c d
  | appends (n s s' l) : c.threads n = some l → l.uploaded = false → uploads c name n = some s →
      s.stored <+: s'.stored → s.contents <+: s'.contents →
      d.store.status name = some (.file s'.stored) →
      uploads d name = Function.update (uploads c name) n (some s') → UploadStep name c d

theorem uploads_update (s : Directory) (threads : Nat → Option Connection)
    (log : List (Nat × Endpoint × List UInt8)) (name : List UInt8) (n : Nat) (l : Connection) :
    uploads ⟨s, Function.update threads n (some l), log⟩ name =
      Function.update (uploads ⟨s, threads, log⟩ name) n (l.upload name) := by
  funext k
  by_cases hk : k = n
  · subst hk
    simp [uploads]
  · simp [uploads, Function.update_of_ne hk]

theorem server_step_upload {c d : ServerConfig} {name : List UInt8}
    (stored : ∀ n s, uploads c name n = some s → c.store.status name = some (.file s.stored))
    (h : ServerStep c d) : UploadStep name c d := by
  cases h with
  | @spawn n l hn hl _ =>
    refine .keeps rfl ?_
    rw [uploads_update, spawned_upload hl name]
    have hnone : uploads c name n = none := by simp [uploads, hn]
    rw [← hnone]
    exact Function.update_eq_self _ _
  | @resume n l i s l' out hn hr _ =>
    have hup : uploads c name n = l.upload name := by simp [uploads, hn]
    rcases connection_resume_upload name (fun s hs => stored n s (hup.trans hs)) hr with
      ⟨hst, hl'⟩ | ⟨hl, hnone, hl', hst⟩ | ⟨hrun, t, t', hl, hl', hstored, hcont, hst⟩
    · refine .keeps hst ?_
      rw [uploads_update, hl', ← hup]
      exact Function.update_eq_self _ _
    · refine .creates n hnone hst ?_
      rw [uploads_update, hl']
      rfl
    · refine .appends n t t' l hn hrun (hup.trans hl) hstored hcont hst ?_
      rw [uploads_update, hl']
      rfl

/-- A name is as it was at the beginning, or one connection has created its file and stores its
upload there. -/
structure UploadInv (before : Directory) (name : List UInt8) (c : ServerConfig) : Prop where
  existing : before.status name ≠ none → c.store.status name = before.status name ∧
    ∀ n, uploads c name n = none
  stored : ∀ n s, uploads c name n = some s → c.store.status name = some (.file s.stored)
  single : ∀ n k s s', uploads c name n = some s → uploads c name k = some s' → n = k
  created : c.store.status name ≠ none → before.status name ≠ none ∨
    ∃ n s, uploads c name n = some s

theorem server_step_inv {before : Directory} {name : List UInt8} {c d : ServerConfig}
    (inv : UploadInv before name c) (h : ServerStep c d) : UploadInv before name d := by
  cases server_step_upload inv.stored h with
  | keeps hst hup =>
    exact ⟨by rw [hst, hup]; exact inv.existing, by rw [hst, hup]; exact inv.stored,
      by rw [hup]; exact inv.single, by rw [hst, hup]; exact inv.created⟩
  | creates n hnone hst hup =>
    -- the name was free, so there is no other upload to it
    have hothers : ∀ k, uploads c name k = none := by
      intro k
      cases hk : uploads c name k with
      | none => rfl
      | some s => rw [inv.stored k s hk] at hnone; cases hnone
    have honly : ∀ k s, uploads d name k = some s → k = n ∧ s = {} := by
      intro k s hs
      rw [hup] at hs
      by_cases hk : k = n
      · subst hk
        exact ⟨rfl, by simpa using hs.symm⟩
      · rw [Function.update_of_ne hk, hothers k] at hs
        cases hs
    refine ⟨fun hb => ?_, fun k s hs => ?_, fun k k' s s' hs hs' => ?_, fun _ => ?_⟩
    · have := (inv.existing hb).1
      rw [hnone] at this
      exact absurd this.symm hb
    · rw [hst, (honly k s hs).2]
    · rw [(honly k s hs).1, (honly k' s' hs').1]
    · exact Or.inr ⟨n, {}, by rw [hup, Function.update_self]⟩
  | appends n s s' l hn _ hs hstored _ hst hup =>
    have hother : ∀ k t, k ≠ n → uploads c name k ≠ some t :=
      fun k t hk ht => hk (inv.single k n t s ht hs)
    have honly : ∀ k t, uploads d name k = some t → k = n ∧ t = s' := by
      intro k t ht
      rw [hup] at ht
      by_cases hk : k = n
      · subst hk
        exact ⟨rfl, by simpa using ht.symm⟩
      · rw [Function.update_of_ne hk] at ht
        exact absurd ht (hother k t hk)
    refine ⟨fun hb => ?_, fun k t ht => ?_, fun k k' t t' ht ht' => ?_, fun _ => ?_⟩
    · have := (inv.existing hb).2 n
      rw [hs] at this
      cases this
    · rw [hst, (honly k t ht).2]
    · rw [(honly k t ht).1, (honly k' t' ht').1]
    · exact Or.inr ⟨n, s', by rw [hup, Function.update_self]⟩

theorem server_reaches_inv {before : Directory} {c : ServerConfig} (name : List UInt8)
    (run : ReflTransGen ServerStep (Config.init before) c) : UploadInv before name c := by
  refine reaches_invariant run ⟨fun _ => ⟨rfl, fun _ => rfl⟩, fun n s hs => ?_, fun n k s s' hs => ?_,
    fun hb => Or.inl hb⟩ fun _ _ => server_step_inv
  · cases hs
  · cases hs

/-- What a file holds stays its beginning, and what is a file or a folder stays one. -/
theorem server_step_grows {before : Directory} {name : List UInt8} {c d : ServerConfig}
    (inv : UploadInv before name c) (h : ServerStep c d) :
    d.store.status name = c.store.status name ∨ c.store.status name = none ∨
      ∃ bytes bytes', c.store.status name = some (.file bytes) ∧
        d.store.status name = some (.file bytes') ∧ bytes <+: bytes' := by
  cases server_step_upload inv.stored h with
  | keeps hst _ => exact Or.inl hst
  | creates _ hnone _ _ => exact Or.inr (Or.inl hnone)
  | appends n s s' _ _ _ hs hstored _ hst _ =>
    exact Or.inr (Or.inr ⟨_, _, inv.stored n s hs, hst, hstored⟩)

theorem uploaded_stops {l : Connection} (h : l.uploaded = true) (disk : Disk) (dir : Directory)
    (wake : Wake) : connectionResume disk dir l wake = none := by
  cases l with
  | read _ => simp [Connection.uploaded] at h
  | write w =>
    unfold Connection.uploaded at h
    dsimp only at h
    split at h
    next hc => simp [connectionResume, writeConnectionResume, hc]
    next => cases h

/-- The name is there, and no upload to it is going on. -/
def Settled (c : ServerConfig) (name : List UInt8) : Prop :=
  c.store.status name ≠ none ∧
    ∀ n l s, c.threads n = some l → l.upload name = some s → l.uploaded = true

theorem server_step_settled {before : Directory} {name : List UInt8} {c d : ServerConfig}
    (inv : UploadInv before name c) (hs : Settled c name) (h : ServerStep c d) :
    Settled d name ∧ d.store.status name = c.store.status name := by
  cases server_step_upload inv.stored h with
  | keeps hst hup =>
    refine ⟨⟨by rw [hst]; exact hs.1, fun n l s hn hl => ?_⟩, hst⟩
    rcases machineStep_thread_cases h hn with ⟨_, hstart, _⟩ | ⟨l₀, i, out, hl₀, hr, _⟩ | ⟨hl₀, _⟩
    · rw [spawned_upload hstart] at hl
      cases hl
    · have hold : l₀.upload name = some s := by
        have hn' := congrFun hup n
        simp only [uploads, hn, hl₀, Option.bind_some] at hn'
        rw [← hn', hl]
      have hstop := uploaded_stops (hs.2 n l₀ s hl₀ hold) i.1 c.store i.2
      rw [show connectionResume i.1 c.store l₀ i.2 = _ from hr] at hstop
      cases hstop
    · exact hs.2 n l s hl₀ hl
  | creates _ hnone _ _ => exact absurd hnone hs.1
  | appends n s s' l hn hrun hup _ _ _ _ =>
    have hup' : l.upload name = some s := by simpa [uploads, hn] using hup
    rw [hs.2 n l s hn hup'] at hrun
    cases hrun

/-- What a stream opened for reading on the name would read. -/
def Directory.contents (dir : Directory) (name : List UInt8) : List UInt8 :=
  match dir.status name with
  | some (.file bytes) => bytes
  | _ => []

theorem input_bytes (disk : Disk) (dir : Directory) (name : List UInt8) :
    (dir.input disk name).bytes = dir.contents name := by
  unfold Directory.input Directory.contents
  split <;> simp_all

theorem input_is_file {disk : Disk} {dir : Directory} {name : List UInt8} {p : Nat}
    (h : (dir.input disk name).readFault p = false) :
    ∃ bytes, dir.status name = some (.file bytes) := by
  unfold Directory.input at h
  split at h
  next bytes hb => exact ⟨bytes, hb⟩
  next => cases h

/-- What a reading connection has served so far; where the name is settled, the end of the stream
is the end of the file. -/
def Reads (settled : List UInt8 → Prop) (dir : Directory) (c : Connection) (out : Outgoing) : Prop :=
  match c with
  | .write _ => True
  | .read r => match r.control with
    | .spawned | .refusing | .opened => out.foldl serve (none, []) = (none, [])
    | .looping s => Serves (dir.contents r.path) s (out.foldl serve (none, [])) ∧
        (s.fileStream.eof = true → (∃ bytes, dir.status r.path = some (.file bytes)) ∧
          (settled r.path → s.fileStream.position = (dir.contents r.path).length))
    | .returned _ => True

theorem spawned_reads {l : Connection} (h : tftpServer.starts l) (settled : List UInt8 → Prop)
    (dir : Directory) : Reads settled dir l [] := by
  obtain ⟨client, request, hs⟩ := h
  unfold spawnConnection at hs
  dsimp only at hs
  split at hs
  next => cases hs; rfl
  next => cases hs; trivial
  next => simp at hs

theorem comesToEnd_reads {disk : Disk} {dir : Directory} {name : List UInt8} {settled : Prop}
    {before after : IfStream} (h : ComesToEnd (dir.input disk name) before after)
    (hb : before.eof = true → (∃ bytes, dir.status name = some (.file bytes)) ∧
      (settled → before.position = (dir.contents name).length)) (he : after.eof = true) :
    (∃ bytes, dir.status name = some (.file bytes)) ∧
      (settled → after.position = (dir.contents name).length) := by
  rcases h he with ⟨heof, hp⟩ | ⟨hp, p, hf⟩
  · rw [hp]
    exact hb heof
  · exact ⟨input_is_file hf, fun _ => by rw [hp, input_bytes]⟩

theorem connection_resume_reads {disk : Disk} {settled : List UInt8 → Prop} {dir dir' : Directory}
    {c c' : Connection} {wake : Wake} {out sent : Outgoing} (h : Reads settled dir c sent)
    (hs : connectionResume disk dir c wake = some (dir', c', out)) :
    Reads settled dir' c' (sent ++ out) := by
  cases c with
  | write w =>
    obtain ⟨_, _, hs⟩ := Option.map_eq_some_iff.mp hs
    simp only [Prod.mk.injEq] at hs
    obtain ⟨_, rfl, _⟩ := hs
    trivial
  | read r =>
    obtain ⟨⟨r', o⟩, hr, hs⟩ := Option.map_eq_some_iff.mp hs
    simp only [Prod.mk.injEq] at hs
    obtain ⟨rfl, rfl, rfl⟩ := hs
    unfold Reads at h ⊢
    dsimp only at h ⊢
    cases readConnectionResume_step hr with
    | missing hc =>
      simp only [hc] at h
      simpa using h
    | found hc =>
      simp only [hc] at h
      simpa using h
    | refused => trivial
    | unsent => trivial
    | started hc =>
      simp only [hc] at h
      obtain ⟨hserves, hend⟩ := serves_start (dir.input disk r.path)
      rw [input_bytes] at hserves
      simp only [List.append_nil, h]
      exact ⟨hserves, comesToEnd_reads hend (by simp)⟩
    | returned => trivial
    | looped loop loop' out hc hloop =>
      simp only [hc] at h
      obtain ⟨hserves, heof⟩ := h
      rw [← input_bytes disk] at hserves
      obtain ⟨hserves', hend⟩ := serves_resume hserves hloop
      rw [input_bytes] at hserves'
      simp only [List.foldl_append]
      exact ⟨hserves', comesToEnd_reads hend heof⟩

/-- The other connections do not spoil what has been served. -/
theorem server_step_reads {before : Directory} {settled : List UInt8 → Prop} {c d : ServerConfig}
    {l : Connection} {out : Outgoing} (inv : ∀ name, UploadInv before name c)
    (hsettled : ∀ name, settled name → d.store.status name = c.store.status name)
    (h : ServerStep c d) (hr : Reads settled c.store l out) : Reads settled d.store l out := by
  unfold Reads at hr ⊢
  cases l with
  | write _ => trivial
  | read r =>
    dsimp only at hr ⊢
    split at hr
    next => exact hr
    next => exact hr
    next => exact hr
    next s hc =>
      obtain ⟨hserves, hend⟩ := hr
      have grows := server_step_grows (inv r.path) h
      have hprefix : c.store.contents r.path <+: d.store.contents r.path := by
        rcases grows with hst | hnone | ⟨bytes, bytes', hb, hb', hp⟩
        · simp only [Directory.contents, hst]
          exact List.prefix_refl _
        · simp only [Directory.contents, hnone]
          exact List.nil_prefix
        · simpa only [Directory.contents, hb, hb'] using hp
      refine ⟨hserves.grow hprefix, fun he => ?_⟩
      obtain ⟨⟨bytes, hb⟩, hpos⟩ := hend he
      constructor
      · rcases grows with hst | hnone | ⟨_, bytes', _, hb', _⟩
        · exact ⟨bytes, by rw [hst, hb]⟩
        · rw [hnone] at hb
          cases hb
        · exact ⟨bytes', hb'⟩
      · intro hs
        have := hpos hs
        simpa only [Directory.contents, hsettled r.path hs] using this
    next => trivial

theorem server_reaches_reads {before : Directory} {c : ServerConfig}
    (run : ReflTransGen ServerStep (Config.init before) c) {n : Nat} {l : Connection}
    (hn : c.threads n = some l) : Reads (fun _ => False) c.store l (c.logOf n) :=
  (machine_threads_invariant (I := fun c => ∀ name, UploadInv before name c)
    (T := fun _ => Reads fun _ => False) (fun _ hd name => server_reaches_inv name hd)
    (fun _ _ => rfl) (fun _ _ h => by cases h) (fun _ s _ _ hl => spawned_reads hl _ s)
    (fun _ _ _ _ _ _ _ _ _ ht hr => connection_resume_reads ht hr)
    (fun _ _ _ _ inv hs _ ht => server_step_reads inv (fun _ h => h.elim) hs ht) run).2 n l hn

theorem server_reaches_fresh {before : Directory} {c : ServerConfig}
    (run : ReflTransGen ServerStep (Config.init before) c) {n : Nat} (hn : c.threads n = none) :
    c.logOf n = [] :=
  ((machine_threads_invariant (I := fun _ => True) (T := fun _ _ _ _ => True) (fun _ _ => trivial)
    (fun _ _ => rfl) (fun _ _ _ => trivial) (fun _ _ _ _ _ => trivial)
    (fun _ _ _ _ _ _ _ _ _ _ _ => trivial) (fun _ _ _ _ _ _ _ _ => trivial) run).1 n hn).2

/-- A reading connection spawned when the name was settled serves it to its end. -/
theorem server_reaches_settled {before : Directory} {c₀ c : ServerConfig} {name : List UInt8}
    (run₀ : ReflTransGen ServerStep (Config.init before) c₀) (run : ReflTransGen ServerStep c₀ c)
    (hs : Settled c₀ name) {n : Nat} {l : Connection} (fresh : c₀.threads n = none)
    (hn : c.threads n = some l) :
    c.store.status name = c₀.store.status name ∧
      Reads (fun path => path = name) c.store l (c.logOf n) := by
  have inv : ∀ d, ReflTransGen ServerStep c₀ d → (∀ name, UploadInv before name d) ∧
      Settled d name ∧ d.store.status name = c₀.store.status name := by
    intro d hd
    refine ⟨fun name => server_reaches_inv name (run₀.trans hd), ?_⟩
    refine reaches_invariant (P := fun d => UploadInv before name d ∧ Settled d name ∧
      d.store.status name = c₀.store.status name) hd
      ⟨server_reaches_inv name run₀, hs, rfl⟩ ?_ |>.2
    rintro e f ⟨hi, hs, hst⟩ hstep
    obtain ⟨hs', hst'⟩ := server_step_settled hi hs hstep
    exact ⟨server_step_inv hi hstep, hs', hst'.trans hst⟩
  refine ⟨(inv c run).2.2, ?_⟩
  have ht := (machine_threads_invariant (m := tftpServer)
    (I := fun c => (∀ name, UploadInv before name c) ∧ Settled c name)
    (T := fun n => Reads fun path => c₀.threads n = none ∧ path = name)
    (fun d hd => ⟨(inv d hd).1, (inv d hd).2.1⟩) (fun n hn => server_reaches_fresh run₀ hn) ?_
    (fun _ s _ _ hl => spawned_reads hl _ s)
    (fun _ _ _ _ _ _ _ _ _ ht hr => connection_resume_reads ht hr) ?_ run).2 n l hn
  · simpa only [fresh, true_and] using ht
  · intro k l' hk
    have hr := server_reaches_reads run₀ hk
    simpa only [hk, reduceCtorEq, false_and] using hr
  · rintro d e k l' ⟨hi, hsd⟩ hstep _ ht'
    refine server_step_reads hi ?_ hstep ht'
    rintro path ⟨_, rfl⟩
    exact (server_step_settled (hi _) hsd hstep).2

theorem close_stored {disk : Disk} (s : OfStream) (hd : disk.closes = true) :
    (s.close disk).stored = (s.close disk).contents := by
  simp [OfStream.close, OfStream.contents, hd]

/-- An upload that has returned has all it has received in its file, where its stream could store
what it held when it was destroyed. -/
theorem returned_stored {before : Directory} {c : ServerConfig} {u : Nat}
    (run : ReflTransGen (StepWith tftpServer u fun i => i.1.closes = true) (Config.init before) c) :
    ∀ w error left, c.threads u = some (.write w) → w.control = .returned error left →
      left.isOpen = true → left.stored = left.contents := by
  refine reaches_invariant (P := fun c : ServerConfig => ∀ w error left,
    c.threads u = some (.write w) → w.control = .returned error left → left.isOpen = true →
    left.stored = left.contents) run (fun _ _ _ hw => by cases hw) ?_
  intro c d ih hs w error left hw hr hopen
  cases hl : c.threads u with
  | none =>
    rcases machineStep_thread_cases hs.step hw with ⟨_, hstart, _⟩ | ⟨_, _, _, hl', _⟩ | ⟨hl', _⟩
    · have hspawned := spawned_upload hstart w.path
      simp [Connection.upload, hr, hopen] at hspawned
    · rw [hl] at hl'
      cases hl'
    · rw [hl] at hl'
      cases hl'
  | some l =>
    rcases stepWith_running_cases hs hl with ⟨i, l', out, hi, hres, hn, _⟩ | ⟨hn, _⟩
    · rw [hw] at hn
      cases hn
      cases l with
      | read r =>
        obtain ⟨_, _, he⟩ := Option.map_eq_some_iff.mp hres
        cases (Prod.mk.inj (Prod.mk.inj he).2).1
      | write w₀ =>
        obtain ⟨⟨dir, w', o⟩, hwrite, he⟩ := Option.map_eq_some_iff.mp hres
        cases (Prod.mk.inj (Prod.mk.inj he).2).1
        cases writeConnectionResume_step hwrite with
        | present | created | started | looped => cases hr
        | refused | unsent =>
          cases hr
          cases hopen
        | returned loop error' =>
          cases hr
          exact close_stored loop.fileStream hi
    · rw [hw] at hn
      cases hn
      exact ih w error left hl hr hopen

/-- A connection that has been accepted when no upload to its name was going on has served all of the
file, once its loop has ended without an error. -/
theorem served_settled {before : Directory} {c₀ c : ServerConfig} {n : Nat} {r : ReadConnection}
    {s : SendLoop} (run₀ : ReflTransGen ServerStep (Config.init before) c₀)
    (accepted : c₀.threads n = none) (run : ReflTransGen ServerStep c₀ c)
    (hn : c.threads n = some (.read r)) (hr : r.control = .looping s)
    (hs : s.control = .finished none) (hsettled : Settled c₀ r.path) :
    c₀.store.status r.path = some (.file (blocksSent (c.logOf n))) := by
  obtain ⟨hst, hreads⟩ := server_reaches_settled run₀ run hsettled accepted hn
  simp only [Reads, hr] at hreads
  obtain ⟨hserves, hend⟩ := hreads
  obtain ⟨⟨bytes, hb⟩, hpos⟩ := hend (hserves.ended hs).2
  have hall := hserves.all hs
  rw [hpos trivial, List.take_length] at hall
  rw [← hst, hb, blocksSent, hall, Directory.contents, hb]

/-- An upload that has returned was the only one to its name. -/
theorem UploadInv.returned_settled {before : Directory} {name : List UInt8} {c : ServerConfig}
    (inv : UploadInv before name c) {u : Nat} {w : WriteConnection} {error : Option ErrorCode}
    {left : OfStream} (hw : c.threads u = some (.write w)) (hpath : w.path = name)
    (hret : w.control = .returned error left) (hopen : left.isOpen = true) :
    uploads c name u = some left ∧ Settled c name := by
  have hup : uploads c name u = some left := by
    simp [uploads, hw, Connection.upload, hpath, hret, hopen]
  refine ⟨hup, by rw [inv.stored u left hup]; simp, fun k l t hk hl => ?_⟩
  have hku := inv.single k u t left (by simp [uploads, hk, hl]) hup
  rw [hku, hw] at hk
  cases hk
  simp [Connection.uploaded, hret]

/-- What a reading connection has sent when its loop has ended without an error: a file that was
there before the server started; or a beginning of what the only upload to the name has received. If
that upload had returned before the request was accepted, it is the file as the upload has left it,
and all that the upload has received unless its stream could not store it when it was destroyed. -/
theorem served_file {before : Directory} {c₀ c : ServerConfig} {n : Nat} {r : ReadConnection}
    {s : SendLoop} (run₀ : ReflTransGen ServerStep (Config.init before) c₀)
    (accepted : c₀.threads n = none) (run : ReflTransGen ServerStep c₀ c)
    (hn : c.threads n = some (.read r)) (hr : r.control = .looping s)
    (hs : s.control = .finished none) :
    before.status r.path = some (.file (blocksSent (c.logOf n))) ∨
    before.status r.path = none ∧ ∃ u stream, uploads c r.path u = some stream ∧
      (∀ v other, uploads c r.path v = some other → v = u) ∧
      blocksSent (c.logOf n) <+: stream.contents ∧
      ∀ w left, c₀.threads u = some (.write w) → w.path = r.path →
        w.control = .returned none left → left.isOpen = true →
        blocksSent (c.logOf n) = left.stored ∧
        (ReflTransGen (StepWith tftpServer u fun i => i.1.closes = true) (Config.init before) c₀ →
          blocksSent (c.logOf n) = left.contents) := by
  have whole := served_settled run₀ accepted run hn hr hs
  have inv₀ := server_reaches_inv r.path run₀
  by_cases hbefore : before.status r.path = none
  · have inv := server_reaches_inv r.path (run₀.trans run)
    have hreads := server_reaches_reads (run₀.trans run) hn
    simp only [Reads, hr] at hreads
    obtain ⟨hserves, hend⟩ := hreads
    obtain ⟨⟨bytes, hb⟩, _⟩ := hend (hserves.ended hs).2
    refine Or.inr ⟨hbefore, ?_⟩
    rcases inv.created (by rw [hb]; simp) with hne | ⟨u, stream, hu⟩
    · exact absurd hbefore hne
    · refine ⟨u, stream, hu, fun v other hv => inv.single v u other stream hv hu, ?_, ?_⟩
      · have hstored := inv.stored u stream hu
        have hall := hserves.all hs
        rw [blocksSent, hall, Directory.contents, hstored]
        exact (List.take_prefix _ _).trans (List.prefix_append _ _)
      · intro w left hw hpath hret hopen
        obtain ⟨hup, hsettled⟩ := inv₀.returned_settled hw hpath hret hopen
        have hwhole := whole hsettled
        rw [inv₀.stored u left hup] at hwhole
        have hleft : blocksSent (c.logOf n) = left.stored := by simpa using hwhole.symm
        exact ⟨hleft, fun hrun => hleft.trans (returned_stored hrun w none left hw hret hopen)⟩
  · have hsettled : Settled c₀ r.path := by
      obtain ⟨hst, hnone⟩ := inv₀.existing hbefore
      refine ⟨by rw [hst]; exact hbefore, fun k l t hk hl => ?_⟩
      have hup := hnone k
      rw [uploads, hk, Option.bind_some, hl] at hup
      cases hup
    rw [← (inv₀.existing hbefore).1]
    exact Or.inl (whole hsettled)

theorem read_request_starts (client : Endpoint) :
    tftpServer.starts (.read ⟨client, literal "f", .spawned⟩) :=
  ⟨client, RrqPacket.toBuffer { filename := literal "f" }, rfl⟩

theorem write_request_starts (client : Endpoint) :
    tftpServer.starts (.write ⟨client, literal "f", .spawned⟩) :=
  ⟨client, WrqPacket.toBuffer { filename := literal "f" }, rfl⟩

/-- A server that has been asked to take the file of two blocks. -/
def uploadRequested : ServerConfig :=
  ⟨fun _ => none, Function.update (fun _ => none) 0
    (some (.write ⟨twoHosts.client, literal "f", .spawned⟩)), []⟩

theorem uploadRequested_reached (u : Nat) (allowed : Disk × Wake → Prop) :
    ReflTransGen (StepWith tftpServer u allowed) (Config.init fun _ => none) uploadRequested :=
  .single (.spawn (k := 0) rfl (write_request_starts twoHosts.client) (tftpServer_free _ _))

/-- A server that is asked for the file by another client as well. -/
def alsoRead (c : ServerConfig) : ServerConfig :=
  { c with
    threads := Function.update c.threads 1 (some (.read ⟨⟨3, 50002⟩, literal "f", .spawned⟩)) }

theorem alsoRead_reached {c : ServerConfig} (h : c.threads 1 = none) : ServerStep c (alsoRead c) :=
  .spawn h (read_request_starts ⟨3, 50002⟩) (tftpServer_free _ _)

def twoBlocksReceived : List (Nat × Disk × Wake) :=
  [(0, {}, .scheduled), (0, {}, .scheduled), (0, {}, .sent none),
    (0, {}, .datagram twoHosts.client (dataBytes twoBlocks 1)), (0, {}, .sent none),
    (0, {}, .datagram twoHosts.client (dataBytes twoBlocks 2)), (0, {}, .sent none),
    (0, {}, .timeout), (0, {}, .scheduled)]

def twoBlocksServed : List (Nat × Disk × Wake) :=
  [(1, {}, .scheduled), (1, {}, .scheduled), (1, {}, .sent none),
    (1, {}, .datagram ⟨3, 50002⟩ (ackBytes 1)), (1, {}, .sent none),
    (1, {}, .datagram ⟨3, 50002⟩ (ackBytes 2))]

def uploadDone : Option ServerConfig := uploadRequested.replay tftpServer twoBlocksReceived

def uploadServed : Option ServerConfig :=
  uploadDone.bind fun c => (alsoRead c).replay tftpServer twoBlocksServed

theorem uploadDone_returned : uploadDone.map (·.threads 0) = some (some (.write
    ⟨twoHosts.client, literal "f", .returned none ⟨true, twoBlocks, [], true⟩⟩)) := by
  decide +kernel

theorem uploadServed_ends : uploadServed.map (·.threads 1) = some (some (.read
    ⟨⟨3, 50002⟩, literal "f", .looping ⟨{ block := 3, data := [7] }, 0, 1, ⟨513, true, true, false⟩,
      false, .finished none⟩⟩)) := by
  decide +kernel

/-- What has been uploaded before is served whole. -/
theorem served_file_uploaded : ∃ c, ReflTransGen ServerStep (Config.init fun _ => none) c ∧
    blocksSent (c.logOf 1) = twoBlocks := by
  obtain ⟨c, hc, hread⟩ := Option.map_eq_some_iff.mp uploadServed_ends
  obtain ⟨c₀, hc₀, hc⟩ := Option.bind_eq_some_iff.mp hc
  have hwrite := uploadDone_returned
  rw [hc₀, Option.map_some, Option.some.injEq] at hwrite
  have run₀ := (uploadRequested_reached 0 fun i => i.1.closes = true).trans
    (machine_replay_with (fun _ _ => tftpServer_free _ _) (by decide) hc₀)
  have accepted : c₀.threads 1 = none :=
    @replay_other _ _ _ _ tftpServer twoBlocksReceived uploadRequested _ 1 (by decide) hc₀
  have run := ReflTransGen.head (alsoRead_reached accepted)
    (machine_replay_reaches (fun _ _ => tftpServer_free _ _) hc)
  have reached : ReflTransGen ServerStep (Config.init fun _ => none) c₀ :=
    ReflTransGen.mono (fun _ _ => StepWith.step) _ _ run₀
  refine ⟨c, reached.trans run, ?_⟩
  rcases served_file reached accepted run hread rfl rfl with h | ⟨_, u, stream, _, hone, _, hwhole⟩
  · simp [Directory.status, literal] at h
  · have hkept : c.threads 0 = c₀.threads 0 :=
      @replay_other _ _ _ _ tftpServer twoBlocksServed (alsoRead c₀) _ 0 (by decide) hc
    have hup : uploads c (literal "f") 0 = some ⟨true, twoBlocks, [], true⟩ := by
      simp [uploads, hkept, hwrite, Connection.upload]
    obtain rfl := hone 0 _ hup
    exact ((hwhole _ _ hwrite rfl rfl rfl).2 run₀).trans (List.append_nil _)

/-- An upload that is going on, and a request for its file after its first block. -/
def servedHalfway : List (Nat × Disk × Wake) :=
  (0, {}, .scheduled) :: (0, {}, .scheduled) :: (0, {}, .sent none) ::
    (0, { flushed := 512 }, .datagram twoHosts.client (dataBytes (List.replicate 600 7) 1)) ::
    twoBlocksServed

def halfUploadServed : Option ServerConfig :=
  (alsoRead uploadRequested).replay tftpServer servedHalfway

theorem halfUploadServed_ends :
    halfUploadServed.map (fun c => (c.threads 0, c.threads 1, blocksSent (c.logOf 1))) =
      some (some (.write ⟨twoHosts.client, literal "f",
          .looping ⟨1, ⟨true, List.replicate 512 7, [], true⟩, false, false, .sending⟩⟩),
        some (.read ⟨⟨3, 50002⟩, literal "f", .looping ⟨{ block := 3, data := [] }, 0, 0,
          ⟨512, true, true, false⟩, false, .finished none⟩⟩),
        List.replicate 512 7) := by
  decide +kernel

/-- The first block of a file of 600 bytes is served as the whole file before the second one has
come, though no file was there and no upload has returned. -/
theorem half_upload_is_served :
    ∃ c r s, ReflTransGen ServerStep (Config.init fun _ => none) c ∧
      c.threads 1 = some (.read r) ∧ r.path = literal "f" ∧ r.control = .looping s ∧
      s.control = .finished none ∧ (∀ n l, c.threads n = some l → l.uploaded = false) ∧
      blocksSent (c.logOf 1) = List.replicate 512 7 := by
  obtain ⟨c, hc, hends⟩ := Option.map_eq_some_iff.mp halfUploadServed_ends
  obtain ⟨hwrite, hends⟩ := Prod.mk.inj hends
  obtain ⟨hread, hsent⟩ := Prod.mk.inj hends
  have requested : ServerStep uploadRequested (alsoRead uploadRequested) := alsoRead_reached rfl
  have run := (ReflTransGen.mono (fun _ _ => StepWith.step) _ _
    (uploadRequested_reached 0 fun _ => True)).trans (.head requested
      (machine_replay_reaches (fun _ _ => tftpServer_free _ _) hc))
  refine ⟨c, _, _, run, hread, rfl, rfl, rfl, ?_, hsent⟩
  rintro (_ | _ | n) l hl
  · rw [hwrite] at hl
    cases hl
    rfl
  · rw [hread] at hl
    cases hl
    rfl
  · have hfirst : ∀ e ∈ servedHalfway, e.1 ≤ 1 := by decide
    have hother := @replay_other _ _ _ _ tftpServer servedHalfway (alsoRead uploadRequested) c (n + 2)
      (fun e he => by have := hfirst e he; omega) hc
    rw [hl] at hother
    cases hother

end Protocols
