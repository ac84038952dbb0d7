import Protocols.TftpServer

namespace Protocols

open Relation

/-- The connection has the path open for writing. -/
def Connection.writing (path : List UInt8) : Connection → Bool
  | .read _ => false
  | .write c => decide (c.path = path) && match c.control with
    | .opened stream => stream.isOpen
    | .looping loop => loop.fileStream.isOpen
    | .spawned | .refusing | .returned _ _ => false

theorem writing_upload {path : List UInt8} {l : Connection} (h : l.writing path = true) :
    ∃ s, l.upload path = some s := by
  cases l with
  | read _ => cases h
  | write w =>
    obtain ⟨client, p, control⟩ := w
    simp only [Connection.writing, Bool.and_eq_true, decide_eq_true_eq] at h
    obtain ⟨rfl, h⟩ := h
    cases control with
    | spawned => cases h
    | refusing => cases h
    | returned _ _ => cases h
    | opened stream => exact ⟨stream, by simp [Connection.upload, h]⟩
    | looping loop => exact ⟨loop.fileStream, by simp [Connection.upload, h]⟩

/-- There is something under the path, and it is not what the connection has created. -/
def Foreign (path : List UInt8) (n : Nat) (c : ServerConfig) : Prop :=
  c.store.status path ≠ none ∧ uploads c path n = none

theorem server_step_foreign {before : Directory} {path : List UInt8} {n : Nat} {c d : ServerConfig}
    (inv : UploadInv before path c) (hf : Foreign path n c) (h : ServerStep c d) :
    Foreign path n d := by
  obtain ⟨hthere, hnone⟩ := hf
  cases server_step_upload inv.stored h with
  | keeps hst hup => exact ⟨by rwa [hst], by rw [hup, hnone]⟩
  | creates _ hfree _ _ => exact absurd hfree hthere
  | appends k s s' _ _ _ hs _ _ hst hup =>
    have hk : n ≠ k := by
      rintro rfl
      rw [hnone] at hs
      cases hs
    exact ⟨by simp [hst], by rw [hup, Function.update_of_ne hk, hnone]⟩

theorem server_reaches_foreign {before : Directory} {path : List UInt8} {n : Nat}
    {c₀ c : ServerConfig} (run₀ : ReflTransGen ServerStep (Config.init before) c₀)
    (run : ReflTransGen ServerStep c₀ c) (hf : Foreign path n c₀) : Foreign path n c :=
  (reaches_invariant (P := fun d => UploadInv before path d ∧ Foreign path n d) run
    ⟨server_reaches_inv path run₀, hf⟩
    fun _ _ hd hs => ⟨server_step_inv hd.1 hs, server_step_foreign hd.1 hd.2 hs⟩).2

/-- A resumption of a connection leaves what it has not created. -/
theorem foreign_resume {path : List UInt8} {n : Nat} {c : ServerConfig} {l l' : Connection}
    {i : Disk × Wake} {dir : Directory} {out : Outgoing} (hf : Foreign path n c)
    (hn : c.threads n = some l) (hr : tftpServer.resume c.store l i = some (dir, l', out)) :
    dir.status path = c.store.status path := by
  have hup : l.upload path = none := by simpa [uploads, hn] using hf.2
  rcases connection_resume_upload path (fun s hs => by rw [hup] at hs; cases hs) hr with
    ⟨hst, _⟩ | ⟨_, hfree, _⟩ | ⟨_, s, _, hs, _⟩
  · exact hst
  · exact absurd hfree hf.1
  · rw [hup] at hs
    cases hs

/-- No two connections write to one path, and a connection leaves every file as it is that was
there when the connection was about to start. -/
theorem single_writer {before : Directory} {c₀ c : ServerConfig} {path : List UInt8}
    (run₀ : ReflTransGen ServerStep (Config.init before) c₀) (run : ReflTransGen ServerStep c₀ c) :
    (∀ n k l l', c.threads n = some l → c.threads k = some l' → l.writing path = true →
      l'.writing path = true → n = k) ∧
    ∀ n, (∀ w, c₀.threads n = some (.write w) → w.control = .spawned) →
      c₀.store.status path ≠ none → ∀ w i dir l' out, c.threads n = some (.write w) →
      tftpServer.resume c.store (.write w) i = some (dir, l', out) →
      dir.status path = c.store.status path := by
  have inv := server_reaches_inv path (run₀.trans run)
  constructor
  · intro n k l l' hn hk hl hl'
    obtain ⟨s, hs⟩ := writing_upload hl
    obtain ⟨s', hs'⟩ := writing_upload hl'
    exact inv.single n k s s' (by simpa [uploads, hn] using hs) (by simpa [uploads, hk] using hs')
  · intro n accepted there w i dir l' out hn hr
    have hf : Foreign path n c₀ := by
      refine ⟨there, ?_⟩
      cases h : c₀.threads n with
      | none => simp [uploads, h]
      | some l =>
        cases l with
        | read _ => simp [uploads, h, Connection.upload]
        | write w₀ => simp [uploads, h, Connection.upload, accepted w₀ h]
    exact foreign_resume (server_reaches_foreign run₀ run hf) hn hr

/-- Two requests to write one file, neither of which has been started. -/
def twiceRequested : ServerConfig :=
  ⟨fun _ => none, Function.update (Function.update (fun _ => none) 0
    (some (.write ⟨twoHosts.client, literal "f", .spawned⟩))) 1
    (some (.write ⟨twoHosts.client, literal "f", .spawned⟩)), []⟩

def firstOpened : Option ServerConfig := twiceRequested.replay tftpServer [(0, {}, .scheduled)]

theorem firstOpened_isSome : firstOpened.isSome = true := by decide +kernel

def secondRefused : Option ServerConfig :=
  (firstOpened.get firstOpened_isSome).replay tftpServer [(1, {}, .scheduled)]

theorem secondRefused_isSome : secondRefused.isSome = true := by decide +kernel

theorem firstOpened_reached :
    ReflTransGen ServerStep (Config.init fun _ => none) (firstOpened.get firstOpened_isSome) := by
  have requested : ReflTransGen ServerStep (Config.init fun _ => none) twiceRequested :=
    (ReflTransGen.single (.spawn (n := 0) rfl (write_request_starts twoHosts.client)
      (tftpServer_free _ _))).tail
      (.spawn (n := 1) rfl (write_request_starts twoHosts.client) (tftpServer_free _ _))
  exact requested.trans (machine_replay_reaches (fun _ _ => tftpServer_free _ _)
    (Option.some_get firstOpened_isSome).symm)

theorem single_writer_second : ∃ dir l' out,
    tftpServer.resume (secondRefused.get secondRefused_isSome).store
      (.write ⟨twoHosts.client, literal "f", .refusing⟩) ({}, .sent none) = some (dir, l', out) ∧
    dir.status (literal "f") = some (.file []) := by
  refine ⟨_, _, _, rfl, ?_⟩
  have run := machine_replay_reaches (fun _ _ => tftpServer_free _ _)
    (Option.some_get secondRefused_isSome).symm
  have h := (@single_writer _ _ _ (literal "f") firstOpened_reached run).2 1
    (fun w hw => by cases hw; rfl) (by decide +kernel) _ ({}, .sent none) _ _ _ rfl rfl
  rw [h]
  decide +kernel

end Protocols
