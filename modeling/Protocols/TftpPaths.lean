import Protocols.StepRelation
import Protocols.TftpConnection
import Mathlib.Data.List.TakeWhile

namespace Protocols

/-- The streams a connection constructs with this resumption: the path handed over, and whether
there was something to open or to create. -/
def Connection.constructs : Connection → Connection → List (List UInt8 × Bool)
  | .read c, .read c' => match c.control, c'.control with
    | .spawned, .opened => [(c.path, true)]
    | _, _ => []
  | .write c, .write c' => match c.control, c'.control with
    | .spawned, .opened stream => [(c.path, stream.isOpen)]
    | _, _ => []
  | _, _ => []

/-- A connection and the streams it has constructed so far. -/
structure PathHistory where
  connection : Connection
  streams : List (List UInt8 × Bool)

/-- The directory may have been changed by others before each resumption. -/
def PathHistory.next (h : PathHistory) (event : Disk × Directory × Wake) : Option PathHistory :=
  (connectionResume event.1 event.2.1 h.connection event.2.2).map fun (_, c, _) =>
    ⟨c, h.streams ++ h.connection.constructs c⟩

/-- The path is a single name and none of the two that stand for directories, and nothing is
opened without a name. -/
structure StaysInside (stream : List UInt8 × Bool) : Prop where
  single : 47 ∉ stream.1
  dots : stream.1 ≠ [46] ∧ stream.1 ≠ [46, 46]
  named : stream.2 = true → stream.1 ≠ []

def PathHistory.StaysInside (h : PathHistory) : Prop :=
  ∀ stream ∈ h.streams, Protocols.StaysInside stream

/-- The request asks to read the working directory or its parent. -/
def AsksForDirectory (request : List UInt8) : Prop :=
  getOpcode request = .rrq ∧ (pathFilename (getFilename request) = [46] ∨
    pathFilename (getFilename request) = [46, 46])

theorem pathFilename_single (path : List UInt8) : 47 ∉ pathFilename path := by
  intro h
  rw [pathFilename, List.mem_reverse] at h
  simpa using List.mem_takeWhile_imp h

/-- What the connection has been spawned for: the path, which is none of the two directories if it
is to be read. -/
def Connection.Asked (path : List UInt8) : Connection → Prop
  | .read c => c.path = path ∧ path ≠ [46] ∧ path ≠ [46, 46]
  | .write c => c.path = path

theorem status_dots (dir : Directory) {path : List UInt8} (h : path = [46] ∨ path = [46, 46]) :
    dir.status path = some .folder := by
  rcases h with rfl | rfl <;> simp [Directory.status]

theorem status_nonempty {dir : Directory} {path : List UInt8} (h : dir.status path ≠ none) :
    path ≠ [] := by
  rintro rfl
  exact h (if_pos rfl)

theorem read_constructs {disk : Disk} {dir : Directory} {path : List UInt8} {c c' : ReadConnection}
    {wake : Wake} {out : Outgoing} (single : 47 ∉ path)
    (asked : Connection.Asked path (.read c))
    (hs : readConnectionResume disk dir c wake = some (c', out)) :
    Connection.Asked path (.read c') ∧
      ∀ stream ∈ Connection.constructs (.read c) (.read c'), StaysInside stream := by
  obtain ⟨rfl, hdots⟩ := asked
  cases readConnectionResume_step hs with
  | found hc _ hsome =>
    refine ⟨⟨rfl, hdots⟩, fun stream hstream => ?_⟩
    simp only [Connection.constructs, hc, List.mem_singleton] at hstream
    subst hstream
    exact ⟨single, hdots, fun _ => status_nonempty hsome⟩
  | missing => exact ⟨⟨rfl, hdots⟩, by simp [Connection.constructs]⟩
  | refused => exact ⟨⟨rfl, hdots⟩, by simp [Connection.constructs]⟩
  | unsent => exact ⟨⟨rfl, hdots⟩, by simp [Connection.constructs]⟩
  | started hc => exact ⟨⟨rfl, hdots⟩, by simp [Connection.constructs]⟩
  | returned => exact ⟨⟨rfl, hdots⟩, by simp [Connection.constructs]⟩
  | looped => exact ⟨⟨rfl, hdots⟩, by simp [Connection.constructs]⟩

/-- A file is created only where the directory has nothing of that name, so neither of the dots
is, and no name creates nothing. -/
theorem write_constructs {disk : Disk} {dir dir' : Directory} {path : List UInt8}
    {c c' : WriteConnection} {wake : Wake} {out : Outgoing} (single : 47 ∉ path)
    (asked : Connection.Asked path (.write c))
    (hs : writeConnectionResume disk dir c wake = some (dir', c', out)) :
    Connection.Asked path (.write c') ∧
      ∀ stream ∈ Connection.constructs (.write c) (.write c'), StaysInside stream := by
  cases asked
  cases writeConnectionResume_step hs with
  | created hc _ hnone =>
    refine ⟨rfl, fun stream hstream => ?_⟩
    simp only [Connection.constructs, hc, List.mem_singleton] at hstream
    subst hstream
    refine ⟨single, ⟨fun hd => ?_, fun hd => ?_⟩, fun ho => ?_⟩
    · simp [status_dots _ (Or.inl hd)] at hnone
    · simp [status_dots _ (Or.inr hd)] at hnone
    · simp only [Directory.openOut] at ho
      split at ho
      next hopens => exact hopens.2.1
      next => cases ho
  | present => exact ⟨rfl, by simp [Connection.constructs]⟩
  | refused => exact ⟨rfl, by simp [Connection.constructs]⟩
  | unsent => exact ⟨rfl, by simp [Connection.constructs]⟩
  | started => exact ⟨rfl, by simp [Connection.constructs]⟩
  | returned => exact ⟨rfl, by simp [Connection.constructs]⟩
  | looped => exact ⟨rfl, by simp [Connection.constructs]⟩

theorem path_next_inside {path : List UInt8} {h h' : PathHistory} {event : Disk × Directory × Wake}
    (single : 47 ∉ path) (inside : h.connection.Asked path ∧ h.StaysInside)
    (hs : h.next event = some h') : h'.connection.Asked path ∧ h'.StaysInside := by
  obtain ⟨⟨dir', c', out⟩, hr, rfl⟩ := Option.map_eq_some_iff.mp hs
  obtain ⟨hasked, hinside⟩ := inside
  have step : c'.Asked path ∧ ∀ stream ∈ h.connection.constructs c', Protocols.StaysInside stream := by
    unfold connectionResume at hr
    split at hr
    next c hc =>
      obtain ⟨⟨r, _⟩, hr, he⟩ := Option.map_eq_some_iff.mp hr
      cases he
      rw [hc] at hasked ⊢
      exact read_constructs single hasked hr
    next c hc =>
      obtain ⟨⟨_, w, _⟩, hr, he⟩ := Option.map_eq_some_iff.mp hr
      cases he
      rw [hc] at hasked ⊢
      exact write_constructs single hasked hr
  exact ⟨step.1, fun stream hm => (List.mem_append.mp hm).elim (hinside stream) (step.2 stream)⟩

/-- A request to read a directory makes the connection open it. -/
theorem directory_tried (client : Endpoint) {request : List UInt8}
    (h : AsksForDirectory request) : ∃ c t, spawnConnection client request = some c ∧
      PathHistory.next ⟨c, []⟩ ({}, fun _ => none, .scheduled) = some t ∧
      t.streams = [(pathFilename (getFilename request), true)] := by
  obtain ⟨hop, hdots⟩ := h
  refine ⟨.read ⟨client, pathFilename (getFilename request), .spawned⟩,
    ⟨.read ⟨client, pathFilename (getFilename request), .opened⟩, _⟩, by simp [spawnConnection, hop],
    ?_, rfl⟩
  simp [PathHistory.next, connectionResume, readConnectionResume, status_dots _ hdots,
    Connection.constructs]

/-- A request makes the server open nothing but names in its working directory, exactly if it does
not ask for a directory to read. -/
theorem requests_stay_inside_iff (client : Endpoint) (request : List UInt8) :
    (∀ c events h, spawnConnection client request = some c →
      List.foldlM PathHistory.next ⟨c, []⟩ events = some h → h.StaysInside) ↔
    ¬ AsksForDirectory request := by
  constructor
  · intro h hasks
    obtain ⟨c, t, hc, hs, hstreams⟩ := directory_tried client hasks
    have run : List.foldlM PathHistory.next ⟨c, []⟩ [({}, fun _ => none, .scheduled)] = some t := by
      rw [List.foldlM_cons, hs]
      rfl
    have inside := h c _ t hc run _ (hstreams ▸ List.mem_singleton_self _)
    exact hasks.2.elim inside.dots.1 inside.dots.2
  · intro hasks c events h hc run
    refine (foldlM_invariant (P := fun h => h.connection.Asked (pathFilename (getFilename request)) ∧
      h.StaysInside) run ⟨?_, by simp [PathHistory.StaysInside]⟩
      fun _ _ _ => path_next_inside (pathFilename_single _)).2
    unfold spawnConnection at hc
    dsimp only at hc
    split at hc
    next hop =>
      cases hc
      exact ⟨rfl, fun hd => hasks ⟨hop, Or.inl hd⟩, fun hd => hasks ⟨hop, Or.inr hd⟩⟩
    next => cases hc; exact rfl
    next => cases hc

/-- The server opens the parent of its working directory. -/
theorem parent_opened : ∃ c h,
    spawnConnection ⟨1, 5000⟩ (RrqPacket.toBuffer { filename := literal "a/.." }) = some c ∧
    PathHistory.next ⟨c, []⟩ ({}, fun _ => none, .scheduled) = some h ∧
    h.streams = [(literal "..", true)] ∧ ¬ h.StaysInside := by
  refine ⟨_, _, rfl, rfl, by decide, fun h => ?_⟩
  exact (h (literal "..", true) (by decide)).dots.2 rfl

end Protocols
