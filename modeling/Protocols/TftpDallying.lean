import Protocols.TftpOrigin

namespace Protocols

/-- The file system works, and no send fails. -/
def Untroubled (event : Disk × Wake) : Prop :=
  event.1.Works ∧ ∀ error, event.2 ≠ .sent (some error)

section

variable {μ : Type} {mem : ReceiveMemory μ} {peer : Endpoint} {disk : Disk}

def ReceiveLoop.failed (s : ReceiveLoop μ) : Prop := ∃ error, s.control = .finished (some error)

/-- From the first state to the second, a block that ends a file has been accepted and written. -/
def ReceiveLoop.takesLast (s t : ReceiveLoop μ) : Bool :=
  t.currentBlock != s.currentBlock &&
    decide (t.fileStream.contents.length < s.fileStream.contents.length + dataChunkSize)

/-- The loop hears the block it waits for, and it ends a file. -/
def ReceiveLoop.hearsLast (peer : Endpoint) (s : ReceiveLoop μ) (wake : Wake) : Prop :=
  ∃ bytes, wake = .datagram peer bytes ∧ getOpcode (receivePacket bytes) = .data ∧
    (getBlockNumber (receivePacket bytes)).toNat = s.currentBlock.toNat + 1 ∧
    (getData (receivePacket bytes)).length < dataChunkSize

/-- The resumption brings the loop back to its head. -/
def ReceiveLoop.turns (mem : ReceiveMemory μ) (peer : Endpoint) (s : ReceiveLoop μ) : Wake → Prop
  | .datagram sender _ => s.control = .receiving ∧ sender = peer
  | .timeout => s.control = .receiving ∧ mem.complete s.memory = false
  | .sent _ => ∃ stranger, s.control = .rejecting stranger
  | .scheduled | .watchdog => False

/-- The loop comes to its head with the watchdog expired, though the file is complete. -/
def ReceiveLoop.turnsLate (mem : ReceiveMemory μ) (peer : Endpoint) (complete : Bool)
    (s : ReceiveLoop μ) (wake : Wake) : Prop :=
  s.watchdogExpired = true ∧ s.turns mem peer wake ∧ (complete = true ∨ s.hearsLast peer wake)

theorem receiveLoop_turns_running {s : ReceiveLoop μ} {wake : Wake} (ht : s.turns mem peer wake)
    (error : Option ErrorCode) : s.control ≠ .finished error := by
  intro he
  cases wake <;> simp [ReceiveLoop.turns, he] at ht

theorem receiveLoop_head_failed_iff {s : ReceiveLoop μ} (hg : s.fileStream.good = true) :
    s.loopHead.failed ↔ s.watchdogExpired = true := by
  rw [receiveLoop_head_good hg]
  unfold ReceiveLoop.failed
  cases s.watchdogExpired <;> simp

/-- Where files and sends do not fail, the watchdog at the head of the loop is all that does. -/
theorem receiveLoop_failed_iff {s t : ReceiveLoop μ} {wake : Wake} {out : Outgoing}
    (hg : s.fileStream.good = true) (hu : Untroubled (disk, wake))
    (hs : receiveLoopResume mem peer disk s wake = some (t, out)) :
    t.failed ↔ s.watchdogExpired = true ∧ s.turns mem peer wake := by
  cases receiveLoopResume_step hs with
  | expired hne hw =>
    refine iff_of_false ?_ (by simp [hw, ReceiveLoop.turns])
    rintro ⟨error, he⟩
    exact hne _ he
  | sent hc hw => simp [hw, ReceiveLoop.failed, ReceiveLoop.turns, hc]
  | unsent error _ hw => exact absurd hw (hu.2 error)
  | ended _ hw hm => simp [hw, ReceiveLoop.failed, ReceiveLoop.turns, hm]
  | spoiled _ _ _ hbad => simp [hg] at hbad
  | unheard hc hw hm => simp [hw, receiveLoop_head_failed_iff hg, ReceiveLoop.turns, hc, hm]
  | stranger sender bytes _ hw hne => simp [hw, ReceiveLoop.failed, ReceiveLoop.turns, hne]
  | ignored bytes hc hw => simp [hw, receiveLoop_head_failed_iff hg, ReceiveLoop.turns, hc]
  | accepted bytes hc hw =>
    rw [ReceiveLoop.accept, receiveLoop_head_failed_iff (write_good hu.1 hg _)]
    simp [hw, ReceiveLoop.turns, hc]
  | answered stranger hc hw => simp [hw, receiveLoop_head_failed_iff hg, ReceiveLoop.turns, hc]
  | unanswered _ error _ hw => exact absurd hw (hu.2 error)

theorem receiveLoop_resume_good {s t : ReceiveLoop μ} {wake : Wake} {out : Outgoing}
    (hd : disk.Works) (hg : s.fileStream.good = true)
    (hs : receiveLoopResume mem peer disk s wake = some (t, out)) : t.fileStream.good = true := by
  rcases receiveLoop_resume_cases hs with ⟨_, hfs, _⟩ | ⟨_, _, bytes, _, _, _, rfl⟩
  · rw [hfs, hg]
  · rw [receiveLoop_accept_fileStream]
    exact write_good hd hg _

theorem receiveLoop_takesLast_iff {s t : ReceiveLoop μ} {wake : Wake} {out : Outgoing}
    (hg : s.fileStream.good = true) (hs : receiveLoopResume mem peer disk s wake = some (t, out)) :
    s.takesLast t = true ↔ s.control = .receiving ∧ s.hearsLast peer wake := by
  unfold ReceiveLoop.takesLast ReceiveLoop.hearsLast
  rcases receiveLoop_resume_cases hs with ⟨hb, hfs, _⟩ | ⟨_, hc, bytes, rfl, hop, hblock, rfl⟩
  · refine iff_of_false (by simp [hb]) ?_
    -- the loop would have gone on to the next block
    rintro ⟨hc, bytes, rfl, hop, hblock, _⟩
    simp only [receiveLoopResume, hc, ReceiveLoop.received, hop, hblock, ne_eq, not_true, or_self,
      if_false, Option.some.injEq, Prod.mk.injEq] at hs
    rw [← hs.1, receiveLoop_accept_currentBlock] at hb
    exact uint16_succ_ne _ hb
  · simp [hc, hop, hblock, write_contents hg]

/-- A receive loop, and whether it has accepted and written a block that ends the file. -/
structure ReceiveProgress (μ : Type) where
  loop : ReceiveLoop μ
  complete : Bool

def ReceiveProgress.next (mem : ReceiveMemory μ) (peer : Endpoint) (p : ReceiveProgress μ)
    (event : Disk × Wake) : Option (ReceiveProgress μ) :=
  (receiveLoopResume mem peer event.1 p.loop event.2).map fun (t, _) =>
    ⟨t, p.complete || p.loop.takesLast t⟩

/-- The loop has failed with a complete file exactly if its last event has come too late. -/
theorem receiveLoop_lost_iff {s t : ReceiveLoop μ} {wake : Wake} {out : Outgoing}
    (complete : Bool) (hg : s.fileStream.good = true) (hu : Untroubled (disk, wake))
    (hs : receiveLoopResume mem peer disk s wake = some (t, out)) :
    (complete || s.takesLast t) = true ∧ t.failed ↔ s.turnsLate mem peer complete wake := by
  rw [receiveLoop_failed_iff hg hu hs, Bool.or_eq_true, receiveLoop_takesLast_iff hg hs]
  constructor
  · rintro ⟨hl | ⟨_, hl⟩, hw, ht⟩
    · exact ⟨hw, ht, Or.inl hl⟩
    · exact ⟨hw, ht, Or.inr hl⟩
  · rintro ⟨hw, ht, hl | hl⟩
    · exact ⟨Or.inl hl, hw, ht⟩
    · obtain ⟨bytes, rfl, hdata⟩ := hl
      exact ⟨Or.inr ⟨ht.1, bytes, rfl, hdata⟩, hw, ht⟩

theorem receiveLoop_resume_running {s t : ReceiveLoop μ} {wake : Wake} {out : Outgoing}
    (hs : receiveLoopResume mem peer disk s wake = some (t, out)) : ¬ s.failed := by
  rintro ⟨error, he⟩
  simp [receiveLoopResume, he] at hs

/-- No event brings the loop to its head too late. -/
def ReceiveProgress.Timely (mem : ReceiveMemory μ) (peer : Endpoint) (p : ReceiveProgress μ)
    (events : List (Disk × Wake)) : Prop :=
  ¬ MeetsEvent (ReceiveProgress.next mem peer)
    (fun p event => p.loop.turnsLate mem peer p.complete event.2) p events

theorem receiveLoop_kept_iff {p q : ReceiveProgress μ} {events : List (Disk × Wake)}
    (hg : p.loop.fileStream.good = true) (hp : ¬ p.loop.failed)
    (hu : ∀ event ∈ events, Untroubled event)
    (run : events.foldlM (ReceiveProgress.next mem peer) p = some q) :
    (q.complete = true → ¬ q.loop.failed) ↔ p.Timely mem peer events := by
  rw [← not_and]
  refine not_congr (foldlM_history (P := fun before q => q.loop.fileStream.good = true ∧
    (q.complete = true ∧ q.loop.failed ↔ MeetsEvent (ReceiveProgress.next mem peer)
      (fun p event => p.loop.turnsLate mem peer p.complete event.2) p before)) run ⟨hg, ?_⟩ ?_).2
  · refine iff_of_false (fun h => hp h.2) ?_
    rintro ⟨before, _, _, _, he, _⟩
    simp at he
  · rintro before u event v hmem hrun ⟨hgood, hiff⟩ hs
    obtain ⟨⟨t, out⟩, hr, rfl⟩ := Option.map_eq_some_iff.mp hs
    refine ⟨receiveLoop_resume_good (hu event hmem).1 hgood hr, ?_⟩
    have hbefore := hiff.not.mp fun h => receiveLoop_resume_running hr h.2
    rw [meetsEvent_snoc hrun, or_iff_right hbefore]
    exact receiveLoop_lost_iff u.complete hgood (hu event hmem) hr

end

theorem serverReceiveStart_running {stream : OfStream} (hg : stream.good = true) :
    ¬ (serverReceiveStart stream).failed := by
  rw [serverReceiveStart, receiveLoop_head_failed_iff hg]
  simp

theorem clientReceiveStart_running {disk : Disk} {stream : OfStream} {response : List UInt8}
    (hd : disk.Works) (hg : stream.good = true) :
    ¬ (clientReceiveStart disk stream response).failed := by
  rw [clientReceiveStart, receiveLoop_head_failed_iff (write_good hd hg _)]
  simp

/-- `read_client` in its directory, and whether it has accepted and written a block that ends the
file. -/
structure ReadProgress where
  dir : Directory
  client : ReadClient
  complete : Bool

def ReadClient.takesLast (c c' : ReadClient) : Bool :=
  match c.control, c'.control with
  | .opened stream _, .looping t =>
    decide (t.fileStream.contents.length < stream.contents.length + dataChunkSize)
  | .looping s, .looping t => s.takesLast t
  | _, _ => false

def ReadProgress.next (p : ReadProgress) (event : Disk × Wake) : Option ReadProgress :=
  (readClientResume event.1 p.dir p.client event.2).map fun (dir, client, _) =>
    ⟨dir, client, p.complete || p.client.takesLast client⟩

def ReadClient.turnsLate (complete : Bool) (c : ReadClient) (wake : Wake) : Prop :=
  ∃ s, c.control = .looping s ∧ s.turnsLate clientMemory c.server complete wake

/-- The name of a file that can be created or truncated. -/
structure Writable (dir : Directory) (name : List UInt8) : Prop where
  nonempty : name ≠ []
  dots : name ≠ [46] ∧ name ≠ [46, 46]
  file : dir.status name ≠ some .folder

theorem Writable.status_update {dir : Directory} {name : List UInt8} (h : Writable dir name)
    (before : Directory) (e : Option Entry) :
    Directory.status (Function.update before name e) name = e := by
  simp [Directory.status, h.nonempty, h.dots.1, h.dots.2]

/-- What is kept of a file when a run has come to the state. -/
def Kept (dir : Directory) (target : List UInt8) (late : Prop) (p : ReadProgress) : Prop :=
  p.client.target = target ∧
  match p.client.control with
  | .requesting | .responding => p.dir = dir ∧ p.complete = false ∧ ¬ late
  | .threw => p.complete = false
  | .opened stream _ => stream.good = true ∧ stream.isOpen = true ∧ p.complete = false ∧ ¬ late
  | .looping s => s.fileStream.good = true ∧ s.fileStream.isOpen = true ∧
      (p.complete = true ∧ s.failed ↔ late)
  | .returned error stream => p.complete = true →
      (error = none ∧ p.dir.status target = some (.file stream.contents) ↔ ¬ late)

theorem read_next_kept {dir : Directory} {target : List UInt8} {late late' : Prop}
    {p p' : ReadProgress} {event : Disk × Wake} (hw : Writable dir target) (hu : Untroubled event)
    (hlate : late' ↔ late ∨ p.client.turnsLate p.complete event.2)
    (h : Kept dir target late p) (hs : p.next event = some p') : Kept dir target late' p' := by
  obtain ⟨⟨dir', c', out⟩, hr, rfl⟩ := Option.map_eq_some_iff.mp hs
  obtain ⟨rfl, h⟩ := h
  -- outside the loop no event is late
  have hcalm : (∀ s, p.client.control ≠ .looping s) → (late' ↔ late) := by
    intro hc
    rw [hlate, or_iff_left]
    rintro ⟨s, hs, _⟩
    exact hc s hs
  have hfinished : ∀ s error, p.client.control = .looping s → s.control = .finished error →
      (late' ↔ late) := by
    intro s error hc he
    rw [hlate, or_iff_left]
    rintro ⟨t, ht, _, hturns, _⟩
    cases hc.symm.trans ht
    exact receiveLoop_turns_running hturns error he
  cases readClientResume_step hr with
  | requested hc =>
    simp only [hc] at h
    obtain ⟨hdir, hcomplete, hno⟩ := h
    exact ⟨rfl, hdir, by simp [ReadClient.takesLast, hc, hcomplete], by rwa [hcalm (by simp [hc])]⟩
  | unsent error hc =>
    simp only [hc] at h
    exact ⟨rfl, by simp [ReadClient.takesLast, hc, h.2.1]⟩
  | refused error hc =>
    simp only [hc] at h
    exact ⟨rfl, by simp [ReadClient.takesLast, hc, h.2.1]⟩
  | unopened sender response hc =>
    simp only [hc] at h
    exact ⟨rfl, by simp [ReadClient.takesLast, hc, h.2.1]⟩
  | answered sender response hc =>
    simp only [hc] at h
    obtain ⟨hdir, hcomplete, hno⟩ := h
    have hopen : (p.dir.openOut event.1 p.client.target).2 = {} := by
      rw [Directory.openOut, hdir, if_pos ⟨hu.1.opens, hw.nonempty, hw.file⟩]
    exact ⟨rfl, by rw [hopen], by rw [hopen], by simp [ReadClient.takesLast, hc, hcomplete],
      by rwa [hcalm (by simp [hc])]⟩
  | started stream response hc =>
    simp only [hc] at h
    obtain ⟨hgood, hopen, hcomplete, hno⟩ := h
    have hgood' := write_good hu.1 hgood (getData response)
    refine ⟨rfl, ?_, ?_, iff_of_false ?_ (by rwa [hcalm (by simp [hc])])⟩
    · simpa only [clientReceiveStart, receiveLoop_head_fileStream] using hgood'
    · simpa only [clientReceiveStart, receiveLoop_head_fileStream, ofStream_write_isOpen] using hopen
    · exact fun h => clientReceiveStart_running hu.1 hgood h.2
  | failed loop error hc he =>
    simp only [hc] at h
    obtain ⟨_, _, hiff⟩ := h
    refine ⟨rfl, fun hcomplete => iff_of_false (by simp) ?_⟩
    rw [not_not, hfinished loop _ hc he, ← hiff]
    exact ⟨by simpa [ReadClient.takesLast, hc] using hcomplete, error, he⟩
  | succeeded loop hc he =>
    simp only [hc] at h
    obtain ⟨_, hopen, hiff⟩ := h
    refine ⟨rfl, fun _ => iff_of_true ⟨rfl, ?_⟩ ?_⟩
    · simp only [Directory.store, close_isOpen, hopen, if_true]
      have hcloses : event.1.closes = true := hu.1.closes
      rw [hw.status_update]
      simp [OfStream.close, hcloses, OfStream.contents]
    · rw [hfinished loop _ hc he, ← hiff]
      rintro ⟨_, error, herror⟩
      rw [he] at herror
      cases herror
  | looped loop loop' out hc hloop =>
    simp only [hc] at h
    obtain ⟨hgood, hopen, hiff⟩ := h
    refine ⟨rfl, receiveLoop_resume_good hu.1 hgood hloop,
      (receiveLoop_resume_isOpen hloop).trans hopen, ?_⟩
    have hbefore := hiff.not.mp fun h => receiveLoop_resume_running hloop h.2
    rw [hlate, or_iff_right hbefore]
    simpa [ReadClient.turnsLate, ReadClient.takesLast, hc] using
      receiveLoop_lost_iff p.complete hgood hu hloop

def ReadProgress.start (dir : Directory) (server : Endpoint) (target : List UInt8) : ReadProgress :=
  ⟨dir, ⟨server, target, .requesting⟩, false⟩

/-- No event brings the client's loop to its head too late. -/
def ReadProgress.Timely (p : ReadProgress) (events : List (Disk × Wake)) : Prop :=
  ¬ MeetsEvent ReadProgress.next (fun p event => p.client.turnsLate p.complete event.2) p events

theorem read_client_kept_iff {dir : Directory} {server : Endpoint} {target : List UInt8}
    {events : List (Disk × Wake)} {p : ReadProgress} {error : Option ErrorCode} {stream : OfStream}
    (hw : Writable dir target) (hu : ∀ event ∈ events, Untroubled event)
    (run : events.foldlM ReadProgress.next (.start dir server target) = some p)
    (hp : p.client.control = .returned error stream) (hcomplete : p.complete = true) :
    error = none ∧ p.dir.status target = some (.file stream.contents) ↔
      ReadProgress.Timely (.start dir server target) events := by
  have hkept := foldlM_history (P := fun before p => Kept dir target (MeetsEvent ReadProgress.next
    (fun p event => p.client.turnsLate p.complete event.2) (.start dir server target) before) p)
    run ⟨rfl, rfl, rfl, ?_⟩ ?_
  · have h := hkept.2
    simp only [hp] at h
    exact h hcomplete
  · rintro ⟨before, _, _, _, he, _⟩
    simp at he
  · intro before u event v hmem hrun hk hs
    exact read_next_kept hw (hu event hmem) (meetsEvent_snoc hrun event) hk hs

/-- The server's loop at its beginning. -/
def serverProgress (stream : OfStream) : ReceiveProgress Bool := ⟨serverReceiveStart stream, false⟩

/-- The client's loop at its beginning, when it has written the block of the handshake. -/
def clientProgress (disk : Disk) (stream : OfStream) (response : List UInt8) : ReceiveProgress Nat :=
  ⟨clientReceiveStart disk stream response, decide ((getData response).length < dataChunkSize)⟩

/-- Where sends and file operations succeed, a receive loop never fails with a complete file
exactly if no event brings it to its head with the watchdog expired then; and `read_client` reports
success and leaves the file exactly if that has not happened. -/
theorem complete_file_kept_iff (peer : Endpoint) (disk : Disk) (stream : OfStream)
    (response : List UInt8) (dir : Directory) (server : Endpoint) (target : List UInt8)
    (events : List (Disk × Wake)) (hd : disk.Works) (hg : stream.good = true)
    (hw : Writable dir target) (hu : ∀ event ∈ events, Untroubled event) :
    (∀ p, events.foldlM (ReceiveProgress.next serverMemory peer) (serverProgress stream) = some p →
      ((p.complete = true → ¬ p.loop.failed) ↔
        (serverProgress stream).Timely serverMemory peer events)) ∧
    (∀ p, events.foldlM (ReceiveProgress.next clientMemory peer)
        (clientProgress disk stream response) = some p →
      ((p.complete = true → ¬ p.loop.failed) ↔
        (clientProgress disk stream response).Timely clientMemory peer events)) ∧
    ∀ p error left, events.foldlM ReadProgress.next (.start dir server target) = some p →
      p.client.control = .returned error left → p.complete = true →
      (error = none ∧ p.dir.status target = some (.file left.contents) ↔
        ReadProgress.Timely (.start dir server target) events) := by
  refine ⟨fun p run => ?_, fun p run => ?_, fun p error left run hp hc => ?_⟩
  · exact receiveLoop_kept_iff (by simpa [serverProgress, serverReceiveStart] using hg)
      (serverReceiveStart_running hg) hu run
  · exact receiveLoop_kept_iff
      (by simpa [clientProgress, clientReceiveStart] using write_good hd hg _)
      (clientReceiveStart_running hd hg) hu run
  · exact read_client_kept_iff hw hu run hp hc

def untroubled (wakes : List Wake) : List (Disk × Wake) := wakes.map fun wake => ({}, wake)

theorem untroubled_events {wakes : List Wake} (h : ∀ error, .sent (some error) ∉ wakes) :
    ∀ event ∈ untroubled wakes, Untroubled event := by
  intro event he
  obtain ⟨wake, hwake, rfl⟩ := List.mem_map.mp he
  exact ⟨disk_works, fun error hw => h error (hw ▸ hwake)⟩

/-- A file of one byte is received, and its last block comes only once. -/
def receivedOnce : List Wake :=
  [.sent none, .datagram ⟨2, 50001⟩ (dataBytes [7] 1), .scheduled, .sent none, .timeout, .scheduled]

theorem writable_f : Writable noFiles (literal "f") := ⟨by decide, by decide, by decide⟩

theorem complete_file_kept_once :
    ReadProgress.Timely (.start noFiles askedServer (literal "f")) (untroubled receivedOnce) :=
  ((complete_file_kept_iff ⟨2, 50001⟩ {} {} (dataBytes [7] 1) noFiles askedServer (literal "f") _
    disk_works rfl writable_f (untroubled_events (by simp [receivedOnce]))).2.2 _ none _ rfl rfl
    (by decide +kernel)).mp ⟨rfl, by decide +kernel⟩

/-- Whether the events can come at the times given for them, in milliseconds: the timer of a receive
runs for two seconds from its beginning, the watchdog for ten from the last accepted block. -/
def punctual {μ : Type} (mem : ReceiveMemory μ) (peer : Endpoint) (now receiving accepted : Nat) :
    ReceiveLoop μ → List (Nat × Wake) → Bool
  | _, [] => true
  | s, (time, wake) :: schedule =>
    decide (now ≤ time) &&
    (match wake with
      | .timeout => decide (time = receiving + 2000)
      | .datagram _ _ => decide (time ≤ receiving + 2000)
      | .watchdog => decide (time = accepted + 10000)
      | .scheduled | .sent _ => true) &&
    match receiveLoopResume mem peer {} s wake with
    | none => false
    | some (t, _) =>
      punctual mem peer time
        (if t.control = .receiving ∧ s.control ≠ .receiving then time else receiving)
        (if t.currentBlock ≠ s.currentBlock then time else accepted) t schedule

/-- The only block of the file comes again every 1.9 seconds. -/
def repeatedLastBlock : List (Nat × Wake) :=
  let again := Wake.datagram ⟨2, 50001⟩ (dataBytes [7] 1)
  [(0, .sent none), (1900, again), (1900, .sent none), (3800, again), (3800, .sent none),
    (5700, again), (5700, .sent none), (7600, again), (7600, .sent none), (9500, again),
    (9500, .sent none), (10000, .watchdog), (11400, again)]

/-- The client has received the whole file, reports a timeout and removes it. -/
theorem complete_file_lost : ∃ p left,
    punctual clientMemory ⟨2, 50001⟩ 0 0 0 (clientProgress {} {} (dataBytes [7] 1)).loop
      repeatedLastBlock = true ∧
    (answeredRead ⟨2, 50001⟩ ++ untroubled (repeatedLastBlock.map Prod.snd ++ [.scheduled])).foldlM
      ReadProgress.next (.start noFiles askedServer (literal "f")) = some p ∧
    p.complete = true ∧ p.client.control = .returned (some .timedOut) left ∧
    left.contents = [7] ∧ p.dir.status (literal "f") = none :=
  ⟨_, _, by decide +kernel, rfl, by decide +kernel, rfl, by decide +kernel, by decide +kernel⟩

end Protocols
