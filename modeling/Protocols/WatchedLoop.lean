import Mathlib.Data.Set.Finite.Lattice
import Mathlib.Order.Interval.Finset.Nat
import Protocols.StepRelation

namespace Protocols

variable {σ ι α : Type*}

/-- Where a loop stands that sends, waits for an answer, and may have to reply before it sends
again. -/
inductive WatchPhase
  | sending
  | waiting
  | replying
  | stopped
  deriving DecidableEq, Repr

/-- What a loop is told: that a send or a wait has ended, a message, or that its watchdog has fired. -/
inductive WatchSignal
  | done
  | timeout
  | message
  | watchdog
  deriving DecidableEq, Repr

structure WatchedLoop (σ ι : Type*) where
  step : σ → ι → Option σ
  signal : ι → WatchSignal
  phase : σ → WatchPhase
  expired : σ → Bool
  progress : σ → Nat

/-- How long a wait lasts, how long the watchdog lets the loop go without progress, and what arrives
for the loop, and when. -/
structure Timing (ι : Type*) where
  wait : Nat
  patience : Nat
  arrivals : Nat → Option (Nat × ι)

/-- Messages arrive, and failures to receive one; only finitely many do in a bounded time. -/
structure Timing.Sparse (timing : Timing ι) (signal : ι → WatchSignal) : Prop where
  heard : ∀ n, ∀ a ∈ timing.arrivals n, signal a.2 = .message ∨ signal a.2 = .timeout
  finite : ∀ limit, {n | ∃ a ∈ timing.arrivals n, a.1 ≤ limit}.Finite

/-- A loop at some time: since when it waits, when its watchdog is to fire, unless it has, and how
many of the arrivals it has read. -/
structure Timed (σ : Type*) where
  state : σ
  now : Nat
  since : Nat
  watchdog : Option Nat
  read : Nat

/-- What wakes a loop, with what it is told: its watchdog, the timer of its wait, the next arrival,
or the end of a send. -/
inductive Waking (ι : Type*)
  | watchdog (i : ι)
  | timer (i : ι)
  | arrival
  | send (i : ι)

namespace WatchedLoop

def start (timing : Timing ι) (s : σ) : Timed σ := ⟨s, 0, 0, some timing.patience, 0⟩

def input (timing : Timing ι) (x : Timed σ) : Waking ι → Option ι
  | .watchdog i | .timer i | .send i => some i
  | .arrival => (timing.arrivals x.read).map Prod.snd

/-- The watchdog fires at its time. The timer is never early, but may be late, and what has arrived
before its time is read instead. Nothing is read before it has arrived. -/
def Due (l : WatchedLoop σ ι) (timing : Timing ι) (x : Timed σ) (time : Nat) : Waking ι → Prop
  | .watchdog i => l.signal i = .watchdog ∧ x.watchdog = some time
  | .timer i => l.signal i = .timeout ∧ x.since + timing.wait ≤ time ∧
      ∀ a ∈ timing.arrivals x.read, x.since + timing.wait ≤ a.1
  | .arrival => ∀ a ∈ timing.arrivals x.read, a.1 ≤ time
  | .send i => l.signal i = .done

instance decidableDue (l : WatchedLoop σ ι) (timing : Timing ι) (x : Timed σ) (time : Nat) :
    DecidablePred (l.Due timing x time)
  | .watchdog _ => inferInstanceAs (Decidable (_ ∧ _))
  | .timer _ => inferInstanceAs (Decidable (_ ∧ _ ∧ _))
  | .arrival => inferInstanceAs (Decidable (∀ a ∈ _, _))
  | .send _ => inferInstanceAs (Decidable (_ = _))

/-- The loop is woken at a time, unless it does not wait for that, or its watchdog has to fire
first. Progress winds the watchdog up again. -/
def next (l : WatchedLoop σ ι) (timing : Timing ι) (x : Timed σ) (event : Nat × Waking ι) :
    Option (Timed σ) :=
  if x.now ≤ event.1 ∧ (∀ d ∈ x.watchdog, event.1 ≤ d) ∧ l.Due timing x event.1 event.2 then
    (input timing x event.2).bind fun i => (l.step x.state i).map fun t =>
      { state := t
        now := event.1
        since := if l.phase t = .waiting ∧ l.phase x.state ≠ .waiting then event.1 else x.since
        watchdog := if l.progress t = l.progress x.state then
            if l.signal i = .watchdog then none else x.watchdog
          else some (event.1 + timing.patience)
        read := match event.2 with
          | .arrival => x.read + 1
          | _ => x.read }
  else none

def Step (l : WatchedLoop σ ι) (timing : Timing ι) (x y : Timed σ) : Prop :=
  ∃ event, l.next timing x event = some y

/-- What is put down at each waking of a run. -/
def collected (l : WatchedLoop σ ι) (timing : Timing ι) (note : σ → ι → σ → List α) :
    Timed σ → List (Nat × Waking ι) → List α
  | _, [] => []
  | x, event :: events =>
    match l.next timing x event, input timing x event.2 with
    | some y, some i => note x.state i y.state ++ collected l timing note y events
    | _, _ => []

/-- All that a waking does. -/
structure Woken (l : WatchedLoop σ ι) (timing : Timing ι) (x : Timed σ) (event : Nat × Waking ι)
    (i : ι) (y : Timed σ) : Prop where
  later : x.now ≤ event.1
  pending : ∀ d, x.watchdog = some d → event.1 ≤ d
  due : l.Due timing x event.1 event.2
  told : input timing x event.2 = some i
  step : l.step x.state i = some y.state
  now : y.now = event.1
  since : y.since =
    if l.phase y.state = .waiting ∧ l.phase x.state ≠ .waiting then event.1 else x.since
  watchdog : y.watchdog = if l.progress y.state = l.progress x.state then
      if l.signal i = .watchdog then none else x.watchdog
    else some (event.1 + timing.patience)
  read : y.read = match event.2 with
    | .arrival => x.read + 1
    | _ => x.read

/-- How a signal may turn the phase. A loop whose watchdog has expired does not send again. -/
def Turn (expired : Bool) (signal : WatchSignal) (p q : WatchPhase) : Prop :=
  match signal with
  | .watchdog => q = p
  | .done => (p = .sending ∧ (q = .waiting ∨ q = .stopped)) ∨
      (p = .replying ∧ (q = .stopped ∨ (q = .sending ∧ expired = false)))
  | .timeout | .message =>
      p = .waiting ∧ (q = .replying ∨ q = .stopped ∨ (q = .sending ∧ expired = false))

/-- A loop whose progress is bounded, which heeds its watchdog, and which can be told what it waits
for. -/
structure Lawful (l : WatchedLoop σ ι) (inv : σ → Prop) (bound : Nat) : Prop where
  keeps : ∀ {s i t}, inv s → l.step s i = some t → inv t
  bounded : ∀ {s}, inv s → l.progress s ≤ bound
  advances : ∀ {s i t}, inv s → l.step s i = some t → l.progress s ≤ l.progress t
  turns : ∀ {s i t}, l.step s i = some t → Turn (l.expired s) (l.signal i) (l.phase s) (l.phase t)
  expires : ∀ {s i t}, l.step s i = some t → l.expired s = true → l.expired t = true
  watchdog : ∀ {s i t}, l.step s i = some t → l.signal i = .watchdog →
    l.expired t = true ∧ l.progress t = l.progress s
  stops : ∀ {s i}, l.phase s = .stopped → l.step s i = none
  hears : ∀ {s i}, l.phase s = .waiting → l.signal i = .message ∨ l.signal i = .timeout →
    ∃ t, l.step s i = some t
  sends : ∀ {s}, l.phase s = .sending ∨ l.phase s = .replying →
    ∃ i t, l.signal i = .done ∧ l.step s i = some t
  fires : ∀ {s}, l.phase s ≠ .stopped → ∃ i t, l.signal i = .watchdog ∧ l.step s i = some t
  times : ∃ i, l.signal i = .timeout

/-- What a loop keeps in time: its watchdog is never overdue, and has fired only if it has expired. -/
structure InTime (l : WatchedLoop σ ι) (inv : σ → Prop) (x : Timed σ) : Prop where
  inv : inv x.state
  pending : ∀ d, x.watchdog = some d → x.now ≤ d
  armed : l.expired x.state = false → x.watchdog ≠ none

/-- How much is left to do once the watchdog has expired. -/
def rank : WatchPhase → Nat
  | .sending => 3
  | .waiting => 2
  | .replying => 1
  | .stopped => 0

/-- How much is left to do before the loop waits again. -/
def toWait : WatchPhase → Nat
  | .waiting => 3
  | .replying => 2
  | .sending => 1
  | .stopped => 0

/-- When the loop can be woken next, but for its watchdog and by what arrives. -/
def wakes (l : WatchedLoop σ ι) (timing : Timing ι) (x : Timed σ) : Nat :=
  if l.phase x.state = .waiting then x.since + timing.wait else x.now

/-- What a loop has left: progress to make and the watchdog of this stage of it, arrivals to read
before the watchdog fires, and the time until then with the turns before the next wait. -/
def left (l : WatchedLoop σ ι) (timing : Timing ι) (bound : Nat) (last : Nat → Nat) (x : Timed σ) :
    Nat × Nat × Nat :=
  match x.watchdog with
  | none => (2 * (bound - l.progress x.state), 0, rank (l.phase x.state))
  | some d => (2 * (bound - l.progress x.state) + 1, last d - x.read,
      4 * (d + timing.wait - l.wakes timing x) + toWait (l.phase x.state))

theorem Turn.heard {expired : Bool} {i : WatchSignal} {p q : WatchPhase} (h : Turn expired i p q)
    (hi : i = .timeout ∨ i = .message) : p = .waiting ∧
      (q = .replying ∨ q = .stopped ∨ (q = .sending ∧ expired = false)) := by
  rcases hi with rfl | rfl <;> exact h

theorem Turn.rank_lt {i : WatchSignal} {p q : WatchPhase} (h : Turn true i p q)
    (hi : i ≠ .watchdog) : rank q < rank p := by
  cases i with
  | watchdog => exact absurd rfl hi
  | done => rcases h with ⟨rfl, rfl | rfl⟩ | ⟨rfl, rfl | ⟨_, hno⟩⟩ <;> simp_all [rank]
  | timeout => obtain ⟨rfl, rfl | rfl | ⟨_, hno⟩⟩ := h <;> simp_all [rank]
  | message => obtain ⟨rfl, rfl | rfl | ⟨_, hno⟩⟩ := h <;> simp_all [rank]

section

variable {l : WatchedLoop σ ι} {timing : Timing ι} {x y z : Timed σ} {event : Nat × Waking ι}
  {i : ι} {inv : σ → Prop} {bound : Nat}

theorem next_woken (h : l.next timing x event = some y) : ∃ i, l.Woken timing x event i y := by
  unfold next at h
  split at h
  next hg =>
    obtain ⟨i, hi, h⟩ := Option.bind_eq_some_iff.mp h
    obtain ⟨t, ht, rfl⟩ := Option.map_eq_some_iff.mp h
    exact ⟨i, hg.1, hg.2.1, hg.2.2, hi, ht, rfl, rfl, rfl, rfl⟩
  next => cases h

theorem next_possible {t : σ} (hnow : x.now ≤ event.1) (hd : ∀ d, x.watchdog = some d → event.1 ≤ d)
    (hdue : l.Due timing x event.1 event.2) (hi : input timing x event.2 = some i)
    (ht : l.step x.state i = some t) : ∃ y, l.next timing x event = some y := by
  unfold next
  rw [if_pos ⟨hnow, hd, hdue⟩, hi, Option.bind_some, ht, Option.map_some]
  exact ⟨_, rfl⟩

/-- Only the watchdog tells that it has fired. -/
theorem Woken.signal (h : l.Woken timing x event i y) (hs : timing.Sparse l.signal) :
    match event.2 with
    | .watchdog _ => l.signal i = .watchdog ∧ x.watchdog = some event.1
    | .timer _ => l.signal i = .timeout ∧ x.since + timing.wait ≤ event.1
    | .arrival => (l.signal i = .message ∨ l.signal i = .timeout) ∧
        ∃ time, timing.arrivals x.read = some (time, i) ∧ time ≤ event.1
    | .send _ => l.signal i = .done := by
  obtain ⟨time, waking⟩ := event
  have hdue := h.due
  have htold := h.told
  cases waking with
  | watchdog j =>
    cases htold
    exact hdue
  | timer j =>
    cases htold
    exact ⟨hdue.1, hdue.2.1⟩
  | arrival =>
    obtain ⟨a, ha, rfl⟩ := Option.map_eq_some_iff.mp htold
    exact ⟨hs.heard _ a ha, a.1, ha, hdue a ha⟩
  | send j =>
    cases htold
    exact hdue

theorem collected_concat {note : σ → ι → σ → List α} {events : List (Nat × Waking ι)}
    (run : events.foldlM (l.next timing) x = some y) (hn : l.next timing y event = some z)
    (h : l.Woken timing y event i z) : l.collected timing note x (events ++ [event]) =
      l.collected timing note x events ++ note y.state i z.state := by
  induction events generalizing x with
  | nil =>
    cases Option.some.inj run
    simp [collected, hn, h.told]
  | cons first events ih =>
    obtain ⟨x', hx, run⟩ := Option.bind_eq_some_iff.mp run
    obtain ⟨j, hj⟩ := next_woken hx
    simp only [List.cons_append, collected, hx, hj.told, ih run, List.append_assoc]

theorem Woken.unexpired (h : l.Woken timing x event i y) (hl : l.Lawful inv bound)
    (he : l.expired y.state = false) : l.expired x.state = false ∧ l.signal i ≠ .watchdog := by
  refine ⟨?_, fun hsig => ?_⟩
  · by_contra hexp
    rw [hl.expires h.step (by simpa using hexp)] at he
    cases he
  · rw [(hl.watchdog h.step hsig).1] at he
    cases he

theorem inTime_start (s : σ) (h : inv s) : l.InTime inv (start timing s) :=
  ⟨h, fun _ _ => Nat.zero_le _, fun _ => Option.some_ne_none _⟩

theorem InTime.woken (hx : l.InTime inv x) (hl : l.Lawful inv bound)
    (h : l.Woken timing x event i y) : l.InTime inv y := by
  refine ⟨hl.keeps hx.inv h.step, fun d hd => ?_, fun he => ?_⟩
  · rw [h.watchdog] at hd
    rw [h.now]
    split at hd
    next =>
      split at hd
      next => cases hd
      next => exact h.pending d hd
    next =>
      cases hd
      exact Nat.le_add_right _ _
  · obtain ⟨hbefore, hsig⟩ := h.unexpired hl he
    rw [h.watchdog, if_neg hsig]
    split
    next => exact hx.armed hbefore
    next => exact Option.some_ne_none _

/-- The end of a wait or of a send brings the loop nearer to its watchdog, or to its next wait. -/
theorem Woken.sooner (h : l.Woken timing x event i y) (hl : l.Lawful inv bound)
    (hwait : 0 < timing.wait) {d : Nat} (hd : event.1 ≤ d)
    (hi : (l.signal i = .timeout ∧ x.since + timing.wait ≤ event.1) ∨ l.signal i = .done) :
    4 * (d + timing.wait - l.wakes timing y) + toWait (l.phase y.state) <
      4 * (d + timing.wait - l.wakes timing x) + toWait (l.phase x.state) := by
  have hlater := h.later
  have hturn := hl.turns h.step
  rcases hi with ⟨hi, hends⟩ | hi
  · obtain ⟨hp, hq⟩ := hturn.heard (Or.inl hi)
    have hleft : l.phase y.state ≠ .waiting ∧ toWait (l.phase y.state) ≤ 2 := by
      rcases hq with hq | hq | ⟨hq, _⟩ <;> simp [hq, toWait]
    have hup : toWait .waiting = 3 := rfl
    rw [wakes, wakes, if_pos hp, if_neg hleft.1, hp, h.now]
    omega
  · rw [hi] at hturn
    rcases hturn with ⟨hp, hq | hq⟩ | ⟨hp, hq | ⟨hq, _⟩⟩
    · have hbegins : y.since = event.1 := by simpa [hp, hq] using h.since
      simp only [wakes, hp, hq, hbegins, toWait, reduceCtorEq, if_false, if_true]
      omega
    · simp only [wakes, hp, hq, h.now, toWait, reduceCtorEq, if_false]
      omega
    · simp only [wakes, hp, hq, h.now, toWait, reduceCtorEq, if_false]
      omega
    · simp only [wakes, hp, hq, h.now, toWait, reduceCtorEq, if_false]
      omega

/-- Whatever wakes the loop, it has less left afterwards. -/
theorem Woken.left_lt (h : l.Woken timing x event i y) (hl : l.Lawful inv bound)
    (hx : l.InTime inv x) (hs : timing.Sparse l.signal) (hwait : 0 < timing.wait)
    {last : Nat → Nat}
    (hlast : ∀ limit n, ∀ a ∈ timing.arrivals n, a.1 ≤ limit → n < last limit) :
    Prod.Lex (· < ·) (Prod.Lex (· < ·) (· < ·)) (l.left timing bound last y)
      (l.left timing bound last x) := by
  have hadv := hl.advances hx.inv h.step
  have hbound := hl.bounded (hl.keeps hx.inv h.step)
  have hturn := hl.turns h.step
  have hwatch := h.watchdog
  unfold left
  by_cases hsame : l.progress y.state = l.progress x.state
  swap
  · -- the watchdog is wound up again, for a later stage
    rw [if_neg hsame] at hwatch
    rw [hwatch]
    cases x.watchdog <;> exact Prod.Lex.left _ _ (by omega)
  rw [if_pos hsame] at hwatch
  have hsignal := h.signal hs
  by_cases hfires : l.signal i = .watchdog
  · rw [if_pos hfires] at hwatch
    obtain ⟨time, waking⟩ := event
    cases waking with
    | watchdog j =>
      rw [hwatch, hsignal.2, hsame]
      exact Prod.Lex.left _ _ (Nat.lt_succ_self _)
    | timer j => simp [hfires] at hsignal
    | arrival => simp [hfires] at hsignal
    | send j => simp [hfires] at hsignal
  rw [if_neg hfires] at hwatch
  rw [hwatch, hsame]
  cases hd : x.watchdog with
  | none =>
    have hexp : l.expired x.state = true := by
      by_contra hexp
      exact hx.armed (by simpa using hexp) hd
    rw [hexp] at hturn
    exact Prod.Lex.right _ (Prod.Lex.right _ (hturn.rank_lt hfires))
  | some d =>
    have hpending := h.pending d hd
    have hsooner := h.sooner hl hwait hpending
    have hread := h.read
    obtain ⟨time, waking⟩ := event
    cases waking with
    | watchdog j => exact absurd hsignal.1 hfires
    | arrival =>
      obtain ⟨_, a, ha, hle⟩ := hsignal
      have hlt := hlast d x.read (a, i) ha (hle.trans hpending)
      rw [show y.read = x.read + 1 from hread]
      exact Prod.Lex.right _ (Prod.Lex.left _ _ (by omega))
    | timer j =>
      rw [show y.read = x.read from hread]
      exact Prod.Lex.right _ (Prod.Lex.right _ (hsooner (Or.inl hsignal)))
    | send j =>
      rw [show y.read = x.read from hread]
      exact Prod.Lex.right _ (Prod.Lex.right _ (hsooner (Or.inr hsignal)))

/-- What can wake the loop does, unless its watchdog fires before. -/
theorem InTime.possible (hx : l.InTime inv x) (hl : l.Lawful inv bound)
    (hp : l.phase x.state ≠ .stopped) {t : σ} (hnow : x.now ≤ event.1)
    (hdue : l.Due timing x event.1 event.2) (hi : input timing x event.2 = some i)
    (ht : l.step x.state i = some t) : ∃ y, l.Step timing x y := by
  by_cases hd : ∀ d, x.watchdog = some d → event.1 ≤ d
  · obtain ⟨y, hy⟩ := next_possible hnow hd hdue hi ht
    exact ⟨y, event, hy⟩
  · obtain ⟨d, hd⟩ := not_forall.mp hd
    obtain ⟨hd, _⟩ := Classical.not_imp.mp hd
    obtain ⟨j, u, hsig, hu⟩ := hl.fires hp
    have hpending : ∀ d', x.watchdog = some d' → d ≤ d' := by
      intro d' hd'
      rw [hd] at hd'
      cases hd'
      exact le_rfl
    obtain ⟨y, hy⟩ := @next_possible _ _ l timing x (d, .watchdog j) j u (hx.pending d hd) hpending
      ⟨hsig, hd⟩ rfl hu
    exact ⟨y, _, hy⟩

/-- A loop that has not stopped can be woken. -/
theorem InTime.goes_on (hx : l.InTime inv x) (hl : l.Lawful inv bound)
    (hs : timing.Sparse l.signal) (hp : l.phase x.state ≠ .stopped) :
    ∃ y, l.Step timing x y := by
  by_cases hwaits : l.phase x.state = .waiting
  · by_cases hheard : ∃ a, timing.arrivals x.read = some a ∧ a.1 < x.since + timing.wait
    · obtain ⟨a, ha, _⟩ := hheard
      obtain ⟨t, ht⟩ := hl.hears hwaits (hs.heard _ a ha)
      have hdue : l.Due timing x (max x.now a.1) .arrival := by
        intro b hb
        rw [Option.mem_def.mp hb, Option.some.injEq] at ha
        rw [ha]
        exact le_max_right _ _
      have hinput : input timing x .arrival = some a.2 := by rw [input, ha, Option.map_some]
      exact @possible _ _ l timing x (_, _) a.2 inv bound hx hl hp t (le_max_left _ _) hdue hinput ht
    · obtain ⟨i, hi⟩ := hl.times
      obtain ⟨t, ht⟩ := hl.hears hwaits (Or.inr hi)
      have hdue : l.Due timing x (max x.now (x.since + timing.wait)) (.timer i) :=
        ⟨hi, le_max_right _ _, fun a ha => Nat.not_lt.mp fun hlt => hheard ⟨a, ha, hlt⟩⟩
      exact @possible _ _ l timing x (_, _) i inv bound hx hl hp t (le_max_left _ _) hdue rfl ht
  · have hsends : l.phase x.state = .sending ∨ l.phase x.state = .replying := by
      cases hph : l.phase x.state with
      | sending => exact Or.inl rfl
      | replying => exact Or.inr rfl
      | waiting => exact absurd hph hwaits
      | stopped => exact absurd hph hp
    obtain ⟨i, t, hi, ht⟩ := hl.sends hsends
    exact @possible _ _ l timing x (_, .send i) i inv bound hx hl hp t le_rfl hi rfl ht

/-- Every run of the loop is finite, and a run that cannot be continued has stopped. -/
theorem InTime.ends (hx : l.InTime inv x) (hl : l.Lawful inv bound)
    (hs : timing.Sparse l.signal) (hwait : 0 < timing.wait) :
    EndsIn (l.Step timing) (fun y => l.phase y.state = .stopped) x := by
  have hlast : ∀ limit, ∃ last, ∀ n, ∀ a ∈ timing.arrivals n, a.1 ≤ limit → n < last := by
    intro limit
    obtain ⟨b, hb⟩ := (hs.finite limit).bddAbove
    exact ⟨b + 1, fun n a ha hle => Nat.lt_succ_of_le (hb ⟨a, ha, hle⟩)⟩
  choose last hlast using hlast
  have wf : WellFounded (InvImage (Prod.Lex (· < ·) (Prod.Lex (· < ·) (· < ·)))
      (l.left timing bound last)) :=
    InvImage.wf _ (WellFounded.prod_lex Nat.lt_wfRel.wf
      (WellFounded.prod_lex Nat.lt_wfRel.wf Nat.lt_wfRel.wf))
  induction x using wf.induction with
  | _ x ih =>
    by_cases hp : l.phase x.state = .stopped
    · refine .done hp ?_
      rintro y ⟨event, hy⟩
      obtain ⟨i, h⟩ := next_woken hy
      have hstep := h.step
      rw [hl.stops hp] at hstep
      cases hstep
    · refine .next (hx.goes_on hl hs hp) ?_
      rintro y ⟨event, hy⟩
      obtain ⟨i, h⟩ := next_woken hy
      exact ih y (h.left_lt hl hx hs hwait hlast) (hx.woken hl h)

end

end WatchedLoop

end Protocols
