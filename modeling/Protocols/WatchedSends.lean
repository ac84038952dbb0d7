import Protocols.WatchedLoop

namespace Protocols

variable {σ ι : Type*}

namespace WatchedLoop

variable (l : WatchedLoop σ ι) (timing : Timing ι)

/-- How often the loop has ended a send. -/
def sends (x : Timed σ) (events : List (Nat × Waking ι)) : Nat :=
  (l.collected timing
    (fun s i _ => if l.signal i = .done ∧ l.phase s = .sending then [i] else []) x events).length

/-- What the loop has still to send before it waits again. -/
def owed (s : σ) : Nat :=
  if l.phase s = .sending ∨ (l.phase s = .replying ∧ l.expired s = false) then 1 else 0

/-- After `k` waits without an answer, what the loop has sent and owes is paid for by what it has
read, by its progress and by these waits, which have taken their time. -/
structure Paid (s : σ) (events : List (Nat × Waking ι)) (y : Timed σ) (k : Nat) : Prop where
  few : k ≤ timing.patience / timing.wait
  sent : l.sends timing (start timing s) events + l.owed y.state +
      timing.patience / timing.wait * l.progress s ≤
    1 + y.read + timing.patience / timing.wait * l.progress y.state + k
  passed : ∀ d, y.watchdog = some d → d + k * timing.wait ≤ y.now + timing.patience
  waited : ∀ d, y.watchdog = some d → l.phase y.state = .waiting →
    d + k * timing.wait ≤ y.since + timing.patience

variable {l timing} {inv : σ → Prop} {bound k : Nat} {s : σ} {x y z : Timed σ}
  {events : List (Nat × Waking ι)} {event : Nat × Waking ι} {i : ι}

theorem owed_le (s : σ) : l.owed s ≤ 1 := by
  unfold owed
  split
  · exact Nat.le_refl _
  · exact Nat.zero_le _

theorem owed_waiting {s : σ} (h : l.phase s = .waiting) : l.owed s = 0 := by
  simp [owed, h]

theorem sends_concat (run : events.foldlM (l.next timing) x = some y)
    (hn : l.next timing y event = some z) (h : l.Woken timing y event i z) :
    l.sends timing x (events ++ [event]) = l.sends timing x events +
      if l.signal i = .done ∧ l.phase y.state = .sending then 1 else 0 := by
  rw [sends, collected_concat run hn h, List.length_append, sends]
  split <;> rfl

theorem owed_watchdog {s t : σ} {i : ι} (hl : l.Lawful inv bound) (h : l.step s i = some t)
    (hsig : l.signal i = .watchdog) : l.owed t ≤ l.owed s := by
  have hturn := hl.turns h
  rw [hsig] at hturn
  have hphase : l.phase t = l.phase s := hturn
  have hexp := (hl.watchdog h hsig).1
  by_cases hs : l.phase s = .sending
  · simp [owed, hs, hphase]
  · simp [owed, hs, hphase, hexp]

/-- What is owed has been sent, or is sent next. -/
theorem owed_done {s t : σ} (h : Turn (l.expired s) .done (l.phase s) (l.phase t)) :
    (if l.phase s = .sending then 1 else 0) + l.owed t ≤ l.owed s := by
  rcases h with ⟨hs, ht | ht⟩ | ⟨hs, ht | ⟨ht, he⟩⟩
  · simp [owed, hs, ht]
  · simp [owed, hs, ht]
  · simp [owed, hs, ht]
  · simp [owed, hs, ht, he]

theorem paid_start (hp : l.phase s ≠ .waiting) : l.Paid timing s [] (start timing s) 0 where
  few := Nat.zero_le _
  sent := by
    have howed := owed_le (l := l) s
    simp only [sends, collected, List.length_nil, start]
    omega
  passed d hd := by
    cases Option.some.inj hd
    simp only [start]
    omega
  waited _ _ hw := absurd hw hp

/-- A waking that ends no wait keeps what is paid, and progress pays for more. -/
theorem Paid.keep (h : l.Paid timing s events y k) (hl : l.Lawful inv bound) (hy : inv y.state)
    (hw : l.Woken timing y event i z)
    (hpays : l.sends timing (start timing s) (events ++ [event]) + l.owed z.state + y.read ≤
      l.sends timing (start timing s) events + l.owed y.state + z.read) :
    ∃ k', l.Paid timing s (events ++ [event]) z k' := by
  have hlater := hw.later
  have hnow := hw.now
  have hwatch := hw.watchdog
  have hsince := hw.since
  have hsent := h.sent
  have hfew := h.few
  by_cases hsame : l.progress z.state = l.progress y.state
  · have hbefore (d : Nat) (hd : z.watchdog = some d) : y.watchdog = some d := by
      rw [hwatch, if_pos hsame] at hd
      split at hd
      next => cases hd
      next => exact hd
    refine ⟨k, hfew, by rw [hsame]; omega, fun d hd => ?_, fun d hd hp => ?_⟩
    · have hpassed := h.passed d (hbefore d hd)
      omega
    · by_cases hq : l.phase y.state = .waiting
      · have hwaited := h.waited d (hbefore d hd) hq
        rw [hsince, if_neg fun hno => hno.2 hq]
        exact hwaited
      · have hpassed := h.passed d (hbefore d hd)
        rw [hsince, if_pos ⟨hp, hq⟩]
        omega
  · have hmore : l.progress y.state + 1 ≤ l.progress z.state := by
      have := hl.advances hy hw.step
      omega
    have hpaid := Nat.mul_le_mul_left (timing.patience / timing.wait) hmore
    rw [Nat.mul_add, Nat.mul_one] at hpaid
    rw [if_neg hsame] at hwatch
    refine ⟨0, Nat.zero_le _, by omega, fun d hd => ?_, fun d hd hp => ?_⟩
    · obtain rfl := Option.some.inj (hwatch.symm.trans hd)
      omega
    · -- a loop that makes progress is not in the wait that it was in
      have hq : l.phase y.state ≠ .waiting := by
        intro hq
        have hturn := hl.turns hw.step
        rw [hp, hq] at hturn
        cases hs : l.signal i with
        | done => simp [hs, Turn] at hturn
        | timeout => simp [hs, Turn] at hturn
        | message => simp [hs, Turn] at hturn
        | watchdog => exact hsame (hl.watchdog hw.step hs).2
      obtain rfl := Option.some.inj (hwatch.symm.trans hd)
      rw [hsince, if_pos ⟨hp, hq⟩]
      omega

/-- A wait that ends has taken its time, and there are only so many of them before the watchdog. -/
theorem Paid.timeout (h : l.Paid timing s events y k) (hl : l.Lawful inv bound)
    (hy : l.InTime inv y) (hw : l.Woken timing y event i z) (hwait : 0 < timing.wait)
    (hsig : l.signal i = .timeout) (hends : y.since + timing.wait ≤ event.1)
    (hread : z.read = y.read) (hsame : l.progress z.state = l.progress y.state)
    (hsends : l.sends timing (start timing s) (events ++ [event]) =
      l.sends timing (start timing s) events) :
    ∃ k', l.Paid timing s (events ++ [event]) z k' := by
  obtain ⟨hp, hturn⟩ := (hl.turns hw.step).heard (.inl hsig)
  have howed := owed_waiting hp
  have hsent := h.sent
  have hnow := hw.now
  have hwatch : z.watchdog = y.watchdog := by rw [hw.watchdog, if_pos hsame, if_neg (by simp [hsig])]
  have hleft : l.phase z.state ≠ .waiting := by
    rcases hturn with hq | hq | ⟨hq, _⟩ <;> simp [hq]
  cases hd : y.watchdog with
  | none =>
    have he : l.expired y.state = true := by
      by_contra he
      exact hy.armed (by simpa using he) hd
    have he' := hl.expires hw.step he
    have howed' : l.owed z.state = 0 := by
      rcases hturn with hq | hq | ⟨_, hno⟩
      · simp [owed, hq, he']
      · simp [owed, hq]
      · rw [he] at hno
        cases hno
    refine ⟨k, h.few, by rw [hsends, howed', hread, hsame]; omega, fun d hz => ?_, fun d hz => ?_⟩
    · rw [hwatch, hd] at hz
      cases hz
    · rw [hwatch, hd] at hz
      cases hz
  | some d =>
    have hwaited := h.waited d hd hp
    have hpending := hw.pending d hd
    have hmul : (k + 1) * timing.wait = k * timing.wait + timing.wait := Nat.succ_mul k timing.wait
    have howed' := owed_le (l := l) z.state
    refine ⟨k + 1, ?_, by rw [hsends, hread, hsame]; omega, fun d' hz => ?_, fun _ _ hq =>
      absurd hq hleft⟩
    · rw [Nat.le_div_iff_mul_le hwait]
      omega
    · rw [hwatch, hd] at hz
      cases hz
      omega

theorem Paid.next (h : l.Paid timing s events y k) (hl : l.Lawful inv bound) (hy : l.InTime inv y)
    (hs : timing.Sparse l.signal) (hwait : 0 < timing.wait)
    (hstill : ∀ {s i t}, l.step s i = some t → l.signal i ≠ .message → l.progress t = l.progress s)
    (run : events.foldlM (l.next timing) (start timing s) = some y)
    (hz : l.next timing y event = some z) : ∃ k', l.Paid timing s (events ++ [event]) z k' := by
  obtain ⟨i, hw⟩ := next_woken hz
  have hsends := sends_concat run hz hw
  have hsignal := hw.signal hs
  have hread := hw.read
  have hturn := hl.turns hw.step
  obtain ⟨time, waking⟩ := event
  cases waking with
  | watchdog j =>
    have howed := owed_watchdog hl hw.step hsignal.1
    rw [if_neg fun hd => by simp [hsignal.1] at hd] at hsends
    refine h.keep hl hy.inv hw ?_
    rw [hsends, show z.read = y.read from hread]
    omega
  | timer j =>
    rw [if_neg fun hd => by simp [hsignal.1] at hd] at hsends
    exact h.timeout hl hy hw hwait hsignal.1 hsignal.2 hread
      (hstill hw.step (by simp [hsignal.1])) hsends
  | arrival =>
    have howed := owed_waiting (hturn.heard hsignal.1.symm).1
    have howed' := owed_le (l := l) z.state
    rw [if_neg fun hd => by rcases hsignal.1 with hm | hm <;> simp [hm] at hd] at hsends
    refine h.keep hl hy.inv hw ?_
    rw [hsends, show z.read = y.read + 1 from hread]
    omega
  | send j =>
    have hsig : l.signal i = .done := hsignal
    rw [hsig] at hturn
    have hdone := owed_done hturn
    refine h.keep hl hy.inv hw ?_
    rw [hsends, show z.read = y.read from hread]
    simp only [hsig, true_and]
    omega

theorem Lawful.inTime (hl : l.Lawful inv bound) (hs : inv s)
    (run : events.foldlM (l.next timing) (start timing s) = some y) : l.InTime inv y :=
  foldlM_invariant run (inTime_start s hs) fun _ _ _ hx hz => by
    obtain ⟨i, hw⟩ := next_woken hz
    exact hx.woken hl hw

theorem Lawful.progress_le (hl : l.Lawful inv bound) (hs : inv s)
    (run : events.foldlM (l.next timing) (start timing s) = some y) :
    l.progress s ≤ l.progress y.state := by
  refine foldlM_history run (P := fun _ y => l.progress s ≤ l.progress y.state) le_rfl ?_
  intro before u event v _ hrun ih hv
  obtain ⟨i, hw⟩ := next_woken hv
  exact ih.trans (hl.advances (hl.inTime hs hrun).inv hw.step)

theorem Lawful.paid (hl : l.Lawful inv bound) (hs : inv s) (hp : l.phase s ≠ .waiting)
    (ht : timing.Sparse l.signal) (hwait : 0 < timing.wait)
    (hstill : ∀ {s i t}, l.step s i = some t → l.signal i ≠ .message → l.progress t = l.progress s)
    (run : events.foldlM (l.next timing) (start timing s) = some y) :
    ∃ k, l.Paid timing s events y k := by
  refine foldlM_history run (P := fun events y => ∃ k, l.Paid timing s events y k)
    ⟨0, paid_start hp⟩ ?_
  rintro before u event v _ hrun ⟨k, ih⟩ hv
  exact ih.next hl (hl.inTime hs hrun) ht hwait hstill hrun hv

/-- A loop sends no more often than it reads something, and a bounded number of times for each step
of its progress. -/
theorem Lawful.sends_le (hl : l.Lawful inv bound) (hs : inv s) (hp : l.phase s ≠ .waiting)
    (ht : timing.Sparse l.signal) (hwait : 0 < timing.wait)
    (hstill : ∀ {s i t}, l.step s i = some t → l.signal i ≠ .message → l.progress t = l.progress s)
    (run : events.foldlM (l.next timing) (start timing s) = some y) :
    l.sends timing (start timing s) events + timing.patience / timing.wait * l.progress s ≤
      1 + y.read + timing.patience / timing.wait * (l.progress y.state + 1) := by
  obtain ⟨k, h⟩ := hl.paid hs hp ht hwait hstill run
  have hsent := h.sent
  have hfew := h.few
  rw [Nat.mul_add, Nat.mul_one]
  omega

end WatchedLoop

end Protocols
