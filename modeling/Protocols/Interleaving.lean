import Protocols.StepRelation
import Mathlib.Logic.Function.Basic

namespace Protocols

open Relation

variable {σ L ι ε : Type}

/-- Coroutines over one store and on one thread: how one of them may start, what a resumption of one
with an input does to the store, to the coroutine and to the outside, and which of them keep the
thread while they wait. -/
structure Machine (σ L ι ε : Type) where
  starts : L → Prop
  resume : σ → L → ι → Option (σ × L × List ε)
  holds : L → Bool := fun _ => false

/-- A store, the coroutines spawned so far, and everything they have put out, in order. -/
structure Config (σ L ε : Type) where
  store : σ
  threads : Nat → Option L
  log : List (Nat × ε)

def Config.init (s : σ) : Config σ L ε := ⟨s, fun _ => none, []⟩

/-- What one coroutine has put out. -/
def Config.logOf (c : Config σ L ε) (n : Nat) : List ε :=
  (c.log.filter fun e => decide (e.1 = n)).map Prod.snd

/-- No coroutine but the given one keeps the thread. -/
def Config.Free (m : Machine σ L ι ε) (c : Config σ L ε) (n : Nat) : Prop :=
  ∀ k l, k ≠ n → c.threads k = some l → m.holds l = false

/-- Coroutines are spawned and resumed in any order, as long as none keeps the thread. -/
inductive MachineStep (m : Machine σ L ι ε) : Config σ L ε → Config σ L ε → Prop
  | spawn {c n l} : c.threads n = none → m.starts l → c.Free m n →
      MachineStep m c { c with threads := Function.update c.threads n (some l) }
  | resume {c n l i s l' out} : c.threads n = some l → m.resume c.store l i = some (s, l', out) →
      c.Free m n →
      MachineStep m c ⟨s, Function.update c.threads n (some l'), c.log ++ out.map fun e => (n, e)⟩

/-- The steps in which one of the coroutines gets no other inputs than the given ones. -/
inductive StepWith (m : Machine σ L ι ε) (n : Nat) (allowed : ι → Prop) :
    Config σ L ε → Config σ L ε → Prop
  | spawn {c k l} : c.threads k = none → m.starts l → c.Free m k →
      StepWith m n allowed c { c with threads := Function.update c.threads k (some l) }
  | resume {c k l i s l' out} : (k = n → allowed i) → c.threads k = some l →
      m.resume c.store l i = some (s, l', out) → c.Free m k →
      StepWith m n allowed c
        ⟨s, Function.update c.threads k (some l'), c.log ++ out.map fun e => (k, e)⟩

theorem StepWith.step {m : Machine σ L ι ε} {n : Nat} {allowed : ι → Prop} {c d : Config σ L ε}
    (h : StepWith m n allowed c d) : MachineStep m c d := by
  cases h with
  | spawn hk hl hf => exact .spawn hk hl hf
  | resume _ hk hr hf => exact .resume hk hr hf

theorem free_init {m : Machine σ L ι ε} (s : σ) (n : Nat) : (Config.init s).Free m n := by
  intro k l _ hl
  cases hl

theorem free_of_never {m : Machine σ L ι ε} (h : ∀ l, m.holds l = false) (c : Config σ L ε)
    (n : Nat) : c.Free m n := fun _ l _ _ => h l

/-- The thread stays free where the coroutine that has moved has let it go. -/
theorem free_update {m : Machine σ L ι ε} {c : Config σ L ε} {n k : Nat} {l : L} (s : σ)
    (log : List (Nat × ε)) (h : c.Free m n) (hl : n = k ∨ m.holds l = false) :
    (Config.mk s (Function.update c.threads n (some l)) log).Free m k := by
  intro j l' hjk hj
  by_cases hjn : j = n
  · subst hjn
    simp only [Function.update_self, Option.some.injEq] at hj
    subst hj
    exact hl.resolve_left hjk
  · simp only [Function.update_of_ne hjn] at hj
    exact h j l' hjn hj

/-- The same coroutines, of which none keeps the thread. -/
def Machine.parallel (m : Machine σ L ι ε) : Machine σ L ι ε := { m with holds := fun _ => false }

theorem MachineStep.parallel {m : Machine σ L ι ε} {c d : Config σ L ε} (h : MachineStep m c d) :
    MachineStep m.parallel c d := by
  cases h with
  | spawn hk hl => exact .spawn hk hl (free_of_never (fun _ => rfl) _ _)
  | resume hk hr => exact .resume hk hr (free_of_never (fun _ => rfl) _ _)

@[simp] theorem logOf_append_self (s : σ) (threads : Nat → Option L) (log : List (Nat × ε))
    (n : Nat) (out : List ε) :
    (Config.mk s threads (log ++ out.map fun e => (n, e))).logOf n =
      (Config.mk s threads log).logOf n ++ out := by
  simp [Config.logOf, List.filter_map, Function.comp_def]

theorem logOf_append_ne (s : σ) (threads : Nat → Option L) (log : List (Nat × ε)) {n k : Nat}
    (out : List ε) (h : n ≠ k) :
    (Config.mk s threads (log ++ out.map fun e => (n, e))).logOf k =
      (Config.mk s threads log).logOf k := by
  simp [Config.logOf, List.filter_map, Function.comp_def, h]

theorem machineStep_thread_cases {m : Machine σ L ι ε} {c d : Config σ L ε} {n : Nat} {l : L}
    (h : MachineStep m c d) (hn : d.threads n = some l) :
    (c.threads n = none ∧ m.starts l ∧ d.store = c.store ∧ d.logOf n = c.logOf n) ∨
    (∃ l₀ i out, c.threads n = some l₀ ∧ m.resume c.store l₀ i = some (d.store, l, out) ∧
      d.logOf n = c.logOf n ++ out) ∨
    (c.threads n = some l ∧ d.logOf n = c.logOf n) := by
  cases h with
  | @spawn k l' hk hl _ =>
    by_cases hnk : n = k
    · subst hnk
      simp only [Function.update_self, Option.some.injEq] at hn
      subst hn
      exact Or.inl ⟨hk, hl, rfl, rfl⟩
    · simp only [Function.update_of_ne hnk] at hn
      exact Or.inr (Or.inr ⟨hn, rfl⟩)
  | @resume k l₀ i s l' out hk hr _ =>
    by_cases hnk : n = k
    · subst hnk
      simp only [Function.update_self, Option.some.injEq] at hn
      subst hn
      exact Or.inr (Or.inl ⟨l₀, i, out, hk, hr, logOf_append_self _ _ _ _ _⟩)
    · simp only [Function.update_of_ne hnk] at hn
      exact Or.inr (Or.inr ⟨hn, logOf_append_ne _ _ _ _ (Ne.symm hnk)⟩)

theorem stepWith_running_cases {m : Machine σ L ι ε} {n : Nat} {allowed : ι → Prop}
    {c d : Config σ L ε} {l : L} (h : StepWith m n allowed c d) (hn : c.threads n = some l) :
    (∃ i l' out, allowed i ∧ m.resume c.store l i = some (d.store, l', out) ∧
      d.threads n = some l' ∧ d.logOf n = c.logOf n ++ out) ∨
    (d.threads n = some l ∧ d.logOf n = c.logOf n) := by
  cases h with
  | @spawn k l' hk _ _ =>
    have hnk : n ≠ k := by
      rintro rfl
      simp [hk] at hn
    exact Or.inr ⟨by simpa only [Function.update_of_ne hnk] using hn, rfl⟩
  | @resume k l₀ i s l' out hi hk hr _ =>
    by_cases hnk : n = k
    · subst hnk
      rw [hn] at hk
      cases hk
      exact Or.inl ⟨i, l', out, hi rfl, hr, Function.update_self _ _ _, logOf_append_self _ _ _ _ _⟩
    · exact Or.inr ⟨by simpa only [Function.update_of_ne hnk] using hn,
        logOf_append_ne _ _ _ _ (Ne.symm hnk)⟩

theorem machineStep_with {m : Machine σ L ι ε} {c d : Config σ L ε} (n : Nat)
    (h : MachineStep m c d) : StepWith m n (fun _ => True) c d := by
  cases h with
  | spawn hk hl hf => exact .spawn hk hl hf
  | resume hk hr hf => exact .resume (fun _ => trivial) hk hr hf

theorem machineStep_running_cases {m : Machine σ L ι ε} {c d : Config σ L ε} {n : Nat} {l : L}
    (h : MachineStep m c d) (hn : c.threads n = some l) :
    (∃ i l' out, m.resume c.store l i = some (d.store, l', out) ∧ d.threads n = some l' ∧
      d.logOf n = c.logOf n ++ out) ∨
    (d.threads n = some l ∧ d.logOf n = c.logOf n) := by
  rcases stepWith_running_cases (machineStep_with n h) hn with ⟨i, l', out, _, hr⟩ | hstay
  · exact Or.inl ⟨i, l', out, hr⟩
  · exact Or.inr hstay

theorem machineStep_log_grows {m : Machine σ L ι ε} {c d : Config σ L ε} (n : Nat)
    (h : MachineStep m c d) : c.logOf n <+: d.logOf n := by
  cases h with
  | spawn => exact List.prefix_refl _
  | @resume k l i s l' out _ _ _ =>
    by_cases hk : k = n
    · subst hk
      rw [logOf_append_self]
      exact List.prefix_append _ _
    · rw [logOf_append_ne _ _ _ _ hk]
      exact List.prefix_refl _

/-- What every coroutine that runs keeps true of itself, of its own output and of the store, when
the steps of the others do not spoil it, holds in every configuration reached. -/
theorem machine_threads_invariant {m : Machine σ L ι ε} {I : Config σ L ε → Prop}
    {T : Nat → σ → L → List ε → Prop} {c₀ c : Config σ L ε}
    (inv : ∀ d, ReflTransGen (MachineStep m) c₀ d → I d)
    (fresh : ∀ n, c₀.threads n = none → c₀.logOf n = [])
    (base : ∀ n l, c₀.threads n = some l → T n c₀.store l (c₀.logOf n))
    (start : ∀ n s l, c₀.threads n = none → m.starts l → T n s l [])
    (own : ∀ d n l i s l' out, I d → d.threads n = some l → T n d.store l (d.logOf n) →
      m.resume d.store l i = some (s, l', out) → T n s l' (d.logOf n ++ out))
    (stable : ∀ d e n l, I d → MachineStep m d e → d.threads n = some l →
      T n d.store l (d.logOf n) → T n e.store l (d.logOf n))
    (run : ReflTransGen (MachineStep m) c₀ c) :
    (∀ n, c.threads n = none → c₀.threads n = none ∧ c.logOf n = []) ∧
      ∀ n l, c.threads n = some l → T n c.store l (c.logOf n) := by
  induction run with
  | refl => exact ⟨fun n hn => ⟨hn, fresh n hn⟩, base⟩
  | @tail d e hrun hs ih =>
    obtain ⟨hfresh, ht⟩ := ih
    have hi := inv d hrun
    constructor
    · intro n hn
      cases hs with
      | @spawn k l hk hl _ =>
        by_cases hnk : n = k
        · subst hnk
          simp at hn
        · exact hfresh n (by simpa only [Function.update_of_ne hnk] using hn)
      | @resume k l i s l' out hk hr _ =>
        by_cases hnk : n = k
        · subst hnk
          simp at hn
        · rw [logOf_append_ne _ _ _ _ (Ne.symm hnk)]
          exact hfresh n (by simpa only [Function.update_of_ne hnk] using hn)
    · intro n l hn
      rcases machineStep_thread_cases hs hn with ⟨hnone, hl, _, hlog⟩ | ⟨l₀, i, out, hl, hr, hlog⟩ |
        ⟨hl, hlog⟩
      · obtain ⟨hnone₀, hempty⟩ := hfresh n hnone
        rw [hlog, hempty]
        exact start n _ l hnone₀ hl
      · rw [hlog]
        exact own d n l₀ i _ _ _ hi hl (ht n l₀ hl) hr
      · rw [hlog]
        exact stable d e n l hi hs hl (ht n l hl)

/-- What comes of the resumption of one of the coroutines. -/
def Config.resumed (m : Machine σ L ι ε) (c : Config σ L ε) (n : Nat) (i : ι) :
    Option (Config σ L ε) :=
  (c.threads n).bind fun l => (m.resume c.store l i).map fun (s, l', out) =>
    ⟨s, Function.update c.threads n (some l'), c.log ++ out.map fun e => (n, e)⟩

/-- The given coroutine is the one that is resumed. -/
theorem resumed_cases {m : Machine σ L ι ε} {c d : Config σ L ε} {n : Nat} {i : ι} {l : L}
    (h : c.resumed m n i = some d) (hn : c.threads n = some l) :
    ∃ l' out, m.resume c.store l i = some (d.store, l', out) ∧ d.threads n = some l' ∧
      d.logOf n = c.logOf n ++ out := by
  obtain ⟨l₀, hl, h⟩ := Option.bind_eq_some_iff.mp h
  rw [hn] at hl
  cases hl
  obtain ⟨⟨s, l', out⟩, hr, rfl⟩ := Option.map_eq_some_iff.mp h
  exact ⟨l', out, hr, Function.update_self _ _ _, logOf_append_self _ _ _ _ _⟩

theorem resumed_some {m : Machine σ L ι ε} {c : Config σ L ε} {n : Nat} {i : ι} {l l' : L} {s : σ}
    {out : List ε} (hn : c.threads n = some l) (hr : m.resume c.store l i = some (s, l', out)) :
    ∃ d, c.resumed m n i = some d ∧ d.threads n = some l' ∧ d.store = s ∧
      d.logOf n = c.logOf n ++ out := by
  refine ⟨_, by rw [Config.resumed, hn, Option.bind_some, hr, Option.map_some], ?_, rfl, ?_⟩
  · exact Function.update_self _ _ _
  · exact logOf_append_self _ _ _ _ _

theorem resumed_step {m : Machine σ L ι ε} {c d : Config σ L ε} {n : Nat} {i : ι}
    (h : c.resumed m n i = some d) (hf : c.Free m n) : MachineStep m c d := by
  obtain ⟨l, hl, h⟩ := Option.bind_eq_some_iff.mp h
  obtain ⟨⟨s, l', out⟩, hr, rfl⟩ := Option.map_eq_some_iff.mp h
  exact .resume hl hr hf

theorem resumed_parallel {m : Machine σ L ι ε} {c d : Config σ L ε} {n : Nat} {i : ι}
    (h : c.resumed m n i = some d) : MachineStep m.parallel c d :=
  resumed_step h (free_of_never (fun _ => rfl) _ _)

/-- The coroutine can be followed by the given one. -/
def Config.lets (m : Machine σ L ι ε) (c : Config σ L ε) (n k : Nat) : Bool :=
  decide (n = k) || (c.threads n).all fun l => !m.holds l

theorem resumed_free {m : Machine σ L ι ε} {c d : Config σ L ε} {n k : Nat} {i : ι}
    (h : c.resumed m n i = some d) (hf : c.Free m n) (hk : d.lets m n k = true) : d.Free m k := by
  obtain ⟨l, hl, h⟩ := Option.bind_eq_some_iff.mp h
  obtain ⟨⟨s, l', out⟩, hr, rfl⟩ := Option.map_eq_some_iff.mp h
  refine free_update _ _ hf ?_
  simpa [Config.lets] using hk

/-- The run in which the given coroutines are resumed one after the other. -/
def Config.replay (m : Machine σ L ι ε) : List (Nat × ι) → Config σ L ε → Option (Config σ L ε)
  | [], c => some c
  | (n, i) :: events, c => (c.resumed m n i).bind fun d =>
    if events.head?.all fun e => d.lets m n e.1 then replay m events d else none

theorem replay_cons {m : Machine σ L ι ε} {n : Nat} {i : ι} {events : List (Nat × ι)}
    {c d : Config σ L ε} (h : c.replay m ((n, i) :: events) = some d)
    (hf : c.Free m n) : ∃ c', c.resumed m n i = some c' ∧
      (∀ e ∈ events.head?, c'.Free m e.1) ∧ c'.replay m events = some d := by
  obtain ⟨c', hc, h⟩ := Option.bind_eq_some_iff.mp h
  split at h
  next hlets =>
    refine ⟨c', hc, fun e he => ?_, h⟩
    rw [he] at hlets
    exact resumed_free hc hf hlets
  next => cases h

/-- Whoever the last coroutine lets go on can do so. -/
theorem replay_free {m : Machine σ L ι ε} {events : List (Nat × ι)} {c d : Config σ L ε} {k : Nat}
    (hne : events ≠ []) (hf : ∀ e ∈ events.head?, c.Free m e.1) (h : c.replay m events = some d)
    (hk : ∀ e ∈ events.getLast?, d.lets m e.1 k = true) : d.Free m k := by
  induction events generalizing c with
  | nil => exact absurd rfl hne
  | cons event events ih =>
    obtain ⟨c', hc, hf', h⟩ := replay_cons h (hf _ rfl)
    cases events with
    | nil =>
      cases Option.some.inj h
      exact resumed_free hc (hf _ rfl) (hk _ rfl)
    | cons next events => exact ih (List.cons_ne_nil _ _) hf' h hk

theorem replay_other {m : Machine σ L ι ε} {events : List (Nat × ι)} {c d : Config σ L ε} {k : Nat}
    (hk : ∀ e ∈ events, e.1 ≠ k) (h : c.replay m events = some d) : d.threads k = c.threads k := by
  induction events generalizing c with
  | nil =>
    cases Option.some.inj h
    rfl
  | cons event events ih =>
    obtain ⟨c', hc, h⟩ := Option.bind_eq_some_iff.mp h
    split at h
    next =>
      rw [ih (fun e he => hk e (List.mem_cons_of_mem _ he)) h]
      obtain ⟨l, hl, hc⟩ := Option.bind_eq_some_iff.mp hc
      obtain ⟨⟨s, l', out⟩, hr, rfl⟩ := Option.map_eq_some_iff.mp hc
      exact Function.update_of_ne (hk event List.mem_cons_self).symm _ _
    next => cases h

/-- Where nobody else keeps the thread at first, nobody does later. -/
theorem machine_replay_with {m : Machine σ L ι ε} {events : List (Nat × ι)} {c d : Config σ L ε}
    {n : Nat} {allowed : ι → Prop} (hf : ∀ e ∈ events.head?, c.Free m e.1)
    (ha : ∀ e ∈ events, e.1 = n → allowed e.2) (h : c.replay m events = some d) :
    ReflTransGen (StepWith m n allowed) c d := by
  induction events generalizing c with
  | nil =>
    cases Option.some.inj h
    exact .refl
  | cons event events ih =>
    obtain ⟨c', hc, hf', h⟩ := replay_cons h (hf _ rfl)
    obtain ⟨l, hl, hc⟩ := Option.bind_eq_some_iff.mp hc
    obtain ⟨⟨s, l', out⟩, hr, rfl⟩ := Option.map_eq_some_iff.mp hc
    exact .head (.resume (ha _ List.mem_cons_self) hl hr (hf _ rfl))
      (ih hf' (fun e he => ha e (List.mem_cons_of_mem _ he)) h)

theorem machine_replay_reaches {m : Machine σ L ι ε} {events : List (Nat × ι)} {c d : Config σ L ε}
    (hf : ∀ e ∈ events.head?, c.Free m e.1) (h : c.replay m events = some d) :
    ReflTransGen (MachineStep m) c d :=
  ReflTransGen.mono (fun _ _ => StepWith.step) _ _
    (@machine_replay_with _ _ _ _ m events c d 0 (fun _ => True) hf (fun _ _ _ => trivial) h)

end Protocols
