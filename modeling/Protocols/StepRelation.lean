import Mathlib.Data.List.Induction
import Mathlib.Logic.Relation

namespace Protocols

open Relation

variable {σ τ : Type*}

/-- What holds at the start and survives every step holds in every state reached. -/
theorem reaches_invariant {step : σ → σ → Prop} {P : σ → Prop} {a b : σ}
    (h : ReflTransGen step a b) (start : P a) (preserved : ∀ s t, P s → step s t → P t) : P b := by
  induction h with
  | refl => exact start
  | tail _ hs ih => exact preserved _ _ ih hs

theorem foldlM_concat {ι : Type*} {step : σ → ι → Option σ} {events : List ι} {i : ι} {s t u : σ}
    (h : events.foldlM step s = some t) (hi : step t i = some u) :
    (events ++ [i]).foldlM step s = some u := by
  rw [List.foldlM_append]
  exact Option.bind_eq_some_iff.mpr ⟨t, h, Option.bind_eq_some_iff.mpr ⟨u, hi, rfl⟩⟩

/-- What holds of no events at the start, and is carried from each state to the next one together
with the events up to it, holds of the whole sequence. -/
theorem foldlM_history {ι : Type*} {step : σ → ι → Option σ} {P : List ι → σ → Prop}
    {events : List ι} {s t : σ} (h : events.foldlM step s = some t) (start : P [] s)
    (next : ∀ before u i v, i ∈ events → before.foldlM step s = some u → P before u →
      step u i = some v → P (before ++ [i]) v) : P events t := by
  induction events using List.reverseRecOn generalizing t with
  | nil =>
    cases Option.some.inj h
    exact start
  | append_singleton before i ih =>
    rw [List.foldlM_append] at h
    obtain ⟨u, hu, h⟩ := Option.bind_eq_some_iff.mp h
    rw [List.foldlM_cons] at h
    obtain ⟨v, hv, h⟩ := Option.bind_eq_some_iff.mp h
    cases Option.some.inj h
    refine next before u i _ (by simp) hu (ih hu ?_) hv
    intro before' u' i' v' hi'
    exact next before' u' i' v' (List.mem_append_left _ hi')

/-- What holds at the start and survives every event holds after any sequence of events. -/
theorem foldlM_invariant {ι : Type*} {step : σ → ι → Option σ} {P : σ → Prop} {events : List ι}
    {s t : σ} (h : events.foldlM step s = some t) (start : P s)
    (preserved : ∀ s i t, P s → step s i = some t → P t) : P t :=
  foldlM_history (P := fun _ => P) h start fun _ u i v _ _ hu hv => preserved u i v hu hv

/-- Two systems that take the same events, and stay related by each of them, stay related. -/
theorem foldlM_rel {ι : Type*} {step : σ → ι → Option σ} {step' : τ → ι → Option τ}
    {R : σ → τ → Prop} {s : σ} {t : τ} (start : R s t)
    (next : ∀ u v i, R u v → Option.Rel R (step u i) (step' v i)) (events : List ι) :
    Option.Rel R (events.foldlM step s) (events.foldlM step' t) := by
  induction events generalizing s t with
  | nil => exact .some start
  | cons i events ih =>
    rw [List.foldlM_cons, List.foldlM_cons]
    cases hs : step s i with
    | none =>
      have hrel := next s t i start
      rw [hs] at hrel
      cases ht : step' t i with
      | none => exact .none
      | some v => rw [ht] at hrel; cases hrel
    | some u =>
      have hrel := next s t i start
      rw [hs] at hrel
      cases ht : step' t i with
      | none => rw [ht] at hrel; cases hrel
      | some v =>
        rw [ht] at hrel
        cases hrel with
        | some h => exact ih h

/-- One of the events comes in a state in which it has the property. -/
def MeetsEvent {ι : Type*} (step : σ → ι → Option σ) (Q : σ → ι → Prop) (s : σ)
    (events : List ι) : Prop :=
  ∃ before i after t, events = before ++ i :: after ∧ before.foldlM step s = some t ∧ Q t i

theorem meetsEvent_nil {ι : Type*} {step : σ → ι → Option σ} {Q : σ → ι → Prop} {s : σ} :
    ¬ MeetsEvent step Q s [] := by
  rintro ⟨before, i, after, _, he, _⟩
  exact List.append_ne_nil_of_right_ne_nil before (List.cons_ne_nil i after) he.symm

theorem meetsEvent_cons {ι : Type*} {step : σ → ι → Option σ} {Q : σ → ι → Prop} {s : σ} {i : ι}
    {events : List ι} : MeetsEvent step Q s (i :: events) ↔
      Q s i ∨ ∃ t, step s i = some t ∧ MeetsEvent step Q t events := by
  constructor
  · rintro ⟨_ | ⟨j, before⟩, k, after, u, he, hu, hq⟩
    · cases hu
      cases he
      exact Or.inl hq
    · cases he
      obtain ⟨t, ht, hu⟩ := Option.bind_eq_some_iff.mp hu
      exact Or.inr ⟨t, ht, before, k, after, u, rfl, hu, hq⟩
  · rintro (hq | ⟨t, ht, before, k, after, u, rfl, hu, hq⟩)
    · exact ⟨[], i, events, s, rfl, rfl, hq⟩
    · exact ⟨i :: before, k, after, u, rfl, Option.bind_eq_some_iff.mpr ⟨t, ht, hu⟩, hq⟩

theorem meetsEvent_snoc {ι : Type*} {step : σ → ι → Option σ} {Q : σ → ι → Prop} {s t : σ}
    {events : List ι} (h : events.foldlM step s = some t) (i : ι) :
    MeetsEvent step Q s (events ++ [i]) ↔ MeetsEvent step Q s events ∨ Q t i := by
  constructor
  · rintro ⟨before, j, after, u, he, hu, hq⟩
    rcases List.eq_nil_or_concat after with rfl | ⟨after, k, rfl⟩
    · obtain ⟨rfl, hj⟩ := List.append_inj' he rfl
      cases hj
      rw [h] at hu
      cases hu
      exact Or.inr hq
    · rw [List.concat_eq_append, ← List.cons_append, ← List.append_assoc] at he
      obtain ⟨rfl, _⟩ := List.append_inj' he rfl
      exact Or.inl ⟨before, j, after, u, rfl, hu, hq⟩
  · rintro (⟨before, j, after, u, rfl, hu, hq⟩ | hq)
    · exact ⟨before, j, after ++ [i], u, by simp, hu, hq⟩
    · exact ⟨events, i, [], t, rfl, h, hq⟩

/-- Forward simulation: every run of the lower system is followed by one of the upper system. -/
theorem reaches_simulation {lower : σ → σ → Prop} {upper : τ → τ → Prop} {R : σ → τ → Prop}
    {a b : σ} {c : τ} (h : ReflTransGen lower a b) (start : R a c)
    (simulates : ∀ s t u, R s u → lower s t → ∃ v, ReflTransGen upper u v ∧ R t v) :
    ∃ d, ReflTransGen upper c d ∧ R b d := by
  induction h with
  | refl => exact ⟨c, .refl, start⟩
  | tail _ hs ih =>
    obtain ⟨u, hu, hr⟩ := ih
    obtain ⟨v, hv, hr'⟩ := simulates _ _ _ hr hs
    exact ⟨v, hu.trans hv, hr'⟩

/-- Every run from the state is finite, and every run that cannot be continued ends in `P`. -/
inductive EndsIn (step : σ → σ → Prop) (P : σ → Prop) : σ → Prop
  | done {s} : P s → (∀ t, ¬ step s t) → EndsIn step P s
  | next {s} : (∃ t, step s t) → (∀ t, step s t → EndsIn step P t) → EndsIn step P s

theorem EndsIn.mono {step : σ → σ → Prop} {P Q : σ → Prop} {s : σ}
    (h : EndsIn step P s) (hpq : ∀ t, P t → Q t) : EndsIn step Q s := by
  induction h with
  | done hp hstop => exact .done (hpq _ hp) hstop
  | next hs _ ih => exact .next hs ih

/-- Every state of `Q` has a step, and every step from it arrives in `Q'`. -/
def LeadsTo (step : σ → σ → Prop) (Q Q' : σ → Prop) : Prop :=
  ∀ s, Q s → (∃ t, step s t) ∧ ∀ t, step s t → Q' t

/-- Whether the runs end well is decided after a stage that all of them pass. -/
theorem LeadsTo.endsIn_iff {step : σ → σ → Prop} {P Q Q' : σ → Prop} {b : Prop}
    (h : LeadsTo step Q Q') (later : ∀ s, Q' s → (EndsIn step P s ↔ b)) :
    ∀ s, Q s → (EndsIn step P s ↔ b) := by
  intro s hq
  obtain ⟨⟨t, ht⟩, hall⟩ := h s hq
  constructor
  · intro he
    cases he with
    | done _ hstop => exact absurd ht (hstop t)
    | next _ hnext => exact (later t (hall t ht)).mp (hnext t ht)
  · intro hb
    exact .next ⟨t, ht⟩ fun u hu => (later u (hall u hu)).mpr hb

theorem LeadsTo.mono {step : σ → σ → Prop} {Q Q' R R' : σ → Prop} (h : LeadsTo step Q Q')
    (hq : ∀ s, R s → Q s) (hq' : ∀ s, Q' s → R' s) : LeadsTo step R R' :=
  fun s hr => ⟨(h s (hq s hr)).1, fun t ht => hq' t ((h s (hq s hr)).2 t ht)⟩

/-- Runs that never leave a set in which every state has a step do not end. -/
theorem LeadsTo.not_endsIn {step : σ → σ → Prop} {P Q : σ → Prop} (h : LeadsTo step Q Q) {s : σ}
    (hq : Q s) : ¬ EndsIn step P s := by
  intro he
  induction he with
  | done _ hstop =>
    obtain ⟨⟨t, ht⟩, _⟩ := h _ hq
    exact hstop t ht
  | next hs _ ih =>
    obtain ⟨t, ht⟩ := hs
    exact ih t ht ((h _ hq).2 t ht)

end Protocols
