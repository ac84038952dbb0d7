import Protocols.Interleaving
import Mathlib.Data.List.Forall2

namespace Protocols

open Relation

variable {σ L ι ε : Type}

/-- A coroutine is spawned, or one is resumed with an input. -/
inductive Happening (L ι : Type)
  | spawn (n : Nat) (l : L)
  | resume (n : Nat) (i : ι)

/-- The steps by what happens in them. -/
inductive Happens (m : Machine σ L ι ε) : Happening L ι → Config σ L ε → Config σ L ε → Prop
  | spawn {c n l} : c.threads n = none → m.starts l → c.Free m n →
      Happens m (.spawn n l) c { c with threads := Function.update c.threads n (some l) }
  | resume {c n l i s l' out} : c.threads n = some l → m.resume c.store l i = some (s, l', out) →
      c.Free m n → Happens m (.resume n i) c
        ⟨s, Function.update c.threads n (some l'), c.log ++ out.map fun e => (n, e)⟩

inductive History (m : Machine σ L ι ε) : List (Happening L ι) → Config σ L ε → Config σ L ε → Prop
  | nil {c} : History m [] c c
  | cons {e events c c' d} : Happens m e c c' → History m events c' d → History m (e :: events) c d

theorem machineStep_iff_happens {m : Machine σ L ι ε} {c d : Config σ L ε} :
    MachineStep m c d ↔ ∃ e, Happens m e c d := by
  constructor
  · rintro (⟨hn, hl, hf⟩ | ⟨hn, hr, hf⟩)
    · exact ⟨_, .spawn hn hl hf⟩
    · exact ⟨_, .resume hn hr hf⟩
  · rintro ⟨_, ⟨hn, hl, hf⟩ | ⟨hn, hr, hf⟩⟩
    · exact .spawn hn hl hf
    · exact .resume hn hr hf

/-- The runs are the histories. -/
theorem machine_reaches_iff_history {m : Machine σ L ι ε} {c d : Config σ L ε} :
    ReflTransGen (MachineStep m) c d ↔ ∃ events, History m events c d := by
  constructor
  · intro h
    induction h using ReflTransGen.head_induction_on with
    | refl => exact ⟨[], .nil⟩
    | head hs _ ih =>
      obtain ⟨e, he⟩ := machineStep_iff_happens.mp hs
      obtain ⟨events, hevents⟩ := ih
      exact ⟨e :: events, .cons he hevents⟩
  · rintro ⟨events, h⟩
    induction h with
    | nil => exact .refl
    | cons he _ ih => exact .head (machineStep_iff_happens.mpr ⟨_, he⟩) ih

theorem replay_history {m : Machine σ L ι ε} {events : List (Nat × ι)} {c d : Config σ L ε}
    (hf : ∀ e ∈ events.head?, c.Free m e.1) (h : c.replay m events = some d) :
    History m (events.map fun e => .resume e.1 e.2) c d := by
  induction events generalizing c with
  | nil =>
    cases Option.some.inj h
    exact .nil
  | cons e events ih =>
    obtain ⟨c', hc, hf', h⟩ := replay_cons h (hf _ rfl)
    obtain ⟨l, hl, hc⟩ := Option.bind_eq_some_iff.mp hc
    obtain ⟨⟨s, l', out⟩, hr, rfl⟩ := Option.map_eq_some_iff.mp hc
    exact .cons (.resume hl hr (hf _ rfl)) (ih hf' h)

/-- What an observer takes for the same: stores, coroutines, inputs of a coroutine, and outputs. -/
structure Blur (σ L ι ε : Type) where
  store : σ → σ → Prop
  thread : L → L → Prop
  input : L → ι → ι → Prop
  output : ε → ε → Prop

namespace Blur

variable {b : Blur σ L ι ε} {m : Machine σ L ι ε} {c d c' : Config σ L ε}

/-- A resumption does not tell apart what the observer takes for the same. -/
structure Unwinds (b : Blur σ L ι ε) (m : Machine σ L ι ε) : Prop where
  spawns : ∀ l, m.starts l → b.thread l l
  holds : ∀ l l', b.thread l l' → m.holds l' = m.holds l
  resumes : ∀ s s' l l' i i' t k out, b.store s s' → b.thread l l' → b.input l i i' →
    m.resume s l i = some (t, k, out) → ∃ t' k' out', m.resume s' l' i' = some (t', k', out') ∧
      b.store t t' ∧ b.thread k k' ∧ List.Forall₂ b.output out out'

structure Configs (b : Blur σ L ι ε) (c d : Config σ L ε) : Prop where
  store : b.store c.store d.store
  threads : ∀ n, Option.Rel b.thread (c.threads n) (d.threads n)
  log : ∀ n, List.Forall₂ b.output (c.logOf n) (d.logOf n)

/-- The same coroutine is spawned, or the same one is resumed with an input that the observer takes
for the same. -/
inductive Likewise (b : Blur σ L ι ε) (c : Config σ L ε) :
    Happening L ι → Happening L ι → Prop
  | spawn (n : Nat) (l : L) : b.Likewise c (.spawn n l) (.spawn n l)
  | resume (n : Nat) (i i' : ι) : (∀ l, c.threads n = some l → b.input l i i') →
      b.Likewise c (.resume n i) (.resume n i')

/-- A history, and happenings beside it that the observer takes for the same. -/
inductive Beside (b : Blur σ L ι ε) (m : Machine σ L ι ε) : List (Happening L ι) →
    List (Happening L ι) → Config σ L ε → Config σ L ε → Prop
  | nil (c : Config σ L ε) : b.Beside m [] [] c c
  | cons {e e' events events'} {c c' d : Config σ L ε} : Happens m e c c' → b.Likewise c e e' →
      b.Beside m events events' c' d → b.Beside m (e :: events) (e' :: events') c d

theorem Beside.history {events events' : List (Happening L ι)}
    (h : b.Beside m events events' c d) : History m events c d := by
  induction h with
  | nil => exact .nil
  | cons he _ _ ih => exact .cons he ih

theorem beside_self (hi : ∀ l i, b.input l i i) {events : List (Happening L ι)}
    (h : History m events c d) : b.Beside m events events c d := by
  induction h with
  | nil => exact .nil _
  | @cons e events c c' d he _ ih =>
    refine .cons he ?_ ih
    cases e with
    | spawn n l => exact .spawn n l
    | resume n i => exact .resume n i i fun l _ => hi l i

theorem Beside.append {events events' after after' : List (Happening L ι)}
    (h : b.Beside m events events' c c') (ha : b.Beside m after after' c' d) :
    b.Beside m (events ++ after) (events' ++ after') c d := by
  induction h with
  | nil => exact ha
  | cons hs he _ ih => exact .cons hs he (ih ha)

theorem Unwinds.free (h : b.Unwinds m) (hc : b.Configs c d) {n : Nat} (hf : c.Free m n) :
    d.Free m n := by
  intro k l' hkn hk
  have hthread := hc.threads k
  rw [hk] at hthread
  cases hl : c.threads k with
  | none => rw [hl] at hthread; cases hthread
  | some l =>
    rw [hl] at hthread
    cases hthread with
    | some hthread => rw [h.holds l l' hthread, hf k l hkn hl]

theorem Unwinds.happens (h : b.Unwinds m) (hc : b.Configs c d)
    {e e' : Happening L ι} (he : b.Likewise c e e') (hs : Happens m e c c') :
    ∃ d', Happens m e' d d' ∧ b.Configs c' d' := by
  cases he with
  | spawn n l =>
    cases hs with
    | spawn hn hl hf =>
      have hthread := hc.threads n
      rw [hn] at hthread
      cases hd : d.threads n with
      | some l' => rw [hd] at hthread; cases hthread
      | none =>
        refine ⟨_, .spawn hd hl (h.free hc hf), hc.store, fun j => ?_, hc.log⟩
        by_cases hjn : j = n
        · subst hjn
          simp only [Function.update_self]
          exact .some (h.spawns l hl)
        · simp only [Function.update_of_ne hjn]
          exact hc.threads j
  | resume n i i' hi =>
    cases hs with
    | @resume _ _ l _ s k out hl hr hf =>
      have hthread := hc.threads n
      rw [hl] at hthread
      cases hd : d.threads n with
      | none => rw [hd] at hthread; cases hthread
      | some l' =>
        rw [hd] at hthread
        cases hthread with
        | some hthread =>
          obtain ⟨s', k', out', hr', hstore, hk, hout⟩ :=
            h.resumes _ _ _ _ _ _ _ _ _ hc.store hthread (hi l hl) hr
          refine ⟨_, .resume hd hr' (h.free hc hf), hstore, fun j => ?_, fun j => ?_⟩
          · by_cases hjn : j = n
            · subst hjn
              simp only [Function.update_self]
              exact .some hk
            · simp only [Function.update_of_ne hjn]
              exact hc.threads j
          · by_cases hjn : j = n
            · subst hjn
              rw [logOf_append_self, logOf_append_self]
              exact List.rel_append (hc.log j) hout
            · rw [logOf_append_ne _ _ _ _ (Ne.symm hjn), logOf_append_ne _ _ _ _ (Ne.symm hjn)]
              exact hc.log j

/-- Where no resumption tells them apart, no run does. -/
theorem Unwinds.history (h : b.Unwinds m) {events events' : List (Happening L ι)}
    (hb : b.Beside m events events' c c') (hc : b.Configs c d) :
    ∃ d', History m events' d d' ∧ b.Configs c' d' := by
  induction hb generalizing d with
  | nil => exact ⟨d, .nil, hc⟩
  | cons hs he _ ih =>
    obtain ⟨d₁, hd₁, hc₁⟩ := h.happens hc he hs
    obtain ⟨d', run, hc'⟩ := ih hc₁
    exact ⟨d', .cons hd₁ run, hc'⟩

end Blur

end Protocols
