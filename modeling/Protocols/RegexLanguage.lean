import Protocols.Regex

namespace Protocols

namespace Regex

/-- The regex takes a beginning of the first text, in a text of the given length, and leaves the
second. -/
inductive Matches (length : Nat) : Regex → Text → Text → Prop
  | empty {s} : Matches length empty s s
  | set {member c s} : member c = true → Matches length (set member) (c :: s) s
  | seq {a b s t u} : Matches length a s t → Matches length b t u → Matches length (seq a b) s u
  | left {a b s t} : Matches length a s t → Matches length (alt a b) s t
  | right {a b s t} : Matches length b s t → Matches length (alt a b) s t
  | stop {r s} : Matches length (star r) s s
  | again {r s t u} : Matches length r s t → Matches length (star r) t u →
      Matches length (star r) s u
  | group {n r s t} : Matches length r s t → Matches length (group n r) s t
  | bol {s} : s.length = length → Matches length bol s s
  | eol : Matches length eol [] []

/-- The groups of a regex by their numbers. -/
def groupNumbers : Regex → List Nat
  | empty | set _ | bol | eol => []
  | seq a b | alt a b => a.groupNumbers ++ b.groupNumbers
  | star r => r.groupNumbers
  | group n r => n :: r.groupNumbers

/-- No match takes the character. -/
def Avoids (c : Char) : Regex → Bool
  | empty | bol | eol => true
  | set member => !member c
  | seq a b | alt a b => a.Avoids c && b.Avoids c
  | star r => r.Avoids c
  | group _ r => r.Avoids c

/-- The regex takes one character, of those that are members, and captures nothing. -/
def TakesOne (member : Char → Bool) (r : Regex) : Prop :=
  ∀ length s, (∀ p ∈ r.run length s, ∃ c, member c = true ∧ s = c :: p.1 ∧ p.2 = []) ∧
    ∀ c t, s = c :: t → member c = true → (r.run length s).head? = some (t, [])

variable {length : Nat}

theorem matches_seq {a b : Regex} {s u : Text} :
    Matches length (seq a b) s u ↔ ∃ t, Matches length a s t ∧ Matches length b t u := by
  constructor
  · rintro (_ | _ | ⟨ha, hb⟩)
    exact ⟨_, ha, hb⟩
  · rintro ⟨t, ha, hb⟩
    exact .seq ha hb

theorem matches_lit {str : String} {s t : Text} (h : Matches length (lit str) s t) :
    ∃ taken, s = taken ++ t ∧ taken.map Char.toLower = str.toList.map Char.toLower := by
  unfold lit at h
  generalize str.toList = chars at h ⊢
  induction chars generalizing s with
  | nil =>
    cases h
    exact ⟨[], rfl, rfl⟩
  | cons c chars ih =>
    obtain ⟨u, hset, hrest⟩ := matches_seq.mp h
    obtain ⟨taken, rfl, hmap⟩ := ih hrest
    cases hset with
    | @set _ x _ hx => exact ⟨x :: taken, rfl, by simp [hmap, beq_iff_eq.mp hx]⟩

theorem repeatGreedily_matches {r : Regex} {step : Text → List (Text × Captures)}
    (hstep : ∀ s p, p ∈ step s → Matches length r s p.1) {n : Nat} {s : Text}
    {p : Text × Captures} (h : p ∈ repeatGreedily step n s) : Matches length (star r) s p.1 := by
  induction n generalizing s p with
  | zero =>
    cases List.mem_singleton.mp h
    exact .stop
  | succ n ih =>
    rcases List.mem_append.mp h with h | h
    · obtain ⟨q, hq, h⟩ := List.mem_flatMap.mp h
      obtain ⟨⟨rest, caps⟩, hq', rfl⟩ := List.mem_map.mp h
      have hrest := ih hq'
      exact .again (hstep _ _ (List.mem_filter.mp hq).1) hrest
    · cases List.mem_singleton.mp h
      exact .stop

theorem run_matches {r : Regex} {s : Text} {p : Text × Captures} (h : p ∈ r.run length s) :
    Matches length r s p.1 := by
  induction r generalizing s p with
  | empty =>
    cases List.mem_singleton.mp h
    exact .empty
  | set member =>
    cases s with
    | nil => simp [run] at h
    | cons c s =>
      simp only [run] at h
      split at h
      next hc =>
        cases List.mem_singleton.mp h
        exact .set hc
      next => simp at h
  | seq a b iha ihb =>
    obtain ⟨q, hq, h⟩ := List.mem_flatMap.mp h
    obtain ⟨⟨rest, caps⟩, hq', rfl⟩ := List.mem_map.mp h
    have hb := ihb hq'
    exact .seq (iha hq) hb
  | alt a b iha ihb =>
    rcases List.mem_append.mp h with h | h
    · exact .left (iha h)
    · exact .right (ihb h)
  | star r ih => exact repeatGreedily_matches (fun _ _ hp => ih hp) h
  | group n r ih =>
    obtain ⟨⟨rest, caps⟩, hq, rfl⟩ := List.mem_map.mp h
    have hbody := ih hq
    exact .group hbody
  | bol =>
    simp only [run] at h
    split at h
    next hs =>
      cases List.mem_singleton.mp h
      exact .bol hs
    next => simp at h
  | eol =>
    simp only [run] at h
    split at h
    next hs =>
      cases List.mem_singleton.mp h
      rw [hs]
      exact .eol
    next => simp at h

theorem matches_avoids {c : Char} {r : Regex} {s t : Text} (h : Matches length r s t)
    (hr : r.Avoids c = true) : ∃ taken, s = taken ++ t ∧ c ∉ taken := by
  induction h with
  | empty => exact ⟨[], rfl, by simp⟩
  | @set member x s hx =>
    refine ⟨[x], rfl, ?_⟩
    rw [List.mem_singleton]
    rintro rfl
    simp [Avoids, hx] at hr
  | seq _ _ iha ihb =>
    obtain ⟨ha, hb⟩ := Bool.and_eq_true_iff.mp hr
    obtain ⟨taken, rfl, hc⟩ := iha ha
    obtain ⟨taken', rfl, hc'⟩ := ihb hb
    exact ⟨taken ++ taken', by rw [List.append_assoc], by simp [hc, hc']⟩
  | left _ ih => exact ih (Bool.and_eq_true_iff.mp hr).1
  | right _ ih => exact ih (Bool.and_eq_true_iff.mp hr).2
  | stop => exact ⟨[], rfl, by simp⟩
  | again _ _ iha ihb =>
    obtain ⟨taken, rfl, hc⟩ := iha hr
    obtain ⟨taken', rfl, hc'⟩ := ihb hr
    exact ⟨taken ++ taken', by rw [List.append_assoc], by simp [hc, hc']⟩
  | group _ ih => exact ih hr
  | bol _ => exact ⟨[], rfl, by simp⟩
  | eol => exact ⟨[], rfl, by simp⟩

theorem repeatGreedily_groups {r : Regex} {step : Text → List (Text × Captures)}
    (hstep : ∀ s p, p ∈ step s → ∀ e ∈ p.2, e.1 ∈ r.groupNumbers) {n : Nat} {s : Text}
    {p : Text × Captures} (h : p ∈ repeatGreedily step n s) : ∀ e ∈ p.2, e.1 ∈ r.groupNumbers := by
  induction n generalizing s p with
  | zero =>
    cases List.mem_singleton.mp h
    simp
  | succ n ih =>
    rcases List.mem_append.mp h with h | h
    · obtain ⟨q, hq, h⟩ := List.mem_flatMap.mp h
      obtain ⟨⟨rest, caps⟩, hq', rfl⟩ := List.mem_map.mp h
      intro e he
      rcases List.mem_append.mp he with he | he
      · exact ih hq' e he
      · exact hstep _ _ (List.mem_filter.mp hq).1 e he
    · cases List.mem_singleton.mp h
      simp

/-- Nothing is captured but by the groups of the regex. -/
theorem run_groups {r : Regex} {s : Text} {p : Text × Captures} (h : p ∈ r.run length s) :
    ∀ e ∈ p.2, e.1 ∈ r.groupNumbers := by
  induction r generalizing s p with
  | empty =>
    cases List.mem_singleton.mp h
    simp
  | set member =>
    cases s with
    | nil => simp [run] at h
    | cons c s =>
      simp only [run] at h
      split at h
      next =>
        cases List.mem_singleton.mp h
        simp
      next => simp at h
  | seq a b iha ihb =>
    obtain ⟨q, hq, h⟩ := List.mem_flatMap.mp h
    obtain ⟨⟨rest, caps⟩, hq', rfl⟩ := List.mem_map.mp h
    intro e he
    rcases List.mem_append.mp he with he | he
    · exact List.mem_append_right _ (ihb hq' e he)
    · exact List.mem_append_left _ (iha hq e he)
  | alt a b iha ihb =>
    intro e he
    rcases List.mem_append.mp h with h | h
    · exact List.mem_append_left _ (iha h e he)
    · exact List.mem_append_right _ (ihb h e he)
  | star r ih => exact repeatGreedily_groups (fun _ _ hp => ih hp) h
  | group n r ih =>
    obtain ⟨⟨rest, caps⟩, hq, rfl⟩ := List.mem_map.mp h
    intro e he
    rcases List.mem_cons.mp he with rfl | he
    · exact List.mem_cons_self
    · exact List.mem_cons_of_mem _ (ih hq e he)
  | bol =>
    simp only [run] at h
    split at h
    next =>
      cases List.mem_singleton.mp h
      simp
    next => simp at h
  | eol =>
    simp only [run] at h
    split at h
    next =>
      cases List.mem_singleton.mp h
      simp
    next => simp at h

theorem lookup_append_of_not_group {r : Regex} {n : Nat} {caps : Captures} (caps' : Captures)
    (hr : ∀ e ∈ caps, e.1 ∈ r.groupNumbers) (hn : n ∉ r.groupNumbers) :
    (caps ++ caps').lookup n = caps'.lookup n := by
  induction caps with
  | nil => rfl
  | cons e caps ih =>
    obtain ⟨k, captured⟩ := e
    have hk : n ≠ k := by
      rintro rfl
      exact hn (hr _ List.mem_cons_self)
    rw [List.cons_append, List.lookup_cons, beq_false_of_ne hk]
    exact ih fun e he => hr e (List.mem_cons_of_mem _ he)

/-- A regex that begins with its first group: what the group has captured is what it has taken. -/
theorem regexMatch_first_group {body r : Regex} {s : Text} {arguments : List Text}
    (h : regexMatch (seq bol (seq (group 1 body) r)) s = some arguments)
    (hr : 1 ∉ r.groupNumbers) :
    ∃ p ∈ body.run s.length s, Matches s.length r p.1 [] ∧
      arguments[1]? = some (s.take (s.length - p.1.length)) := by
  obtain ⟨p, hfind, rfl⟩ := Option.map_eq_some_iff.mp h
  have hend : p.1 = [] := by simpa using List.find?_some hfind
  have hp := List.mem_of_find?_eq_some hfind
  simp only [run, if_true, List.flatMap_singleton, List.mem_map, List.mem_flatMap] at hp
  obtain ⟨⟨_, caps⟩, ⟨⟨_, _⟩, ⟨⟨t, caps₁⟩, hbody, hgroup⟩, ⟨_, caps₂⟩, hrest, hcaps⟩, rfl⟩ := hp
  simp only [Prod.mk.injEq] at hgroup hcaps
  obtain ⟨rfl, rfl⟩ := hgroup
  obtain ⟨rfl, rfl⟩ := hcaps
  have hr' := run_groups hrest
  subst hend
  refine ⟨(t, caps₁), hbody, run_matches hrest, ?_⟩
  have hlookup := lookup_append_of_not_group ((1, s.take (s.length - t.length)) :: caps₁) hr' hr
  rw [submatches, List.getElem?_cons_succ, List.getElem?_map, List.getElem?_range (by
      simp only [groups]
      omega),
    Option.map_some]
  simp [hlookup]

/-- Where there is a greedy match that is tried first, it is the one. -/
theorem head_flatMap {α β : Type} {l : List α} {f : α → List β} {a : α} {b : β}
    (ha : l.head? = some a) (hb : (f a).head? = some b) : (l.flatMap f).head? = some b := by
  obtain ⟨rest, rfl⟩ := List.head?_eq_some_iff.mp ha
  obtain ⟨rest', hf⟩ := List.head?_eq_some_iff.mp hb
  rw [List.flatMap_cons, hf]
  rfl

theorem set_takesOne (member : Char → Bool) : TakesOne member (set member) := by
  refine fun length s => ⟨fun p hp => ?_, ?_⟩
  · cases s with
    | nil => simp [run] at hp
    | cons c s =>
      simp only [run] at hp
      split at hp
      next hc =>
        cases List.mem_singleton.mp hp
        exact ⟨c, hc, rfl, rfl⟩
      next => simp at hp
  · rintro c t rfl hc
    simp [run, hc]

theorem alt_takesOne {member member' : Char → Bool} {a b : Regex} (ha : TakesOne member a)
    (hb : TakesOne member' b) : TakesOne (fun c => member c || member' c) (alt a b) := by
  refine fun length s => ⟨fun p hp => ?_, ?_⟩
  · rcases List.mem_append.mp hp with hp | hp
    · obtain ⟨c, hc, hs⟩ := (ha length s).1 p hp
      exact ⟨c, by simp [hc], hs⟩
    · obtain ⟨c, hc, hs⟩ := (hb length s).1 p hp
      exact ⟨c, by simp [hc], hs⟩
  · rintro c t rfl hc
    rw [run, List.head?_append]
    by_cases hm : member c = true
    · rw [(ha length _).2 c t rfl hm]
      rfl
    · have hnone : a.run length (c :: t) = [] := by
        refine List.eq_nil_iff_forall_not_mem.mpr fun p hp => ?_
        obtain ⟨c', hc', hs, _⟩ := (ha length _).1 p hp
        rw [(List.cons.inj hs).1] at hm
        exact hm hc'
      rw [hnone, (hb length _).2 c t rfl (by simpa [hm] using hc)]
      rfl

theorem seq_empty_takesOne {member : Char → Bool} {r : Regex} (h : TakesOne member r) :
    TakesOne member (seq r empty) := by
  have hrun : ∀ length s, (seq r empty).run length s = r.run length s := by
    intro length s
    simp [run]
  intro length s
  rw [hrun]
  exact h length s

/-- The first match of a greedy repetition takes all that it can. -/
theorem star_greedy (length : Nat) {member : Char → Bool} {r : Regex} (hr : TakesOne member r) {w t : Text}
    (hw : ∀ c ∈ w, member c = true) (ht : ∀ c, t.head? = some c → member c = false) {n : Nat}
    (hn : w.length ≤ n) : (repeatGreedily (r.run length) n (w ++ t)).head? = some (t, []) := by
  have stops : ((r.run length t).filter fun p => p.1.length < t.length) = [] := by
    refine List.filter_eq_nil_iff.mpr fun p hp => ?_
    obtain ⟨c, hc, hs, _⟩ := (hr length t).1 p hp
    have := ht c (by rw [hs]; rfl)
    simp [this] at hc
  induction w generalizing n with
  | nil =>
    cases n with
    | zero => rfl
    | succ n => simp [repeatGreedily, stops]
  | cons c w ih =>
    cases n with
    | zero => simp at hn
    | succ n =>
      have hfirst := (hr length (c :: (w ++ t))).2 c (w ++ t) rfl (hw c List.mem_cons_self)
      obtain ⟨rest, hrun⟩ := List.head?_eq_some_iff.mp hfirst
      have hnext := ih (fun c hc => hw c (List.mem_cons_of_mem _ hc)) (Nat.le_of_succ_le_succ hn)
      rw [List.cons_append, repeatGreedily, List.head?_append]
      rw [head_flatMap (a := (w ++ t, [])) (b := (t, [])) (by simp [hrun]) (by simp [hnext])]
      rfl

theorem plus_greedy {member : Char → Bool} {r : Regex} (hr : TakesOne member r) {w t : Text}
    (hne : w ≠ []) (hw : ∀ c ∈ w, member c = true)
    (ht : ∀ c, t.head? = some c → member c = false) :
    ((plus r).run length (w ++ t)).head? = some (t, []) := by
  obtain ⟨c, w, rfl⟩ := List.exists_cons_of_ne_nil hne
  have hfirst := (hr length (c :: (w ++ t))).2 c (w ++ t) rfl (hw c List.mem_cons_self)
  have hmore := star_greedy length hr (fun c hc => hw c (List.mem_cons_of_mem _ hc)) ht
    (n := (w ++ t).length) (by simp)
  refine head_flatMap hfirst ?_
  rw [List.head?_map, run, hmore]
  rfl

theorem repeatGreedily_takesOne {member : Char → Bool} {r : Regex} (hr : TakesOne member r) {n : Nat}
    {s : Text} {p : Text × Captures} (h : p ∈ repeatGreedily (r.run length) n s) :
    ∃ w, s = w ++ p.1 ∧ ∀ c ∈ w, member c = true := by
  induction n generalizing s p with
  | zero =>
    cases List.mem_singleton.mp h
    exact ⟨[], rfl, by simp⟩
  | succ n ih =>
    rcases List.mem_append.mp h with h | h
    · obtain ⟨q, hq, h⟩ := List.mem_flatMap.mp h
      obtain ⟨⟨rest, caps⟩, hq', rfl⟩ := List.mem_map.mp h
      obtain ⟨c, hc, hs, _⟩ := (hr length s).1 q (List.mem_filter.mp hq).1
      obtain ⟨w, hw, hall⟩ := ih hq'
      refine ⟨c :: w, ?_, ?_⟩
      · rw [hs, hw]
        rfl
      · simpa [hc] using hall
    · cases List.mem_singleton.mp h
      exact ⟨[], rfl, by simp⟩

theorem plus_takesOne {member : Char → Bool} {r : Regex} (hr : TakesOne member r) {s : Text}
    {p : Text × Captures} (h : p ∈ (plus r).run length s) :
    ∃ w, s = w ++ p.1 ∧ w ≠ [] ∧ ∀ c ∈ w, member c = true := by
  obtain ⟨q, hq, h⟩ := List.mem_flatMap.mp h
  obtain ⟨⟨rest, caps⟩, hq', rfl⟩ := List.mem_map.mp h
  obtain ⟨c, hc, hs, _⟩ := (hr length s).1 q hq
  obtain ⟨w, hw, hall⟩ := repeatGreedily_takesOne hr hq'
  refine ⟨c :: w, ?_, by simp, ?_⟩
  · rw [hs, hw]
    rfl
  · simpa [hc] using hall

theorem toNat_toLower (c : Char) :
    c.toLower.toNat = if 65 ≤ c.toNat ∧ c.toNat ≤ 90 then c.toNat + 32 else c.toNat := by
  unfold Char.toLower
  by_cases h : c.val ≥ 'A'.val ∧ c.val ≤ 'Z'.val
  · have hsum : (c.val + ('a'.val - 'A'.val)).toNat = (c.toNat + 32) % 2 ^ 32 :=
      UInt32.toNat_add _ _
    have hlow : 65 ≤ c.toNat := h.1
    have hhigh : c.toNat ≤ 90 := h.2
    rw [dif_pos h, if_pos ⟨hlow, hhigh⟩]
    exact hsum.trans (by omega)
  · rw [dif_neg h]
    exact (if_neg h).symm

theorem toNat_toUpper (c : Char) :
    c.toUpper.toNat = if 97 ≤ c.toNat ∧ c.toNat ≤ 122 then c.toNat - 32 else c.toNat := by
  unfold Char.toUpper
  by_cases h : c.val ≥ 'a'.val ∧ c.val ≤ 'z'.val
  · have hsum : (c.val + ('A'.val - 'a'.val)).toNat = (c.toNat + 4294967264) % 2 ^ 32 :=
      UInt32.toNat_add _ _
    have hlow : 97 ≤ c.toNat := h.1
    have hhigh : c.toNat ≤ 122 := h.2
    rw [dif_pos h, if_pos ⟨hlow, hhigh⟩]
    exact hsum.trans (by omega)
  · rw [dif_neg h]
    exact (if_neg h).symm

/-- A character is a capital letter, a small one, or spelled in one way. -/
theorem spelling_cases (c : Char) :
    ((65 ≤ c.toNat ∧ c.toNat ≤ 90) ∧ c.toLower.toNat = c.toNat + 32 ∧ c.toUpper.toNat = c.toNat) ∨
    ((97 ≤ c.toNat ∧ c.toNat ≤ 122) ∧ c.toLower.toNat = c.toNat ∧ c.toUpper.toNat = c.toNat - 32) ∨
    (¬ (65 ≤ c.toNat ∧ c.toNat ≤ 90) ∧ ¬ (97 ≤ c.toNat ∧ c.toNat ≤ 122) ∧
      c.toLower.toNat = c.toNat ∧ c.toUpper.toNat = c.toNat) := by
  have hlower := toNat_toLower c
  have hupper := toNat_toUpper c
  by_cases hcapital : 65 ≤ c.toNat ∧ c.toNat ≤ 90
  · rw [if_pos hcapital] at hlower
    rw [if_neg (by omega)] at hupper
    exact Or.inl ⟨hcapital, hlower, hupper⟩
  · rw [if_neg hcapital] at hlower
    by_cases hsmall : 97 ≤ c.toNat ∧ c.toNat ≤ 122
    · rw [if_pos hsmall] at hupper
      exact Or.inr (Or.inl ⟨hsmall, hlower, hupper⟩)
    · rw [if_neg hsmall] at hupper
      exact Or.inr (Or.inr ⟨hcapital, hsmall, hlower, hupper⟩)

/-- Only a letter is spelled in two ways. -/
theorem toLower_eq_of_not_letter {c d : Char} (h : c.toLower = d) (hd : d.toNat < 97 ∨ 122 < d.toNat) :
    c = d := by
  have hnat := toNat_toLower c
  rw [h] at hnat
  rw [← Char.toNat_inj]
  split at hnat
  next => omega
  next => exact hnat.symm

theorem char_le_iff {a b : Char} : a ≤ b ↔ a.toNat ≤ b.toNat := Iff.rfl

/-- The characters of `\w`. -/
def wordChar (c : Char) : Bool := c.isAlphanum || c == '_'

theorem wordChar_eq (c : Char) : wordChar c =
    ((('a' ≤ c.toLower && c.toLower ≤ 'z' || 'a' ≤ c.toUpper && c.toUpper ≤ 'z') ||
      ('0' ≤ c.toLower && c.toLower ≤ '9' || '0' ≤ c.toUpper && c.toUpper ≤ '9')) ||
      c.toLower == '_'.toLower) := by
  have hw : wordChar c = (((decide ('A' ≤ c ∧ c ≤ 'Z') || 'a' ≤ c && c ≤ 'z') ||
      '0' ≤ c && c ≤ '9') || c == '_') := rfl
  rw [hw, Bool.eq_iff_iff]
  have hspelling := spelling_cases c
  simp only [Bool.or_eq_true, Bool.and_eq_true, decide_eq_true_eq, beq_iff_eq, char_le_iff,
    ← Char.toNat_inj, Char.reduceToNat, Char.reduceToLower]
  omega

theorem word_takesOne : TakesOne wordChar word := by
  rw [funext wordChar_eq]
  exact alt_takesOne (alt_takesOne (set_takesOne _) (set_takesOne _))
    (seq_empty_takesOne (set_takesOne _))

/-- A match of the whole text takes no character that the regex avoids. -/
theorem regexMatch_avoids {r : Regex} {s : Text} {arguments : List Text} {c : Char}
    (h : regexMatch r s = some arguments) (hr : r.Avoids c = true) : c ∉ s := by
  obtain ⟨p, hfind, _⟩ := Option.map_eq_some_iff.mp h
  have hend : p.1 = [] := by simpa using List.find?_some hfind
  obtain ⟨taken, hs, hc⟩ := matches_avoids (run_matches (List.mem_of_find?_eq_some hfind)) hr
  rwa [hs, hend, List.append_nil]

theorem takeWhile_word {w t : Text} (hw : ∀ c ∈ w, wordChar c = true)
    (ht : ∀ c, t.head? = some c → wordChar c = false) : (w ++ t).takeWhile wordChar = w := by
  rw [List.takeWhile_append_of_pos hw]
  cases t with
  | nil => simp
  | cons c t => simp [ht c rfl]

theorem begins_with_space {str : String} {chars : List Char} {r : Regex} {length : Nat}
    {s t : Text} (hstr : str.toList = ' ' :: chars) (h : Matches length (seq (lit str) r) s t) :
    ∀ c, s.head? = some c → wordChar c = false := by
  obtain ⟨u, hlit, _⟩ := matches_seq.mp h
  obtain ⟨taken, rfl, hmap⟩ := matches_lit hlit
  rw [hstr] at hmap
  cases taken with
  | nil => simp at hmap
  | cons x taken =>
    have hspace : x = ' ' := toLower_eq_of_not_letter (List.cons.inj hmap).1 (by decide)
    rintro c hc
    cases hc
    rw [hspace]
    decide

/-- Where a word is followed by something else, a pattern that begins with a word in its first group
and goes on with a blank has that word in the group. -/
theorem first_word {str : String} {chars : List Char} {r : Regex} {w t : Text}
    {arguments : List Text} (hstr : str.toList = ' ' :: chars)
    (hw : ∀ c ∈ w, wordChar c = true) (ht : ∀ c, t.head? = some c → wordChar c = false)
    (hr : 1 ∉ (seq (lit str) r).groupNumbers)
    (h : regexMatch (seq bol (seq (group 1 (plus word)) (seq (lit str) r))) (w ++ t) =
      some arguments) : arguments[1]? = some w := by
  obtain ⟨p, hp, hrest, harg⟩ := regexMatch_first_group h hr
  obtain ⟨g, hs, _, hg⟩ := plus_takesOne word_takesOne hp
  have hgw : g = w := by
    rw [← takeWhile_word hg (begins_with_space hstr hrest), ← hs, takeWhile_word hw ht]
  rw [harg, hs, hgw]
  simp

/-- The pattern that takes every line that begins with a word. -/
theorem first_word_any {w t : Text} (hne : w ≠ []) (hw : ∀ c ∈ w, wordChar c = true)
    (ht : ∀ c, t.head? = some c → wordChar c = false) (hn : '\n' ∉ t) (hr : '\r' ∉ t) :
    ∃ arguments, regexMatch (all [bol, group 1 (plus word), star any, eol]) (w ++ t) =
      some arguments ∧ arguments[1]? = some w := by
  have hall : ∀ c ∈ t, (c != '\n' && c != '\r') = true := by
    intro c hc
    have hcn : c ≠ '\n' := fun he => hn (he ▸ hc)
    have hcr : c ≠ '\r' := fun he => hr (he ▸ hc)
    simp [hcn, hcr]
  have hany : ((star any).run (w ++ t).length t).head? = some ([], []) := by
    have hstar := star_greedy (w ++ t).length (set_takesOne _) hall (t := [])
      (by simp) le_rfl
    rwa [List.append_nil] at hstar
  have hrest : ((all [star any, eol]).run (w ++ t).length t).head? = some ([], []) :=
    head_flatMap hany (by simp [run])
  have hgroup : ((group 1 (plus word)).run (w ++ t).length (w ++ t)).head? =
      some (t, [(1, w)]) := by
    rw [run, List.head?_map, plus_greedy word_takesOne hne hw ht]
    simp
  have hword : ((all [group 1 (plus word), star any, eol]).run (w ++ t).length (w ++ t)).head? =
      some ([], [(1, w)]) := by
    refine head_flatMap hgroup ?_
    rw [List.head?_map]
    exact congrArg _ hrest
  have hline : ((all [bol, group 1 (plus word), star any, eol]).run (w ++ t).length
      (w ++ t)).head? = some ([], [(1, w)]) := by
    refine head_flatMap (a := (w ++ t, [])) (by simp [run]) ?_
    rw [List.head?_map]
    exact congrArg _ hword
  obtain ⟨others, hruns⟩ := List.head?_eq_some_iff.mp hline
  refine ⟨_, by rw [regexMatch, hruns]; rfl, ?_⟩
  simp [submatches, all, groups, plus, word, alnum, lit, range, any, List.range_succ]

end Regex

end Protocols
