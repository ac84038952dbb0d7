import Protocols.RegexLines

namespace Protocols

namespace Regex

/-- What a greedy repetition of one character can leave, the shortest first. -/
def leftovers (member : Char → Bool) : Text → List Text
  | [] => [[]]
  | c :: s => if member c then leftovers member s ++ [c :: s] else [c :: s]

/-- The characters of `\s`. -/
def spaceChar (c : Char) : Bool := c.isWhitespace || c == '\x0b' || c == '\x0c'

variable {length : Nat} {member : Char → Bool} {β : Type} {f : Text → Option β} {s : Text}

theorem star_space_words {w : Text} :
    w ∈ (star space).words ↔ ∀ c ∈ w, spaceChar c = true := mem_star_set_words fun _ => Iff.rfl

theorem nonSpace_words {w : Text} :
    w ∈ nonSpace.words ↔ ∃ c, spaceChar c = false ∧ w = [c] := by
  rw [nonSpace, mem_set_words]
  simp [spaceChar, and_assoc]

theorem noBreak_iff {w : Text} : (∀ c ∈ w, (c != '\n' && c != '\r') = true) ↔ NoBreak w := by
  simp [NoBreak]

theorem whole_isSome {r : Regex} : (whole length r s).isSome = true ↔ Matches length r s [] := by
  rw [whole, Option.isSome_map, List.find?_isSome]
  constructor
  · rintro ⟨p, hp, hend⟩
    have hmatches := run_matches hp
    rwa [List.isEmpty_iff.mp hend] at hmatches
  · intro h
    obtain ⟨caps, hcaps⟩ := matches_run h
    exact ⟨_, hcaps, rfl⟩

theorem mem_leftovers {t : Text} :
    t ∈ leftovers member s ↔ ∃ u, s = u ++ t ∧ ∀ c ∈ u, member c = true := by
  induction s with
  | nil =>
    rw [leftovers, List.mem_singleton]
    constructor
    · rintro rfl
      exact ⟨[], rfl, nofun⟩
    · rintro ⟨u, hu, _⟩
      exact (List.append_eq_nil_iff.mp hu.symm).2
  | cons c s ih =>
    rw [leftovers]
    constructor
    · intro h
      split at h
      next hc =>
        rcases List.mem_append.mp h with h | h
        · obtain ⟨u, rfl, hu⟩ := ih.mp h
          exact ⟨c :: u, rfl, List.forall_mem_cons.mpr ⟨hc, hu⟩⟩
        · exact ⟨[], (List.mem_singleton.mp h).symm, nofun⟩
      next => exact ⟨[], (List.mem_singleton.mp h).symm, nofun⟩
    · rintro ⟨u, hu, hall⟩
      cases u with
      | nil =>
        rw [List.nil_append] at hu
        split
        next => simp [hu]
        next => simp [hu]
      | cons d u =>
        obtain ⟨rfl, rfl⟩ := List.cons.inj hu
        obtain ⟨hd, hu'⟩ := List.forall_mem_cons.mp hall
        rw [if_pos hd]
        exact List.mem_append_left _ (ih.mpr ⟨u, rfl, hu'⟩)

theorem repeatGreedily_set {n : Nat} (hn : s.length ≤ n) :
    repeatGreedily ((set member).run length) n s =
      (leftovers member s).map fun t => (t, ([] : Captures)) := by
  induction s generalizing n with
  | nil =>
    cases n with
    | zero => rfl
    | succ n => rfl
  | cons c s ih =>
    cases n with
    | zero => simp at hn
    | succ n =>
      rw [repeatGreedily, leftovers, run]
      by_cases hc : member c = true
      · simp [hc, ih (Nat.le_of_succ_le_succ hn)]
      · simp [hc]

/-- The match that is found after a greedy repetition is the one after the longest one that there
is. -/
theorem findSome_leftovers {b : β} (h : (leftovers member s).findSome? f = some b) :
    ∃ u t, s = u ++ t ∧ (∀ c ∈ u, member c = true) ∧ f t = some b ∧
      ∀ u' t', s = u' ++ t' → (∀ c ∈ u', member c = true) → u.length < u'.length → f t' = none := by
  induction s with
  | nil =>
    rw [leftovers, List.findSome?_singleton] at h
    refine ⟨[], [], rfl, nofun, h, fun u' t' hu' _ hlt => ?_⟩
    rw [(List.append_eq_nil_iff.mp hu'.symm).1] at hlt
    exact absurd hlt (Nat.lt_irrefl 0)
  | cons c s ih =>
    rw [leftovers] at h
    by_cases hc : member c = true
    · rw [if_pos hc, List.findSome?_append, List.findSome?_singleton] at h
      cases hs : (leftovers member s).findSome? f with
      | some v =>
        rw [hs] at h
        cases h
        obtain ⟨u, t, rfl, hu, ht, hlongest⟩ := ih hs
        refine ⟨c :: u, t, rfl, List.forall_mem_cons.mpr ⟨hc, hu⟩, ht, fun u' t' hu' hall hlt => ?_⟩
        cases u' with
        | nil => simp at hlt
        | cons d u' =>
          exact hlongest u' t' (List.cons.inj hu').2 (List.forall_mem_cons.mp hall).2
            (Nat.lt_of_succ_lt_succ hlt)
      | none =>
        rw [hs] at h
        refine ⟨[], c :: s, rfl, nofun, h, fun u' t' hu' hall hlt => ?_⟩
        cases u' with
        | nil => simp at hlt
        | cons d u' =>
          exact List.findSome?_eq_none_iff.mp hs t' (mem_leftovers.mpr
            ⟨u', (List.cons.inj hu').2, (List.forall_mem_cons.mp hall).2⟩)
    · rw [if_neg hc, List.findSome?_singleton] at h
      refine ⟨[], c :: s, rfl, nofun, h, fun u' t' hu' hall hlt => ?_⟩
      cases u' with
      | nil => simp at hlt
      | cons d u' =>
        obtain ⟨rfl, _⟩ := List.cons.inj hu'
        exact absurd (hall c List.mem_cons_self) hc

theorem whole_star_set (r : Regex) (s : Text) : whole length (seq (star (set member)) r) s =
    (leftovers member s).findSome? fun t => whole length r t := by
  rw [whole_seq, run, repeatGreedily_set le_rfl, List.findSome?_map]
  congr 1
  funext t
  simp

/-- What a pattern that begins with a greedy repetition captures. -/
theorem whole_star_some {r : Regex} {caps : Captures}
    (h : whole length (seq (star (set member)) r) s = some caps) :
    ∃ u t, s = u ++ t ∧ (∀ c ∈ u, member c = true) ∧ whole length r t = some caps ∧
      ∀ u' t', s = u' ++ t' → (∀ c ∈ u', member c = true) → u.length < u'.length →
        ¬ Matches length r t' [] := by
  rw [whole_star_set] at h
  obtain ⟨u, t, hs, hu, ht, hlongest⟩ := findSome_leftovers h
  refine ⟨u, t, hs, hu, ht, fun u' t' hs' hu' hlt hmatches => ?_⟩
  have hsome := whole_isSome.mpr hmatches
  rw [hlongest u' t' hs' hu' hlt] at hsome
  cases hsome

/-- What a pattern that begins with a literal captures is captured after it. -/
theorem whole_lit_some {str : String} {r : Regex} {caps : Captures}
    (h : whole length (seq (lit str) r) s = some caps) :
    ∃ spelled t, s = spelled ++ t ∧ spelled.map Char.toLower = str.toList.map Char.toLower ∧
      whole length r t = some caps := by
  rw [whole_seq, lit_run] at h
  split at h
  next hword =>
    rw [List.findSome?_singleton] at h
    refine ⟨_, _, (List.take_append_drop str.toList.length s).symm, hword, ?_⟩
    simpa using h
  next => cases h

/-- A search for something up to the end of a line. -/
theorem regexSearch_eq {rs : List Regex} (s : Text) : regexSearch (all (rs ++ [eol])) s =
    s.tails.findSome? fun t =>
      (whole s.length (all (rs ++ [eol])) t).map (submatches (all (rs ++ [eol])) t) := by
  have ends : ∀ t, ∀ p ∈ (all (rs ++ [eol])).run s.length t, p.1 = [] := by
    intro t p hp
    induction rs generalizing t p with
    | nil =>
      obtain ⟨q, hq, q', hq', rfl⟩ := mem_run_seq hp
      obtain ⟨_, hnil⟩ := matches_eol (run_matches hq)
      rw [hnil] at hq'
      exact congrArg Prod.fst (List.mem_singleton.mp hq')
    | cons r rs ih =>
      obtain ⟨q, _, q', hq', rfl⟩ := mem_run_seq hp
      exact ih q.1 q' hq'
  rw [regexSearch]
  congr 1
  funext t
  rw [whole]
  cases hrun : (all (rs ++ [eol])).run s.length t with
  | nil => rfl
  | cons p runs =>
    have hend : p.1 = [] := ends t p (by rw [hrun]; exact List.mem_cons_self)
    simp [hend]

theorem str_submatches {r : Regex} {n : Nat} (h : n < r.groups) (matched : Text) (caps : Captures) :
    str (submatches r matched caps) (n + 1) = (caps.lookup (n + 1)).getD [] := by
  rw [str, submatches, List.getElem?_cons_succ, List.getElem?_map, List.getElem?_range h]
  rfl

theorem plain_of_no_groups {r : Regex} (h : r.Unanchored = true) (hg : r.groupNumbers = []) :
    Plain r = true := by
  cases r with
  | group n r => cases hg
  | _ => simp [Plain, h, hg]

theorem captured_nothing {r : Regex} (h : r.groupNumbers = []) (w : Text) : captured [r] [w] = [] := by
  cases r with
  | group n r => cases h
  | _ => rfl

/-- A search finds the leftmost place. -/
theorem findSome_tails {b : β} : s.tails.findSome? f = some b ↔
    ∃ front t, s = front ++ t ∧ f t = some b ∧
      ∀ front' t', s = front' ++ t' → front'.length < front.length → f t' = none := by
  induction s with
  | nil =>
    rw [List.tails, List.findSome?_singleton]
    constructor
    · intro h
      exact ⟨[], [], rfl, h, fun front' _ _ hlt => absurd hlt (Nat.not_lt_zero _)⟩
    · rintro ⟨front, t, hs, ht, _⟩
      rwa [(List.append_eq_nil_iff.mp hs.symm).2] at ht
  | cons c s ih =>
    rw [List.tails_cons, List.findSome?_cons]
    cases hc : f (c :: s) with
    | some v =>
      constructor
      · intro h
        cases h
        exact ⟨[], c :: s, rfl, hc, fun front' _ _ hlt => absurd hlt (Nat.not_lt_zero _)⟩
      · rintro ⟨front, t, hs, ht, hleft⟩
        cases front with
        | nil =>
          rw [List.nil_append] at hs
          rw [← hs, hc] at ht
          exact ht
        | cons d front =>
          rw [hleft [] (c :: s) rfl (Nat.zero_lt_succ _)] at hc
          cases hc
    | none =>
      dsimp only
      rw [ih]
      constructor
      · rintro ⟨front, t, rfl, ht, hleft⟩
        refine ⟨c :: front, t, rfl, ht, fun front' t' hs' hlt => ?_⟩
        cases front' with
        | nil =>
          rw [List.nil_append] at hs'
          rwa [← hs']
        | cons d front' => exact hleft front' t' (List.cons.inj hs').2 (Nat.lt_of_succ_lt_succ hlt)
      · rintro ⟨front, t, hs, ht, hleft⟩
        cases front with
        | nil =>
          rw [List.nil_append] at hs
          rw [← hs, hc] at ht
          cases ht
        | cons d front =>
          obtain ⟨rfl, rfl⟩ := List.cons.inj hs
          exact ⟨front, t, rfl, ht, fun front' t' hs' hlt =>
            hleft (c :: front') t' (by rw [hs']; rfl) (Nat.succ_lt_succ hlt)⟩

end Regex

end Protocols
