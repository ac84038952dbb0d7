import Protocols.RegexLanguage
import Mathlib.Computability.Language

namespace Protocols

open Computability

namespace Regex

/-- The words that a regex takes, wherever it stands, if it has no anchors. -/
def words : Regex → Language Char
  | empty | bol | eol => 1
  | set member => {w | ∃ c, member c = true ∧ w = [c]}
  | seq a b => a.words * b.words
  | alt a b => a.words + b.words
  | star r => r.words∗
  | group _ r => r.words

def Unanchored : Regex → Bool
  | bol | eol => false
  | empty | set _ => true
  | seq a b | alt a b => a.Unanchored && b.Unanchored
  | star r | group _ r => r.Unanchored

variable {length : Nat}

theorem mem_set_words {member : Char → Bool} {w : Text} :
    w ∈ (set member).words ↔ ∃ c, member c = true ∧ w = [c] := Iff.rfl

theorem mem_seq_words {a b : Regex} {w : Text} :
    w ∈ (seq a b).words ↔ ∃ u ∈ a.words, ∃ v ∈ b.words, u ++ v = w := Language.mem_mul

theorem mem_alt_words {a b : Regex} {w : Text} :
    w ∈ (alt a b).words ↔ w ∈ a.words ∨ w ∈ b.words := Iff.rfl

theorem mem_star_words {r : Regex} {w : Text} :
    w ∈ (star r).words ↔ ∃ parts : List Text, w = parts.flatten ∧ ∀ p ∈ parts, p ∈ r.words := Iff.rfl

theorem nil_mem_star_words (r : Regex) : [] ∈ (star r).words := Language.nil_mem_kstar _

theorem append_mem_star_words {r : Regex} {u v : Text} (hu : u ∈ r.words)
    (hv : v ∈ (star r).words) : u ++ v ∈ (star r).words := by
  obtain ⟨parts, rfl, hparts⟩ := hv
  refine ⟨u :: parts, rfl, fun p hp => ?_⟩
  rcases List.mem_cons.mp hp with rfl | hp
  · exact hu
  · exact hparts p hp

theorem matches_bol {s t : Text} (h : Matches length bol s t) : t = s := by
  cases h
  rfl

theorem matches_eol {s t : Text} (h : Matches length eol s t) : s = [] ∧ t = [] := by
  cases h
  exact ⟨rfl, rfl⟩

/-- What is left is an end of what there was. -/
theorem matches_suffix {r : Regex} {s t : Text} (h : Matches length r s t) : t <:+ s := by
  induction h with
  | empty => exact List.suffix_refl _
  | set _ => exact List.suffix_cons _ _
  | seq _ _ iha ihb => exact ihb.trans iha
  | left _ ih => exact ih
  | right _ ih => exact ih
  | stop => exact List.suffix_refl _
  | again _ _ iha ihb => exact ihb.trans iha
  | group _ ih => exact ih
  | bol _ => exact List.suffix_refl _
  | eol => exact List.suffix_refl _

theorem matches_words {r : Regex} {s t : Text} (h : Matches length r s t)
    (hr : r.Unanchored = true) : ∃ w ∈ r.words, s = w ++ t := by
  induction h with
  | empty => exact ⟨[], rfl, rfl⟩
  | @set member c s hc => exact ⟨[c], ⟨c, hc, rfl⟩, rfl⟩
  | seq _ _ iha ihb =>
    obtain ⟨ha, hb⟩ := Bool.and_eq_true_iff.mp hr
    obtain ⟨u, hu, rfl⟩ := iha ha
    obtain ⟨v, hv, rfl⟩ := ihb hb
    exact ⟨u ++ v, mem_seq_words.mpr ⟨u, hu, v, hv, rfl⟩, by rw [List.append_assoc]⟩
  | left _ ih =>
    obtain ⟨w, hw, hs⟩ := ih (Bool.and_eq_true_iff.mp hr).1
    exact ⟨w, Or.inl hw, hs⟩
  | right _ ih =>
    obtain ⟨w, hw, hs⟩ := ih (Bool.and_eq_true_iff.mp hr).2
    exact ⟨w, Or.inr hw, hs⟩
  | @stop r s => exact ⟨[], nil_mem_star_words r, rfl⟩
  | again _ _ iha ihb =>
    obtain ⟨u, hu, rfl⟩ := iha hr
    obtain ⟨v, hv, rfl⟩ := ihb hr
    exact ⟨u ++ v, append_mem_star_words hu hv, by rw [List.append_assoc]⟩
  | group _ ih => exact ih hr
  | bol _ => simp [Unanchored] at hr
  | eol => simp [Unanchored] at hr

theorem words_matches {r : Regex} {w : Text} (h : w ∈ r.words) (hr : r.Unanchored = true)
    (t : Text) : Matches length r (w ++ t) t := by
  induction r generalizing w t with
  | empty =>
    rw [(Language.mem_one w).mp h]
    exact .empty
  | set member =>
    obtain ⟨c, hc, rfl⟩ := h
    exact .set hc
  | seq a b iha ihb =>
    obtain ⟨ha, hb⟩ := Bool.and_eq_true_iff.mp hr
    obtain ⟨u, hu, v, hv, rfl⟩ := mem_seq_words.mp h
    rw [List.append_assoc]
    exact .seq (iha hu ha _) (ihb hv hb _)
  | alt a b iha ihb =>
    obtain ⟨ha, hb⟩ := Bool.and_eq_true_iff.mp hr
    rcases h with h | h
    · exact .left (iha h ha _)
    · exact .right (ihb h hb _)
  | star r ih =>
    obtain ⟨parts, rfl, hparts⟩ := mem_star_words.mp h
    clear h
    induction parts with
    | nil => exact .stop
    | cons p parts ihp =>
      have hp := hparts p List.mem_cons_self
      have hmore := ihp fun q hq => hparts q (List.mem_cons_of_mem _ hq)
      rw [List.flatten_cons, List.append_assoc]
      exact .again (ih hp hr _) hmore
  | group n r ih => exact .group (ih h hr t)
  | bol => simp [Unanchored] at hr
  | eol => simp [Unanchored] at hr

theorem words_matches_whole {r : Regex} {w : Text} (h : w ∈ r.words) (hr : r.Unanchored = true) :
    Matches length r w [] := by
  rw [← List.append_nil w]
  exact words_matches h hr []

theorem matches_iff_words {r : Regex} (hr : r.Unanchored = true) {s t : Text} :
    Matches length r s t ↔ ∃ w ∈ r.words, s = w ++ t := by
  constructor
  · intro h
    exact matches_words h hr
  · intro h
    obtain ⟨w, hw, rfl⟩ := h
    exact words_matches hw hr t

theorem words_avoid {r : Regex} {c : Char} {w : Text} (h : w ∈ r.words)
    (hr : r.Unanchored = true) (hc : r.Avoids c = true) : c ∉ w := by
  have hmatch : Matches 0 r w [] := words_matches_whole h hr
  obtain ⟨taken, hw, htaken⟩ := matches_avoids hmatch hc
  rw [List.append_nil] at hw
  rwa [hw]

/-- More rounds than there are characters make no difference. -/
theorem repeatGreedily_rounds {step : Text → List (Text × Captures)} {n : Nat} {s : Text}
    (hn : s.length ≤ n) : repeatGreedily step n s = repeatGreedily step s.length s := by
  have next : ∀ n (s : Text), s.length ≤ n →
      repeatGreedily step (n + 1) s = repeatGreedily step n s := by
    intro n
    induction n with
    | zero =>
      intro s hs
      have hfilter : ((step s).filter fun p => p.1.length < s.length) = [] := by
        refine List.filter_eq_nil_iff.mpr fun p _ => ?_
        simp only [decide_eq_true_eq]
        omega
      simp only [repeatGreedily, hfilter]
      rfl
    | succ n ih =>
      intro s hs
      rw [repeatGreedily, repeatGreedily]
      congr 1
      refine List.flatMap_congr fun p hp => ?_
      have hp := of_decide_eq_true (List.mem_filter.mp hp).2
      dsimp only
      rw [ih p.1 (by omega)]
  induction n, hn using Nat.le_induction with
  | base => rfl
  | succ n hn ih => rw [next n s hn, ih]

/-- The matcher tries every way to match. -/
theorem matches_run {r : Regex} {s t : Text} (h : Matches length r s t) :
    ∃ caps, (t, caps) ∈ r.run length s := by
  induction h with
  | empty => exact ⟨[], List.mem_singleton_self _⟩
  | set hc => exact ⟨[], by simp [run, hc]⟩
  | seq _ _ iha ihb =>
    obtain ⟨caps, ha⟩ := iha
    obtain ⟨caps', hb⟩ := ihb
    exact ⟨caps' ++ caps, List.mem_flatMap.mpr ⟨_, ha, List.mem_map.mpr ⟨_, hb, rfl⟩⟩⟩
  | left _ ih =>
    obtain ⟨caps, h⟩ := ih
    exact ⟨caps, List.mem_append_left _ h⟩
  | right _ ih =>
    obtain ⟨caps, h⟩ := ih
    exact ⟨caps, List.mem_append_right _ h⟩
  | @stop r s =>
    refine ⟨[], ?_⟩
    rw [run]
    cases s.length with
    | zero => exact List.mem_singleton_self _
    | succ n => exact List.mem_append_right _ (List.mem_singleton_self _)
  | @again r s t u ha hb iha ihb =>
    obtain ⟨caps, hr⟩ := iha
    obtain ⟨caps', hmore⟩ := ihb
    have hsuffix := matches_suffix ha
    by_cases hlt : t.length < s.length
    · obtain ⟨n, hn⟩ : ∃ n, s.length = n + 1 := ⟨s.length - 1, by omega⟩
      refine ⟨caps' ++ caps, ?_⟩
      rw [run, hn, repeatGreedily]
      refine List.mem_append_left _ (List.mem_flatMap.mpr ⟨(t, caps), ?_, ?_⟩)
      · exact List.mem_filter.mpr ⟨hr, by simpa using hlt⟩
      · refine List.mem_map.mpr ⟨(u, caps'), ?_, rfl⟩
        rw [repeatGreedily_rounds (by omega)]
        exact hmore
    · -- a round that takes nothing changes nothing
      have hst : t = s := hsuffix.eq_of_length (by
        have := hsuffix.length_le
        omega)
      rw [← hst]
      exact ⟨caps', hmore⟩
  | group _ ih =>
    obtain ⟨caps, h⟩ := ih
    exact ⟨_, List.mem_map.mpr ⟨_, h, rfl⟩⟩
  | bol hs => exact ⟨[], by simp [run, hs]⟩
  | eol => exact ⟨[], List.mem_singleton_self _⟩

theorem regexMatch_isSome {r : Regex} {s : Text} :
    (regexMatch r s).isSome = true ↔ Matches s.length r s [] := by
  rw [regexMatch, Option.isSome_map, List.find?_isSome]
  constructor
  · intro h
    obtain ⟨p, hp, hend⟩ := h
    rw [← List.isEmpty_iff.mp hend]
    exact run_matches hp
  · intro h
    obtain ⟨caps, hrun⟩ := matches_run h
    exact ⟨_, hrun, rfl⟩

theorem run_seq (a b : Regex) (s : Text) : (seq a b).run length s =
    (a.run length s).flatMap fun p => (b.run length p.1).map fun q => (q.1, q.2 ++ p.2) := rfl

theorem mem_run_seq {a b : Regex} {s : Text} {p : Text × Captures}
    (h : p ∈ (seq a b).run length s) : ∃ q ∈ a.run length s, ∃ q' ∈ b.run length q.1,
      p = (q'.1, q'.2 ++ q.2) := by
  obtain ⟨q, hq, h⟩ := List.mem_flatMap.mp h
  obtain ⟨q', hq', rfl⟩ := List.mem_map.mp h
  exact ⟨q, hq, q', hq', rfl⟩

/-- A regex without groups captures nothing. -/
theorem run_captures_nothing {r : Regex} (hr : r.groupNumbers = []) {s : Text}
    {p : Text × Captures} (h : p ∈ r.run length s) : p.2 = [] := by
  refine List.eq_nil_iff_forall_not_mem.mpr fun e he => ?_
  have hgroup := run_groups h e he
  rw [hr] at hgroup
  exact List.not_mem_nil hgroup

/-- A group captures the word that it takes. -/
theorem mem_run_group {n : Nat} {r : Regex} (hr : r.Unanchored = true) (hg : r.groupNumbers = [])
    {s : Text} {p : Text × Captures} (h : p ∈ (group n r).run length s) :
    ∃ w ∈ r.words, s = w ++ p.1 ∧ p.2 = [(n, w)] := by
  obtain ⟨⟨t, caps⟩, hq, rfl⟩ := List.mem_map.mp h
  obtain ⟨w, hw, rfl⟩ := matches_words (run_matches hq) hr
  have hcaps : caps = [] := run_captures_nothing hg hq
  exact ⟨w, hw, rfl, by simp [hcaps]⟩

/-- The words of a literal are its spellings. -/
theorem mem_lit_words {str : String} {w : Text} :
    w ∈ (lit str).words ↔ w.map Char.toLower = str.toList.map Char.toLower := by
  unfold lit
  generalize str.toList = chars
  induction chars generalizing w with
  | nil => simp [words]
  | cons c chars ih =>
    rw [List.foldr_cons, mem_seq_words]
    constructor
    · intro h
      obtain ⟨u, hu, v, hv, rfl⟩ := h
      obtain ⟨x, hx, rfl⟩ := mem_set_words.mp hu
      simp [ih.mp hv, beq_iff_eq.mp hx]
    · intro h
      obtain ⟨x, v, rfl, hx, hv⟩ := List.map_eq_cons_iff.mp h
      exact ⟨[x], ⟨x, beq_iff_eq.mpr hx, rfl⟩, v, ih.mpr hv, rfl⟩

theorem lit_unanchored (str : String) : (lit str).Unanchored = true := by
  unfold lit
  induction str.toList with
  | nil => rfl
  | cons c chars ih => exact ih

theorem lit_groupNumbers (str : String) : (lit str).groupNumbers = [] := by
  unfold lit
  induction str.toList with
  | nil => rfl
  | cons c chars ih => exact ih

theorem lit_groups (str : String) : (lit str).groups = 0 := by
  unfold lit
  induction str.toList with
  | nil => rfl
  | cons c chars ih =>
    rw [List.foldr_cons, groups, ih]
    rfl

/-- What is repeated is a set of characters. -/
theorem mem_star_set_words {r : Regex} {member : Char → Prop}
    (hr : ∀ w, w ∈ r.words ↔ ∃ c, member c ∧ w = [c]) {w : Text} :
    w ∈ (star r).words ↔ ∀ c ∈ w, member c := by
  constructor
  · intro h c hc
    obtain ⟨parts, rfl, hparts⟩ := mem_star_words.mp h
    obtain ⟨p, hp, hcp⟩ := List.mem_flatten.mp hc
    obtain ⟨x, hx, rfl⟩ := (hr p).mp (hparts p hp)
    rwa [List.mem_singleton.mp hcp]
  · intro h
    induction w with
    | nil => exact nil_mem_star_words r
    | cons c w ih =>
      have hc : [c] ∈ r.words := (hr [c]).mpr ⟨c, h c List.mem_cons_self, rfl⟩
      exact append_mem_star_words hc (ih fun x hx => h x (List.mem_cons_of_mem _ hx))

theorem mem_plus_set_words {r : Regex} {member : Char → Prop}
    (hr : ∀ w, w ∈ r.words ↔ ∃ c, member c ∧ w = [c]) {w : Text} :
    w ∈ (plus r).words ↔ w ≠ [] ∧ ∀ c ∈ w, member c := by
  rw [plus, mem_seq_words]
  constructor
  · intro h
    obtain ⟨u, hu, v, hv, rfl⟩ := h
    obtain ⟨x, hx, rfl⟩ := (hr u).mp hu
    refine ⟨by simp, fun c hc => ?_⟩
    rcases List.mem_cons.mp hc with rfl | hc
    · exact hx
    · exact (mem_star_set_words hr).mp hv c hc
  · intro h
    obtain ⟨hne, hall⟩ := h
    obtain ⟨c, v, rfl⟩ := List.exists_cons_of_ne_nil hne
    have hv : v ∈ (star r).words :=
      (mem_star_set_words hr).mpr fun x hx => hall x (List.mem_cons_of_mem _ hx)
    exact ⟨[c], (hr [c]).mpr ⟨c, hall c List.mem_cons_self, rfl⟩, v, hv, rfl⟩

/-- Words of a language with a character between them that none of them has. -/
theorem mem_separated {l : Language Char} {c : Char} (hl : ∀ w ∈ l, c ∉ w) {w : Text} :
    w ∈ (l * {[c]})∗ * l ↔ ∀ p ∈ w.splitOn c, p ∈ l := by
  constructor
  · intro h
    obtain ⟨front, hfront, last, hlast, rfl⟩ := Language.mem_mul.mp h
    obtain ⟨parts, rfl, hparts⟩ := hfront
    clear h
    induction parts with
    | nil =>
      intro p hp
      rw [List.flatten_nil, List.nil_append, List.splitOn_eq_singleton (hl last hlast)] at hp
      rwa [List.mem_singleton.mp hp]
    | cons part parts ih =>
      obtain ⟨first, hfirst, sep, hsep, rfl⟩ := Language.mem_mul.mp (hparts part List.mem_cons_self)
      cases hsep
      intro p hp
      rw [List.flatten_cons, List.append_assoc, List.append_assoc, List.singleton_append,
        List.splitOn_append_cons_self_of_not_mem (hl first hfirst)] at hp
      rcases List.mem_cons.mp hp with rfl | hp
      · exact hfirst
      · exact ih (fun q hq => hparts q (List.mem_cons_of_mem _ hq)) p hp
  · intro h
    -- the parts, each but the last with the character that follows it
    obtain ⟨n, hn⟩ : ∃ n, w.length = n := ⟨_, rfl⟩
    induction n using Nat.strong_induction_on generalizing w with
    | _ n ih =>
      by_cases hc : c ∈ w
      · obtain ⟨first, rest, rfl, hfirst⟩ := List.eq_append_cons_of_mem hc
        rw [List.splitOn_append_cons_self_of_not_mem hfirst] at h
        have hrest := ih rest.length (by rw [← hn]; simp; omega)
          (fun p hp => h p (List.mem_cons_of_mem _ hp)) rfl
        obtain ⟨front, ⟨parts, rfl, hparts⟩, last, hlast, rfl⟩ := Language.mem_mul.mp hrest
        refine Language.mem_mul.mpr ⟨((first ++ [c]) :: parts).flatten, ⟨_, rfl, ?_⟩, last, hlast,
          by simp⟩
        intro p hp
        rcases List.mem_cons.mp hp with rfl | hp
        · exact Language.append_mem_mul (h first List.mem_cons_self) rfl
        · exact hparts p hp
      · rw [List.splitOn_eq_singleton hc] at h
        exact Language.mem_mul.mpr
          ⟨[], Language.nil_mem_kstar _, w, h w (List.mem_singleton_self w), rfl⟩

theorem lit_run (str : String) (s : Text) : (lit str).run length s =
    if (s.take str.toList.length).map Char.toLower = str.toList.map Char.toLower then
      [(s.drop str.toList.length, [])] else [] := by
  unfold lit
  induction str.toList generalizing s with
  | nil => rfl
  | cons c chars ih =>
    cases s with
    | nil => simp [run]
    | cons x s =>
      rw [List.foldr_cons, run, run]
      by_cases hx : x.toLower = c.toLower
      · simp [hx, ih]
      · simp [hx]

theorem find_at_end (runs : List (Text × Captures)) :
    ((runs.flatMap fun p => if p.1 = [] then [([], p.2)] else []).find? fun p => p.1.isEmpty) =
      runs.find? fun p => p.1.isEmpty := by
  induction runs with
  | nil => rfl
  | cons p runs ih =>
    obtain ⟨t, caps⟩ := p
    rw [List.flatMap_cons, List.find?_append, ih]
    by_cases ht : t = []
    · simp [ht]
    · simp [ht]

/-- A pattern of lines that begin with a literal: what follows the literal is matched as a whole, in
the first way that there is. -/
theorem find_line (str : String) (body : Regex) (s : Text) :
    ((all [bol, lit str, body, eol]).run s.length s).find? (fun p => p.1.isEmpty) =
      if (s.take str.toList.length).map Char.toLower = str.toList.map Char.toLower then
        (body.run s.length (s.drop str.toList.length)).find? fun p => p.1.isEmpty
      else none := by
  have hend : ∀ t : Text, (seq eol empty).run s.length t = if t = [] then [([], [])] else [] := by
    intro t
    by_cases ht : t = []
    · simp [run, ht]
    · simp [run, ht]
  have hbol : bol.run s.length s = [(s, [])] := by simp [run]
  simp only [all, List.foldr_cons, List.foldr_nil, run_seq (a := bol), hbol, List.flatMap_singleton,
    List.append_nil, List.map_id']
  rw [run_seq, lit_run]
  split
  next =>
    simp only [List.flatMap_singleton, List.append_nil, List.map_id']
    rw [run_seq]
    refine Eq.trans ?_ (find_at_end _)
    congr 1
    refine List.flatMap_congr fun p _ => ?_
    rw [hend]
    split
    next => rfl
    next => rfl
  next => rfl

theorem find_line_append {str : String} {head t : Text} (body : Regex)
    (h : head.map Char.toLower = str.toList.map Char.toLower) :
    ((all [bol, lit str, body, eol]).run (head ++ t).length (head ++ t)).find?
      (fun p => p.1.isEmpty) = (body.run (head ++ t).length t).find? fun p => p.1.isEmpty := by
  have hlen : str.toList.length = head.length := by
    have := congrArg List.length h
    simpa using this.symm
  rw [find_line, hlen, List.take_left, List.drop_left, if_pos h]

/-- No other line is matched. -/
theorem regexMatch_line_none {str : String} {body : Regex} {s : Text}
    (h : (s.take str.toList.length).map Char.toLower ≠ str.toList.map Char.toLower) :
    regexMatch (all [bol, lit str, body, eol]) s = none := by
  rw [regexMatch, find_line, if_neg h]
  rfl

/-- A literal is found where the text has it, in letters of any case. -/
theorem regexSearch_lit {str : String} {s : Text} : (regexSearch (lit str) s).isSome = true ↔
    str.toList.map Char.toLower <:+: s.map Char.toLower := by
  rw [regexSearch, List.findSome?_isSome_iff]
  constructor
  · intro h
    obtain ⟨t, ht, hrun⟩ := h
    rw [Option.isSome_map, lit_run] at hrun
    split at hrun
    next hword =>
      rw [← hword]
      exact ((List.take_prefix _ t).map _).isInfix.trans
        (((List.mem_tails t s).mp ht).map _).isInfix
    next => cases hrun
  · intro h
    obtain ⟨front, back, hs⟩ := h
    obtain ⟨u, v, rfl, hu, rfl⟩ := List.map_eq_append_iff.mp hs.symm
    obtain ⟨u, w, rfl, rfl, hw⟩ := List.map_eq_append_iff.mp hu
    have hlen : str.toList.length = w.length := by
      have := congrArg List.length hw
      simpa using this.symm
    refine ⟨w ++ v, (List.mem_tails _ _).mpr ⟨u, by rw [List.append_assoc]⟩, ?_⟩
    rw [Option.isSome_map, lit_run, hlen, List.take_left, if_pos hw]
    rfl

end Regex

end Protocols
