import Protocols.RegexWords

namespace Protocols

namespace Regex

/-- A part of a pattern that captures the word that it takes, or nothing. -/
def Plain : Regex → Bool
  | group _ r => r.Unanchored && r.groupNumbers.isEmpty
  | r => r.Unanchored && r.groupNumbers.isEmpty

/-- What the groups among the parts of a pattern capture of their words. -/
def captured : List Regex → List Text → Captures
  | group n _ :: rs, w :: ws => captured rs ws ++ [(n, w)]
  | _ :: rs, _ :: ws => captured rs ws
  | _, _ => []

/-- What the first way to match all that remains captures. -/
def whole (length : Nat) (r : Regex) (s : Text) : Option Captures :=
  ((r.run length s).find? fun p => p.1.isEmpty).map Prod.snd

variable {length : Nat} {s : Text}

theorem isAlpha_eq (c : Char) : c.isAlpha = true ↔
    (65 ≤ c.toNat ∧ c.toNat ≤ 90) ∨ (97 ≤ c.toNat ∧ c.toNat ≤ 122) := by
  have hw : c.isAlpha = (decide ('A' ≤ c ∧ c ≤ 'Z') || 'a' ≤ c && c ≤ 'z') := rfl
  rw [hw]
  simp [char_le_iff]

theorem isAlphanum_eq (c : Char) : c.isAlphanum = true ↔
    c.isAlpha = true ∨ (48 ≤ c.toNat ∧ c.toNat ≤ 57) := by
  have hw : c.isAlphanum = (c.isAlpha || '0' ≤ c && c ≤ '9') := rfl
  rw [hw]
  simp [char_le_iff]

/-- A literal without letters is taken as it is. -/
theorem mem_lit_plain_words {str : String} {w : Text}
    (h : (str.toList.all fun c => !c.isAlpha) = true) : w ∈ (lit str).words ↔ w = str.toList := by
  rw [mem_lit_words]
  generalize str.toList = chars at h ⊢
  constructor
  · intro hmap
    induction chars generalizing w with
    | nil => exact List.map_eq_nil_iff.mp hmap
    | cons d chars ih =>
      rw [List.all_cons, Bool.and_eq_true_iff] at h
      obtain ⟨c, rest, rfl, hc, hrest⟩ := List.map_eq_cons_iff.mp hmap
      have hletter : ¬ ((65 ≤ d.toNat ∧ d.toNat ≤ 90) ∨ (97 ≤ d.toNat ∧ d.toNat ≤ 122)) := by
        rw [← isAlpha_eq]
        simpa using h.1
      have hlow : d.toLower = d := by
        have hnat := toNat_toLower d
        rw [if_neg (by omega)] at hnat
        exact Char.toNat_inj.mp hnat
      rw [hlow] at hc
      rw [toLower_eq_of_not_letter hc (by omega), ih h.2 hrest]
  · rintro rfl
    rfl

theorem mem_lit_char_words {str : String} {d : Char} {w : Text} (hstr : str.toList = [d])
    (hd : d.toNat < 65 ∨ (90 < d.toNat ∧ d.toNat < 97) ∨ 122 < d.toNat) :
    w ∈ (lit str).words ↔ w = [d] := by
  have hletter : ¬ d.isAlpha = true := by
    rw [isAlpha_eq]
    omega
  have hplain : (str.toList.all fun c => !c.isAlpha) = true := by
    simpa [hstr] using hletter
  rw [mem_lit_plain_words hplain, hstr]

/-- A range takes the characters one of whose spellings is in it. -/
theorem range_words {first last : Char} {p : Char → Prop} {w : Text}
    (h : ∀ c, ((first.toNat ≤ c.toLower.toNat ∧ c.toLower.toNat ≤ last.toNat) ∨
      (first.toNat ≤ c.toUpper.toNat ∧ c.toUpper.toNat ≤ last.toNat)) ↔ p c) :
    w ∈ (range first last).words ↔ ∃ c, p c ∧ w = [c] := by
  rw [range, mem_set_words]
  simp only [Bool.or_eq_true, Bool.and_eq_true, decide_eq_true_eq, char_le_iff, h]

theorem letter_words {w : Text} : w ∈ (range 'a' 'z').words ↔ ∃ c, c.isAlpha = true ∧ w = [c] := by
  refine range_words fun c => ?_
  have hspelling := spelling_cases c
  simp only [isAlpha_eq, Char.reduceToNat]
  omega

theorem digit_words {w : Text} : w ∈ (range '0' '9').words ↔
    ∃ c : Char, (48 ≤ c.toNat ∧ c.toNat ≤ 57) ∧ w = [c] := by
  refine range_words fun c => ?_
  have hspelling := spelling_cases c
  simp only [Char.reduceToNat]
  omega

theorem alnum_words {w : Text} : w ∈ alnum.words ↔ ∃ c, c.isAlphanum = true ∧ w = [c] := by
  rw [alnum, mem_alt_words, letter_words, digit_words]
  simp only [isAlphanum_eq, or_and_right, exists_or]

theorem digits_words {w : Text} : w ∈ (plus (range '0' '9')).words ↔
    w ≠ [] ∧ ∀ c ∈ w, c.isDigit = true := by
  rw [mem_plus_set_words fun _ => digit_words]
  refine and_congr_right fun _ => forall₂_congr fun c _ => ?_
  have hdigit : c.isDigit = (c ≥ '0' && c ≤ '9') := rfl
  rw [hdigit]
  simp [char_le_iff]

theorem number_words (n : Nat) : decimal n ∈ (plus (range '0' '9')).words :=
  digits_words.mpr ⟨decimal_ne_nil n, fun _ => digit_decimal⟩

theorem all_cons (r : Regex) (rs : List Regex) : all (r :: rs) = seq r (all rs) := rfl

/-- Without anchors before its end, a pattern of whole lines takes the words of a language. -/
theorem matches_all_eol (rs : List Regex) (h : ∀ r ∈ rs, r.Unanchored = true) {s : Text} :
    Matches length (all (rs ++ [eol])) s [] ↔ s ∈ (all rs).words := by
  induction rs generalizing s with
  | nil =>
    rw [List.nil_append, all_cons, matches_seq]
    constructor
    · rintro ⟨t, heol, _⟩
      rw [(matches_eol heol).1]
      exact (Language.mem_one _).mpr rfl
    · intro hs
      rw [(Language.mem_one _).mp hs]
      exact ⟨[], .eol, .empty⟩
  | cons r rs ih =>
    obtain ⟨hr, hrs⟩ := List.forall_mem_cons.mp h
    rw [List.cons_append, all_cons, all_cons, matches_seq, mem_seq_words]
    simp only [ih hrs, matches_iff_words hr]
    constructor
    · rintro ⟨t, ⟨w, hw, rfl⟩, ht⟩
      exact ⟨w, hw, t, ht, rfl⟩
    · rintro ⟨w, hw, t, ht, rfl⟩
      exact ⟨t, ⟨w, hw, rfl⟩, ht⟩

theorem regexMatch_line_iff (rs : List Regex) (h : ∀ r ∈ rs, r.Unanchored = true) {s : Text} :
    (regexMatch (all (bol :: (rs ++ [eol]))) s).isSome = true ↔ s ∈ (all rs).words := by
  rw [regexMatch_isSome, all_cons, matches_seq, ← matches_all_eol rs h]
  constructor
  · rintro ⟨t, hbol, hrest⟩
    rwa [matches_bol hbol] at hrest
  · intro hrest
    exact ⟨s, .bol rfl, hrest⟩

/-- A text in one line. -/
def NoBreak (s : Text) : Prop := ∀ c ∈ s, c ≠ '\n' ∧ c ≠ '\r'

instance (s : Text) : Decidable (NoBreak s) :=
  List.decidableBAll (fun c => c ≠ '\n' ∧ c ≠ '\r') s

theorem any_words {w : Text} : w ∈ any.words ↔ ∃ c, (c ≠ '\n' ∧ c ≠ '\r') ∧ w = [c] := by
  simp [any, mem_set_words]

theorem star_any_words {w : Text} : w ∈ (star any).words ↔ NoBreak w :=
  mem_star_set_words fun _ => any_words

theorem plus_any_words {w : Text} : w ∈ (plus any).words ↔ w ≠ [] ∧ NoBreak w :=
  mem_plus_set_words fun _ => any_words

/-- What a part takes and captures. -/
theorem mem_run_plain {r : Regex} (hr : Plain r = true) {s : Text} {p : Text × Captures}
    (h : p ∈ r.run length s) : ∃ w ∈ r.words, s = w ++ p.1 ∧ p.2 = captured [r] [w] := by
  cases r with
  | group n r =>
    simp only [Plain, Bool.and_eq_true, List.isEmpty_iff] at hr
    exact mem_run_group hr.1 hr.2 h
  | _ =>
    simp only [Plain, Bool.and_eq_true, List.isEmpty_iff] at hr
    obtain ⟨w, hw, hs⟩ := matches_words (run_matches h) hr.1
    exact ⟨w, hw, hs, run_captures_nothing hr.2 h⟩

theorem captured_cons (r : Regex) (rs : List Regex) (w : Text) (ws : List Text) :
    captured (r :: rs) (w :: ws) = captured rs ws ++ captured [r] [w] := by
  cases r <;> simp [captured]

/-- The parts of a pattern share the text among them. -/
theorem mem_run_all {rs : List Regex} {last : Regex} (hrs : ∀ r ∈ rs, Plain r = true) {s : Text}
    {p : Text × Captures} (h : p ∈ (rs.foldr seq last).run length s) :
    ∃ ws, List.Forall₂ (fun r w => w ∈ r.words) rs ws ∧
      ∃ t, s = ws.flatten ++ t ∧ ∃ caps, (p.1, caps) ∈ last.run length t ∧
        p.2 = caps ++ captured rs ws := by
  induction rs generalizing s p with
  | nil => exact ⟨[], .nil, s, rfl, p.2, h, (List.append_nil _).symm⟩
  | cons r rs ih =>
    obtain ⟨hr, hrs⟩ := List.forall_mem_cons.mp hrs
    obtain ⟨q, hq, q', hq', rfl⟩ := mem_run_seq h
    obtain ⟨w, hw, rfl, hcaps⟩ := mem_run_plain hr hq
    obtain ⟨ws, hws, t, hs, caps, hlast, hcaps'⟩ := ih hrs hq'
    refine ⟨w :: ws, .cons hw hws, t, by rw [hs]; simp, caps, hlast, ?_⟩
    rw [captured_cons, ← List.append_assoc, ← hcaps', hcaps]

theorem regexMatch_eq (r : Regex) (s : Text) :
    regexMatch r s = (whole s.length r s).map (submatches r s) := by
  rw [regexMatch, whole, Option.map_map]
  rfl

theorem whole_seq (a b : Regex) (s : Text) : whole length (seq a b) s =
    (a.run length s).findSome? fun p => (whole length b p.1).map fun caps => caps ++ p.2 := by
  rw [whole, run_seq, List.find?_flatMap, List.map_findSome?]
  congr 1
  funext p
  rw [Function.comp_apply, List.find?_map, Option.map_map, whole, Option.map_map]
  rfl

theorem whole_bol (r : Regex) (s : Text) : whole s.length (seq bol r) s = whole s.length r s := by
  rw [whole_seq, run, if_pos rfl, List.findSome?_singleton]
  simp

/-- Of parts that capture the words that they take, a pattern of whole lines captures these words. -/
theorem whole_parts {rs : List Regex} (hrs : ∀ r ∈ rs, Plain r = true) {caps : Captures}
    (h : whole length (all (rs ++ [eol])) s = some caps) :
    ∃ ws, List.Forall₂ (fun r w => w ∈ r.words) rs ws ∧ s = ws.flatten ∧ caps = captured rs ws := by
  obtain ⟨p, hp, rfl⟩ := Option.map_eq_some_iff.mp h
  have hend : p.1 = [] := by simpa using List.find?_some hp
  have hrun := List.mem_of_find?_eq_some hp
  rw [all, List.foldr_append] at hrun
  obtain ⟨ws, hws, t, hs, caps, hlast, hcaps⟩ := mem_run_all hrs hrun
  obtain ⟨q₁, h₁, q₂, h₂, he⟩ := mem_run_seq hlast
  obtain ⟨rfl, _⟩ := matches_eol (run_matches h₁)
  have hnothing : caps = [] := run_captures_nothing (r := seq eol empty) rfl hlast
  exact ⟨ws, hws, by simpa using hs, by rw [hcaps, hnothing, List.nil_append]⟩

/-- A pattern of whole lines captures the words of its groups. -/
theorem regexMatch_line_some (rs : List Regex) (hrs : ∀ r ∈ rs, Plain r = true)
    {arguments : List Text} (h : regexMatch (all (bol :: (rs ++ [eol]))) s = some arguments) :
    ∃ ws, List.Forall₂ (fun r w => w ∈ r.words) rs ws ∧ s = ws.flatten ∧
      arguments = submatches (all (bol :: (rs ++ [eol]))) s (captured rs ws) := by
  rw [regexMatch_eq] at h
  obtain ⟨caps, hwhole, rfl⟩ := Option.map_eq_some_iff.mp h
  rw [all_cons, whole_bol] at hwhole
  obtain ⟨ws, hws, hs, rfl⟩ := whole_parts hrs hwhole
  exact ⟨ws, hws, hs, rfl⟩

end Regex

end Protocols
