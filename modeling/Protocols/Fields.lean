import Mathlib.Data.List.TakeWhile

namespace Protocols

variable {α : Type _} {p : α → Bool}

/-- The parts of a list between separators, without the empty ones. -/
def fields (p : α → Bool) (xs : List α) : List (List α) :=
  (xs.splitOnP p).filter fun part => !part.isEmpty

/-- A part between separators. -/
structure IsField (p : α → Bool) (w : List α) : Prop where
  nonempty : w ≠ []
  plain : ∀ c ∈ w, p c = false

section

variable {c : α} {w blanks xs : List α} {ws : List (List α)}

theorem fields_nil : fields p [] = [] := by
  simp [fields, List.splitOnP_nil]

theorem fields_separator (hc : p c = true) (xs : List α) : fields p (c :: xs) = fields p xs := by
  have hsplit := List.splitOnP_append_cons [] xs hc
  rw [List.nil_append, List.splitOnP_nil] at hsplit
  rw [fields, hsplit]
  rfl

theorem fields_skip (h : ∀ c ∈ blanks, p c = true) (xs : List α) :
    fields p (blanks ++ xs) = fields p xs := by
  induction blanks with
  | nil => rfl
  | cons c blanks ih =>
    obtain ⟨hc, h⟩ := List.forall_mem_cons.mp h
    rw [List.cons_append, fields_separator hc, ih h]

theorem IsField.fields_eq (hw : IsField p w) : fields p w = [w] := by
  simp [fields, List.splitOnP_eq_singleton hw.plain, hw.nonempty]

/-- A field ends where a separator comes or nothing does. -/
theorem IsField.fields_append (hw : IsField p w) (h : ∀ c ∈ xs.head?, p c = true) :
    fields p (w ++ xs) = w :: fields p xs := by
  cases xs with
  | nil => rw [List.append_nil, hw.fields_eq, fields_nil]
  | cons c xs =>
    have hc : p c = true := h c rfl
    rw [fields_separator hc, fields, List.splitOnP_append_cons_of_forall_mem hw.plain c hc]
    simp [fields, hw.nonempty]

theorem exists_span (q : α → Bool) (xs : List α) :
    ∃ u v, xs = u ++ v ∧ (∀ c ∈ u, q c = true) ∧ ∀ c ∈ v.head?, q c = false := by
  refine ⟨xs.takeWhile q, xs.dropWhile q, List.takeWhile_append_dropWhile.symm,
    fun c => List.mem_takeWhile_imp, fun c hc => ?_⟩
  have hhead := List.head?_dropWhile_not q xs
  rw [Option.mem_def.mp hc] at hhead
  exact hhead

/-- A list is blank, or has a first field. -/
theorem blank_or_field (p : α → Bool) (xs : List α) : (∀ c ∈ xs, p c = true) ∨
    ∃ before w rest, xs = before ++ (w ++ rest) ∧ (∀ c ∈ before, p c = true) ∧ IsField p w ∧
      ∀ c ∈ rest.head?, p c = true := by
  obtain ⟨before, s, rfl, hbefore, hs⟩ := exists_span p xs
  obtain ⟨w, rest, rfl, hw, hrest⟩ := exists_span (fun c => !p c) s
  cases w with
  | nil =>
    left
    cases rest with
    | nil => simpa using hbefore
    | cons c rest =>
      have hc : p c = false := hs c rfl
      have hc' : (!p c) = false := hrest c rfl
      rw [hc] at hc'
      cases hc'
  | cons c w =>
    refine .inr ⟨before, c :: w, rest, rfl, hbefore, ⟨List.cons_ne_nil c w, ?_⟩, ?_⟩
    · simpa using hw
    · simpa using hrest

theorem fields_eq_nil : fields p xs = [] ↔ ∀ c ∈ xs, p c = true := by
  constructor
  · intro h
    obtain hblank | ⟨before, w, rest, rfl, hbefore, hw, hrest⟩ := blank_or_field p xs
    · exact hblank
    · rw [fields_skip hbefore, hw.fields_append hrest] at h
      cases h
  · intro h
    rw [← List.append_nil xs, fields_skip h, fields_nil]

theorem fields_eq_cons : fields p xs = w :: ws ↔ ∃ before rest, xs = before ++ (w ++ rest) ∧
    (∀ c ∈ before, p c = true) ∧ IsField p w ∧ (∀ c ∈ rest.head?, p c = true) ∧
      fields p rest = ws := by
  constructor
  · intro h
    obtain hblank | ⟨before, w', rest, rfl, hbefore, hw, hrest⟩ := blank_or_field p xs
    · rw [fields_eq_nil.mpr hblank] at h
      cases h
    · rw [fields_skip hbefore, hw.fields_append hrest] at h
      cases h
      exact ⟨before, rest, rfl, hbefore, hw, hrest, rfl⟩
  · rintro ⟨before, rest, rfl, hbefore, hw, hrest, rfl⟩
    rw [fields_skip hbefore, hw.fields_append hrest]

theorem fields_eq_one : fields p xs = [w] ↔ ∃ before after, xs = before ++ (w ++ after) ∧
    (∀ c ∈ before, p c = true) ∧ IsField p w ∧ ∀ c ∈ after, p c = true := by
  simp only [fields_eq_cons, fields_eq_nil]
  constructor
  · rintro ⟨before, after, hxs, hbefore, hw, _, hafter⟩
    exact ⟨before, after, hxs, hbefore, hw, hafter⟩
  · rintro ⟨before, after, hxs, hbefore, hw, hafter⟩
    exact ⟨before, after, hxs, hbefore, hw, fun c hc => hafter c (List.mem_of_mem_head? hc), hafter⟩

theorem fields_eq_two {v : List α} : fields p xs = [w, v] ↔ ∃ before between after,
    xs = before ++ (w ++ (between ++ (v ++ after))) ∧ (∀ c ∈ before, p c = true) ∧ IsField p w ∧
      between ≠ [] ∧ (∀ c ∈ between, p c = true) ∧ IsField p v ∧ ∀ c ∈ after, p c = true := by
  rw [fields_eq_cons]
  simp only [fields_eq_one]
  constructor
  · rintro ⟨before, _, hxs, hbefore, hw, hhead, between, after, rfl, hbetween, hv, hafter⟩
    refine ⟨before, between, after, hxs, hbefore, hw, ?_, hbetween, hv, hafter⟩
    -- the second field would go on with the first one
    rintro rfl
    obtain ⟨c, v, rfl⟩ := List.exists_cons_of_ne_nil hv.nonempty
    have hc := hv.plain c List.mem_cons_self
    rw [hhead c rfl] at hc
    cases hc
  · rintro ⟨before, between, after, hxs, hbefore, hw, hne, hbetween, hv, hafter⟩
    obtain ⟨c, rest, rfl⟩ := List.exists_cons_of_ne_nil hne
    refine ⟨before, _, hxs, hbefore, hw, ?_, c :: rest, after, rfl, hbetween, hv, hafter⟩
    rintro d hd
    cases hd
    exact hbetween c List.mem_cons_self

end

end Protocols
