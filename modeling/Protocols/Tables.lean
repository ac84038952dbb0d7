import Mathlib.Data.List.AList

namespace Protocols

variable {α β : Type} [DecidableEq α]

/-- A map in which every key occurs once. -/
abbrev Table (α β : Type) := AList fun _ : α => β

theorem dlookup_kreplace_self {k : α} {v : β} {entries : List (Sigma fun _ : α => β)}
    (h : k ∈ entries.keys) : (entries.kreplace k v).dlookup k = some v := by
  induction entries with
  | nil => simp at h
  | cons e entries ih =>
    by_cases hk : k = e.1
    · subst hk
      rw [List.kreplace, List.lookmap_cons_some (b := ⟨e.1, v⟩) _ _ (by simp)]
      simp
    · have hm : k ∈ entries.keys := by
        simpa [hk] using h
      rw [List.kreplace, List.lookmap_cons_none _ _ (by simp [hk]), List.dlookup_cons_ne _ _ hk]
      exact ih hm

theorem dlookup_kreplace_ne {j k : α} {v : β} (h : j ≠ k)
    (entries : List (Sigma fun _ : α => β)) :
    (entries.kreplace k v).dlookup j = entries.dlookup j := by
  have skip : ∀ e : Sigma fun _ : α => β, ∀ rest : List (Sigma fun _ : α => β), j ≠ e.1 →
      (e :: rest).dlookup j = rest.dlookup j := fun e rest hj => List.dlookup_cons_ne rest e hj
  induction entries with
  | nil => rfl
  | cons e entries ih =>
    by_cases hk : k = e.1
    · subst hk
      rw [List.kreplace, List.lookmap_cons_some (b := ⟨e.1, v⟩) _ _ (by simp)]
      exact (skip ⟨e.1, v⟩ entries h).trans (skip e entries h).symm
    · rw [List.kreplace, List.lookmap_cons_none _ _ (by simp [hk])]
      by_cases hj : j = e.1
      · subst hj
        cases e
        rw [List.dlookup_cons_eq, List.dlookup_cons_eq]
      · rw [skip _ _ hj, skip _ _ hj]
        exact ih

/-- The entry of a key is changed; a missing key is inserted with the default value first. -/
def Table.modify (t : Table α β) (k : α) (d : β) (f : β → β) : Table α β :=
  match t.lookup k with
  | some v => t.replace k (f v)
  | none => t.insert k (f d)

@[simp] theorem lookup_modify_self (t : Table α β) (k : α) (d : β) (f : β → β) :
    (t.modify k d f).lookup k = some (f ((t.lookup k).getD d)) := by
  unfold Table.modify
  split
  next v hv =>
    rw [hv]
    exact dlookup_kreplace_self (AList.lookup_isSome.mp (by simp [hv]))
  next hn =>
    rw [hn, AList.lookup_insert]
    rfl

theorem lookup_modify_ne {j k : α} (t : Table α β) (d : β) (f : β → β) (h : j ≠ k) :
    (t.modify k d f).lookup j = t.lookup j := by
  unfold Table.modify
  split
  next => exact dlookup_kreplace_ne h _
  next => exact AList.lookup_insert_ne h

theorem mem_modify {j k : α} (t : Table α β) (d : β) (f : β → β) :
    j ∈ t.modify k d f ↔ j = k ∨ j ∈ t := by
  by_cases h : j = k
  · subst h
    simp [← AList.lookup_isSome]
  · rw [← AList.lookup_isSome, lookup_modify_ne _ _ _ h, AList.lookup_isSome]
    simp [h]

/-- Where the key is there already, none is inserted. -/
theorem keys_modify {k : α} {t : Table α β} (h : k ∈ t) (d : β) (f : β → β) :
    (t.modify k d f).keys = t.keys := by
  obtain ⟨v, hv⟩ := Option.isSome_iff_exists.mp (AList.lookup_isSome.mpr h)
  rw [Table.modify, hv]
  exact AList.keys_replace _ _ _

theorem modify_id {k : α} {t : Table α β} (h : k ∈ t) (d : β) : t.modify k d id = t := by
  obtain ⟨v, hv⟩ := Option.isSome_iff_exists.mp (AList.lookup_isSome.mpr h)
  rw [Table.modify, hv]
  exact AList.ext (List.kreplace_self t.nodupKeys (AList.mem_lookup_iff.mp hv))

end Protocols
