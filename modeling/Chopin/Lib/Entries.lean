import Mathlib.Data.List.Basic

/-!
# Insertion-ordered maps and sets

A script `Map` keeps its entries in the order their keys were first set: setting a key again
replaces the value where it stands, and a key that is deleted and set again goes to the end.  A
`Set` built from a list keeps the first of each value.
-/

set_option autoImplicit false

namespace Entries

variable {κ υ : Type} [DecidableEq κ]

/-- `map.get(key)`, by the equality that the other operations compare keys with. -/
abbrev get (entries : List (κ × υ)) (key : κ) : Option υ := entries.lookup key

/-- `map.set(key, value)`. -/
def set (entries : List (κ × υ)) (key : κ) (value : υ) : List (κ × υ) :=
  if entries.any (·.1 == key) then
    entries.map fun entry ↦ if entry.1 = key then (key, value) else entry
  else entries ++ [(key, value)]

/-- `map.delete(key)`. -/
def delete (entries : List (κ × υ)) (key : κ) : List (κ × υ) := entries.filter (·.1 != key)

/-- `map.set(key(value), value)`, in a map whose keys are read off its values. -/
def put {υ : Type} (key : υ → κ) (values : List υ) (value : υ) : List υ :=
  if values.any (key · == key value) then
    values.map fun old ↦ if key old = key value then value else old
  else values ++ [value]

/-- `[...new Set(values)]`. -/
def distinct : List κ → List κ
  | [] => []
  | value :: rest => value :: (distinct rest).filter (· != value)

theorem lookup_replace (entries : List (κ × υ)) (key : κ) (value : υ) (other : κ) :
    (entries.map fun entry ↦ if entry.1 = key then (key, value) else entry).lookup other =
      if other = key then (entries.lookup key).map fun _ ↦ value else entries.lookup other := by
  induction entries with
  | nil => by_cases hother : other = key <;> simp
  | cons entry rest ih =>
    obtain ⟨name, old⟩ := entry
    rw [List.map_cons]
    by_cases hname : name = key
    · subst hname
      rw [if_pos rfl, List.lookup_cons, List.lookup_cons, List.lookup_cons, ih]
      by_cases hother : other = name
      · simp [hother]
      · have hne : (other == name) = false := by simpa using hother
        simp [hne, hother]
    · have hne : (key == name) = false := beq_eq_false_iff_ne.2 (Ne.symm hname)
      rw [if_neg hname, List.lookup_cons, List.lookup_cons, List.lookup_cons, hne, ih]
      by_cases hother : other = key
      · simp [hother, hne]
      · simp [hother]

/-- Setting a key changes what is found under it, and nothing else. -/
theorem lookup_set (entries : List (κ × υ)) (key : κ) (value : υ) (other : κ) :
    (set entries key value).lookup other = if other = key then some value else entries.lookup other := by
  rw [set]
  split
  · rename_i hany
    obtain ⟨entry, hmem, hkey⟩ := List.any_eq_true.1 hany
    have hfound : (entries.lookup key).isSome :=
      List.lookup_isSome_iff.2 ⟨entry, hmem, beq_iff_eq.2 (beq_iff_eq.1 hkey).symm⟩
    obtain ⟨old, hold⟩ := Option.isSome_iff_exists.1 hfound
    rw [lookup_replace, hold, Option.map_some]
  · rename_i hany
    have hnone : entries.lookup key = none := by
      rw [List.lookup_eq_none_iff]
      intro entry hmem
      rw [List.any_eq_true, not_exists] at hany
      have hne := hany entry
      simp only [hmem, true_and, beq_iff_eq] at hne
      exact bne_iff_ne.2 (Ne.symm hne)
    rw [List.lookup_append]
    by_cases hother : other = key
    · subst hother
      simp [hnone]
    · have hne : (other == key) = false := by simpa using hother
      simp [hother, List.lookup_cons, hne]

theorem get_set (entries : List (κ × υ)) (key : κ) (value : υ) (other : κ) :
    get (set entries key value) other = if other = key then some value else get entries other :=
  lookup_set entries key value other

/-- Keeping the entries of some keys. -/
theorem lookup_filter (entries : List (κ × υ)) (keep : κ → Bool) (key : κ) :
    (entries.filter fun entry ↦ keep entry.1).lookup key = if keep key then entries.lookup key else none := by
  induction entries with
  | nil => by_cases hkeep : keep key <;> simp
  | cons entry rest ih =>
    obtain ⟨name, value⟩ := entry
    rw [List.filter_cons, List.lookup_cons]
    by_cases hname : key = name
    · subst hname
      by_cases hkeep : keep key
      · simp [hkeep]
      · rw [if_neg hkeep, ih, if_neg hkeep, if_neg hkeep]
    · have hne : (key == name) = false := by simpa using hname
      rw [hne, ← ih]
      split
      · rw [List.lookup_cons, hne]
      · rfl

/-- Deleting a key leaves every other. -/
theorem lookup_delete (entries : List (κ × υ)) (key other : κ) :
    (delete entries key).lookup other = if other = key then none else entries.lookup other := by
  rw [delete, lookup_filter entries (· != key)]
  by_cases hother : other = key <;> simp [hother]

/-- A change to the values alone, each by its key. -/
theorem lookup_map_entry {ω : Type} (entries : List (κ × υ)) (f : κ → υ → ω) (key : κ) :
    (entries.map fun entry ↦ (entry.1, f entry.1 entry.2)).lookup key = (entries.lookup key).map (f key) := by
  induction entries with
  | nil => rfl
  | cons entry rest ih =>
    rw [List.map_cons, List.lookup_cons, List.lookup_cons, ih]
    by_cases hkey : key = entry.1
    · rw [hkey, beq_self_eq_true]
      rfl
    · rw [beq_eq_false_iff_ne.2 hkey]

theorem lookup_map (entries : List (κ × υ)) (f : υ → υ) (key : κ) :
    (entries.map fun entry ↦ (entry.1, f entry.2)).lookup key = (entries.lookup key).map f :=
  lookup_map_entry entries (fun _ ↦ f) key

variable {entries : List (κ × υ)} {key : κ} {value : υ}

theorem mem_of_lookup (h : entries.lookup key = some value) : (key, value) ∈ entries := by
  obtain ⟨before, after, rfl, -⟩ := List.lookup_eq_some_iff.1 h
  exact List.mem_append_right _ List.mem_cons_self

variable {entry : κ × υ}

/-- Something is found under the key of an entry: the value of this entry, or of one before it. -/
theorem exists_get_of_mem (h : entry ∈ entries) :
    ∃ value, get entries entry.1 = some value ∧ (entry.1, value) ∈ entries := by
  have hsome : (get entries entry.1).isSome = true := List.lookup_isSome_iff.2 ⟨entry, h, beq_iff_eq.2 rfl⟩
  obtain ⟨value, hvalue⟩ := Option.isSome_iff_exists.1 hsome
  exact ⟨value, hvalue, mem_of_lookup hvalue⟩

/-- Where no key is repeated, every entry is the one found by its key. -/
theorem lookup_of_mem (hnodup : (entries.map (·.1)).Nodup)
    (h : (key, value) ∈ entries) : entries.lookup key = some value := by
  induction entries with
  | nil => cases h
  | cons entry rest ih =>
    obtain ⟨hnot, hrest⟩ := List.nodup_cons.1 hnodup
    rw [List.lookup_cons]
    obtain rfl | hmem := List.mem_cons.1 h
    · simp
    · have hne : key ≠ entry.1 := by
        rintro rfl
        exact hnot (List.mem_map.2 ⟨_, hmem, rfl⟩)
      rw [beq_eq_false_iff_ne.2 hne]
      exact ih hrest hmem

/-- An entry under a new key comes last. -/
theorem set_new (h : key ∉ entries.map (·.1)) (value : υ) : set entries key value = entries ++ [(key, value)] := by
  rw [set, if_neg]
  intro hany
  obtain ⟨entry, hmem, heq⟩ := List.any_eq_true.1 hany
  exact h (beq_iff_eq.1 heq ▸ List.mem_map_of_mem hmem)

/-- What a key is set to is the only entry that comes new. -/
theorem mem_set (h : entry ∈ set entries key value) : entry ∈ entries ∨ entry = (key, value) := by
  rw [set] at h
  split at h
  · obtain ⟨old, hold, rfl⟩ := List.mem_map.1 h
    split
    · exact .inr rfl
    · exact .inl hold
  · exact (List.mem_append.1 h).imp_right List.mem_singleton.1

/-- Setting a key repeats none. -/
theorem nodup_set (h : (entries.map (·.1)).Nodup) (key : κ) (value : υ) :
    ((set entries key value).map (·.1)).Nodup := by
  rw [set]
  split
  · have hkeys : (entries.map fun entry ↦ if entry.1 = key then (key, value) else entry).map (·.1) =
        entries.map (·.1) := by
      rw [List.map_map]
      refine List.map_congr_left fun entry _ ↦ ?_
      rw [Function.comp_apply]
      split
      · exact Eq.symm (by assumption)
      · rfl
    rwa [hkeys]
  · rename_i hany
    rw [List.map_append, List.nodup_append]
    refine ⟨h, List.nodup_cons.2 ⟨List.not_mem_nil, .nil⟩, fun name hname other hother ↦ ?_⟩
    obtain rfl := List.mem_singleton.1 hother
    obtain ⟨entry, hmem, rfl⟩ := List.mem_map.1 hname
    exact fun heq ↦ hany (List.any_eq_true.2 ⟨entry, hmem, beq_iff_eq.2 heq⟩)

theorem mem_delete : entry ∈ delete entries key ↔ entry ∈ entries ∧ entry.1 ≠ key := by
  rw [delete, List.mem_filter, bne_iff_ne]

theorem mem_distinct {values : List κ} {value : κ} : value ∈ distinct values ↔ value ∈ values := by
  induction values with
  | nil => rfl
  | cons first rest ih =>
    rw [distinct, List.mem_cons, List.mem_filter, ih, List.mem_cons]
    by_cases h : value = first <;> simp [h]

theorem nodup_distinct (values : List κ) : (distinct values).Nodup := by
  induction values with
  | nil => exact .nil
  | cons first rest ih =>
    rw [distinct, List.nodup_cons]
    exact ⟨by simp, ih.filter _⟩

theorem length_distinct_le (values : List κ) : (distinct values).length ≤ values.length := by
  induction values with
  | nil => exact Nat.le_refl _
  | cons first rest ih =>
    rw [distinct, List.length_cons, List.length_cons]
    exact Nat.succ_le_succ (Nat.le_trans (List.length_filter_le _ _) ih)

end Entries
