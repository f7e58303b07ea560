import Mathlib.Data.List.Nodup
import Chopin.Lib.Entries

/-!
# Maps keyed by their values

Values with a key of their own, put one after the other into a map: a value replaces the one with its key where that
stands, and comes last if there is none.
-/

set_option autoImplicit false

namespace Entries

variable {κ υ : Type} [DecidableEq κ] (key : υ → κ)

/-- Values put into a map, in their order. -/
def puts (found values : List υ) : List υ := values.foldl (put key) found

/-- `new Map(values.map(value => [key(value), value]))` -/
def collect (values : List υ) : List υ := puts key [] values

variable {key} {found values more : List υ} {value : υ}

@[simp] theorem puts_nil (found : List υ) : puts key found [] = found := rfl

theorem puts_append (found values more : List υ) :
    puts key found (values ++ more) = puts key (puts key found values) more := List.foldl_append

/-- A value is put in the place of the one with its key, or last. -/
theorem put_cases (key : υ → κ) (found : List υ) (value : υ) :
    (key value ∈ found.map key ∧
        put key found value = found.map fun old ↦ if key old = key value then value else old) ∨
      (key value ∉ found.map key ∧ put key found value = found ++ [value]) := by
  have hany : found.any (key · == key value) = true ↔ key value ∈ found.map key := by
    rw [List.any_eq_true, List.mem_map]
    exact exists_congr fun old ↦ and_congr_right fun _ ↦ beq_iff_eq
  rw [put]
  split
  · exact .inl ⟨hany.1 ‹_›, rfl⟩
  · exact .inr ⟨fun h ↦ ‹¬_› (hany.2 h), rfl⟩

theorem put_of_not_mem (h : key value ∉ found.map key) : put key found value = found ++ [value] := by
  obtain ⟨hmem, -⟩ | ⟨-, hput⟩ := put_cases key found value
  · exact (h hmem).elim
  · exact hput

theorem keys_put (key : υ → κ) (found : List υ) (value : υ) : (put key found value).map key =
    if key value ∈ found.map key then found.map key else found.map key ++ [key value] := by
  obtain ⟨hmem, hput⟩ | ⟨hnot, hput⟩ := put_cases key found value
  · rw [hput, if_pos hmem, List.map_map]
    refine List.map_congr_left fun old _ ↦ ?_
    rw [Function.comp_apply]
    split
    · exact Eq.symm ‹_›
    · rfl
  · rw [hput, if_neg hnot, List.map_append]
    rfl

/-- What is put under keys that are there leaves the keys as they are. -/
theorem keys_puts_of_subset (h : values.map key ⊆ found.map key) : (puts key found values).map key = found.map key := by
  induction values generalizing found with
  | nil => rfl
  | cons value rest ih =>
    rw [List.map_cons, List.cons_subset] at h
    have hkeys : (put key found value).map key = found.map key := by rw [keys_put, if_pos h.1]
    rw [puts, List.foldl_cons, ← puts, ih (hkeys.symm ▸ h.2), hkeys]

theorem nodup_put (h : (found.map key).Nodup) (value : υ) : ((put key found value).map key).Nodup := by
  rw [keys_put]
  split
  · exact h
  · rename_i hnot
    exact List.nodup_append.2 ⟨h, List.nodup_singleton _, fun a ha b hb hab ↦
      hnot (List.mem_singleton.1 hb ▸ hab ▸ ha)⟩

theorem nodup_puts (h : (found.map key).Nodup) (values : List υ) : ((puts key found values).map key).Nodup := by
  induction values generalizing found with
  | nil => exact h
  | cons value rest ih => exact ih (nodup_put h value)

theorem nodup_collect (key : υ → κ) (values : List υ) : ((collect key values).map key).Nodup :=
  nodup_puts (show (([] : List υ).map key).Nodup from List.nodup_nil) values

theorem mem_keys_puts {name : κ} :
    name ∈ (puts key found values).map key ↔ name ∈ found.map key ∨ name ∈ values.map key := by
  induction values generalizing found with
  | nil => simp
  | cons value rest ih =>
    have hput : name ∈ (put key found value).map key ↔ name ∈ found.map key ∨ name = key value := by
      rw [keys_put]
      split
      · rename_i hmem
        exact ⟨.inl, fun h ↦ h.elim id fun h ↦ h ▸ hmem⟩
      · rw [List.mem_append, List.mem_singleton]
    rw [puts, List.foldl_cons, ← puts, ih, hput, List.map_cons, List.mem_cons, or_assoc]

/-- Values with keys of their own come last, in their order. -/
theorem puts_new (h : ((found ++ values).map key).Nodup) : puts key found values = found ++ values := by
  induction values generalizing found with
  | nil => exact (List.append_nil found).symm
  | cons value rest ih =>
    have hnot : key value ∉ found.map key := by
      rw [List.map_append, List.nodup_append'] at h
      exact fun hmem ↦ h.2.2 hmem List.mem_cons_self
    rw [puts, List.foldl_cons, ← puts, put_of_not_mem hnot, ih (by rwa [List.append_assoc]), List.append_assoc]
    rfl

theorem collect_of_nodup (h : (values.map key).Nodup) : collect key values = values := puts_new h

/-- What is put under other keys leaves a value where it is. -/
theorem puts_cons {first : υ} (h : ∀ value ∈ values, key value ≠ key first) :
    puts key (first :: found) values = first :: puts key found values := by
  induction values generalizing found with
  | nil => rfl
  | cons value rest ih =>
    obtain ⟨hne, hrest⟩ := List.forall_mem_cons.1 h
    have hput : put key (first :: found) value = first :: put key found value := by
      have hfirst : (key first == key value) = false := beq_eq_false_iff_ne.2 (Ne.symm hne)
      rw [put, put, List.any_cons, hfirst, Bool.false_or]
      split
      · rw [List.map_cons, if_neg (Ne.symm hne)]
      · rfl
    rw [puts, List.foldl_cons, hput, ← puts, ih hrest]
    rfl

theorem put_cons_self {first : υ} (hkey : key value = key first) (h : key first ∉ found.map key) :
    put key (first :: found) value = value :: found := by
  have hrest : (found.map fun old ↦ if key old = key value then value else old) = found := by
    refine (List.map_congr_left fun old hold ↦ if_neg fun hsame ↦ h ?_).trans (List.map_id found)
    exact hkey ▸ hsame ▸ List.mem_map_of_mem hold
  obtain ⟨-, hput⟩ | ⟨hnot, -⟩ := put_cases key (first :: found) value
  · rw [hput, List.map_cons, if_pos hkey.symm, hrest]
  · exact (hnot (hkey ▸ List.mem_cons_self)).elim

/-- **A map is brought up to date by the values that differ**, where the new values begin with its keys. -/
theorem puts_diff [DecidableEq υ] {target : List υ} (hnodup : (target.map key).Nodup)
    (hkeys : found.map key <+: target.map key) :
    puts key found (target.filter fun value ↦ decide (found.find? (key · == key value) ≠ some value)) = target := by
  induction found generalizing target with
  | nil =>
    have hall : target.filter (fun value ↦ decide (([] : List υ).find? (key · == key value) ≠ some value)) = target :=
      List.filter_eq_self.2 fun value _ ↦ rfl
    rw [hall]
    exact collect_of_nodup hnodup
  | cons first found ih =>
    cases target with
    | nil => exact absurd (List.prefix_nil.1 hkeys) (List.cons_ne_nil _ _)
    | cons value target =>
      rw [List.map_cons, List.map_cons, List.cons_prefix_cons] at hkeys
      obtain ⟨hkey, hkeys⟩ := hkeys
      rw [List.map_cons, List.nodup_cons] at hnodup
      obtain ⟨hnot, hnodup⟩ := hnodup
      have hother : ∀ other ∈ target, key other ≠ key first := fun other hmem hsame ↦
        hnot (hkey ▸ hsame ▸ List.mem_map_of_mem hmem)
      -- What differs further on does so without the first value.
      have hrest : target.filter (fun value ↦ decide ((first :: found).find? (key · == key value) ≠ some value)) =
          target.filter fun value ↦ decide (found.find? (key · == key value) ≠ some value) := by
        refine List.filter_congr fun other hmem ↦ ?_
        rw [List.find?_cons_of_neg (by simpa using (hother other hmem).symm)]
      have hput : ∀ head, key head = key first →
          puts key (head :: found) (target.filter fun value ↦ decide (found.find? (key · == key value) ≠ some value)) =
            head :: target := by
        intro head hhead
        rw [puts_cons fun other hmem ↦ hhead ▸ hother other (List.mem_filter.1 hmem).1, ih hnodup hkeys]
      by_cases hsame : first = value
      · have hfound : (first :: found).find? (key · == key value) = some value := by
          rw [List.find?_cons_of_pos (by simpa using hkey), hsame]
        have hskip : ¬decide ((first :: found).find? (key · == key value) ≠ some value) = true := by
          rw [decide_eq_true_eq]
          exact fun h ↦ h hfound
        rw [List.filter_cons, if_neg hskip, hrest, hput first rfl, hsame]
      · have hfound : (first :: found).find? (key · == key value) ≠ some value := by
          rw [List.find?_cons_of_pos (by simpa using hkey)]
          exact fun h ↦ hsame (Option.some.inj h)
        have hfresh : key first ∉ found.map key := fun hmem ↦ hnot (hkey ▸ hkeys.subset hmem)
        rw [List.filter_cons, if_pos (decide_eq_true hfound), hrest, puts, List.foldl_cons,
          put_cons_self hkey.symm hfresh, ← puts, hput value hkey.symm]

/-- A map that is as large as the values put into it has one for each of them. -/
theorem nodup_of_length (h : (collect key values).length = values.length) : (values.map key).Nodup := by
  have hgrow : ∀ {found values : List υ}, (puts key found values).length ≤ found.length + values.length ∧
      ((puts key found values).length = found.length + values.length → (values.map key).Nodup ∧
        ∀ name ∈ values.map key, name ∉ found.map key) := by
    intro found values
    induction values generalizing found with
    | nil => exact ⟨Nat.le_refl _, fun _ ↦ ⟨List.nodup_nil, fun name h ↦ nomatch h⟩⟩
    | cons value rest ih =>
      obtain ⟨hle, hfull⟩ := @ih (put key found value)
      rw [puts, List.foldl_cons, ← puts, List.length_cons]
      have hlength : (put key found value).length = ((put key found value).map key).length := List.length_map _ |>.symm
      rw [keys_put] at hlength
      split at hlength
      · rw [List.length_map] at hlength
        exact ⟨by omega, fun h ↦ by omega⟩
      · rename_i hnot
        rw [List.length_append, List.length_map, List.length_singleton] at hlength
        refine ⟨by omega, fun h ↦ ?_⟩
        obtain ⟨hnodup, hfresh⟩ := hfull (by omega)
        rw [keys_put, if_neg hnot] at hfresh
        refine ⟨List.nodup_cons.2 ⟨fun hmem ↦ hfresh _ hmem (by simp), hnodup⟩, ?_⟩
        rw [List.map_cons, List.forall_mem_cons]
        exact ⟨hnot, fun name hmem h ↦ hfresh name hmem (List.mem_append_left _ h)⟩
  exact (hgrow.2 (by rw [List.length_nil, Nat.zero_add]; exact h)).1

end Entries
