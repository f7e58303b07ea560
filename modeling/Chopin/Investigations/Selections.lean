import Chopin.Lib.Except
import Chopin.Lib.Lists
import Chopin.Investigations.Results

/-!
# Shared selections

People who look at a view select rows of it and values of its filter columns, and everybody sees the same selection.
A patch sets some fields and names the revision of each that it was made from, so two people can change different
fields at once, and of two who change one field the second is told.
-/

set_option autoImplicit false

open Script (Platform)
open Entries

namespace Chopin.Investigations.Selections

/-- A patch as it arrives: the fields that it sets are the keys of an object. -/
structure Patch extends SelectionPatch where
  distinct : (set.map (·.1)).Nodup

/-- `applySelection`, which reads the patch by its schema first. -/
def submit (platform : Platform) (dataset : Dataset) (state : ViewState) (patch : Patch) :
    Except Failure ViewState := do
  refuse (!selectionPatchSchema platform patch.toSelectionPatch) .invalid
  applySelection state dataset patch.toSelectionPatch

/-- The state after a patch: a patch that is refused leaves it. -/
def select (platform : Platform) (dataset : Dataset) (state : ViewState) (patch : Patch) : ViewState :=
  match submit platform dataset state patch with
  | .ok after => after
  | .error _ => state

/-- The state after some patches. -/
def run (platform : Platform) (dataset : Dataset) (state : ViewState) (patches : List Patch) : ViewState :=
  patches.foldl (select platform dataset) state

variable {platform : Platform} {dataset : Dataset} {state after : ViewState} {patch other : Patch} {key : String}
  {field : Field}

/-! ## One patch -/

/-- A field once a patch has set it, or not. -/
def overlay (set : List (String × List Scalar)) (key : String) (field : Field) : Field :=
  match set.lookup key with
  | some values => if values = field.values then field else { revision := field.revision + 1, values := values }
  | none => field

def merge (set : List (String × List Scalar)) (fields : List (String × Field)) : List (String × Field) :=
  fields.map fun entry ↦ (entry.1, overlay set entry.1 entry.2)

/-- The patch changes a field. -/
def changes (set : List (String × List Scalar)) (fields : List (String × Field)) : Bool :=
  fields.any fun entry ↦ overlay set entry.1 entry.2 != entry.2

/-- The state that a patch makes, if it is taken. -/
def merged (set : List (String × List Scalar)) (state : ViewState) : ViewState where
  revision := if changes set state.fields then state.revision + 1 else state.revision
  fields := merge set state.fields

/-- A field may be set to these values. -/
structure Captured (dataset : Dataset) (key : String) (values : List Scalar) : Prop where
  single : key = "selection" → values.length ≤ 1
  captured : ∀ value ∈ values, value ∈ allowed dataset key
  nodup : values.Nodup

/-- A field that a patch sets is known, is at the revision the patch was made from, and may be set so. -/
def Settable (dataset : Dataset) (state : ViewState) (expected : List (String × Nat))
    (entry : String × List Scalar) : Prop :=
  ∃ field, state.fields.lookup entry.1 = some field ∧ expected.lookup entry.1 = some field.revision ∧
    Captured dataset entry.1 entry.2

/-- A patch that is taken. -/
structure Accepted (platform : Platform) (dataset : Dataset) (state : ViewState) (patch : Patch) : Prop where
  schema : selectionPatchSchema platform patch.toSelectionPatch = true
  sized : (patch.set.isEmpty || 9 < patch.set.length || patch.set.length != patch.expected.length) = false
  settable : ∀ entry ∈ patch.set, Settable dataset state patch.expected entry

theorem refuse_bind_eq_ok {α : Type} {refused : Bool} {failure : Failure} {rest : Unit → Except Failure α} {value : α} :
    (refuse refused failure >>= rest) = .ok value ↔ refused = false ∧ rest () = .ok value := by
  cases refused <;> simp [refuse]

variable {values : List Scalar}

theorem checkField_eq_ok {expected : Option Nat} {found : Option Field} :
    checkField dataset expected found key values = .ok field ↔
      found = some field ∧ expected = some field.revision ∧ Captured dataset key values := by
  have hcaptured : Captured dataset key values ↔ ((key == "selection" && 1 < values.length)
      || values.any (!(allowed dataset key).contains ·) || !decide values.Nodup) = false := by
    simp only [Bool.or_eq_false_iff, Bool.and_eq_false_imp, beq_iff_eq, decide_eq_false_iff_not, Nat.not_lt,
      List.any_eq_false, Bool.not_eq_true', Bool.not_eq_false, List.contains_iff_mem, Bool.not_eq_false',
      decide_eq_true_eq]
    exact ⟨fun h ↦ ⟨⟨h.single, h.captured⟩, h.nodup⟩, fun h ↦ ⟨h.1.1, h.1.2, h.2⟩⟩
  cases found with
  | none => exact ⟨fun h ↦ (nomatch h), fun h ↦ (nomatch h.1)⟩
  | some found =>
    cases expected with
    | none => exact ⟨fun h ↦ (nomatch h), fun h ↦ (nomatch h.2.1)⟩
    | some revision =>
      rw [checkField, refuse_bind_eq_ok, refuse_bind_eq_ok, bne_eq_false_iff_eq, ← hcaptured]
      constructor
      · rintro ⟨rfl, hcaptured, hfield⟩
        cases hfield
        exact ⟨rfl, rfl, hcaptured⟩
      · rintro ⟨hfound, hrevision, hcaptured⟩
        cases hfound
        exact ⟨(Option.some.inj hrevision).symm, hcaptured, rfl⟩

variable {set : List (String × List Scalar)}

theorem lookup_append_of_not_mem {more : List (String × List Scalar)} (h : key ∉ set.map (·.1)) :
    (set ++ more).lookup key = more.lookup key := by
  have hnone : set.lookup key = none := List.lookup_eq_none_iff.2 fun entry hentry ↦
    bne_iff_ne.2 fun hsame ↦ h (List.mem_map.2 ⟨entry, hentry, hsame.symm⟩)
  rw [List.lookup_append, hnone, Option.none_or]

/-- A field that is set is overlaid, and no other. -/
theorem overlay_append (h : key ∉ set.map (·.1))
    (name : String) (field : Field) : overlay (set ++ [(key, values)]) name field =
      if name = key then
        if values = field.values then field else { revision := field.revision + 1, values := values }
      else overlay set name field := by
  by_cases hname : name = key
  · have hlookup : (set ++ [(key, values)]).lookup key = some values := by
      rw [lookup_append_of_not_mem h, List.lookup_cons, beq_self_eq_true]
    rw [if_pos hname, hname, overlay, hlookup]
  · have hlookup : (set ++ [(key, values)]).lookup name = set.lookup name := by
      rw [List.lookup_append, List.lookup_cons, beq_eq_false_iff_ne.2 hname, List.lookup_nil, Option.or_none]
    rw [if_neg hname, overlay, hlookup, overlay]

theorem edited_eq (hnodup : (state.fields.map (·.1)).Nodup)
    (hfield : state.fields.lookup key = some field) (h : key ∉ set.map (·.1)) :
    edited (merge set state.fields) key field values = merge (set ++ [(key, values)]) state.fields := by
  have hsame : ∀ entry ∈ state.fields, entry.1 = key → entry.2 = field := by
    intro entry hentry hkey
    have := lookup_of_mem hnodup (show (entry.1, entry.2) ∈ state.fields from hentry)
    rw [hkey, hfield] at this
    exact (Option.some.inj this).symm
  have hleft : ∀ entry ∈ state.fields, entry.1 = key → overlay set entry.1 entry.2 = field := by
    intro entry hentry hkey
    have hnone : set.lookup entry.1 = none := by
      rw [hkey, ← List.append_nil set, lookup_append_of_not_mem h, List.lookup_nil]
    rw [overlay, hnone]
    exact hsame entry hentry hkey
  rw [edited]
  split
  · rename_i hvalues
    refine List.map_congr_left fun entry hentry ↦ ?_
    rw [overlay_append h]
    split
    · rename_i hkey
      rw [hleft entry hentry hkey, hsame entry hentry hkey, if_pos hvalues]
    · rfl
  · rename_i hvalues
    have hany : (merge set state.fields).any (·.1 == key) = true := by
      rw [List.any_eq_true]
      exact ⟨(key, overlay set key field), List.mem_map.2 ⟨_, mem_of_lookup hfield, rfl⟩, beq_self_eq_true key⟩
    rw [Entries.set, if_pos hany, merge, List.map_map]
    refine List.map_congr_left fun entry hentry ↦ ?_
    rw [Function.comp_apply, overlay_append h]
    split
    · rename_i hkey
      rw [hsame entry hentry hkey, if_neg hvalues, ← hkey]
    · rfl

/-- What is left of a patch is applied to what was made of the fields so far. -/
theorem applyFields_eq_ok (hnodup : (state.fields.map (·.1)).Nodup) (patch : SelectionPatch)
    (done rest : List (String × List Scalar)) (hdistinct : ((done ++ rest).map (·.1)).Nodup) (changed : Bool) :
    applyFields dataset patch state rest (merge done state.fields) changed = .ok after ↔
      (∀ entry ∈ rest, Settable dataset state patch.expected entry) ∧
        after.fields = merge (done ++ rest) state.fields ∧
        after.revision = if changed || rest.any fun entry ↦
            (state.fields.lookup entry.1).any (entry.2 != ·.values) then state.revision + 1 else state.revision := by
  induction rest generalizing done changed with
  | nil =>
    rw [applyFields, List.append_nil, List.any_nil, Bool.or_false, Except.ok.injEq]
    obtain ⟨revision, fields⟩ := after
    rw [ViewState.mk.injEq]
    exact ⟨fun h ↦ ⟨fun _ h ↦ (nomatch h), h.2.symm, h.1.symm⟩, fun h ↦ ⟨h.2.2.symm, h.2.1.symm⟩⟩
  | cons entry rest ih =>
    obtain ⟨key, values⟩ := entry
    rw [List.append_cons] at hdistinct
    have hnew : key ∉ done.map (·.1) := by
      intro hmem
      rw [List.map_append, List.map_append, List.append_assoc] at hdistinct
      exact (List.disjoint_of_nodup_append hdistinct) hmem (by simp)
    rw [applyFields, Except.bind_eq_ok]
    constructor
    · rintro ⟨field, hchecked, hrest⟩
      obtain ⟨hfield, hrevision, hcaptured⟩ := checkField_eq_ok.1 hchecked
      rw [edited_eq hnodup hfield hnew, ih _ hdistinct, ← List.append_cons] at hrest
      obtain ⟨hsettable, hfields, hafter⟩ := hrest
      refine ⟨List.forall_mem_cons.2 ⟨⟨field, hfield, hrevision, hcaptured⟩, hsettable⟩, hfields, ?_⟩
      rw [List.any_cons, hfield, Option.any_some, ← Bool.or_assoc]
      exact hafter
    · rintro ⟨hsettable, hfields, hafter⟩
      obtain ⟨⟨field, hfield, hrevision, hcaptured⟩, hsettable⟩ := List.forall_mem_cons.1 hsettable
      refine ⟨field, checkField_eq_ok.2 ⟨hfield, hrevision, hcaptured⟩, ?_⟩
      rw [edited_eq hnodup hfield hnew, ih _ hdistinct, ← List.append_cons]
      refine ⟨hsettable, hfields, ?_⟩
      rw [List.any_cons, hfield, Option.any_some, ← Bool.or_assoc] at hafter
      exact hafter

theorem overlay_ne : (overlay set key field != field) = (set.lookup key).any (· != field.values) := by
  rw [overlay]
  cases set.lookup key with
  | none => exact bne_self_eq_false field
  | some values =>
    by_cases hvalues : values = field.values
    · simp [hvalues]
    · have hne : ({ revision := field.revision + 1, values := values } : Field) ≠ field := fun h ↦
        Nat.succ_ne_self _ (congrArg Field.revision h)
      simp only [if_neg hvalues, Option.any_some]
      rw [bne_iff_ne.2 hne, bne_iff_ne.2 hvalues]

/-- A patch of known fields changes one where it has other values for it. -/
theorem any_changes (hnodup : (state.fields.map (·.1)).Nodup) (hdistinct : (set.map (·.1)).Nodup) :
    (set.any fun entry ↦ (state.fields.lookup entry.1).any (entry.2 != ·.values)) = changes set state.fields := by
  rw [Bool.eq_iff_iff, changes, List.any_eq_true, List.any_eq_true]
  constructor
  · rintro ⟨⟨key, values⟩, hmem, hne⟩
    obtain ⟨field, hfield, hne⟩ := (Option.any_eq_true _ _).1 hne
    refine ⟨(key, field), mem_of_lookup hfield, ?_⟩
    rw [overlay_ne, lookup_of_mem hdistinct hmem]
    exact hne
  · rintro ⟨⟨key, field⟩, hmem, hne⟩
    rw [overlay_ne] at hne
    obtain ⟨values, hvalues, hne⟩ := (Option.any_eq_true _ _).1 hne
    refine ⟨(key, values), mem_of_lookup hvalues, ?_⟩
    rw [lookup_of_mem hnodup hmem]
    exact hne

/-- **A patch is taken field by field**, each at its own revision. -/
theorem submit_eq_ok (hnodup : (state.fields.map (·.1)).Nodup) : submit platform dataset state patch = .ok after ↔
      Accepted platform dataset state patch ∧ after = merged patch.set state := by
  have hnothing : merge [] state.fields = state.fields := List.map_id _
  have hafter : after = merged patch.set state ↔ after.fields = merge patch.set state.fields ∧
      after.revision = if changes patch.set state.fields then state.revision + 1 else state.revision := by
    obtain ⟨revision, fields⟩ := after
    rw [merged, ViewState.mk.injEq]
    exact And.comm
  rw [submit, refuse_bind_eq_ok, applySelection, refuse_bind_eq_ok, ← hnothing,
    applyFields_eq_ok hnodup _ [] patch.set patch.distinct false, List.nil_append, Bool.false_or,
    any_changes hnodup patch.distinct, hafter, Bool.not_eq_false']
  exact ⟨fun ⟨hschema, hsized, hsettable, h⟩ ↦ ⟨⟨hschema, hsized, hsettable⟩, h⟩,
    fun ⟨h, hsame⟩ ↦ ⟨h.schema, h.sized, h.settable, hsame⟩⟩

/-! ## Fields after a patch -/

@[simp] theorem merge_keys (set : List (String × List Scalar)) (fields : List (String × Field)) :
    (merge set fields).map (·.1) = fields.map (·.1) := by
  rw [merge, List.map_map]
  rfl

theorem lookup_merge (set : List (String × List Scalar)) (fields : List (String × Field)) (key : String) :
    (merge set fields).lookup key = (fields.lookup key).map (overlay set key) :=
  lookup_map_entry fields (overlay set) key

/-- A field takes the values the patch has for it, and a new revision with new values. -/
theorem overlay_spec (set : List (String × List Scalar)) (key : String) (field : Field) :
    (overlay set key field).values = (set.lookup key).getD field.values ∧
      (overlay set key field).revision =
        if (overlay set key field).values = field.values then field.revision else field.revision + 1 := by
  rw [overlay]
  cases set.lookup key with
  | none => exact ⟨rfl, (if_pos rfl).symm⟩
  | some values =>
    by_cases hvalues : values = field.values
    · simp [hvalues]
    · simp [hvalues]

theorem revision_le_overlay (set : List (String × List Scalar)) (key : String) (field : Field) :
    field.revision ≤ (overlay set key field).revision := by
  rw [(overlay_spec set key field).2]
  split <;> omega

theorem overlay_of_none (h : set.lookup key = none) : overlay set key field = field := by
  rw [overlay, h]

/-- The keys of the fields that a patch sets. -/
def Patch.keys (patch : Patch) : List String := patch.set.map (·.1)

theorem lookup_of_not_mem_keys (h : key ∉ patch.keys) : patch.set.lookup key = none :=
  List.lookup_eq_none_iff.2 fun entry hentry ↦ bne_iff_ne.2 fun hsame ↦
    h (List.mem_map.2 ⟨entry, hentry, hsame.symm⟩)

section Disjoint

variable (hdisjoint : ∀ key ∈ patch.keys, key ∉ other.keys)

include hdisjoint

theorem overlay_comm (key : String) (field : Field) :
    overlay patch.set key (overlay other.set key field) = overlay other.set key (overlay patch.set key field) := by
  by_cases hkey : key ∈ patch.keys
  · have hnone := lookup_of_not_mem_keys (hdisjoint key hkey)
    rw [overlay_of_none hnone, overlay_of_none hnone]
  · have hnone := lookup_of_not_mem_keys hkey
    rw [overlay_of_none hnone, overlay_of_none hnone]

theorem changes_merge (fields : List (String × Field)) :
    changes patch.set (merge other.set fields) = changes patch.set fields := by
  rw [changes, changes, merge, List.any_map]
  refine congrArg fields.any (funext fun entry ↦ ?_)
  rw [Function.comp_apply]
  by_cases hkey : entry.1 ∈ patch.keys
  · have hnone := lookup_of_not_mem_keys (hdisjoint _ hkey)
    rw [overlay_of_none hnone]
  · have hnone := lookup_of_not_mem_keys hkey
    rw [overlay_of_none hnone, overlay_of_none hnone, bne_self_eq_false, bne_self_eq_false]

theorem accepted_merged (h : Accepted platform dataset state patch) :
    Accepted platform dataset (merged other.set state) patch := by
  refine ⟨h.schema, h.sized, fun entry hentry ↦ ?_⟩
  obtain ⟨field, hfield, hexpected, hcaptured⟩ := h.settable entry hentry
  have hnone := lookup_of_not_mem_keys (hdisjoint entry.1 (List.mem_map_of_mem hentry))
  refine ⟨field, ?_, hexpected, hcaptured⟩
  rw [merged, lookup_merge, hfield, Option.map_some, overlay_of_none hnone]

end Disjoint

/-- **Patches over disjoint fields commute.** -/
theorem merged_comm (hdisjoint : ∀ key ∈ patch.keys, key ∉ other.keys) (state : ViewState) :
    merged patch.set (merged other.set state) = merged other.set (merged patch.set state) := by
  have hother : ∀ key ∈ other.keys, key ∉ patch.keys := fun key hkey hmem ↦ hdisjoint key hmem hkey
  have hfields : merge patch.set (merge other.set state.fields) = merge other.set (merge patch.set state.fields) := by
    rw [merge, merge, merge, merge, List.map_map, List.map_map]
    exact List.map_congr_left fun entry _ ↦ congrArg (Prod.mk entry.1) (overlay_comm hdisjoint _ _)
  rw [merged, merged, merged, merged, changes_merge hdisjoint, changes_merge hother, hfields]
  cases changes patch.set state.fields <;> cases changes other.set state.fields <;> rfl

/-! ## Any sequence of patches -/

/-- The keys of a view's fields. -/
def fieldKeys (view : View) : List String := view.filterColumns.map ("filter:" ++ ·) ++ ["selection"]

/-- The state of a view: it has a field for each filter column and one for the rows, and what is selected was
captured. -/
structure Sound (dataset : Dataset) (view : View) (state : ViewState) : Prop where
  keys : state.fields.map (·.1) = fieldKeys view
  captured : ∀ entry ∈ state.fields, Captured dataset entry.1 entry.2.values

variable {view : View}

theorem filterKey_injective : Function.Injective ("filter:" ++ · : String → String) := fun a b h ↦ by
  have := congrArg String.toList h
  rw [String.toList_append, String.toList_append] at this
  exact String.toList_injective (List.append_cancel_left this)

theorem filterKey_ne (column : String) : "filter:" ++ column ≠ "selection" := fun h ↦ by
  have := congrArg (List.head? ·.toList) h
  simp [String.toList_append] at this

theorem nodup_fieldKeys (h : view.filterColumns.Nodup) : (fieldKeys view).Nodup := by
  refine List.nodup_append.2 ⟨h.map filterKey_injective, List.nodup_singleton _, ?_⟩
  rintro key hkey _ hselection rfl
  obtain ⟨column, -, hcolumn⟩ := List.mem_map.1 hkey
  exact filterKey_ne column (hcolumn.trans (List.mem_singleton.1 hselection))

theorem initialState_sound (dataset : Dataset) (view : View) : Sound dataset view (initialState view) where
  keys := by
    rw [initialState, List.map_map, fieldKeys]
    exact List.map_id _
  captured entry hentry := by
    obtain ⟨key, -, rfl⟩ := List.mem_map.1 hentry
    exact ⟨fun _ ↦ Nat.zero_le _, fun value hvalue ↦ (nomatch hvalue), List.nodup_nil⟩

theorem Sound.nodup (hview : view.filterColumns.Nodup) (h : Sound dataset view state) :
    (state.fields.map (·.1)).Nodup := h.keys ▸ nodup_fieldKeys hview

/-- A patch that is taken keeps the state sound. -/
theorem Sound.merged (h : Sound dataset view state) (haccepted : Accepted platform dataset state patch) :
    Sound dataset view (merged patch.set state) where
  keys := (merge_keys _ _).trans h.keys
  captured entry hentry := by
    obtain ⟨⟨key, field⟩, hfield, rfl⟩ := List.mem_map.1 hentry
    rw [(overlay_spec patch.set key field).1]
    cases hset : patch.set.lookup key with
    | none => exact h.captured _ hfield
    | some values =>
      obtain ⟨-, -, -, hcaptured⟩ := haccepted.settable _ (mem_of_lookup hset)
      exact hcaptured

/-- What a patch does to a state: it is taken, or it is refused and the state is kept. -/
theorem select_cases (platform : Platform) (dataset : Dataset) (hnodup : (state.fields.map (·.1)).Nodup)
    (patch : Patch) :
    (Accepted platform dataset state patch ∧ select platform dataset state patch = merged patch.set state) ∨
      select platform dataset state patch = state := by
  rw [select]
  cases hsubmit : submit platform dataset state patch with
  | ok after =>
    obtain ⟨haccepted, rfl⟩ := (submit_eq_ok hnodup).1 hsubmit
    exact .inl ⟨haccepted, rfl⟩
  | error failure => exact .inr rfl

theorem Sound.select (hview : view.filterColumns.Nodup) (h : Sound dataset view state) (patch : Patch) :
    Sound dataset view (select platform dataset state patch) := by
  obtain ⟨haccepted, hselect⟩ | hselect := select_cases platform dataset (h.nodup hview) patch
  · rw [hselect]
    exact h.merged haccepted
  · rw [hselect]
    exact h

theorem Sound.run (hview : view.filterColumns.Nodup) (h : Sound dataset view state) (patches : List Patch) :
    Sound dataset view (run platform dataset state patches) := by
  induction patches generalizing state with
  | nil => exact h
  | cons patch rest ih => exact ih (h.select hview patch)

/-- The revision of a field never falls. -/
theorem revision_le_run (hview : view.filterColumns.Nodup) (hsound : Sound dataset view state) (patches : List Patch)
    (hfield : state.fields.lookup key = some field) :
    ∃ later, (run platform dataset state patches).fields.lookup key = some later ∧ field.revision ≤ later.revision := by
  induction patches generalizing state field with
  | nil => exact ⟨field, hfield, Nat.le_refl _⟩
  | cons patch rest ih =>
    obtain ⟨haccepted, hselect⟩ | hselect := select_cases platform dataset (hsound.nodup hview) patch
    · have hmerged : (merged patch.set state).fields.lookup key = some (overlay patch.set key field) := by
        rw [Selections.merged, lookup_merge, hfield, Option.map_some]
      rw [← hselect] at hmerged
      obtain ⟨later, hlater, hle⟩ := ih (hsound.select hview patch) hmerged
      exact ⟨later, hlater, (revision_le_overlay patch.set key field).trans hle⟩
    · rw [← hselect] at hfield
      exact ih (hsound.select hview patch) hfield

/-! ## What a view's selections are -/

/-- The values of a field are distinct, and each was captured: for the rows at most one, the key of a row, and for a
filter column the values that it has. -/
def InCapture (dataset : Dataset) (view : View) (key : String) (values : List Scalar) : Prop :=
  values.Nodup ∧
    ((key = "selection" ∧ values.length ≤ 1 ∧ ∀ value ∈ values, ∃ row ∈ dataset.rows, value = .string row.key) ∨
      ∃ column ∈ view.filterColumns, key = "filter:" ++ column ∧
        ∀ value ∈ values, ∃ row ∈ dataset.rows, row.values.lookup column = some value)

theorem slice_filterKey (column : String) : Script.slice ("filter:" ++ column) 7 = column := by
  have hstart : ("filter:" : String).toList = ['f', 'i', 'l', 't', 'e', 'r', ':'] := rfl
  rw [Script.slice, String.toList_append, hstart]
  exact String.ofList_toList

theorem inCapture (h : Sound dataset view state) {entry : String × Field} (hentry : entry ∈ state.fields) :
    InCapture dataset view entry.1 entry.2.values := by
  have hcaptured := h.captured entry hentry
  have hkey : entry.1 ∈ fieldKeys view := h.keys ▸ List.mem_map_of_mem hentry
  refine ⟨hcaptured.nodup, ?_⟩
  obtain hkey | hkey := List.mem_append.1 hkey
  · obtain ⟨column, hcolumn, hkey⟩ := List.mem_map.1 hkey
    refine .inr ⟨column, hcolumn, hkey.symm, fun value hvalue ↦ ?_⟩
    have hallowed := hcaptured.captured value hvalue
    rw [← hkey, allowed, if_neg (by simpa using filterKey_ne column), slice_filterKey] at hallowed
    exact List.mem_filterMap.1 hallowed
  · have hselection := List.mem_singleton.1 hkey
    refine .inl ⟨hselection, hcaptured.single hselection, fun value hvalue ↦ ?_⟩
    have hallowed := hcaptured.captured value hvalue
    rw [hselection, allowed, if_pos (beq_self_eq_true _)] at hallowed
    obtain ⟨row, hrow, hvalue⟩ := List.mem_map.1 hallowed
    exact ⟨row, hrow, hvalue.symm⟩

/-- What sharing the selections of a view comes to, in a state of it. -/
structure Merging (platform : Platform) (dataset : Dataset) (view : View) (state : ViewState) : Prop where
  /-- What is selected was captured, and is selected once. -/
  captured : ∀ entry ∈ state.fields, InCapture dataset view entry.1 entry.2.values
  /-- A patch that is refused changes nothing. -/
  refused : ∀ patch failure, submit platform dataset state patch = .error failure →
    select platform dataset state patch = state
  /-- A patch that is taken sets its fields and no other; a field has a new revision where its values changed. -/
  fields : ∀ patch after, submit platform dataset state patch = .ok after →
    after.fields.map (·.1) = state.fields.map (·.1) ∧
      ∀ key field, state.fields.lookup key = some field → ∃ next, after.fields.lookup key = some next ∧
        next.values = (patch.set.lookup key).getD field.values ∧
        next.revision = if next.values = field.values then field.revision else field.revision + 1
  /-- The view has a new revision where some field changed. -/
  revision : ∀ patch after, submit platform dataset state patch = .ok after →
    after.revision = state.revision + 1 ∧ after.fields ≠ state.fields ∨
      after.revision = state.revision ∧ after.fields = state.fields
  /-- Patches over disjoint fields are taken in either order, and come to the same. -/
  commute : ∀ patch other : Patch, (∀ key ∈ patch.keys, key ∉ other.keys) → ∀ one another,
    submit platform dataset state patch = .ok one → submit platform dataset state other = .ok another →
    ∃ both, submit platform dataset one other = .ok both ∧ submit platform dataset another patch = .ok both
  /-- Once a patch has changed a field, another made from the same revision of it is refused for good. -/
  conflict : ∀ patch after key field next, submit platform dataset state patch = .ok after →
    state.fields.lookup key = some field → after.fields.lookup key = some next → next.values ≠ field.values →
    ∀ (later : List Patch) (other : Patch), key ∈ other.keys →
      other.expected.lookup key = patch.expected.lookup key →
      ∃ failure, submit platform dataset (run platform dataset after later) other = .error failure

theorem changes_iff (set : List (String × List Scalar)) (fields : List (String × Field)) :
    changes set fields = true ↔ merge set fields ≠ fields := by
  rw [changes, merge, List.any_eq_true, Ne, List.map_eq_self, not_forall]
  refine exists_congr fun entry ↦ ?_
  rw [Classical.not_imp, bne_iff_ne]
  refine and_congr_right fun _ ↦ not_congr ⟨fun h ↦ by rw [h], fun h ↦ (Prod.mk.inj h).2⟩

theorem Sound.merging (hview : view.filterColumns.Nodup) (h : Sound dataset view state) :
    Merging platform dataset view state where
  captured _ hentry := inCapture h hentry
  refused patch failure hrefused := by rw [Selections.select, hrefused]
  fields patch after htaken := by
    obtain ⟨-, rfl⟩ := (submit_eq_ok (h.nodup hview)).1 htaken
    refine ⟨merge_keys _ _, fun key field hfield ↦ ⟨overlay patch.set key field, ?_, overlay_spec _ _ _⟩⟩
    rw [Selections.merged, lookup_merge, hfield, Option.map_some]
  revision patch after htaken := by
    obtain ⟨-, rfl⟩ := (submit_eq_ok (h.nodup hview)).1 htaken
    cases hchanges : changes patch.set state.fields with
    | true => exact .inl ⟨by rw [Selections.merged, hchanges, if_pos rfl], (changes_iff _ _).1 hchanges⟩
    | false =>
      refine .inr ⟨by rw [Selections.merged, hchanges, if_neg Bool.false_ne_true], by_contra fun hne ↦ ?_⟩
      rw [(changes_iff _ _).2 hne] at hchanges
      cases hchanges
  commute patch other hdisjoint one another hone hanother := by
    have hother : ∀ key ∈ other.keys, key ∉ patch.keys := fun key hkey hmem ↦ hdisjoint key hmem hkey
    obtain ⟨haccepted, rfl⟩ := (submit_eq_ok (h.nodup hview)).1 hone
    obtain ⟨hsecond, rfl⟩ := (submit_eq_ok (h.nodup hview)).1 hanother
    refine ⟨Selections.merged other.set (Selections.merged patch.set state), ?_, ?_⟩
    · exact (submit_eq_ok ((h.merged haccepted).nodup hview)).2 ⟨accepted_merged hother hsecond, rfl⟩
    · exact (submit_eq_ok ((h.merged hsecond).nodup hview)).2
        ⟨accepted_merged hdisjoint haccepted, (merged_comm hdisjoint state).symm⟩
  conflict patch after key field next htaken hfield hnext hchanged later other hkey hexpected := by
    obtain ⟨haccepted, rfl⟩ := (submit_eq_ok (h.nodup hview)).1 htaken
    have hsound := h.merged haccepted
    rw [Selections.merged, lookup_merge, hfield, Option.map_some] at hnext
    cases hnext
    have hraised : (overlay patch.set key field).revision = field.revision + 1 := by
      rw [(overlay_spec patch.set key field).2, if_neg hchanged]
    -- The patch set the field, and was made from the revision before.
    have hmade : patch.expected.lookup key = some field.revision := by
      cases hset : patch.set.lookup key with
      | none => exact (hchanged (by rw [overlay_of_none hset])).elim
      | some values =>
        obtain ⟨found, hfound, hrevision, -⟩ := haccepted.settable _ (mem_of_lookup hset)
        rw [hfield] at hfound
        rw [hrevision, Option.some.inj hfound]
    obtain ⟨now, hnow, hle⟩ := revision_le_run hview hsound later
      (by rw [Selections.merged, lookup_merge, hfield, Option.map_some])
    cases hsubmit : submit platform dataset (Selections.run platform dataset (Selections.merged patch.set state) later)
        other with
    | error failure => exact ⟨failure, rfl⟩
    | ok third =>
      obtain ⟨haccepted, -⟩ := (submit_eq_ok ((hsound.run hview later).nodup hview)).1 hsubmit
      obtain ⟨entry, hentry, rfl⟩ := List.mem_map.1 hkey
      obtain ⟨found, hfound, hrevision, -⟩ := haccepted.settable _ hentry
      rw [hnow] at hfound
      rw [hexpected, hmade] at hrevision
      have := Option.some.inj hrevision
      have := Option.some.inj hfound
      subst this
      omega

/-! ## The views of a result -/

theorem checkView_eq_ok {datasets : List Dataset} (h : checkView datasets view = .ok ()) :
    (∃ dataset, datasets.find? (·.key == view.datasetKey) = some dataset) ∧ view.filterColumns.Nodup := by
  rw [checkView] at h
  cases hfound : datasets.find? (·.key == view.datasetKey) with
  | none => rw [hfound] at h; cases h
  | some dataset =>
    rw [hfound] at h
    simp only [unique, refuse_bind_eq_ok] at h
    have hnodup := h.1
    rw [Bool.not_eq_false', decide_eq_true_eq] at hnodup
    exact ⟨⟨dataset, rfl⟩, hnodup⟩

theorem views_of_parseResult {secure : String → Bool} {input : Submission} {result : Result}
    (h : parseResult platform secure input = .ok result) :
    ∀ view ∈ result.views, checkView result.datasets view = .ok () := by
  rw [parseResult, refuse_bind_eq_ok] at h
  obtain ⟨-, h⟩ := h
  cases hschema : resultSchema platform secure input.result with
  | none => rw [hschema] at h; cases h
  | some parsed =>
    simp only [hschema, unique, refuse_bind_eq_ok] at h
    obtain ⟨-, -, -, h⟩ := h
    obtain ⟨_, -, h⟩ := Except.bind_eq_ok.1 h
    obtain ⟨_, hviews, h⟩ := Except.bind_eq_ok.1 h
    cases h
    exact Except.forM_eq_ok.1 hviews

/-- **Shared selections merge field by field**: in every state of every view of a result that was parsed. -/
theorem selections_merge {secure : String → Bool} {input : Submission} {result : Result}
    (hresult : parseResult platform secure input = .ok result) (hview : view ∈ result.views) :
    ∃ dataset, result.datasets.find? (·.key == view.datasetKey) = some dataset ∧
      ∀ patches, Merging platform dataset view (run platform dataset (initialState view) patches) := by
  obtain ⟨⟨dataset, hdataset⟩, hcolumns⟩ := checkView_eq_ok (views_of_parseResult hresult view hview)
  exact ⟨dataset, hdataset, fun patches ↦ ((initialState_sound dataset view).run hcolumns patches).merging hcolumns⟩

def sampleView : View where
  key := "all"
  title := "All"
  kind := .table
  datasetKey := "runs"
  categoryColumn := none
  valueColumn := none
  filterColumns := ["size"]

/-- One measurement, and a table that is filtered by its case. -/
def sampleStudy : Result where
  schemaVersion := 1
  report := "done"
  datasets := [{
    key := "runs", title := "Runs", method := "", basis := .observed, sources := []
    columns := [{ key := "size", label := "Size", type := .string, unit := none, nullable := none }]
    rows := [{ key := "first", values := [("size", .string "small")] }] }]
  views := [sampleView]
  evidence := []
  provenance := { environment := "", checks := [], limitations := [] }

theorem selections_merge_sample : ∃ dataset,
    sampleStudy.datasets.find? (·.key == sampleView.datasetKey) = some dataset ∧ ∀ patches,
      Merging .ascii dataset sampleView (run .ascii dataset (initialState sampleView) patches) :=
  selections_merge (show parseResult .ascii (fun _ ↦ true) ⟨sampleStudy, 400⟩ = .ok sampleStudy by decide +kernel)
    (show sampleView ∈ sampleStudy.views from List.mem_singleton_self _)

end Chopin.Investigations.Selections
