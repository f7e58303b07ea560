import Mathlib.Data.List.Basic

/-!
# Stored values

A durable record is written as JSON and read back by code that trusts none of it.  `Json` is the
value such a reader is handed; `item` is the test every reader opens with, that the value is a
plain object with exactly the expected keys; and the small accessors are the `typeof` tests that
follow it.

A number that is no integer is kept as `real`, without its digits: no reader here accepts one.
-/

set_option autoImplicit false

/-- A parsed JSON value. -/
inductive Json where
  | null
  | bool (value : Bool)
  | num (value : Int)
  | real
  | str (value : String)
  | arr (items : List Json)
  | obj (fields : List (String × Json))

namespace Json

/-- The largest integer a script number counts exactly. -/
def maxSafe : Nat := 9007199254740991

/-- A non-negative integer. -/
def nat : Json → Option Nat
  | num (.ofNat value) => some value
  | _ => none

/-- A non-negative integer that is also a safe one. -/
def safe (value : Json) : Option Nat := value.nat.filter (· ≤ maxSafe)

/-- A string. -/
def string : Json → Option String
  | str value => some value
  | _ => none

/-- A Boolean. -/
def boolean : Json → Option Bool
  | bool value => some value
  | _ => none

/-- An array. -/
def array : Json → Option (List Json)
  | arr items => some items
  | _ => none

/-- An array of strings. -/
def strings (value : Json) : Option (List String) := value.array >>= fun items ↦ items.mapM string

/-- The fields of a plain object. -/
def fields : Json → Option (List (String × Json))
  | obj fields => some fields
  | _ => none

/-- The keys are exactly these, in any order. -/
def exact (fields : List (String × Json)) (keys : List String) : Bool :=
  (fields.map Prod.fst).isPerm keys

/-- The fields of a plain object with exactly these keys. -/
def item : Json → List String → Option (List (String × Json))
  | obj fields, keys => if exact fields keys then some fields else none
  | _, _ => none

/-- An object without the fields that are undefined, as it is written. -/
def object (fields : List (String × Option Json)) : Json :=
  obj (fields.filterMap fun field ↦ field.2.map (field.1, ·))

/-- The fields of a plain object with no other keys than these. -/
def strict : Json → List String → Option (List (String × Json))
  | obj fields, keys => if fields.all (keys.contains ·.1) then some fields else none
  | _, _ => none

/-- A field that may be left out. -/
def optional {α : Type} (read : Json → Option α) : Option Json → Option (Option α)
  | none => some none
  | some value => (read value).map some

@[simp] theorem nat_num (value : Nat) : nat (num value) = some value := rfl
@[simp] theorem string_str (value : String) : string (str value) = some value := rfl
@[simp] theorem boolean_bool (value : Bool) : boolean (bool value) = some value := rfl
@[simp] theorem array_arr (items : List Json) : array (arr items) = some items := rfl

theorem safe_num {value : Nat} (h : value ≤ maxSafe) : safe (num value) = some value := by
  rw [safe, nat_num, Option.filter_some, if_pos (by simpa using h)]

variable {α : Type}

variable {read : Json → Option α}

variable {write : α → Json}

/-- Reading back a list written element by element. -/
theorem mapM_map {values : List α} (h : ∀ value ∈ values, read (write value) = some value) :
    (values.map write).mapM read = some values := by
  induction values with
  | nil => rfl
  | cons value rest ih =>
    rw [List.map_cons, List.mapM_cons, h value List.mem_cons_self,
      ih fun value hmem ↦ h value (List.mem_cons_of_mem _ hmem)]
    rfl

@[simp] theorem strings_arr (values : List String) : strings (arr (values.map str)) = some values := by
  rw [strings, array_arr, Option.bind_eq_bind, Option.bind_some]
  exact mapM_map fun _ _ ↦ rfl

theorem item_obj {fields : List (String × Json)} {keys : List String}
    (h : exact fields keys = true) : item (obj fields) keys = some fields := by
  rw [item, if_pos h]

theorem object_strict {fields : List (String × Option Json)} : strict (object fields) (fields.map Prod.fst) =
      some (fields.filterMap fun field ↦ field.2.map (field.1, ·)) := by
  rw [object, strict, if_pos]
  simp only [List.all_eq_true, List.mem_filterMap, List.contains_iff_mem]
  rintro stored ⟨field, hfield, hstored⟩
  obtain ⟨value, -, rfl⟩ := Option.map_eq_some_iff.1 hstored
  exact List.mem_map_of_mem hfield

/-- A field is found exactly where it was written. -/
theorem object_lookup {fields : List (String × Option Json)} (h : (fields.map Prod.fst).Nodup) (key : String) :
    (fields.filterMap fun field ↦ field.2.map (field.1, ·)).lookup key = (fields.lookup key).join := by
  induction fields with
  | nil => rfl
  | cons field rest ih =>
    obtain ⟨name, stored⟩ := field
    rw [List.map_cons, List.nodup_cons] at h
    have hrest := ih h.2
    by_cases hkey : key = name
    · subst hkey
      have hnone : rest.lookup key = none := by
        rw [List.lookup_eq_none_iff]
        intro other hmem
        have hne : key ≠ other.1 := fun heq ↦ h.1 (List.mem_map.2 ⟨other, hmem, heq.symm⟩)
        simpa using hne
      cases stored with
      | none => simpa [hnone] using hrest
      | some value => simp
    · have hne : (key == name) = false := by simpa using hkey
      cases stored <;> simp [List.lookup_cons, hne, hrest]

/-- An object as it is written is read field by field. -/
theorem object_read (fields : List (String × Option Json)) (h : (fields.map Prod.fst).Nodup) :
    ∃ item, strict (object fields) (fields.map Prod.fst) = some item ∧
      ∀ key, item.lookup key = (fields.lookup key).join :=
  ⟨_, object_strict, object_lookup h⟩

variable {value : Option α}

theorem optional_map (h : ∀ found ∈ value, read (write found) = some found) :
    optional read (value.map write) = some value := by
  cases value with
  | none => rfl
  | some found => rw [Option.map_some, optional, h found rfl, Option.map_some]

/-- A field that is there was read. -/
theorem optional_ok {stored : Option Json}
    (h : optional read stored = some value) : ∀ found ∈ value, ∃ json, read json = some found := by
  rintro found rfl
  cases stored with
  | none => cases h
  | some json =>
    obtain ⟨other, hread, heq⟩ := Option.map_eq_some_iff.1 h
    exact ⟨json, Option.some.inj heq ▸ hread⟩

theorem safe_le {value : Json} {number : Nat} (h : safe value = some number) : number ≤ maxSafe := by
  simpa using (Option.filter_eq_some_iff.1 h).2

end Json
