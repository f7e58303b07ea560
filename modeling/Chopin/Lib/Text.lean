import Mathlib.Algebra.Ring.Nat
import Mathlib.Data.List.DropRight
import Mathlib.Data.List.TakeWhile

/-!
# Script strings

The readers and writers verified in this development compare, trim and measure strings the way a
script engine does: white space is the engine's own class, which is larger than the ASCII one, and
a length counts UTF-16 code units.  `trim`, `text` and `units` are those three operations, on
Lean's `String`.
-/

set_option autoImplicit false

namespace Script

/-- White space and line terminators, as `String.prototype.trim` removes them. -/
def isSpace (c : Char) : Bool :=
  c.val ∈ [0x9, 0xa, 0xb, 0xc, 0xd, 0x20, 0xa0, 0x1680, 0x2028, 0x2029, 0x202f, 0x205f, 0x3000,
    0xfeff] || (0x2000 ≤ c.val && c.val ≤ 0x200a)

/-- `value.trim()`. -/
def trim (value : String) : String :=
  String.ofList ((value.toList.dropWhile isSpace).rdropWhile isSpace)

/-- `Boolean(value.trim())`: the string says something. -/
def text (value : String) : Bool := trim value != ""

/-- `value.length`: the number of UTF-16 code units. -/
def units (value : String) : Nat :=
  (value.toList.map fun c ↦ if c.val < 0x10000 then 1 else 2).sum

/-- The UTF-16 code units themselves, in whose order strings are compared. -/
def codeUnits (value : String) : List Nat :=
  value.toList.flatMap fun c ↦
    if c.val < 0x10000 then [c.toNat]
    else [0xd800 + (c.toNat - 0x10000) / 0x400, 0xdc00 + (c.toNat - 0x10000) % 0x400]

/-- What survives trimming is exactly the strings with a character that is no white space. -/
theorem text_iff (value : String) : text value = true ↔ ∃ c ∈ value.toList, isSpace c = false := by
  rw [text, trim, bne_iff_ne, ne_eq, ← String.toList_inj, String.toList_ofList, String.toList_empty,
    List.rdropWhile_eq_nil_iff]
  constructor
  · intro h
    push Not at h
    obtain ⟨c, hc, hspace⟩ := h
    exact ⟨c, (List.dropWhile_suffix _).subset hc, by simpa using hspace⟩
  · rintro ⟨c, hc, hspace⟩ hall
    rw [← List.takeWhile_append_dropWhile (p := isSpace) (l := value.toList),
      List.mem_append] at hc
    rcases hc with hc | hc
    · exact absurd (List.mem_takeWhile_imp hc) (by simp [hspace])
    · exact absurd (hall c hc) (by simp [hspace])

/-- Nothing between the space and the end of ASCII is white. -/
theorem isSpace_graphic {c : Char} (hlow : 0x20 < c.val) (hhigh : c.val < 0x7f) : isSpace c = false := by
  rw [isSpace, Bool.eq_false_iff]
  intro h
  simp only [Bool.or_eq_true, Bool.and_eq_true, decide_eq_true_eq, List.mem_cons, List.not_mem_nil,
    or_false, UInt32.lt_iff_toNat_lt, UInt32.le_iff_toNat_le, ← UInt32.toNat_inj,
    UInt32.reduceToNat] at *
  omega

variable {value : String}

/-- A string that begins with one that says something says something. -/
theorem text_append (rest : String) (h : text value = true) : text (value ++ rest) = true := by
  obtain ⟨c, hc, hspace⟩ := (text_iff value).1 h
  exact (text_iff _).2 ⟨c, by simp [hc], hspace⟩

/-- What is trimmed says as much as before. -/
theorem text_trim (h : text value = true) : text (trim value) = true := by
  rw [text, bne_iff_ne] at h
  have hne : (value.toList.dropWhile isSpace).rdropWhile isSpace ≠ [] := by
    intro hnil
    rw [trim, hnil] at h
    exact h rfl
  refine (text_iff _).2 ⟨_, ?_, Bool.not_eq_true _ ▸ List.rdropWhile_last_not isSpace _ hne⟩
  rw [trim, String.toList_ofList]
  exact List.getLast_mem hne

@[simp] theorem units_append (left right : String) : units (left ++ right) = units left + units right := by
  rw [units, String.toList_append, List.map_append, List.sum_append]
  rfl

/-- What is trimmed is no longer than before. -/
theorem units_trim_le (value : String) : units (trim value) ≤ units value := by
  obtain ⟨front, hfront⟩ := List.dropWhile_suffix isSpace (l := value.toList)
  obtain ⟨back, hback⟩ := List.rdropWhile_prefix isSpace (l := value.toList.dropWhile isSpace)
  rw [units, units, trim, String.toList_ofList, ← hfront, List.map_append, List.sum_append, hfront, ← hback,
    List.map_append, List.sum_append, hback]
  omega

/-- A string that begins and ends with something to see is trimmed. -/
theorem trim_eq_self (hfirst : ∀ c ∈ value.toList.head?, isSpace c = false)
    (hlast : ∀ c ∈ value.toList.getLast?, isSpace c = false) : trim value = value := by
  have hdrop : value.toList.dropWhile isSpace = value.toList := by
    cases hchars : value.toList with
    | nil => rfl
    | cons c rest => exact List.dropWhile_cons_of_neg (by simp [hfirst c (by rw [hchars]; rfl)])
  rw [trim, hdrop]
  cases hchars : value.toList using List.reverseRecOn with
  | nil => rw [List.rdropWhile_nil, ← hchars, String.ofList_toList]
  | append_singleton rest c =>
    rw [List.rdropWhile_concat_neg _ _ _ (by simp [hlast c (by rw [hchars]; simp)]), ← hchars,
      String.ofList_toList]

/-- What is trimmed has nothing left to trim. -/
theorem trim_trim (value : String) : trim (trim value) = trim value := by
  refine trim_eq_self (fun c hc ↦ ?_) fun c hc ↦ ?_
  · rw [trim, String.toList_ofList] at hc
    obtain ⟨rest, hrest⟩ := List.rdropWhile_prefix isSpace (l := value.toList.dropWhile isSpace)
    have hfirst := List.head?_dropWhile_not isSpace value.toList
    rw [← hrest, List.head?_append_of_ne_nil _ (by rintro hnil; rw [hnil] at hc; cases hc), hc] at hfirst
    exact hfirst
  · rw [trim, String.toList_ofList] at hc
    obtain ⟨hne, rfl⟩ := List.mem_getLast?_eq_getLast hc
    exact Bool.not_eq_true _ ▸ List.rdropWhile_last_not isSpace _ hne

end Script
