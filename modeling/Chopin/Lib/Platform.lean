import Chopin.Lib.Text

/-!
# What the platform supplies

The programs verified here call into their engine and into a schema library for things that are
tables rather than logic: case mapping, and what a well-formed address, identifier or time looks
like.  `Platform` collects those as parameters, each with the documented facts that the programs
rely on; nothing else is assumed of them.

The string operations that *are* logic, `startsWith` and `slice` and the length bounds of a schema,
are defined here over UTF-16 code units like `units`.
-/

set_option autoImplicit false

namespace Script

/-- Every character is an ASCII one. -/
def ascii (value : String) : Bool := value.toList.all (·.val < 128)

structure Platform where
  /-- `value.toLowerCase()`. -/
  toLowerCase : String → String
  toLowerCase_ascii : ∀ value, ascii value = true →
    toLowerCase value = String.ofList (value.toList.map Char.toLower)
  /-- `new URL(value)` succeeds. -/
  url : String → Bool
  /-- Any path is one, on a host that is fixed. -/
  url_github : ∀ path, url ("https://github.com/" ++ path) = true
  url_empty : url "" = false
  uuid : String → Bool
  uuid_text : ∀ value, uuid value = true → text value = true
  datetime : String → Bool
  datetime_text : ∀ value, datetime value = true → text value = true
  /-- `JSON.parse(value)` succeeds. -/
  json : String → Bool

/-- `value.startsWith(start)`. -/
def startsWith (value start : String) : Bool := start.toList.isPrefixOf value.toList

/-- `value.slice(start)` on the characters; half of a surrogate pair is no character. -/
def sliceFrom : Nat → List Char → List Char
  | 0, chars => chars
  | _, [] => []
  | start + 1, c :: rest =>
    if c.val < 0x10000 then sliceFrom start rest
    else match start with
      | 0 => Char.ofNat 0xfffd :: rest
      | start + 1 => sliceFrom start rest

def slice (value : String) (start : Nat) : String := String.ofList (sliceFrom start value.toList)

/-- `/^\d+$/` -/
def digits (value : String) : Bool :=
  value != "" && value.toList.all fun c ↦ '0' ≤ c && c ≤ '9'

/-- A schema's `min(1).max(limit)`. -/
def bounded (limit : Nat) (value : String) : Bool := 1 ≤ units value && units value ≤ limit

/-- A schema's `url()`: the value is trimmed before it is read, and kept trimmed. -/
def Platform.address (platform : Platform) (value : String) : Option String :=
  if platform.url (trim value) then some (trim value) else none

/-- Between `min` and `max` hexadecimal digits, all lower case. -/
def hex (min max : Nat) (value : String) : Bool :=
  let chars := value.toList
  min ≤ chars.length && chars.length ≤ max
    && chars.all fun c ↦ ('0' ≤ c && c ≤ '9') || ('a' ≤ c && c ≤ 'f')

/-- The same in either case. -/
def anyHex (min max : Nat) (value : String) : Bool :=
  let chars := value.toList
  min ≤ chars.length && chars.length ≤ max
    && chars.all fun c ↦ ('0' ≤ c && c ≤ '9') || ('a' ≤ c && c ≤ 'f') || ('A' ≤ c && c ≤ 'F')

/-- The lower case of a hexadecimal digit is one. -/
theorem toLower_hex {c : Char} (h : ('0' ≤ c ∧ c ≤ '9' ∨ 'a' ≤ c ∧ c ≤ 'f') ∨ 'A' ≤ c ∧ c ≤ 'F') :
    '0' ≤ c.toLower ∧ c.toLower ≤ '9' ∨ 'a' ≤ c.toLower ∧ c.toLower ≤ 'f' := by
  simp only [Char.le_def, UInt32.le_iff_toNat_le] at h ⊢
  delta Char.toLower
  split
  · rename_i hupper
    simp only [ge_iff_le, UInt32.le_iff_toNat_le] at hupper
    simp only [UInt32.toNat_add] at *
    simp at *
    omega
  · rename_i hupper
    simp only [ge_iff_le, UInt32.le_iff_toNat_le] at hupper
    simp at *
    omega

theorem Platform.hex_toLowerCase (platform : Platform) {min max : Nat} {value : String}
    (h : anyHex min max value = true) : hex min max (platform.toLowerCase value) = true := by
  simp only [anyHex, Bool.and_eq_true, decide_eq_true_eq, List.all_eq_true, Bool.or_eq_true] at h
  obtain ⟨hlength, hdigits⟩ := h
  have hascii : ascii value = true := by
    refine List.all_eq_true.2 fun c hmem ↦ decide_eq_true (UInt32.lt_iff_toNat_lt.2 ?_)
    have hc := hdigits c hmem
    simp only [Char.le_def, UInt32.le_iff_toNat_le] at hc
    simp at *
    omega
  rw [platform.toLowerCase_ascii value hascii, hex]
  simp only [String.toList_ofList, List.length_map, List.all_map, Bool.and_eq_true, decide_eq_true_eq,
    List.all_eq_true, Function.comp_apply, Bool.or_eq_true]
  exact ⟨hlength, fun c hmem ↦ toLower_hex (hdigits c hmem)⟩

/-! ## A platform for ASCII -/

/-- Five groups of hexadecimal digits. -/
def uuidShape (value : String) : Bool :=
  let groups := value.toList.splitOn '-'
  groups.map List.length == [8, 4, 4, 4, 12]
    && groups.all fun group ↦ anyHex 4 12 (String.ofList group)

/-- A date and a time in UTC. -/
def datetimeShape (value : String) : Bool :=
  value.toList.getLast? == some 'Z' && value.toList.contains 'T'

theorem uuidShape_text (value : String) (h : uuidShape value = true) : text value = true := by
  simp only [uuidShape, Bool.and_eq_true, beq_iff_eq] at h
  obtain ⟨hlength, hhex⟩ := h
  cases hsplit : value.toList.splitOn '-' with
  | nil => simp [hsplit] at hlength
  | cons group rest =>
    rw [hsplit, List.all_cons, Bool.and_eq_true] at hhex
    have hjoin : ['-'].intercalate (value.toList.splitOn '-') = value.toList :=
      List.intercalate_splitOn '-'
    obtain ⟨c, hc⟩ : ∃ c, c ∈ group := by
      cases group with
      | nil => simp [anyHex] at hhex
      | cons c more => exact ⟨c, List.mem_cons_self⟩
    have hmem : c ∈ value.toList := by
      rw [← hjoin, hsplit, List.intercalate]
      exact List.mem_flatten.2 ⟨group, by cases rest <;> simp [List.intersperse], hc⟩
    have hdigit := hhex.1
    simp only [anyHex, String.toList_ofList, Bool.and_eq_true, List.all_eq_true] at hdigit
    have hc := hdigit.2 c hc
    simp only [Bool.or_eq_true, Bool.and_eq_true, decide_eq_true_eq, Char.le_def,
      UInt32.le_iff_toNat_le] at hc
    have hrange : 0x30 ≤ c.val.toNat ∧ c.val.toNat ≤ 0x66 := by
      rcases hc with (⟨hlow, hhigh⟩ | ⟨hlow, hhigh⟩) | ⟨hlow, hhigh⟩ <;>
        exact ⟨le_trans (by decide) hlow, le_trans hhigh (by decide)⟩
    refine (text_iff value).2 ⟨c, hmem, isSpace_graphic (UInt32.lt_iff_toNat_lt.2 ?_)
      (UInt32.lt_iff_toNat_lt.2 ?_)⟩
    · exact lt_of_lt_of_le (by decide) hrange.1
    · exact lt_of_le_of_lt hrange.2 (by decide)

theorem datetimeShape_text (value : String) (h : datetimeShape value = true) : text value = true := by
  simp only [datetimeShape, Bool.and_eq_true, beq_iff_eq] at h
  exact (text_iff value).2 ⟨'Z', List.mem_of_getLast? h.1, by decide⟩

/-- A platform that maps the case of ASCII letters only and takes any secure address. -/
def Platform.ascii : Platform where
  toLowerCase value := String.ofList (value.toList.map Char.toLower)
  toLowerCase_ascii _ _ := rfl
  url value := startsWith value "https://"
  url_github path := by
    rw [startsWith, String.toList_append]
    exact List.isPrefixOf_iff_prefix.2 ⟨"github.com/".toList ++ path.toList, by
      rw [← List.append_assoc]; rfl⟩
  url_empty := rfl
  uuid := uuidShape
  uuid_text := uuidShape_text
  datetime := datetimeShape
  datetime_text := datetimeShape_text
  json value := value == "{}"

end Script
