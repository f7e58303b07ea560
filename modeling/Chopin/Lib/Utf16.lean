import Mathlib.Algebra.Ring.Nat
import Mathlib.Data.List.Basic

/-!
# Strings as code units

A script's string is a sequence of UTF-16 code units, and not every such sequence is text: slicing can
split a surrogate pair.  `Units` is such a sequence, `encode` the one of a list of characters, and the
operations read units the way the language does: `points` is `for (let character of text)`, and `size`
is the UTF-8 length, in which half a pair counts as the replacement character.

On encoded text the operations are those on characters: `points_encode`, `size_encode`,
`characters_encode`.
-/

set_option autoImplicit false

namespace Script

/-- UTF-16 code units. -/
abbrev Units := List Nat

/-- The units of one character. -/
def unitsOf (c : Char) : Units :=
  if c.toNat < 0x10000 then [c.toNat]
  else [0xd800 + (c.toNat - 0x10000) / 0x400, 0xdc00 + (c.toNat - 0x10000) % 0x400]

/-- The units of a text: no surrogate is alone in it. -/
def encode (chars : List Char) : Units := chars.flatMap unitsOf

/-- A literal. -/
def utf16 (literal : String) : Units := encode literal.toList

def high (unit : Nat) : Bool := 0xd800 ≤ unit && unit < 0xdc00

def low (unit : Nat) : Bool := 0xdc00 ≤ unit && unit < 0xe000

/-- The code points of `for (let character of text)`; a surrogate that is alone is one. -/
def points : Units → List Nat
  | [] => []
  | [unit] => [unit]
  | first :: second :: rest =>
    if high first && low second then
      (0x10000 + (first - 0xd800) * 0x400 + (second - 0xdc00)) :: points rest
    else first :: points (second :: rest)

/-- `character.length` -/
def pointUnits (point : Nat) : Nat := if 0xffff < point then 2 else 1

/-- The UTF-8 bytes of a code point. -/
def width (point : Nat) : Nat :=
  if point < 0x80 then 1 else if point < 0x800 then 2 else if point < 0x10000 then 3 else 4

/-- `Buffer.byteLength(text)`. -/
def size (text : Units) : Nat := ((points text).map width).sum

/-- The number of code points. -/
def characters (text : Units) : Nat := (points text).length

/-! ## Encoded text -/

/-- A character in a plane above the first is a pair. -/
theorem unitsOf_cases (c : Char) : (c.toNat < 0x10000 ∧ unitsOf c = [c.toNat] ∧ high c.toNat = false) ∨
    ∃ first second, unitsOf c = [first, second] ∧ high first = true ∧ low second = true ∧
      0x10000 + (first - 0xd800) * 0x400 + (second - 0xdc00) = c.toNat := by
  have hvalid := c.valid
  simp only [UInt32.isValidChar, Nat.isValidChar] at hvalid
  rw [unitsOf]
  split
  · rename_i hlow
    refine .inl ⟨hlow, rfl, ?_⟩
    simp only [high, Bool.and_eq_false_iff, decide_eq_false_iff_not, Char.toNat] at hlow ⊢
    omega
  · rename_i hhigh
    refine .inr ⟨_, _, rfl, ?_, ?_, ?_⟩ <;>
      simp only [high, low, Bool.and_eq_true, decide_eq_true_eq, Char.toNat] at hhigh ⊢ <;> omega

theorem encode_cons (c : Char) (rest : List Char) : encode (c :: rest) = unitsOf c ++ encode rest :=
  List.flatMap_cons

@[simp] theorem encode_nil : encode [] = [] := rfl

@[simp] theorem encode_append (left right : List Char) :
    encode (left ++ right) = encode left ++ encode right := List.flatMap_append

/-- A unit that begins no pair is a code point. -/
theorem points_cons_of_not_high {first : Nat} {rest : Units} (h : high first = false) :
    points (first :: rest) = first :: points rest := by
  cases rest with
  | nil => rfl
  | cons second rest => rw [points, h, Bool.false_and, if_neg Bool.false_ne_true]

theorem points_unitsOf (c : Char) (rest : Units) : points (unitsOf c ++ rest) = c.toNat :: points rest := by
  rcases unitsOf_cases c with ⟨-, hunits, hhigh⟩ | ⟨first, second, hunits, hhigh, hlow, hpoint⟩
  · rw [hunits, List.singleton_append, points_cons_of_not_high hhigh]
  · rw [hunits, List.cons_append, List.singleton_append, points, hhigh, hlow, Bool.and_self, if_pos rfl, hpoint]

/-- **The code points of a text are its characters.** -/
theorem points_append (chars : List Char) (rest : Units) :
    points (encode chars ++ rest) = chars.map Char.toNat ++ points rest := by
  induction chars with
  | nil => rfl
  | cons c chars ih => rw [encode_cons, List.append_assoc, points_unitsOf, ih, List.map_cons, List.cons_append]

theorem points_encode (chars : List Char) : points (encode chars) = chars.map Char.toNat := by
  simpa [points] using points_append chars []

theorem size_append (chars : List Char) (rest : Units) :
    size (encode chars ++ rest) = size (encode chars) + size rest := by
  rw [size, points_append, List.map_append, List.sum_append, size, points_encode, size]

theorem size_cons (c : Char) (rest : List Char) : size (encode (c :: rest)) = width c.toNat + size (encode rest) := by
  rw [size, points_encode, List.map_cons, List.map_cons, List.sum_cons, size, points_encode]

theorem characters_encode (chars : List Char) : characters (encode chars) = chars.length := by
  rw [characters, points_encode, List.length_map]

theorem width_le (point : Nat) : width point ≤ 4 := by
  rw [width]; split_ifs <;> decide

/-- A character is a unit of length in either count. -/
theorem length_unitsOf (c : Char) : (unitsOf c).length = pointUnits c.toNat := by
  rw [unitsOf, pointUnits]
  split_ifs <;> first | rfl | omega

/-- What follows a unit below the surrogates is read from there. -/
theorem points_before (front : Units) {unit : Nat} (rest : Units) (h : unit < 0x80) :
    points (front ++ unit :: rest) = points front ++ unit :: points rest := by
  have hhigh : high unit = false := by simp only [high, Bool.and_eq_false_iff, decide_eq_false_iff_not]; omega
  have hlow : low unit = false := by simp only [low, Bool.and_eq_false_iff, decide_eq_false_iff_not]; omega
  fun_induction points front with
  | case1 => exact points_cons_of_not_high hhigh
  | case2 first => rw [List.singleton_append, points, hlow, Bool.and_false, if_neg Bool.false_ne_true,
      points_cons_of_not_high hhigh]; rfl
  | case3 first second more hpair ih =>
    rw [List.cons_append, List.cons_append, points, if_pos hpair, ih]; rfl
  | case4 first second more hpair ih =>
    rw [List.cons_append, List.cons_append, points, if_neg hpair, ← List.cons_append, ih]; rfl

theorem size_before (front : Units) {unit : Nat} (rest : Units) (h : unit < 0x80) :
    size (front ++ unit :: rest) = size front + 1 + size rest := by
  rw [size, points_before front rest h, List.map_append, List.map_cons, List.sum_append, List.sum_cons,
    show width unit = 1 by rw [width, if_pos h], ← Nat.add_assoc]
  rfl

end Script
