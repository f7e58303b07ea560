import Mathlib.Data.List.Chain
import Mathlib.Data.List.DropRight
import Mathlib.Data.List.TakeWhile
import Chopin.Lib.Utf16

/-!
# White space in strings of code units

What a script removes and replaces as white space is single units, so the operations on it read units and
not characters: `isSpaceUnit` is `\s`, `collapse` replaces every run by one space, `trimUnits` is `trim`.
-/

set_option autoImplicit false

namespace Script

/-- A unit that `\s` matches; no white space is a pair. -/
def isSpaceUnit (unit : Nat) : Bool :=
  [0x9, 0xa, 0xb, 0xc, 0xd, 0x20, 0xa0, 0x1680, 0x2028, 0x2029, 0x202f, 0x205f, 0x3000, 0xfeff].contains unit
    || (0x2000 ≤ unit && unit ≤ 0x200a)

/-- `value.replace(/\s+/g, " ")` -/
def collapse : Units → Units
  | [] => []
  | unit :: rest =>
    if isSpaceUnit unit then
      match rest with
      | [] => [0x20]
      | next :: _ => if isSpaceUnit next then collapse rest else 0x20 :: collapse rest
    else unit :: collapse rest

/-- `value.trim()` -/
def trimUnits (text : Units) : Units := (text.dropWhile isSpaceUnit).rdropWhile isSpaceUnit

/-- `[...value]`: a pair is one string, and any other unit is. -/
def spread : Units → List Units
  | [] => []
  | [unit] => [[unit]]
  | first :: second :: rest =>
    if high first && low second then [first, second] :: spread rest else [first] :: spread (second :: rest)

/-! ## Runs of white space -/

/-- White space stands as single spaces. -/
structure Spaced (text : Units) : Prop where
  single : text.IsChain fun first second ↦ ¬(isSpaceUnit first = true ∧ isSpaceUnit second = true)
  space : ∀ unit ∈ text, isSpaceUnit unit = true → unit = 0x20

variable {text : Units}

theorem Spaced.part {part : Units} (h : Spaced text) (hpart : part <:+: text) : Spaced part := by
  obtain ⟨front, back, rfl⟩ := hpart
  exact ⟨h.single.left_of_append.right_of_append, fun unit hunit ↦ h.space unit (by simp [hunit])⟩

variable {unit : Nat}

theorem Spaced.cons {rest : Units} (h : Spaced rest) (hunit : isSpaceUnit unit = false) : Spaced (unit :: rest) := by
  refine ⟨h.single.cons fun _ _ hboth ↦ Bool.false_ne_true (hunit.symm.trans hboth.1), ?_⟩
  rintro found (_ | ⟨_, hfound⟩) hspace
  · rw [hunit] at hspace; exact nomatch hspace
  · exact h.space found hfound hspace

/-- **Collapsing leaves single spaces.** -/
theorem collapse_spaced (text : Units) : Spaced (collapse text) := by
  fun_induction collapse text with
  | case1 => exact ⟨.nil, by simp⟩
  | case2 unit hspace => exact ⟨.singleton _, by simp⟩
  | case3 unit hspace next rest hnext ih => exact ih
  | case4 unit hspace next rest hnext ih =>
    -- The run ends here, so what follows the space is no white space.
    have hhead : (collapse (next :: rest)).head? = some next := by simp [collapse, hnext]
    refine ⟨ih.single.cons fun second hsecond hboth ↦ ?_, ?_⟩
    · rw [hhead, Option.mem_some_iff] at hsecond
      exact hnext (hsecond ▸ hboth.2)
    · rintro found (_ | ⟨_, hfound⟩) hfoundSpace
      · rfl
      · exact ih.space found hfound hfoundSpace
  | case5 unit rest hspace ih => exact ih.cons (Bool.eq_false_iff.2 hspace)

/-- Single spaces are not replaced. -/
theorem collapse_eq_self (h : Spaced text) : collapse text = text := by
  fun_induction collapse text with
  | case1 => rfl
  | case2 unit hspace => rw [h.space unit List.mem_cons_self hspace]
  | case3 unit hspace next rest hnext ih => exact absurd ⟨hspace, hnext⟩ (h.single.rel_head? rfl)
  | case4 unit hspace next rest hnext ih =>
    rw [ih (h.part (List.suffix_cons _ _).isInfix), h.space unit List.mem_cons_self hspace]
  | case5 unit rest hspace ih => rw [ih (h.part (List.suffix_cons _ _).isInfix)]

/-! ## Trimming -/

/-- No white space stands at the ends. -/
structure Trimmed (text : Units) : Prop where
  first : ∀ unit ∈ text.head?, isSpaceUnit unit = false
  last : ∀ unit ∈ text.getLast?, isSpaceUnit unit = false

theorem trimUnits_part (text : Units) : trimUnits text <:+: text := by
  have hfront := List.rdropWhile_prefix isSpaceUnit (text.dropWhile isSpaceUnit)
  exact hfront.isInfix.trans (List.dropWhile_suffix isSpaceUnit).isInfix

theorem head_dropWhile {p : Nat → Bool} (h : unit ∈ (text.dropWhile p).head?) : p unit = false := by
  have := List.head?_dropWhile_not p text
  rw [Option.mem_def.1 h] at this
  simpa using this

theorem rdropWhile_last {p : Nat → Bool} (h : unit ∈ (text.rdropWhile p).getLast?) : p unit = false := by
  rw [List.rdropWhile, List.getLast?_reverse] at h
  exact head_dropWhile h

theorem trimUnits_trimmed (text : Units) : Trimmed (trimUnits text) := by
  refine ⟨fun unit hunit ↦ ?_, fun unit hunit ↦ rdropWhile_last hunit⟩
  obtain ⟨back, hback⟩ := List.rdropWhile_prefix isSpaceUnit (text.dropWhile isSpaceUnit)
  have hhead : unit ∈ (text.dropWhile isSpaceUnit).head? := by
    rw [← hback]
    cases htrimmed : (text.dropWhile isSpaceUnit).rdropWhile isSpaceUnit with
    | nil => rw [trimUnits, htrimmed] at hunit; exact nomatch hunit
    | cons first rest => rw [trimUnits, htrimmed] at hunit; exact hunit
  exact head_dropWhile hhead

/-- Trimming takes from a text only what keeps it from being trimmed. -/
theorem trimUnits_eq_self_iff : trimUnits text = text ↔ Trimmed text := by
  refine ⟨fun h ↦ h ▸ trimUnits_trimmed text, fun h ↦ ?_⟩
  have hfirst : text.dropWhile isSpaceUnit = text := by
    cases text with
    | nil => rfl
    | cons unit rest => rw [List.dropWhile_cons_of_neg (by rw [h.first unit rfl]; exact Bool.false_ne_true)]
  rw [trimUnits, hfirst, List.rdropWhile_eq_self_iff]
  exact fun hne ↦ by rw [h.last _ (List.getLast?_eq_some_getLast hne)]; exact Bool.false_ne_true

/-! ## Code points -/

@[simp] theorem spread_flatten (text : Units) : (spread text).flatten = text := by
  fun_induction spread text with
  | case1 => rfl
  | case2 unit => rfl
  | case3 first second rest hpair ih => rw [List.flatten_cons, ih]; rfl
  | case4 first second rest hpair ih => rw [List.flatten_cons, ih]; rfl

/-- The first code points of a text, if any, begin with its first unit. -/
theorem take_spread_cons (unit : Nat) (rest : Units) (count : Nat) : (spread (unit :: rest)).take count = [] ∨
      ∃ more, ((spread (unit :: rest)).take count).flatten = unit :: more := by
  cases count with
  | zero => exact .inl rfl
  | succ count =>
    right
    rcases rest with _ | ⟨second, rest⟩
    · exact ⟨[], by simp [spread]⟩
    · rw [spread]
      split
      · exact ⟨second :: ((spread rest).take count).flatten, rfl⟩
      · exact ⟨((spread (second :: rest)).take count).flatten, rfl⟩

/-- The first code points of a text are the code points of the text they make. -/
theorem spread_take (text : Units) (count : Nat) :
    spread ((spread text).take count).flatten = (spread text).take count := by
  fun_induction spread text generalizing count with
  | case1 => rw [List.take_nil]; rfl
  | case2 unit => cases count <;> simp [spread]
  | case3 first second rest hpair ih =>
    cases count with
    | zero => rfl
    | succ count => rw [List.take_succ_cons, List.flatten_cons, List.cons_append, List.cons_append, List.nil_append,
        spread, if_pos hpair, ih]
  | case4 first second rest hpair ih =>
    cases count with
    | zero => rfl
    | succ count =>
      rw [List.take_succ_cons, List.flatten_cons, List.singleton_append]
      have htail := ih count
      rcases take_spread_cons second rest count with hnone | ⟨more, hmore⟩
      · rw [hnone]; rfl
      · rw [hmore] at htail ⊢
        rw [spread, if_neg hpair, htail]

/-- The front of a text has no more code points. -/
theorem spread_length_le (front back : Units) : (spread front).length ≤ (spread (front ++ back)).length := by
  fun_induction spread front with
  | case1 => exact Nat.zero_le _
  | case2 unit =>
    cases back with
    | nil => exact Nat.le_refl _
    | cons second rest => rw [List.singleton_append, spread]; split <;> simp
  | case3 first second rest hpair ih =>
    rw [List.cons_append, List.cons_append, spread, if_pos hpair]
    exact Nat.succ_le_succ ih
  | case4 first second rest hpair ih =>
    rw [List.cons_append, List.cons_append, spread, if_neg hpair]
    exact Nat.succ_le_succ ih

/-- A unit that is no half of a pair begins code points of its own. -/
theorem spread_append (front : Units) (h : low unit = false) (back : Units) :
    spread (front ++ unit :: back) = spread front ++ spread (unit :: back) := by
  fun_induction spread front with
  | case1 => rfl
  | case2 first => rw [List.singleton_append, spread, h, Bool.and_false, if_neg Bool.false_ne_true]; rfl
  | case3 first second rest hpair ih =>
    rw [List.cons_append, List.cons_append, spread, if_pos hpair, ih, List.cons_append]
  | case4 first second rest hpair ih =>
    rw [List.cons_append, List.cons_append, spread, if_neg hpair, ← List.cons_append, ih, List.cons_append]

/-- Without surrogates every unit is a code point. -/
theorem spread_of_single (h : ∀ unit ∈ text, low unit = false) : spread text = text.map ([·]) := by
  fun_induction spread text with
  | case1 => rfl
  | case2 unit => rfl
  | case3 first second rest hpair ih =>
    have := h second (List.mem_cons_of_mem _ List.mem_cons_self)
    rw [this, Bool.and_false] at hpair
    cases hpair
  | case4 first second rest hpair ih =>
    rw [ih fun unit hunit ↦ h unit (List.mem_cons_of_mem _ hunit)]
    rfl

/-- A code point is a unit, or a pair. -/
theorem mem_spread {piece : Units} (h : piece ∈ spread text) :
    (∃ unit, piece = [unit]) ∨ ∃ first second, piece = [first, second] ∧ low second = true := by
  fun_induction spread text with
  | case1 => cases h
  | case2 unit => exact .inl ⟨unit, List.mem_singleton.1 h⟩
  | case3 first second rest hpair ih =>
    rcases List.mem_cons.1 h with rfl | h
    · exact .inr ⟨first, second, rfl, (Bool.and_eq_true_iff.1 hpair).2⟩
    · exact ih h
  | case4 first second rest hpair ih =>
    rcases List.mem_cons.1 h with rfl | h
    · exact .inl ⟨first, rfl⟩
    · exact ih h

/-- A code point has at most two units. -/
theorem length_le_spread (text : Units) : text.length ≤ 2 * (spread text).length := by
  fun_induction spread text with
  | case1 => exact Nat.zero_le _
  | case2 unit => simp
  | case3 first second rest hpair ih => simp only [List.length_cons] at ih ⊢; omega
  | case4 first second rest hpair ih => simp only [List.length_cons] at ih ⊢; omega

theorem isSpaceUnit_of_low (h : low unit = true) : isSpaceUnit unit = false := by
  simp only [low, Bool.and_eq_true, decide_eq_true_eq] at h
  simp only [isSpaceUnit, List.contains_eq_mem, List.mem_cons, List.not_mem_nil, or_false, Bool.or_eq_false_iff,
    decide_eq_false_iff_not, Bool.and_eq_false_iff]
  omega

/-! ## Gaps -/

section

variable {α β : Type} {gap : α → Bool} {space : α}

/-- The units of a gap that were read. -/
inductive Gap (α : Type) where
  | none
  | one (unit : α)
  | more

/-- What a gap becomes: two units or more are replaced by one. -/
def Gap.close (space : α) : Gap α → List α
  | .none => []
  | .one unit => [unit]
  | .more => [space]

/-- A gap with one more unit. -/
def Gap.widen (unit : α) : Gap α → Gap α
  | .none => .one unit
  | _ => .more

/-- Every run of two units or more is replaced by `space`. -/
def narrow (gap : α → Bool) (space : α) (before : Gap α) : List α → List α
  | [] => before.close space
  | unit :: rest =>
    if gap unit then narrow gap space (before.widen unit) rest
    else before.close space ++ unit :: narrow gap space .none rest

def Gap.map (f : α → β) : Gap α → Gap β
  | .none => .none
  | .one unit => .one (f unit)
  | .more => .more

/-- Gaps are replaced alike in any writing of the units. -/
theorem narrow_map {wide : β → Bool} (f : α → β) (h : ∀ unit, wide (f unit) = gap unit) (before : Gap α)
    (input : List α) : narrow wide (f space) (before.map f) (input.map f) = (narrow gap space before input).map f := by
  induction input generalizing before with
  | nil => cases before <;> rfl
  | cons unit rest ih =>
    have hwiden : (before.map f).widen (f unit) = (before.widen unit).map f := by cases before <;> rfl
    have hclose : (before.map f).close (f space) = (before.close space).map f := by cases before <;> rfl
    rw [List.map_cons, narrow, narrow, h]
    split
    · rw [hwiden, ih]
    · rw [hclose, List.map_append, List.map_cons]
      exact congrArg (fun tail ↦ _ ++ _ :: tail) (ih .none)

/-- A unit that is no gap ends the gap before it. -/
theorem narrow_append {unit : α} (h : gap unit = false) (before : Gap α) (front back : List α) :
    narrow gap space before (front ++ unit :: back) =
      narrow gap space before front ++ unit :: narrow gap space .none back := by
  induction front generalizing before with
  | nil => simp only [List.nil_append, narrow, h, Bool.false_eq_true, if_false]
  | cons first rest ih =>
    rw [List.cons_append, narrow, narrow]
    split
    · exact ih _
    · rw [ih, List.append_assoc, List.cons_append]

/-- What a gap may become is one of its units, or the space. -/
theorem mem_narrow {before : Gap α} {input : List α} {unit : α} (h : unit ∈ narrow gap space before input) :
    unit ∈ input ∨ unit ∈ before.close space ∨ unit = space := by
  induction input generalizing before with
  | nil => exact .inr (.inl h)
  | cons first rest ih =>
    rw [narrow] at h
    split at h
    · rcases ih h with h | h | h
      · exact .inl (List.mem_cons_of_mem _ h)
      · cases before with
        | none => exact .inl (List.mem_singleton.1 h ▸ List.mem_cons_self)
        | one held => exact .inr (.inr (List.mem_singleton.1 h))
        | more => exact .inr (.inr (List.mem_singleton.1 h))
      · exact .inr (.inr h)
    · rcases List.mem_append.1 h with h | h
      · exact .inr (.inl h)
      · rcases List.mem_cons.1 h with rfl | h
        · exact .inl List.mem_cons_self
        · rcases ih h with h | h | h
          · exact .inl (List.mem_cons_of_mem _ h)
          · cases h
          · exact .inr (.inr h)

/-- What no gap holds, and no space is, is left as it is. -/
theorem filter_narrow {solid : α → Bool} (hgap : ∀ unit, gap unit = true → solid unit = false)
    (hspace : solid space = false) {before : Gap α} (hbefore : (before.close space).filter solid = [])
    (input : List α) : (narrow gap space before input).filter solid = input.filter solid := by
  induction input generalizing before with
  | nil => exact hbefore
  | cons unit rest ih =>
    rw [narrow]
    split
    · rename_i hunit
      rw [List.filter_cons_of_neg (by rw [hgap unit hunit]; exact Bool.false_ne_true), ih]
      cases before with
      | none => exact List.filter_cons_of_neg (by rw [hgap unit hunit]; exact Bool.false_ne_true)
      | one held => exact List.filter_cons_of_neg (by rw [hspace]; exact Bool.false_ne_true)
      | more => exact List.filter_cons_of_neg (by rw [hspace]; exact Bool.false_ne_true)
    · rw [List.filter_append, hbefore, List.nil_append, List.filter_cons, List.filter_cons, ih rfl]

end

end Script
