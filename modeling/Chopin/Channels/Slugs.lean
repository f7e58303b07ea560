import Mathlib.Data.Nat.Digits.Lemmas
import Chopin.Lib.Spaces

/-!
# Document slugs

A document is addressed by a slug of its title, and two documents with one title by the slug and a number behind it.
`documentSlug` makes the slug, and `documentSlugCandidate` puts the number to it: what comes of it is never longer than
a slug may be, so a long slug loses its end to the number.
-/

set_option autoImplicit false

open Script

namespace Chopin.Channels

export Script (Units)

/-- What the code is told about characters: `value.normalize("NFKC")`, `value.toLowerCase()`, and which code points are
in `[\p{L}\p{N}\p{M}]`. -/
structure Characters where
  normalize : Units → Units
  toLowerCase : Units → Units
  isWord : Units → Bool

/-- `MAX_DOCUMENT_SLUG_LENGTH` -/
def maxDocumentSlugLength : Nat := 100

/-- `-` -/
def dash : Nat := 0x2d

/-- What matches `-+$` is removed. -/
def stripEnd (value : Units) : Units := value.rdropWhile (· == dash)

def truncatedSlug (value : Units) (maximum : Nat) : Units := stripEnd ((spread value).take maximum).flatten

/-- `value.replace(/[^\p{L}\p{N}\p{M}]+/gu, "-")`, of the code points of a value. -/
def dashed (isWord : Units → Bool) : List Units → List Units
  | [] => []
  | point :: rest =>
    if isWord point then point :: dashed isWord rest
    else
      match rest with
      | [] => [[dash]]
      | next :: _ => if isWord next then [dash] :: dashed isWord rest else dashed isWord rest

def documentSlug (chars : Characters) (title : Units) : Units :=
  let words := (dashed chars.isWord (spread (chars.toLowerCase (chars.normalize title)))).flatten
  let slug := stripEnd (words.dropWhile (· == dash))
  if slug = [] then utf16 "document" else truncatedSlug slug maxDocumentSlugLength

/-- `Number.MAX_SAFE_INTEGER` -/
def maxSafeInteger : Nat := 2 ^ 53 - 1

/-- The errors that are thrown. -/
inductive Fault where
  | rangeError (message : String)
  deriving DecidableEq

/-- The decimal digits of a number. -/
def decimal (index : Nat) : Units := ((Nat.digits 10 index).map (0x30 + ·)).reverse

/-- `-${index}` -/
def suffix (index : Nat) : Units := dash :: decimal index

def documentSlugCandidate (base : Units) (index : Nat) : Except Fault Units :=
  if index > maxSafeInteger ∨ index < 1 then
    .error (.rangeError "document slug candidate index must be a positive safe integer")
  else if index = 1 then .ok base
  else .ok (truncatedSlug base (maxDocumentSlugLength - (spread (suffix index)).length) ++ suffix index)

/-! ## Dashes -/

/-- A slug is not empty, is not longer than a slug may be, and has no dash at either end. -/
structure IsSlug (slug : Units) : Prop where
  ne_nil : slug ≠ []
  length_le : (spread slug).length ≤ maxDocumentSlugLength
  first : ∀ unit ∈ slug.head?, unit ≠ dash
  last : ∀ unit ∈ slug.getLast?, unit ≠ dash

variable {base front text : Units} {index other : Nat}

theorem stripEnd_prefix (text : Units) : stripEnd text <+: text := List.rdropWhile_prefix _ _

variable {unit : Nat}

theorem stripEnd_last (h : unit ∈ (stripEnd text).getLast?) : unit ≠ dash := by
  have := rdropWhile_last h
  exact fun hunit ↦ Bool.false_ne_true (this.symm.trans (beq_iff_eq.2 hunit))

theorem stripEnd_eq_self (h : ∀ unit ∈ text.getLast?, unit ≠ dash) : stripEnd text = text :=
  List.rdropWhile_eq_self_iff.2 fun hne hlast ↦ h _ (List.getLast?_eq_some_getLast hne) (beq_iff_eq.1 hlast)

theorem stripEnd_dash (text : Units) : stripEnd (text ++ [dash]) = stripEnd text :=
  List.rdropWhile_concat_pos _ _ _ (beq_self_eq_true dash)

/-- What does not begin with a dash is not stripped away. -/
theorem stripEnd_cons {first : Nat} (h : first ≠ dash) (rest : Units) :
    ∃ more, stripEnd (first :: rest) = first :: more := by
  have hstart := stripEnd_prefix (first :: rest)
  cases hstrip : stripEnd (first :: rest) with
  | nil =>
    rw [stripEnd, List.rdropWhile_eq_nil_iff] at hstrip
    exact (h (beq_iff_eq.1 (hstrip first List.mem_cons_self))).elim
  | cons unit more =>
    rw [hstrip, List.cons_prefix_cons] at hstart
    exact ⟨more, by rw [hstart.1]⟩

/-- A text that is cut keeps its first unit, if that is no dash. -/
theorem truncatedSlug_cons {first : Nat} (h : first ≠ dash) (rest : Units) (maximum : Nat) (hmaximum : 0 < maximum) :
    ∃ more, truncatedSlug (first :: rest) maximum = first :: more := by
  obtain hnone | ⟨more, hmore⟩ := take_spread_cons first rest maximum
  · cases hspread : spread (first :: rest) with
    | nil =>
      have := spread_flatten (first :: rest)
      rw [hspread] at this
      cases this
    | cons point points =>
      rw [hspread, List.take_eq_nil_iff] at hnone
      obtain hzero | hnil := hnone
      · omega
      · cases hnil
  · rw [truncatedSlug, hmore]
    exact stripEnd_cons h more

theorem truncatedSlug_length_le (text : Units) (maximum : Nat) :
    (spread (truncatedSlug text maximum)).length ≤ maximum := by
  obtain ⟨back, hback⟩ := stripEnd_prefix ((spread text).take maximum).flatten
  have hle := spread_length_le (truncatedSlug text maximum) back
  rw [truncatedSlug, hback, spread_take] at hle
  exact hle.trans (List.length_take_le _ _)

theorem documentSlug_isSlug (chars : Characters) (title : Units) : IsSlug (documentSlug chars title) := by
  rw [documentSlug]
  generalize (dashed chars.isWord (spread (chars.toLowerCase (chars.normalize title)))).flatten = words
  split
  · exact ⟨by decide, by decide, by decide, by decide⟩
  · rename_i hslug
    -- What is left of the words begins with no dash, so neither does what is cut from it.
    cases hwords : words.dropWhile (· == dash) with
    | nil => rw [hwords] at hslug; exact (hslug rfl).elim
    | cons first rest =>
      have hfirst : first ≠ dash := by
        have := head_dropWhile (Option.mem_def.2 (congrArg List.head? hwords))
        exact fun h ↦ Bool.false_ne_true (this.symm.trans (beq_iff_eq.2 h))
      obtain ⟨more, hmore⟩ := stripEnd_cons hfirst rest
      obtain ⟨kept, hkept⟩ := truncatedSlug_cons hfirst more maxDocumentSlugLength (by decide)
      refine ⟨?_, truncatedSlug_length_le _ _, ?_, fun unit ↦ stripEnd_last⟩
      · rw [hmore, hkept]
        exact List.cons_ne_nil _ _
      · rw [hmore, hkept]
        exact fun unit hunit ↦ Option.some.inj hunit ▸ hfirst

/-! ## Numbers -/

theorem decimal_digit (h : unit ∈ decimal index) : 0x30 ≤ unit ∧ unit < 0x3a := by
  rw [decimal, List.mem_reverse, List.mem_map] at h
  obtain ⟨digit, hdigit, rfl⟩ := h
  have := Nat.digits_lt_base (by decide : 1 < 10) hdigit
  omega

theorem ne_dash_of_mem_decimal (h : unit ∈ decimal index) : unit ≠ dash := by
  have := decimal_digit h
  rw [dash]
  omega

theorem decimal_injective (h : decimal index = decimal other) : index = other := by
  rw [decimal, decimal, List.reverse_inj] at h
  exact Nat.digits_inj_iff.1 ((List.map_injective_iff.2 fun a b ↦ Nat.add_left_cancel) h)

theorem decimal_ne_nil (h : 1 ≤ index) : decimal index ≠ [] := by
  rw [decimal, Ne, List.reverse_eq_nil_iff, List.map_eq_nil_iff]
  exact Nat.digits_ne_nil_iff_ne_zero.2 (by omega)

/-- Every unit of a suffix is a code point. -/
theorem spread_suffix (index : Nat) : spread (suffix index) = (suffix index).map ([·]) := by
  refine spread_of_single fun unit hunit ↦ ?_
  have hsmall : unit < 0xdc00 := by
    rcases List.mem_cons.1 hunit with rfl | hunit
    · decide
    · have := decimal_digit hunit
      omega
  rw [low, Bool.and_eq_false_iff]
  exact .inl (decide_eq_false (by omega))

theorem spread_suffixed (front : Units) (index : Nat) :
    spread (front ++ suffix index) = spread front ++ (suffix index).map ([·]) := by
  rw [suffix, spread_append front (by decide), ← suffix, spread_suffix]

theorem suffix_length_le (h : index ≤ maxSafeInteger) : (suffix index).length ≤ 17 := by
  have hdigits : (Nat.digits 10 index).length ≤ 16 := by
    rw [Nat.digits_length_le_iff (by decide)]
    exact Nat.lt_of_le_of_lt h (by decide)
  rw [suffix, List.length_cons, decimal, List.length_reverse, List.length_map]
  omega

/-- The number behind a text is what stands behind its last dash. -/
theorem suffixed_number (front : Units) (index : Nat) :
    ((front ++ suffix index).reverse.takeWhile (· != dash)).reverse = decimal index := by
  have hdigits : ∀ unit ∈ (decimal index).reverse, (unit != dash) = true := fun unit hunit ↦
    bne_iff_ne.2 (ne_dash_of_mem_decimal (List.mem_reverse.1 hunit))
  rw [suffix, List.reverse_append, List.reverse_cons, List.append_assoc, List.singleton_append,
    List.takeWhile_append_of_pos hdigits, List.takeWhile_cons_of_neg (by simp), List.append_nil, List.reverse_reverse]

theorem suffixed_injective {back : Units} (h : front ++ suffix index = back ++ suffix other) : index = other :=
  decimal_injective (by rw [← suffixed_number front, h, suffixed_number])

/-! ## Candidates -/

/-- What is left of the base where it has to make room for the number. -/
def stem (base : Units) (index : Nat) : Units := truncatedSlug base (maxDocumentSlugLength - (suffix index).length)

theorem candidate_one (base : Units) : documentSlugCandidate base 1 = .ok base := by
  rw [documentSlugCandidate, if_neg (by decide), if_pos rfl]

theorem candidate_suffixed (hindex : 2 ≤ index) (hsafe : index ≤ maxSafeInteger) :
    documentSlugCandidate base index = .ok (stem base index ++ suffix index) := by
  rw [documentSlugCandidate, if_neg (by omega), if_neg (by omega), spread_suffix, List.length_map, stem]

theorem candidate_unsafe (base : Units) (h : maxSafeInteger < index) :
    ∃ fault, documentSlugCandidate base index = .error fault :=
  ⟨_, if_pos (.inl h)⟩

/-- **Every candidate of a slug is a slug.** -/
theorem candidate_isSlug (hbase : IsSlug base) {candidate : Units}
    (h : documentSlugCandidate base index = .ok candidate) : IsSlug candidate := by
  rw [documentSlugCandidate] at h
  split at h
  · cases h
  · rename_i hrange
    split at h
    · cases h
      exact hbase
    · have hlength := suffix_length_le (show index ≤ maxSafeInteger by omega)
      have hdigits := decimal_ne_nil (show 1 ≤ index by omega)
      cases h
      cases hhead : base with
      | nil => exact (hbase.ne_nil hhead).elim
      | cons first rest =>
        have hfirst : first ≠ dash := hbase.first first (by rw [hhead]; rfl)
        rw [spread_suffix, List.length_map]
        obtain ⟨more, hmore⟩ := truncatedSlug_cons hfirst rest
          (maxDocumentSlugLength - (suffix index).length) (by rw [maxDocumentSlugLength]; omega)
        have hfront := truncatedSlug_length_le (first :: rest) (maxDocumentSlugLength - (suffix index).length)
        refine ⟨?_, ?_, ?_, ?_⟩
        · exact List.append_ne_nil_of_right_ne_nil _ (List.cons_ne_nil _ _)
        · rw [spread_suffixed, List.length_append, List.length_map]
          rw [maxDocumentSlugLength] at hfront ⊢
          omega
        · rw [hmore]
          exact fun unit hunit ↦ Option.some.inj hunit ▸ hfirst
        · intro unit hunit
          rw [suffix, List.getLast?_append_of_ne_nil _ (List.cons_ne_nil _ _),
            List.getLast?_cons_of_ne_nil hdigits] at hunit
          exact ne_dash_of_mem_decimal (List.mem_of_getLast? hunit)

/-- The base comes back from its stem where it ends in the number, with nothing or one dash to cut away. -/
theorem stem_eq_iff (hindex : 2 ≤ index) (hsafe : index ≤ maxSafeInteger) : base = stem base index ++ suffix index ↔
      ((spread base).length = 99 ∨ (spread base).length = 100) ∧
        ∃ front, base = front ++ suffix index ∧ ∀ unit ∈ front.getLast?, unit ≠ dash := by
  have hlength := suffix_length_le hsafe
  have htwo : 2 ≤ (suffix index).length := by
    have := List.length_pos_of_ne_nil (decimal_ne_nil (show 1 ≤ index by omega))
    rw [suffix, List.length_cons]
    omega
  -- What is left of a base that ends in the number: its front, and as much of the number as there is room for.
  have hcut : ∀ front, base = front ++ suffix index → (spread front).length + (suffix index).length ≤ 100 →
      stem base index =
        stripEnd (front ++ (suffix index).take (100 - ((spread front).length + (suffix index).length))) := by
    intro front hbase hle
    have hroom : maxDocumentSlugLength - (suffix index).length - (spread front).length =
        100 - ((spread front).length + (suffix index).length) := by rw [maxDocumentSlugLength]; omega
    rw [stem, truncatedSlug, hbase, spread_suffixed, List.take_append,
      List.take_of_length_le (by rw [maxDocumentSlugLength]; omega), hroom, List.flatten_append, spread_flatten,
      ← List.map_take]
    congr 2
    exact List.flatMap_def.symm.trans (List.flatMap_singleton' _)
  constructor
  · intro hbase
    have hfront : (spread (stem base index)).length + (suffix index).length ≤ 100 := by
      have := truncatedSlug_length_le base (maxDocumentSlugLength - (suffix index).length)
      rw [← stem, maxDocumentSlugLength] at this
      omega
    have hsize : (spread base).length = (spread (stem base index)).length + (suffix index).length := by
      conv_lhs => rw [hbase, spread_suffixed, List.length_append, List.length_map]
    refine ⟨?_, stem base index, hbase, fun unit ↦ stripEnd_last⟩
    by_contra hshort
    -- With room for a digit of the number nothing would be cut away.
    have hself := hcut _ hbase hfront
    generalize hroom : 100 - ((spread (stem base index)).length + (suffix index).length) = room at hself
    have hmany : 2 ≤ room := by omega
    have hlast : ∀ unit ∈ (stem base index ++ (suffix index).take room).getLast?, unit ≠ dash := by
      obtain ⟨digit, digits, hdigits⟩ := List.exists_cons_of_ne_nil (decimal_ne_nil (show 1 ≤ index by omega))
      obtain ⟨more, rfl⟩ : ∃ more, room = more + 2 := ⟨room - 2, by omega⟩
      intro unit hunit
      rw [suffix, hdigits, List.take_succ_cons, List.take_succ_cons,
        List.getLast?_append_of_ne_nil _ (List.cons_ne_nil _ _),
        List.getLast?_cons_of_ne_nil (List.cons_ne_nil _ _)] at hunit
      have hmem : unit ∈ digit :: digits.take more := List.mem_of_getLast? hunit
      have hdigit : unit ∈ decimal index := hdigits ▸ (List.cons_subset_cons _ (List.take_subset _ _)) hmem
      exact ne_dash_of_mem_decimal hdigit
    rw [stripEnd_eq_self hlast] at hself
    have := congrArg List.length hself
    rw [List.length_append, List.length_take] at this
    omega
  · rintro ⟨hsize, front, hbase, hlast⟩
    have hfront : (spread base).length = (spread front).length + (suffix index).length := by
      rw [hbase, spread_suffixed, List.length_append, List.length_map]
    have hstem : stem base index = front := by
      rw [hcut front hbase (by omega), ← hfront]
      obtain hsize | hsize := hsize
      · rw [hsize, suffix, List.take_succ_cons, List.take_zero, stripEnd_dash, stripEnd_eq_self hlast]
      · rw [hsize, List.take_zero, List.append_nil, stripEnd_eq_self hlast]
    rw [hstem]
    exact hbase

/-- **Candidates are one** where the base is at the limit and ends in the other's number already. -/
theorem candidate_eq_iff (hone : 1 ≤ index) (hlt : index < other) (hsafe : other ≤ maxSafeInteger) :
    documentSlugCandidate base index = documentSlugCandidate base other ↔
      index = 1 ∧ ((spread base).length = 99 ∨ (spread base).length = 100) ∧
        ∃ front, base = front ++ suffix other ∧ ∀ unit ∈ front.getLast?, unit ≠ dash := by
  rw [candidate_suffixed (show 2 ≤ other by omega) hsafe]
  obtain rfl | hindex := Nat.eq_or_lt_of_le hone
  · rw [candidate_one, ← stem_eq_iff (by omega) hsafe]
    exact ⟨fun h ↦ ⟨rfl, Except.ok.inj h⟩, fun h ↦ congrArg _ h.2⟩
  · rw [candidate_suffixed hindex (by omega)]
    constructor
    · intro h
      have := suffixed_injective (Except.ok.inj h)
      omega
    · rintro ⟨rfl, -⟩
      omega

end Chopin.Channels
