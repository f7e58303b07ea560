import Chopin.Room.Passages

/-!
# Seeking a quote

`seek` collects every place of the quote by asking `indexOf` again from one unit after the last answer, and the
nearest of these wins.  Here the loop is run as it is written, one answer of `indexOf` a step, and `Room.seek`, which
names the places at once, is shown to be what comes of it.

The empty quote stands at every place of every text.  The guard in front of the loop turns it away.
-/

set_option autoImplicit false

open Script

namespace Chopin.Room.Seeking

/-- `text.indexOf(quote, position)` -/
def indexOf (text quote : Units) (position : Nat) : Option Nat :=
  let start := min position text.length
  (List.range' start (text.length + 1 - start)).find? fun «at» ↦ quote.isPrefixOf (text.drop «at»)

/-- The loop, from the answer `at` on, and nothing if it has not ended after so many steps. -/
def collect (text quote : Units) : Nat → Option Nat → List Nat → Option (List Nat)
  | _, none, found => some found
  | 0, some _, _ => none
  | steps + 1, some «at», found => collect text quote steps (indexOf text quote («at» + 1)) (found ++ [«at»])

/-- The place that is chosen among those found. -/
def choose (offset : Int) : List Nat → Option Nat
  | [] => none
  | [only] => some only
  | first :: rest =>
    let best := rest.foldl (fun a b ↦ if distance offset a ≤ distance offset b then a else b) first
    let near := distance offset best
    if ((first :: rest).filter fun «at» ↦ distance offset «at» = near).length = 1 then some best else none

/-- `seek`, if its loop ends within so many steps. -/
def seekWithin (steps : Nat) (text quote : Units) (offset : Int) : Option (Option Nat) :=
  if quote = [] then some none
  else (collect text quote steps (indexOf text quote 0) []).map (choose offset)

variable {text quote : Units} {offset : Int}

theorem seek_eq_choose (hquote : quote ≠ []) : seek text quote offset = choose offset (occurrences quote 0 text) := by
  rw [seek, if_neg hquote]
  rfl

/-! ## The loop -/

/-- The places of the quote from this position on. -/
def placesFrom (text quote : Units) (position : Nat) : List Nat :=
  (List.range' position (text.length + 1 - position)).filter fun «at» ↦ quote.isPrefixOf (text.drop «at»)

theorem occurrences_eq (quote : Units) (start : Nat) (text : Units) :
    occurrences quote start text = (placesFrom text quote 0).map (start + ·) := by
  induction text generalizing start with
  | nil =>
    rw [occurrences]
    cases h : quote.isPrefixOf [] <;> simp [placesFrom, h]
  | cons unit rest ih =>
    have hrange : List.range' 0 ((unit :: rest).length + 1 - 0) =
        0 :: (List.range' 0 (rest.length + 1)).map (· + 1) := by
      rw [List.length_cons, Nat.sub_zero, List.range'_succ, List.range'_eq_map_range, List.range'_eq_map_range,
        List.map_map]
      exact congrArg (0 :: ·) (List.map_congr_left fun «at» _ ↦ by simp only [Function.comp_apply]; omega)
    have hlater : ((List.range' 0 (rest.length + 1)).map (· + 1)).filter
        (fun «at» ↦ quote.isPrefixOf ((unit :: rest).drop «at»)) = (placesFrom rest quote 0).map (· + 1) := by
      rw [List.filter_map]
      rfl
    have hmap : (placesFrom rest quote 0).map (start + 1 + ·) =
        ((placesFrom rest quote 0).map (· + 1)).map (start + ·) := by
      rw [List.map_map]
      exact List.map_congr_left fun «at» _ ↦ by simp only [Function.comp_apply]; omega
    rw [occurrences, ih, hmap, placesFrom.eq_1 (unit :: rest), hrange, List.filter_cons, hlater, List.drop_zero]
    cases quote.isPrefixOf (unit :: rest) <;> rfl

/-- What `indexOf` answers is the first of the places from the position on. -/
theorem placesFrom_of_indexOf (quote : Units) {position : Nat} (hposition : position ≤ text.length) :
    (indexOf text quote position = none ∧ placesFrom text quote position = []) ∨
      ∃ «at», indexOf text quote position = some «at» ∧ position ≤ «at» ∧ Occurs text quote «at» ∧
        placesFrom text quote position = «at» :: placesFrom text quote («at» + 1) := by
  rw [indexOf, Nat.min_eq_left hposition, placesFrom]
  cases hfind : (List.range' position (text.length + 1 - position)).find?
      fun «at» ↦ quote.isPrefixOf (text.drop «at») with
  | none => exact .inl ⟨rfl, List.filter_eq_nil_iff.2 (List.find?_eq_none.1 hfind)⟩
  | some «at» =>
    obtain ⟨hoccurs, before, after, hsplit, hbefore⟩ := List.find?_eq_some_iff_append.1 hfind
    obtain ⟨k, hk, rfl, hrest⟩ := List.range'_eq_append_iff.1 hsplit
    obtain ⟨hat, hlength, rfl⟩ := List.range'_eq_cons_iff.1 hrest.symm
    refine .inr ⟨«at», rfl, by omega, List.isPrefixOf_iff_prefix.1 hoccurs, ?_⟩
    have hnone : (List.range' position k 1).filter (fun place ↦ quote.isPrefixOf (text.drop place)) = [] :=
      List.filter_eq_nil_iff.2 fun place hplace ↦ by
        have := hbefore place hplace
        rwa [Bool.not_eq_true', ← Bool.not_eq_true] at this
    have hcount : text.length + 1 - position - k - 1 = text.length + 1 - («at» + 1) := by omega
    rw [hsplit, List.filter_append, hnone, List.nil_append, List.filter_cons, if_pos hoccurs, hcount]
    rfl

theorem lt_of_occurs (hquote : quote ≠ []) {«at» : Nat} (h : Occurs text quote «at») : «at» < text.length := by
  by_contra hge
  rw [Occurs, List.drop_eq_nil_of_le (Nat.le_of_not_lt hge), List.prefix_nil] at h
  exact hquote h

/-- **The loop ends** after as many steps as there are places left for the quote, with all of these. -/
theorem collect_eq (hquote : quote ≠ []) {steps position : Nat} (hposition : position ≤ text.length)
    (hsteps : text.length - position ≤ steps) (found : List Nat) :
    collect text quote steps (indexOf text quote position) found = some (found ++ placesFrom text quote position) := by
  induction steps generalizing position found with
  | zero =>
    obtain ⟨hindex, hplaces⟩ | ⟨place, -, hle, hoccurs, -⟩ := placesFrom_of_indexOf quote hposition
    · rw [hindex, hplaces, collect, List.append_nil]
    · have := lt_of_occurs hquote hoccurs
      omega
  | succ steps ih =>
    obtain ⟨hindex, hplaces⟩ | ⟨place, hindex, hle, hoccurs, hplaces⟩ :=
      placesFrom_of_indexOf quote hposition
    · rw [hindex, hplaces, collect, List.append_nil]
    · have := lt_of_occurs hquote hoccurs
      rw [hindex, hplaces, collect, ih (by omega) (by omega), List.append_assoc]
      rfl

theorem seekWithin_eq {steps : Nat} (hsteps : text.length ≤ steps) :
    seekWithin steps text quote offset = some (seek text quote offset) := by
  by_cases hquote : quote = []
  · rw [seekWithin, seek, if_pos hquote, if_pos hquote]
  have hplaces : occurrences quote 0 text = placesFrom text quote 0 := by
    rw [occurrences_eq]
    exact (List.map_congr_left fun «at» _ ↦ Nat.zero_add «at»).trans (List.map_id _)
  rw [seekWithin, if_neg hquote, collect_eq hquote (Nat.zero_le _) hsteps, List.nil_append, seek_eq_choose hquote,
    hplaces]
  rfl

/-! ## What is found -/

/-- Here the quote stands, and nowhere nearer to the offset. -/
def Nearest (text quote : Units) (offset : Int) («at» : Nat) : Prop :=
  Occurs text quote «at» ∧ ∀ other, Occurs text quote other → distance offset «at» ≤ distance offset other

theorem exists_nearest (offset : Int) (hquote : quote ≠ []) {«at» : Nat} (h : Occurs text quote «at») :
    ∃ place, Nearest text quote offset place := by
  have hmem : ∀ {place}, place ∈ occurrences quote 0 text ↔ Occurs text quote place := by
    intro place
    rw [mem_occurrences hquote]
    exact ⟨fun ⟨i, hi, h⟩ ↦ by rwa [hi, Nat.zero_add], fun h ↦ ⟨place, (Nat.zero_add _).symm, h⟩⟩
  cases hfound : occurrences quote 0 text with
  | nil =>
    have := hmem.2 h
    rw [hfound] at this
    cases this
  | cons first rest =>
    obtain ⟨hbest, hle⟩ := nearest_spec offset first rest
    rw [← hfound] at hbest hle
    exact ⟨_, hmem.1 hbest, fun other hother ↦ hle other (hmem.2 hother)⟩

theorem seek_eq_none : seek text quote offset = none ↔ quote = [] ∨ (∀ «at», ¬Occurs text quote «at») ∨
    ∃ one other, one ≠ other ∧ Nearest text quote offset one ∧ Nearest text quote offset other := by
  constructor
  · intro hnone
    by_cases hquote : quote = []
    · exact .inl hquote
    by_cases hoccurs : ∃ «at», Occurs text quote «at»
    · obtain ⟨«at», hat⟩ := hoccurs
      obtain ⟨place, hplace, hle⟩ := exists_nearest offset hquote hat
      refine .inr (.inr (by_contra fun honly ↦ ?_))
      have hfound : seek text quote offset = some place := by
        refine seek_iff.2 ⟨hquote, hplace, fun other hother hne ↦ Nat.lt_of_le_of_ne (hle other hother) fun hsame ↦ ?_⟩
        exact honly ⟨place, other, fun h ↦ hne h.symm, ⟨hplace, hle⟩, hother,
          fun third hthird ↦ hsame ▸ hle third hthird⟩
      rw [hnone] at hfound
      cases hfound
    · exact .inr (.inl fun «at» hat ↦ hoccurs ⟨«at», hat⟩)
  · intro h
    cases hseek : seek text quote offset with
    | none => rfl
    | some place =>
      obtain ⟨hquote, hplace, hlt⟩ := seek_iff.1 hseek
      obtain h | h | ⟨one, other, hne, hone, hother⟩ := h
      · exact (hquote h).elim
      · exact (h place hplace).elim
      · have hunique : ∀ near, Nearest text quote offset near → near = place := by
          intro near hnear
          by_contra hne
          exact absurd (hlt near hnear.1 hne) (Nat.not_lt.2 (hnear.2 place hplace))
        exact (hne ((hunique one hone).trans (hunique other hother).symm)).elim

/-- **Seeking is strict**: it ends, with the place of a quote that is not empty which is strictly nearest to the offset;
and with nothing for the empty quote, for a quote that stands nowhere, and for two places as near as each other. -/
theorem seek_finds (text quote : Units) (offset : Int) : ∃ answer,
    (∀ steps, text.length ≤ steps → seekWithin steps text quote offset = some answer) ∧
    (∀ «at», answer = some «at» ↔ quote ≠ [] ∧ Occurs text quote «at» ∧
      ∀ other, Occurs text quote other → other ≠ «at» → distance offset «at» < distance offset other) ∧
    (answer = none ↔ quote = [] ∨ (∀ «at», ¬Occurs text quote «at») ∨
      ∃ one other, one ≠ other ∧ Nearest text quote offset one ∧ Nearest text quote offset other) :=
  ⟨seek text quote offset, fun _ hsteps ↦ seekWithin_eq hsteps, fun _ ↦ seek_iff, seek_eq_none⟩

/-- The empty quote stands in an empty text, at one place only, and nothing is found. -/
theorem empty_quote_lost : ¬∀ (text quote : Units) (offset : Int) («at» : Nat), Occurs text quote «at» →
      (∀ other, other ≤ text.length → Occurs text quote other → other ≠ «at» →
        distance offset «at» < distance offset other) →
      ∃ steps, seekWithin steps text quote offset = some (some «at») := by
  intro h
  obtain ⟨steps, hsteps⟩ := h [] [] 0 0 List.nil_prefix fun other hle _ hne ↦ (hne (Nat.le_zero.1 hle)).elim
  cases hsteps

end Chopin.Room.Seeking
