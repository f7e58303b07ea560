import Chopin.Lib.Except
import Chopin.Drafts.Splices

/-!
# A splice is exact

The splice of two texts brings the one to the other, whatever they are.  Where both are well-formed it does not
cut a pair of surrogates: the two texts are the same before its start and after its ends, so a pair there is in
both, and the widening has put it on one side.
-/

set_option autoImplicit false

open Script

namespace Chopin.Drafts

variable {before after : Units}

/-! ## What two texts share -/

theorem shared_le (before after : Units) :
    shared before after ≤ before.length ∧ shared before after ≤ after.length := by
  fun_induction shared before after with
  | case1 unit before after ih =>
    simp only [List.length_cons]
    omega
  | case2 => exact ⟨Nat.zero_le _, Nat.zero_le _⟩
  | case3 => exact ⟨Nat.zero_le _, Nat.zero_le _⟩

theorem take_shared (before after : Units) : before.take (shared before after) = after.take (shared before after) := by
  fun_induction shared before after with
  | case1 unit before after ih => rw [List.take_succ_cons, List.take_succ_cons, ih]
  | case2 => rfl
  | case3 => rfl

/-- The three indices: the texts are the same up to the start and from the ends on, which come after it. -/
structure Bounds (before after : Units) (start «end» nextEnd : Nat) : Prop where
  first : before.take start = after.take start
  last : before.drop «end» = after.drop nextEnd
  start_le : start ≤ «end» ∧ start ≤ nextEnd
  end_le : «end» ≤ before.length ∧ nextEnd ≤ after.length

theorem startOf_le (before after : Units) : startOf before after ≤ shared before after := by
  rw [startOf]
  split
  · exact Nat.sub_le _ _
  · exact Nat.le_refl _

/-- What is the same when read from the end. -/
theorem drop_shared (before after : Units) : before.drop (before.length - shared before.reverse after.reverse) =
      after.drop (after.length - shared before.reverse after.reverse) := by
  have htake := congrArg List.reverse (take_shared before.reverse after.reverse)
  rwa [List.reverse_take, List.reverse_take, List.reverse_reverse, List.reverse_reverse, List.length_reverse,
    List.length_reverse] at htake

/-! ## Pairs of surrogates -/

/-- A text in which every surrogate is in a pair. -/
inductive WellFormed : Units → Prop
  | nil : WellFormed []
  | single (unit : Nat) (rest : Units) (high : high unit = false) (low : low unit = false) (tail : WellFormed rest) :
    WellFormed (unit :: rest)
  | pair (first second : Nat) (rest : Units) (high : high first = true) (low : low second = true)
    (tail : WellFormed rest) : WellFormed (first :: second :: rest)

/-- The index is between the halves of a pair. -/
def Splits (text : Units) (index : Nat) : Prop :=
  ∃ i first second, index = i + 1 ∧ text[i]? = some first ∧ high first = true ∧ text[i + 1]? = some second ∧
    low second = true

theorem high_of_low {unit : Nat} (h : low unit = true) : high unit = false := by
  rw [low, Bool.and_eq_true, decide_eq_true_iff, decide_eq_true_iff] at h
  rw [high, Bool.and_eq_false_iff]
  exact .inr (decide_eq_false (by omega))

variable {text : Units}

theorem WellFormed.followed (h : WellFormed text) {i first : Nat} (hfirst : text[i]? = some first)
    (hhigh : high first = true) : ∃ second, text[i + 1]? = some second ∧ low second = true := by
  induction h generalizing i with
  | nil => cases hfirst
  | single unit rest hnot _ _ ih =>
    cases i with
    | zero =>
      cases hfirst
      rw [hnot] at hhigh
      cases hhigh
    | succ i => exact ih hfirst
  | pair first' second rest _ hlow _ ih =>
    match i with
    | 0 => exact ⟨second, rfl, hlow⟩
    | 1 =>
      cases hfirst
      rw [high_of_low hlow] at hhigh
      cases hhigh
    | i + 2 => exact ih hfirst

theorem WellFormed.preceded (h : WellFormed text) {i second : Nat} (hsecond : text[i]? = some second)
    (hlow : low second = true) : Splits text i := by
  induction h generalizing i with
  | nil => cases hsecond
  | single unit rest _ hnot _ ih =>
    cases i with
    | zero =>
      cases hsecond
      rw [hnot] at hlow
      cases hlow
    | succ i =>
      obtain ⟨j, first, second, rfl, hfound⟩ := ih hsecond
      exact ⟨j + 1, first, second, rfl, hfound⟩
  | pair first second' rest hhigh hlow' _ ih =>
    match i with
    | 0 =>
      cases hsecond
      rw [high_of_low hlow] at hhigh
      cases hhigh
    | 1 => exact ⟨0, first, second', rfl, rfl, hhigh, rfl, hlow'⟩
    | i + 2 =>
      obtain ⟨j, first, second, rfl, hfound⟩ := ih hsecond
      exact ⟨j + 2, first, second, rfl, hfound⟩

/-- Text that encodes characters is well-formed. -/
theorem wellFormed_encode (chars : List Char) : WellFormed (encode chars) := by
  induction chars with
  | nil => exact .nil
  | cons c rest ih =>
    rw [encode_cons]
    obtain ⟨-, hunits, hhigh⟩ | ⟨first, second, hunits, hhigh, hlow, -⟩ := unitsOf_cases c
    · rw [hunits]
      refine .single _ _ hhigh ?_ ih
      have hvalid := c.valid
      simp only [UInt32.isValidChar, Nat.isValidChar] at hvalid
      simp only [low, Bool.and_eq_false_iff, decide_eq_false_iff_not, Char.toNat]
      omega
    · rw [hunits]
      exact .pair first second _ hhigh hlow ih

/-! ## The indices -/

variable {index : Nat}

theorem lowAt_iff : lowAt text index = true ↔ ∃ unit, text[index]? = some unit ∧ low unit = true := by
  rw [lowAt, Option.any_eq_true]

theorem lowAt_of_splits (h : Splits text index) : lowAt text index = true := by
  obtain ⟨i, first, second, rfl, -, -, hsecond, hlow⟩ := h
  exact lowAt_iff.2 ⟨second, hsecond, hlow⟩

/-- **The start** is not between the halves of a pair. -/
theorem startOf_whole (h : WellFormed before) (after : Units) : ¬Splits before (startOf before after) := by
  intro hsplits
  rw [startOf] at hsplits
  split at hsplits
  · -- it was, and now it is before the pair
    rename_i hback
    rw [Bool.and_eq_true, decide_eq_true_iff] at hback
    obtain ⟨unit, hunit, hlow⟩ := lowAt_iff.1 hback.2
    obtain ⟨i, first, second, hi, hfirst, hhigh, -⟩ := h.preceded hunit hlow
    obtain ⟨second', hsecond', hlow'⟩ := lowAt_iff.1 (lowAt_of_splits hsplits)
    rw [hi, Nat.add_sub_cancel, hfirst] at hsecond'
    cases hsecond'
    rw [high_of_low hlow'] at hhigh
    cases hhigh
  · rename_i hstays
    refine hstays ?_
    have hlow := lowAt_of_splits hsplits
    obtain ⟨i, -, -, hi, -⟩ := hsplits
    rw [Bool.and_eq_true, decide_eq_true_iff]
    exact ⟨by omega, hlow⟩

/-- **The ends**: they are after the start, the texts are the same from there on, and the first is not between the
halves of a pair. -/
theorem bounds_spec (before after : Units) :
    ∃ «end» nextEnd, bounds before after = (startOf before after, «end», nextEnd) ∧
    Bounds before after (startOf before after) «end» nextEnd ∧ ¬Splits before «end» := by
  have hstart := startOf_le before after
  have hshared := shared_le before after
  have hfirst : before.take (startOf before after) = after.take (startOf before after) := by
    have htake := congrArg (List.take (startOf before after)) (take_shared before after)
    rwa [List.take_take, List.take_take, Nat.min_eq_left hstart] at htake
  have hsame := shared_le (before.drop (startOf before after)).reverse (after.drop (startOf before after)).reverse
  have hlast := drop_shared (before.drop (startOf before after)) (after.drop (startOf before after))
  rw [bounds]
  generalize startOf before after = start at hstart hfirst hsame hlast ⊢
  generalize shared (before.drop start).reverse (after.drop start).reverse = same at hsame hlast ⊢
  rw [List.length_reverse, List.length_reverse, List.length_drop, List.length_drop] at hsame
  rw [List.length_drop, List.length_drop, List.drop_drop, List.drop_drop,
    show start + (before.length - start - same) = before.length - same by omega,
    show start + (after.length - start - same) = after.length - same by omega] at hlast
  have hlengths := congrArg List.length hlast
  rw [List.length_drop, List.length_drop] at hlengths
  split
  · rename_i hwiden
    rw [Bool.and_eq_true, decide_eq_true_iff] at hwiden
    refine ⟨_, _, rfl, ⟨hfirst, ?_, by omega, by omega⟩, ?_⟩
    · rw [← List.drop_drop, hlast, List.drop_drop]
    · rintro ⟨i, first, -, hi, hfirst, hhigh, -⟩
      obtain ⟨unit, hunit, hlow⟩ := lowAt_iff.1 hwiden.2
      obtain rfl := Nat.succ.inj hi
      rw [hunit] at hfirst
      cases hfirst
      rw [high_of_low hlow] at hhigh
      cases hhigh
  · rename_i hstays
    refine ⟨_, _, rfl, ⟨hfirst, hlast, by omega, by omega⟩, fun hsplits ↦ hstays ?_⟩
    have hlow := lowAt_of_splits hsplits
    obtain ⟨unit, hunit, -⟩ := lowAt_iff.1 hlow
    obtain ⟨hlt, -⟩ := List.getElem?_eq_some_iff.1 hunit
    rw [Bool.and_eq_true, decide_eq_true_iff]
    exact ⟨hlt, hlow⟩

/-! ## Both splices -/

/-- What is left and what is put between makes the other text. -/
theorem Bounds.splice {start «end» nextEnd : Nat} (h : Bounds before after start «end» nextEnd) :
    before.take start ++ slice after start nextEnd ++ before.drop «end» = after := by
  have hslice : after.take start ++ slice after start nextEnd = after.take nextEnd := by
    have hboth := List.take_append_drop start (after.take nextEnd)
    rwa [List.take_take, Nat.min_eq_left h.start_le.2] at hboth
  rw [h.first, h.last, hslice, List.take_append_drop]

theorem length_slice {start «end» nextEnd : Nat} (h : Bounds before after start «end» nextEnd) :
    start + (slice after start nextEnd).length = nextEnd := by
  have hstart := h.start_le
  have hend := h.end_le
  rw [slice, List.length_drop, List.length_take]
  omega

theorem textSplice_none : textSplice before after = none ↔ before = after := by
  rw [textSplice]
  split
  · exact ⟨fun _ ↦ by assumption, fun _ ↦ rfl⟩
  · exact ⟨fun h ↦ (nomatch h), fun h ↦ absurd h (by assumption)⟩

variable {splice : Splice}

theorem textSplice_some (h : textSplice before after = some splice) :
    before ≠ after ∧ splice.start = startOf before after ∧ ∃ «end» nextEnd,
      Bounds before after splice.start «end» nextEnd ∧ ¬Splits before «end» ∧
      splice.start + splice.remove = «end» ∧ splice.insert = slice after splice.start nextEnd := by
  obtain ⟨«end», nextEnd, heq, hbounds, hwhole⟩ := bounds_spec before after
  rw [textSplice, heq] at h
  split at h
  · cases h
  · rename_i hne
    cases h
    exact ⟨hne, rfl, «end», nextEnd, hbounds, hwhole, Nat.add_sub_cancel' hbounds.start_le.1, rfl⟩

/-- A splice makes the other text. -/
theorem textSplice_apply (h : textSplice before after = some splice) : splice.apply before = after := by
  obtain ⟨-, -, «end», nextEnd, hbounds, -, hremove, hinsert⟩ := textSplice_some h
  rw [Splice.apply, hremove, hinsert]
  exact hbounds.splice

theorem textSplice_not_empty (h : textSplice before after = some splice) : 0 < splice.remove ∨ splice.insert ≠ [] := by
  by_contra hempty
  obtain ⟨hremove, hinsert⟩ := not_or.1 hempty
  have happly := textSplice_apply h
  rw [Splice.apply, not_not.1 hinsert, Nat.eq_zero_of_not_pos hremove, Nat.add_zero, List.append_nil,
    List.take_append_drop] at happly
  exact (textSplice_some h).1 happly

/-- A pair in one text where both are the same is one in the other. -/
theorem splits_of_same {other : Units} (h : WellFormed text) {place : Nat}
    (hbefore : ∀ i, index = i + 1 → ∃ j, place = j + 1 ∧ other[i]? = text[j]?) (hsplits : Splits other index) :
    Splits text place := by
  obtain ⟨i, first, -, rfl, hfirst, hhigh, -⟩ := hsplits
  obtain ⟨j, rfl, hsame⟩ := hbefore i rfl
  obtain ⟨second, hsecond, hlow⟩ := h.followed (hsame ▸ hfirst) hhigh
  exact ⟨j, first, second, rfl, hsame ▸ hfirst, hhigh, hsecond, hlow⟩

/-- A splice of well-formed texts cuts no pair, in either of them. -/
theorem textSplice_whole (h : textSplice before after = some splice) (hbefore : WellFormed before) :
    ¬Splits before splice.start ∧ ¬Splits before (splice.start + splice.remove) ∧ ¬Splits after splice.start ∧
      ¬Splits after (splice.start + splice.insert.length) := by
  obtain ⟨-, hstart, «end», nextEnd, hbounds, hwhole, hremove, hinsert⟩ := textSplice_some h
  have hfirst : ¬Splits before splice.start := hstart ▸ startOf_whole hbefore after
  rw [hremove, hinsert, length_slice hbounds]
  refine ⟨hfirst, hwhole, fun hsplits ↦ hfirst ?_, fun hsplits ↦ hwhole ?_⟩
  · refine splits_of_same hbefore (fun i hi ↦ ⟨i, hi, ?_⟩) hsplits
    have hget := congrArg (·[i]?) hbounds.first
    rwa [List.getElem?_take_of_lt (by omega), List.getElem?_take_of_lt (by omega), eq_comm] at hget
  · -- the low half is in both texts, and so is what comes before it in the first
    obtain ⟨i, first, second, hi, -, -, hsecond, hlow⟩ := hsplits
    have hget := congrArg (·[0]?) hbounds.last
    rw [List.getElem?_drop, List.getElem?_drop, Nat.add_zero, Nat.add_zero, hi, hsecond] at hget
    exact hbefore.preceded hget hlow

theorem edited_append (text : Units) (first second : List Edit) :
    edited text (first ++ second) = edited (edited text first) second := List.foldl_append

/-- The edits of a draft make the other text. -/
theorem edits_apply {made : List Edit} (h : edits before after = some made) : edited before made = after := by
  obtain ⟨«end», nextEnd, heq, hbounds, -⟩ := bounds_spec before after
  rw [edits, heq] at h
  generalize startOf before after = start at h hbounds
  have hstart := hbounds.start_le
  have hend := hbounds.end_le
  split at h
  · cases h
  · cases h
    have hdeleted : edited before (if start < «end» then [.del start («end» - start)] else []) =
        before.take start ++ before.drop «end» := by
      split
      · rw [edited, List.foldl_cons, List.foldl_nil, Edit.apply, Nat.add_sub_cancel' hstart.1]
      · rw [show «end» = start by omega, List.take_append_drop]
        rfl
    rw [edited_append, hdeleted]
    have hlength : (before.take start).length = start := by
      rw [List.length_take]
      omega
    split
    · rw [edited, List.foldl_cons, List.foldl_nil, Edit.apply, List.take_left' hlength, List.drop_left' hlength]
      exact hbounds.splice
    · have hslice : slice after start nextEnd = [] := by
        rw [← List.length_eq_zero_iff]
        have hlength := length_slice hbounds
        omega
      have hsplice := hbounds.splice
      rwa [hslice, List.append_nil] at hsplice

/-- Both make the same of a text. -/
theorem edits_textSplice (before after : Units) :
    (edits before after).map (edited before) = (textSplice before after).map fun splice ↦ splice.apply before := by
  cases hmade : edits before after with
  | none =>
    have hsame : before = after := by
      rw [edits] at hmade
      split at hmade
      · assumption
      · cases hmade
    rw [textSplice_none.2 hsame]
    rfl
  | some made =>
    have hne : before ≠ after := by
      rintro rfl
      rw [edits, if_pos rfl] at hmade
      cases hmade
    cases hsplice : textSplice before after with
    | none => exact absurd (textSplice_none.1 hsplice) hne
    | some splice => rw [Option.map_some, Option.map_some, edits_apply hmade, textSplice_apply hsplice]

theorem read_ok {model : Model} (h : model.read = .ok text) : text = model.text := by
  obtain ⟨_, -, h⟩ := Except.bind_eq_ok.1 h
  split at h
  · cases h
  · exact (Except.ok.inj h).symm

/-- A change that is made is the edits between the texts. -/
theorem change_edits {bytes : Model → List Edit → Nat} {model : Model} {value : Units} {result : Option (List Edit)}
    (h : change bytes model value = .ok result) : result = edits model.text value := by
  obtain ⟨_, -, h⟩ := Except.bind_eq_ok.1 h
  obtain ⟨before, hread, h⟩ := Except.bind_eq_ok.1 h
  obtain rfl := read_ok hread
  cases hmade : edits model.text value with
  | none =>
    rw [hmade] at h
    exact (Except.ok.inj h).symm
  | some made =>
    rw [hmade] at h
    obtain ⟨_, -, h⟩ := Except.bind_eq_ok.1 h
    exact (Except.ok.inj h).symm

/-- **Splices are exact**: for any two texts the splice makes the one of the other, and is there and is not empty
unless they are the same; it cuts no pair of two well-formed texts; and a draft's change has the same effect. -/
theorem splices_exact (before after : Units) : (textSplice before after = none ↔ before = after) ∧
    (∀ splice, textSplice before after = some splice →
      splice.apply before = after ∧ (0 < splice.remove ∨ splice.insert ≠ []) ∧ (WellFormed before → WellFormed after →
        ¬Splits before splice.start ∧ ¬Splits before (splice.start + splice.remove) ∧ ¬Splits after splice.start ∧
          ¬Splits after (splice.start + splice.insert.length))) ∧
    ((edits before after).map (edited before) = (textSplice before after).map fun splice ↦ splice.apply before) ∧
    ∀ bytes (model : Model), model.text = before → ∀ result, change bytes model after = .ok result →
      result.map (edited before) = (textSplice before after).map fun splice ↦ splice.apply before := by
  refine ⟨textSplice_none, fun splice h ↦ ⟨textSplice_apply h, textSplice_not_empty h, fun hbefore _ ↦
    textSplice_whole h hbefore⟩, edits_textSplice before after, ?_⟩
  rintro bytes model rfl result h
  rw [change_edits h]
  exact edits_textSplice model.text after

/-- Two characters with the same first half. -/
theorem splices_exact_pair : ∃ splice,
    textSplice (encode ['a', Char.ofNat 0x1f600, 'b']) (encode ['a', Char.ofNat 0x1f601, 'b']) = some splice ∧
      splice.remove = 2 ∧ splice.apply (encode ['a', Char.ofNat 0x1f600, 'b']) = encode ['a', Char.ofNat 0x1f601, 'b'] ∧
      ¬Splits (encode ['a', Char.ofNat 0x1f600, 'b']) splice.start ∧
      ¬Splits (encode ['a', Char.ofNat 0x1f600, 'b']) (splice.start + splice.remove) := by
  obtain ⟨-, hsplice, -⟩ :=
    splices_exact (encode ['a', Char.ofNat 0x1f600, 'b']) (encode ['a', Char.ofNat 0x1f601, 'b'])
  have hmade : textSplice (encode ['a', Char.ofNat 0x1f600, 'b']) (encode ['a', Char.ofNat 0x1f601, 'b']) =
      some ⟨1, 2, [0xd83d, 0xde01]⟩ := by
    decide
  obtain ⟨happly, -, hwhole⟩ := hsplice _ hmade
  obtain ⟨hstart, hend, -⟩ := hwhole (wellFormed_encode _) (wellFormed_encode _)
  exact ⟨_, hmade, rfl, happly, hstart, hend⟩

end Chopin.Drafts
