import Chopin.Editing.Changes
import Chopin.Editing.EditFacts

/-!
# The block beside a gap

A gap is named by the nearest inherited block that stayed where it was, forward first.  What the code takes
for vacating are the blocks that the operations took away; as far as the gap depends on it, these are the
blocks that moved.
-/

set_option autoImplicit false

open Script

namespace Chopin.Editing

variable {dialect : Dialect} {base after : List Held} {operations : List Operation}

/-! ## Blocks by their identity -/

variable {block : Held}

theorem has_iff {blocks : List Held} : has blocks block = true ↔ block.origin ∈ blocks.map (·.origin) := by
  rw [has, List.any_eq_true, List.mem_map]
  simp only [beq_iff_eq]

/-- The map of a list of distinct blocks has each with its place, in their order. -/
theorem places_eq (hnodup : (after.map (·.origin)).Nodup) : places after = after.zipIdx := by
  have hfold : ∀ (entries found : List (Held × Nat)), ((found ++ entries).map (·.1.origin)).Nodup →
      entries.foldl (Entries.put fun entry : Held × Nat ↦ entry.1.origin) found = found ++ entries := by
    intro entries
    induction entries with
    | nil => exact fun found _ ↦ (List.append_nil found).symm
    | cons entry rest ih =>
      intro found hfound
      have hnew : ¬(found.any (·.1.origin == entry.1.origin)) = true := by
        rw [List.any_eq_true]
        rintro ⟨other, hother, hsame⟩
        rw [List.map_append, List.nodup_append'] at hfound
        refine hfound.2.2 (List.mem_map_of_mem hother) ?_
        rw [beq_iff_eq.1 hsame]
        exact List.mem_cons_self
      rw [List.foldl_cons, Entries.put, if_neg hnew, ih _ (by simpa using hfound), List.append_assoc]
      rfl
  have hmap : (after.zipIdx.map (·.1.origin)) = after.map (·.origin) := by
    calc after.zipIdx.map (·.1.origin)
      _ = (after.zipIdx.map Prod.fst).map (·.origin) := List.map_map.symm
      _ = after.map (·.origin) := by rw [List.zipIdx_map_fst]
  rw [places, hfold _ _ (by rw [List.nil_append, hmap]; exact hnodup), List.nil_append]

theorem placeOf_eq (hnodup : (after.map (·.origin)).Nodup) (block : Held) :
    placeOf (places after) block = indexOf after block := by
  rw [places_eq hnodup, placeOf, indexOf, List.findIdx?_eq_fst_find?_zipIdx]

theorem indexOf_isSome : (indexOf after block).isSome = has after block := by
  rw [indexOf, List.findIdx?_isSome, has]

/-! ## What a batch does to a block -/

/-- Whether an operation moves the block from its place. -/
def shifted (operations : List Operation) (block : Held) : Bool :=
  operations.any fun
    | .move index «to» => «to» != index && block.isAt index
    | _ => false

/-- Whether an operation puts others in the place of the block. -/
def supplanted (operations : List Operation) (block : Held) : Bool :=
  operations.any fun
    | .replace index _ => block.isAt index
    | _ => false

/-- An inherited block that is still there, where it was among the others. -/
def inherits (after : List Held) (operations : List Operation) (block : Held) : Bool :=
  has after block && !shifted operations block

/-- The block beside a vacated place that a gap is named by: the nearest that stayed after it, or else the
nearest before it. -/
inductive Beside (base after : List Held) (operations : List Operation) (place : Nat) : Spot → Prop
  | before (next index : Nat) (block : Held) (later : place < next) (found : base[next]? = some block)
      (stays : inherits after operations block = true)
      (nearest : ∀ k other, place < k → k < next → base[k]? = some other → inherits after operations other = false)
      (there : indexOf after block = some index) : Beside base after operations place ⟨index, .before⟩
  | after (previous index : Nat) (block : Held)
      (last : ∀ k other, place < k → base[k]? = some other → inherits after operations other = false)
      (earlier : previous < place) (found : base[previous]? = some block)
      (stays : inherits after operations block = true)
      (nearest : ∀ k other, previous < k → k < place → base[k]? = some other → inherits after operations other = false)
      (there : indexOf after block = some index) : Beside base after operations place ⟨index, .after⟩

/-- Where an inherited block stands that stayed. -/
def standing (after : List Held) (operations : List Operation) (block : Held) : Option Nat :=
  if inherits after operations block then indexOf after block else none

/-- The gap at a place, in these terms. -/
def gapOf (base after : List Held) (operations : List Operation) (place : Nat) : Option Spot :=
  (((base.drop (place + 1)).findSome? (standing after operations)).map (⟨·, .before⟩)).or
    (((base.take place).reverse.findSome? (standing after operations)).map (⟨·, .after⟩))

/-! ## The nearest block -/

theorem standing_none : standing after operations block = none ↔ inherits after operations block = false := by
  rw [standing, inherits]
  cases hhas : has after block with
  | false => simp
  | true =>
    have hsome : (indexOf after block).isSome = true := indexOf_isSome.trans hhas
    obtain ⟨index, hindex⟩ := Option.isSome_iff_exists.1 hsome
    rw [hindex, Bool.true_and]
    cases shifted operations block with
    | true => simp
    | false => simp

theorem standing_some {index : Nat} (h : standing after operations block = some index) :
    inherits after operations block = true ∧ indexOf after block = some index := by
  rw [standing] at h
  split at h
  · exact ⟨by assumption, h⟩
  · cases h

/-- **The gap at a place is the nearest**, forward first. -/
theorem gapOf_beside {place : Nat} {spot : Spot} (h : gapOf base after operations place = some spot) :
    Beside base after operations place spot := by
  rw [gapOf] at h
  obtain hforward | ⟨hnone, hback⟩ := Option.or_eq_some_iff.1 h
  · obtain ⟨index, hindex, rfl⟩ := Option.map_eq_some_iff.1 hforward
    obtain ⟨next, block, hlater, hfound, hstands, hnearest⟩ := List.findSome?_drop hindex
    obtain ⟨hstays, hthere⟩ := standing_some hstands
    refine .before next index block (by omega) hfound hstays (fun k other hk hnext hother ↦ ?_) hthere
    exact standing_none.1 (hnearest k other (by omega) hnext hother)
  · obtain ⟨index, hindex, rfl⟩ := Option.map_eq_some_iff.1 hback
    obtain ⟨previous, block, hearlier, hfound, hstands, hnearest⟩ := List.findSome?_take hindex
    obtain ⟨hstays, hthere⟩ := standing_some hstands
    refine .after previous index block (fun k other hk hother ↦ ?_) hearlier hfound hstays
      (fun k other hk hplace hother ↦ standing_none.1 (hnearest k other hk hplace hother)) hthere
    exact standing_none.1 (List.findSome?_drop_none (Option.map_eq_none_iff.1 hnone) (by omega) hother)

/-- There is a gap unless no inherited block stayed, the one at the place aside. -/
theorem gapOf_none {place : Nat} (h : gapOf base after operations place = none) {k : Nat} {other : Held}
    (hk : k ≠ place) (hother : base[k]? = some other) : inherits after operations other = false := by
  rw [gapOf, Option.or_eq_none_iff, Option.map_eq_none_iff, Option.map_eq_none_iff] at h
  obtain hk | hk := Nat.lt_or_gt_of_ne hk
  · exact standing_none.1 (List.findSome?_take_none h.2 hk hother)
  · exact standing_none.1 (List.findSome?_drop_none h.1 (by omega) hother)

/-- What the code finds is this gap, when what it takes for vacating are the blocks that moved, and others that
are gone. -/
theorem gapAt_eq (hnodup : (after.map (·.origin)).Nodup) {vacating : List Held}
    (hvacating : ∀ block ∈ base, has after block = true → has vacating block = shifted operations block) (place : Nat) :
    gapAt base (places after) vacating place = gapOf base after operations place := by
  have hsame : ∀ block ∈ base, (if has vacating block then none else placeOf (places after) block) =
      standing after operations block := by
    intro block hblock
    rw [placeOf_eq hnodup, standing, inherits]
    cases hhas : has after block with
    | true =>
      rw [hvacating block hblock hhas, Bool.true_and]
      cases shifted operations block with
      | true => rfl
      | false => rfl
    | false =>
      have hnone : indexOf after block = none := by
        rw [← Option.isNone_iff_eq_none, ← Option.not_isSome, indexOf_isSome, hhas]
        rfl
      rw [hnone, ite_self, Bool.false_and]
      rfl
  have hall : ∀ blocks : List Held, (∀ block ∈ blocks, block ∈ base) →
      blocks.findSome? (fun node ↦ if has vacating node then none else placeOf (places after) node) =
        blocks.findSome? (standing after operations) := by
    intro blocks hblocks
    induction blocks with
    | nil => rfl
    | cons block rest ih =>
      rw [List.findSome?_cons, List.findSome?_cons, hsame block (hblocks block List.mem_cons_self),
        ih fun other hother ↦ hblocks other (List.mem_cons_of_mem _ hother)]
  rw [gapAt, gapOf]
  dsimp only
  rw [hall _ fun block hblock ↦ List.mem_of_mem_drop hblock,
    hall _ fun block hblock ↦ List.mem_of_mem_take (List.mem_reverse.1 hblock)]

end Chopin.Editing
