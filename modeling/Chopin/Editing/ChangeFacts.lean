import Chopin.Editing.Departures

/-!
# What the changes of a batch say

What is new and what moved is reported once where it is now, and what has gone once in the hole that it left.
-/

set_option autoImplicit false

open Script

open scoped List

namespace Chopin.Editing

variable {dialect : Dialect} {base after : List Held} {operations : List Operation}

/-! ## What the report is made of -/

section Record

variable {place : List (Held × Nat)} {vacating : List Held} {left : List Departed}
  {found : List Change × List (Spot × List Excerpt)}

/-- The report of a block that moved. -/
def movedReport (base : List Held) (place : List (Held × Nat)) (vacating : List Held) (item : Departed) :
    Option Change :=
  if item.moved then
    (gapAt base place vacating item.index).bind fun gap ↦
      (placeOf place item.node).map (.moved · gap (excerpt item.node.node))
  else none

/-- Whether the block went, and left this gap. -/
def leaves (base : List Held) (place : List (Held × Nat)) (vacating : List Held) (spot : Spot) (item : Departed) :
    Bool :=
  !item.moved && gapAt base place vacating item.index == some spot

theorem foldl_record_moved : (left.foldl (record base place vacating) found).1 =
    found.1 ++ left.filterMap (movedReport base place vacating) := by
  induction left generalizing found with
  | nil => exact (List.append_nil _).symm
  | cons item rest ih =>
    have hfirst : (record base place vacating found item).1 =
        found.1 ++ (movedReport base place vacating item).toList := by
      rw [record, movedReport]
      cases gapAt base place vacating item.index with
      | none => cases item.moved <;> exact (List.append_nil _).symm
      | some gap =>
        cases item.moved with
        | false => exact (List.append_nil _).symm
        | true =>
          cases placeOf place item.node with
          | none => exact (List.append_nil _).symm
          | some index => rfl
    rw [List.foldl_cons, ih, hfirst, List.append_assoc]
    congr 1
    rw [List.filterMap_cons]
    cases movedReport base place vacating item with
    | none => rfl
    | some report => rfl

/-- One hole more, or one block more in a hole. -/
theorem record_holes (item : Departed) (spot : Spot) :
    ((record base place vacating found item).2.lookup spot) =
      if leaves base place vacating spot item then
        some ((found.2.lookup spot).getD [] ++ [excerpt item.node.node])
      else found.2.lookup spot := by
  rw [record, leaves]
  cases hgap : gapAt base place vacating item.index with
  | none => rw [if_neg (by simp)]
  | some gap =>
    cases item.moved with
    | true =>
      dsimp only
      rw [if_pos rfl, if_neg (by simp)]
      cases placeOf place item.node with
      | none => rfl
      | some index => rfl
    | false =>
      dsimp only
      rw [if_neg Bool.false_ne_true, Entries.lookup_set]
      by_cases hspot : spot = gap
      · subst hspot
        rw [if_pos rfl, if_pos (by simp)]
      · rw [if_neg hspot, if_neg (by simpa using Ne.symm hspot)]

theorem foldl_record_holes (spot : Spot) : (left.foldl (record base place vacating) found).2.lookup spot =
    match left.filter (leaves base place vacating spot) with
    | [] => found.2.lookup spot
    | item :: rest => some ((found.2.lookup spot).getD [] ++ (item :: rest).map fun item ↦ excerpt item.node.node) := by
  induction left generalizing found with
  | nil => rfl
  | cons item rest ih =>
    rw [List.foldl_cons, ih, record_holes, List.filter_cons]
    cases leaves base place vacating spot item with
    | false => rfl
    | true =>
      rw [if_pos rfl, if_pos rfl]
      cases rest.filter (leaves base place vacating spot) with
      | nil => rfl
      | cons other others =>
        dsimp only
        rw [Option.getD_some, List.append_assoc, List.map_cons]
        rfl

theorem record_nodup (item : Departed) (h : (found.2.map Prod.fst).Nodup) :
    ((record base place vacating found item).2.map Prod.fst).Nodup := by
  rw [record]
  split
  · exact h
  · split
    · split
      · exact h
      · exact h
    · exact Entries.nodup_set h _ _

theorem foldl_record_nodup (h : (found.2.map Prod.fst).Nodup) :
    ((left.foldl (record base place vacating) found).2.map Prod.fst).Nodup := by
  induction left generalizing found with
  | nil => exact h
  | cons item rest ih => exact ih (record_nodup item h)

end Record

/-- Whether this is the report of the hole at a spot. -/
def Change.isHole (spot : Spot) : Change → Bool
  | .removed gap _ => gap == spot
  | _ => false

/-- Whether this is the report of some hole. -/
def Change.isRemoved : Change → Bool
  | .removed _ _ => true
  | _ => false

/-- The hole at a spot is reported once, if there is one. -/
theorem filter_isHole {holes : List (Spot × List Excerpt)} (hnodup : (holes.map Prod.fst).Nodup) (spot : Spot) :
    (holes.map fun (gap, blocks) ↦ Change.removed gap blocks).filter (·.isHole spot) =
      ((holes.lookup spot).map (Change.removed spot)).toList := by
  induction holes with
  | nil => rfl
  | cons hole rest ih =>
    obtain ⟨gap, blocks⟩ := hole
    rw [List.map_cons, List.nodup_cons] at hnodup
    rw [List.map_cons, List.filter_cons, ih hnodup.2, List.lookup_cons]
    by_cases hsame : spot = gap
    · subst hsame
      have hnone : rest.lookup spot = none := by
        rw [List.lookup_eq_none_iff]
        intro entry hentry
        rw [bne_iff_ne]
        rintro rfl
        exact hnodup.1 (List.mem_map.2 ⟨entry, hentry, rfl⟩)
      simp [Change.isHole, hnone]
    · have hne : (spot == gap) = false := by simpa using hsame
      have hne' : (gap == spot) = false := by simpa using Ne.symm hsame
      simp [Change.isHole, hne, hne']

/-! ## The report -/

def Change.isAdded : Change → Bool
  | .added _ _ => true
  | _ => false

def Change.isMoved : Change → Bool
  | .moved _ _ _ => true
  | _ => false

/-- The report of a block that moved, where there is a gap to name. -/
def movedAt (base after : List Held) (operations : List Operation) (entry : Held × Nat) : Option Change :=
  (gapOf base after operations entry.2).bind fun gap ↦
    (indexOf after entry.1).map (.moved · gap (excerpt entry.1.node))

/-- The blocks that are gone, with no others in their place, and whose gap is here. -/
def lostAt (base after : List Held) (operations : List Operation) (spot : Spot) : List Excerpt :=
  ((base.zipIdx.filter fun entry ↦ !has after entry.1 && !supplanted operations entry.1).filter fun entry ↦
    gapOf base after operations entry.2 == some spot).map fun entry ↦ excerpt entry.1.node

/-- A report of what the operations made of the base: everything of it once, in document order, and each gap
named by the block beside it. -/
structure Described (base after : List Held) (operations : List Operation) (changes : List Change) : Prop where
  ordered : changes.Pairwise fun left right ↦ left.place ≤ right.place
  added : changes.filter (·.isAdded) ~
    (after.zipIdx.filter fun entry ↦ !has base entry.1).map fun entry ↦ .added entry.2 (excerpt entry.1.node)
  moved : changes.filter (·.isMoved) ~
    (base.zipIdx.filter fun entry ↦ shifted operations entry.1).filterMap (movedAt base after operations)
  removed : ∀ spot, ∃ blocks, blocks ~ lostAt base after operations spot ∧
    changes.filter (·.isHole spot) = if blocks = [] then [] else [.removed spot blocks]
  beside : ∀ place spot, gapOf base after operations place = some spot → Beside base after operations place spot
  unmarked : ∀ place, gapOf base after operations place = none → ∀ k other, k ≠ place → base[k]? = some other →
    inherits after operations other = false

section Parts

variable {place : List (Held × Nat)} {vacating : List Held} {left : List Departed} {holes : List (Spot × List Excerpt)}

/-- The parts of a report that is still to be sorted. -/
theorem describeChanges_perm (base after : List Held)
    (hroot : ∀ operation ∈ operations, operation.replacesRoot = false) :
    describeChanges base after operations ~
      ((places after).filterMap fun (node, index) ↦
        if has base node then none else some (Change.added index (excerpt node.node))) ++
      (operations.filterMap (departed base)).filterMap
        (movedReport base (places after) ((operations.filterMap (departed base)).map (·.node))) ++
      ((operations.filterMap (departed base)).foldl
        (record base (places after) ((operations.filterMap (departed base)).map (·.node))) ([], [])).2.map
          fun (gap, blocks) ↦ Change.removed gap blocks := by
  rw [describeChanges, if_neg]
  · refine (List.mergeSort_perm _ _).trans ?_
    rw [foldl_record_moved, List.nil_append]
  · rw [List.any_eq_true]
    rintro ⟨operation, hoperation, hreplaces⟩
    rw [hroot operation hoperation] at hreplaces
    cases hreplaces

theorem describeChanges_sorted (base after : List Held) (operations : List Operation) :
    (describeChanges base after operations).Pairwise fun left right ↦ left.place ≤ right.place := by
  rw [describeChanges]
  split
  · exact .nil
  · refine (List.pairwise_mergeSort (fun a b c hab hbc ↦ ?_) (fun a b ↦ ?_) _).imp fun hle ↦ decide_eq_true_iff.1 hle
    · exact decide_eq_true (Nat.le_trans (decide_eq_true_iff.1 hab) (decide_eq_true_iff.1 hbc))
    · rw [Bool.or_eq_true, decide_eq_true_iff, decide_eq_true_iff]
      exact Nat.le_total _ _

variable {p : Change → Bool}

/-- One kind of change is in one part. -/
theorem filter_parts {first second third : List Change} {changes : List Change}
    (h : changes ~ first ++ second ++ third) :
    changes.filter p ~ first.filter p ++ second.filter p ++ third.filter p := by
  refine (h.filter p).trans ?_
  rw [List.filter_append, List.filter_append]

theorem filter_added (h : ∀ index text, p (.added index text) = false) :
    (place.filterMap fun (node, index) ↦
      if has base node then none else some (Change.added index (excerpt node.node))).filter p = [] := by
  refine List.filter_eq_nil_iff.2 fun change hchange ↦ ?_
  obtain ⟨entry, -, hentry⟩ := List.mem_filterMap.1 hchange
  dsimp only at hentry
  split at hentry
  · cases hentry
  · cases hentry
    rw [h]
    exact Bool.false_ne_true

theorem filter_moved (h : ∀ index gap text, p (.moved index gap text) = false) :
    (left.filterMap (movedReport base place vacating)).filter p = [] := by
  refine List.filter_eq_nil_iff.2 fun change hchange ↦ ?_
  obtain ⟨item, -, hitem⟩ := List.mem_filterMap.1 hchange
  rw [movedReport] at hitem
  split at hitem
  · obtain ⟨gap, -, hgap⟩ := Option.bind_eq_some_iff.1 hitem
    obtain ⟨index, -, rfl⟩ := Option.map_eq_some_iff.1 hgap
    rw [h]
    exact Bool.false_ne_true
  · cases hitem

theorem filter_holes (h : ∀ gap blocks, p (.removed gap blocks) = false) :
    (holes.map fun (gap, blocks) ↦ Change.removed gap blocks).filter p = [] := by
  refine List.filter_eq_nil_iff.2 fun change hchange ↦ ?_
  obtain ⟨hole, -, rfl⟩ := List.mem_map.1 hchange
  rw [h]
  exact Bool.false_ne_true

end Parts

namespace Accepted

variable {nodes : List Node} {gone loosed added : List Held}

theorem gap (h : Accepted nodes operations after gone loosed added) (place : Nat) :
    gapAt (held nodes) (places after) ((operations.filterMap (departed (held nodes))).map (·.node)) place =
      gapOf (held nodes) after operations place :=
  gapAt_eq h.after_nodup (fun _ hblock hhas ↦ h.vacating hblock hhas) place

theorem reports_moved (h : Accepted nodes operations after gone loosed added) :
    (operations.filterMap (departed (held nodes))).filterMap
        (movedReport (held nodes) (places after) ((operations.filterMap (departed (held nodes))).map (·.node))) ~
      ((held nodes).zipIdx.filter fun entry ↦ shifted operations entry.1).filterMap
        (movedAt (held nodes) after operations) := by
  have hpart := (h.left_perm true (shifted operations) fun _ _ hget ↦ moved_iff hget).filterMap
    (movedAt (held nodes) after operations)
  rw [List.filterMap_map, List.filterMap_filter] at hpart
  refine List.Perm.trans (.of_eq ?_) hpart
  refine List.filterMap_congr fun item _ ↦ ?_
  rw [movedReport, h.gap]
  simp only [placeOf_eq h.after_nodup, beq_true]
  rfl

theorem reports_lost (h : Accepted nodes operations after gone loosed added) (spot : Spot) :
    ((operations.filterMap (departed (held nodes))).filter
        (leaves (held nodes) (places after) ((operations.filterMap (departed (held nodes))).map (·.node)) spot)).map
          (fun item ↦ excerpt item.node.node) ~ lostAt (held nodes) after operations spot := by
  have hpart := h.left_perm false (fun block ↦ !has after block && !supplanted operations block)
    fun place block hget ↦ by rw [h.gone_iff hget]; simp
  have hspot := (hpart.filter fun entry ↦ gapOf (held nodes) after operations entry.2 == some spot).map
    fun entry ↦ excerpt entry.1.node
  refine List.Perm.trans (.of_eq ?_) hspot
  rw [List.filter_map, List.map_map, List.filter_filter]
  refine congrArg (List.map _) (List.filter_congr fun item _ ↦ ?_)
  rw [leaves, h.gap]
  cases item.moved <;> simp

/-- **What a batch did is described.** -/
theorem described (h : Accepted nodes operations after gone loosed added) :
    Described (held nodes) after operations (describeChanges (held nodes) after operations) := by
  have hparts := describeChanges_perm (held nodes) after h.root
  refine ⟨describeChanges_sorted _ _ _, ?_, ?_, fun spot ↦ ?_, fun place spot ↦ gapOf_beside,
    fun place hnone k other hk hother ↦ gapOf_none hnone hk hother⟩
  · refine (filter_parts hparts).trans (.of_eq ?_)
    rw [filter_moved fun _ _ _ ↦ rfl, filter_holes fun _ _ ↦ rfl, List.append_nil, List.append_nil,
      places_eq h.after_nodup, ← List.filterMap_eq_map, List.filterMap_filter, List.filter_eq_self.2]
    · refine List.filterMap_congr fun entry _ ↦ ?_
      dsimp only
      cases has (held nodes) entry.1 with
      | true => rfl
      | false => rfl
    · intro change hchange
      obtain ⟨entry, -, hentry⟩ := List.mem_filterMap.1 hchange
      dsimp only at hentry
      split at hentry
      · cases hentry
      · cases hentry
        rfl
  · refine (filter_parts hparts).trans ?_
    rw [filter_added fun _ _ ↦ rfl, filter_holes fun _ _ ↦ rfl, List.append_nil, List.nil_append,
      List.filter_eq_self.2]
    · exact h.reports_moved
    · intro change hchange
      obtain ⟨item, -, hitem⟩ := List.mem_filterMap.1 hchange
      rw [movedReport] at hitem
      split at hitem
      · obtain ⟨gap, -, hgap⟩ := Option.bind_eq_some_iff.1 hitem
        obtain ⟨index, -, rfl⟩ := Option.map_eq_some_iff.1 hgap
        rfl
      · cases hitem
  · have hholes := filter_parts (p := (·.isHole spot)) hparts
    rw [filter_added fun _ _ ↦ rfl, filter_moved fun _ _ _ ↦ rfl, List.append_nil, List.nil_append,
      filter_isHole (foldl_record_nodup (by exact List.nodup_nil)), foldl_record_holes] at hholes
    refine ⟨_, h.reports_lost spot, ?_⟩
    split at hholes
    · rename_i hnone
      rw [hnone, List.map_nil, if_pos rfl]
      exact hholes.eq_nil
    · rename_i item rest hsome
      rw [hsome, if_neg (by simp)]
      exact List.perm_singleton.1 hholes

end Accepted

/-- **The changes of an accepted batch** say what is new, what moved and what has gone, each once, in document
order and at the right gap, unless the batch replaces the whole plan. -/
theorem changes_described {plan : Plan} {revision : Int} {prepared : Prepared}
    (h : prepare dialect plan revision operations = .ok prepared)
    (hroot : ∀ operation ∈ operations, operation.replacesRoot = false)
    (hids : (prepared.root.filterMap (·.node.questionnaire)).Nodup) :
    Described prepared.root prepared.children operations
      (describeChanges prepared.root prepared.children operations) := by
  obtain ⟨nodes, gone, loosed, added, hbase, haccepted⟩ := prepare_accepted h hroot hids
  rw [hbase]
  exact haccepted.described

theorem changes_described_sample : ∃ prepared, prepare (simple []) ⟨1, "One.\n\nTwo.\n\nThree.\n\nFour.\n", []⟩ 1
        [.delete 0, .delete 1, .insert 2 "Five.\n", .move 3 2] = .ok prepared ∧
      Described prepared.root prepared.children [.delete 0, .delete 1, .insert 2 "Five.\n", .move 3 2]
        (describeChanges prepared.root prepared.children [.delete 0, .delete 1, .insert 2 "Five.\n", .move 3 2]) := by
  have hsample : ((prepare (simple []) ⟨1, "One.\n\nTwo.\n\nThree.\n\nFour.\n", []⟩ 1
      [.delete 0, .delete 1, .insert 2 "Five.\n", .move 3 2]).toOption.map
        fun prepared ↦ prepared.root.filterMap (·.node.questionnaire)) = some [] := by
    decide +kernel
  obtain ⟨prepared, hprepared, hids⟩ := Option.map_eq_some_iff.1 hsample
  exact ⟨prepared, Except.toOption_eq_some.1 hprepared,
    changes_described (Except.toOption_eq_some.1 hprepared) (by decide) (hids.symm ▸ List.nodup_nil)⟩

/-- A batch that replaces the whole plan is not described, and neither is one that moves every block. -/
theorem changes_omitted : (∃ prepared, prepare (simple []) ⟨1, "One.\n", []⟩ 1 [.replaceRoot "Two.\n"] = .ok prepared ∧
      (prepared.children.any fun block ↦ !has prepared.root block) = true ∧
      describeChanges prepared.root prepared.children [.replaceRoot "Two.\n"] = []) ∧
    ∃ prepared, prepare (simple []) ⟨1, "One.\n\nTwo.\n", []⟩ 1 [.move 0 1, .move 1 0] = .ok prepared ∧
      prepared.children.map (·.origin) = [.base 1, .base 0] ∧
      describeChanges prepared.root prepared.children [.move 0 1, .move 1 0] = [] := by
  have hreplaced : ((prepare (simple []) ⟨1, "One.\n", []⟩ 1 [.replaceRoot "Two.\n"]).toOption.map fun prepared ↦
      (prepared.children.any (fun block ↦ !has prepared.root block),
        describeChanges prepared.root prepared.children [.replaceRoot "Two.\n"])) = some (true, []) := by
    decide +kernel
  have hmoved : ((prepare (simple []) ⟨1, "One.\n\nTwo.\n", []⟩ 1 [.move 0 1, .move 1 0]).toOption.map fun prepared ↦
      (prepared.children.map (·.origin), describeChanges prepared.root prepared.children [.move 0 1, .move 1 0])) =
        some ([.base 1, .base 0], []) := by
    decide +kernel
  obtain ⟨replacement, hreplacement, hnone⟩ := Option.map_eq_some_iff.1 hreplaced
  obtain ⟨swap, hswap, hnone'⟩ := Option.map_eq_some_iff.1 hmoved
  exact ⟨⟨replacement, Except.toOption_eq_some.1 hreplacement, Prod.mk.inj hnone⟩,
    swap, Except.toOption_eq_some.1 hswap, Prod.mk.inj hnone'⟩

end Chopin.Editing
