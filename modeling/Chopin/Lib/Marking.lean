import Mathlib.Data.List.Basic
import Mathlib.Data.List.Count

/-!
# Marking what hangs from what is marked

A list of nodes, each with a key and the keys of its parents.  A node is marked once one of its parents is, and the
nodes are swept over again until a sweep marks no more.  The links may run in circles, and may lead to no node at all.
-/

set_option autoImplicit false

namespace Marking

variable {α κ : Type} (key : α → κ) (parents : α → List κ)

/-- A chain of parents leads from a key to one that was marked at first. -/
inductive Reached (nodes : List α) (seed : κ → Prop) : κ → Prop where
  | seed {found : κ} (h : seed found) : Reached nodes seed found
  | parent {node : α} {parent : κ} (member : node ∈ nodes) (link : parent ∈ parents node)
      (above : Reached nodes seed parent) : Reached nodes seed (key node)

variable {key parents} {nodes : List α} {seed other : κ → Prop} {found : κ}

/-- What is reached from keys that are reached is reached. -/
theorem Reached.bind {more : List α} (hnodes : ∀ node ∈ nodes, ∃ twin ∈ more, key twin = key node ∧
      parents twin = parents node) (hseed : ∀ found, seed found → Reached key parents more other found)
    (h : Reached key parents nodes seed found) : Reached key parents more other found := by
  induction h with
  | seed h => exact hseed _ h
  | parent member link _ ih =>
    obtain ⟨twin, htwin, hkey, hparents⟩ := hnodes _ member
    exact hkey ▸ .parent htwin (hparents ▸ link) ih

variable [DecidableEq κ] (key parents)

/-- `!marked.has(key) && parents.some(parent => marked.has(parent))` -/
def marks (marked : List κ) (node : α) : Bool :=
  !marked.contains (key node) && (parents node).any fun parent ↦ marked.contains parent

/-- One pass: what is marked during it counts for the nodes that follow. -/
def sweep : List α → List κ × Bool → List κ × Bool
  | [], state => state
  | node :: rest, (marked, changed) =>
    sweep rest (if marks key parents marked node then (marked ++ [key node], true) else (marked, changed))

/-- `while (changed)`, within so many passes. -/
def saturate (nodes : List α) : Nat → List κ → Option (List κ)
  | 0, _ => none
  | steps + 1, marked =>
    let (marked, changed) := sweep key parents nodes (marked, false)
    if changed then saturate nodes steps marked else some marked

variable {key parents} {marked : List κ}

theorem marks_iff {node : α} : marks key parents marked node = true ↔
    key node ∉ marked ∧ ∃ parent ∈ parents node, parent ∈ marked := by
  simp [marks]

/-! ## One pass -/

theorem sweep_grows (nodes : List α) (marked : List κ) (changed : Bool) :
    marked ⊆ (sweep key parents nodes (marked, changed)).1 := by
  induction nodes generalizing marked changed with
  | nil => exact List.Subset.refl _
  | cons node rest ih =>
    rw [sweep]
    split
    · exact List.Subset.trans (List.subset_append_left _ _) (ih _ _)
    · exact ih _ _

/-- A pass marks only what is reached. -/
theorem sweep_sound {members : List α} (hmembers : members ⊆ nodes) {changed : Bool}
    (hmarked : ∀ found ∈ marked, Reached key parents nodes seed found) :
    ∀ found ∈ (sweep key parents members (marked, changed)).1, Reached key parents nodes seed found := by
  induction members generalizing marked changed with
  | nil => exact hmarked
  | cons node rest ih =>
    obtain ⟨hnode, hrest⟩ := List.cons_subset.1 hmembers
    rw [sweep]
    split
    · rename_i hmarks
      obtain ⟨-, parent, hparent, hfound⟩ := marks_iff.1 hmarks
      refine ih hrest fun found hmem ↦ ?_
      obtain hmem | hmem := List.mem_append.1 hmem
      · exact hmarked found hmem
      · exact List.mem_singleton.1 hmem ▸ .parent hnode hparent (hmarked parent hfound)
    · exact ih hrest hmarked

theorem sweep_of_changed (nodes : List α) (marked : List κ) : (sweep key parents nodes (marked, true)).2 = true := by
  induction nodes generalizing marked with
  | nil => rfl
  | cons node rest ih =>
    rw [sweep]
    split <;> exact ih _

/-- A pass that changes nothing leaves nothing to mark. -/
theorem sweep_unchanged (h : (sweep key parents nodes (marked, false)).2 = false) :
    (sweep key parents nodes (marked, false)).1 = marked ∧
      ∀ node ∈ nodes, ∀ parent ∈ parents node, parent ∈ marked → key node ∈ marked := by
  induction nodes with
  | nil => exact ⟨rfl, fun node hnode ↦ nomatch hnode⟩
  | cons node rest ih =>
    rw [sweep] at h ⊢
    split at h
    · rw [sweep_of_changed] at h
      cases h
    · rename_i hmarks
      obtain ⟨hsame, hrest⟩ := ih h
      rw [if_neg hmarks]
      refine ⟨hsame, fun member hmember parent hparent hfound ↦ ?_⟩
      obtain rfl | hmember := List.mem_cons.1 hmember
      · by_contra hnot
        exact hmarks (marks_iff.2 ⟨hnot, parent, hparent, hfound⟩)
      · exact hrest member hmember parent hparent hfound

/-- A pass that changes something marks a node that was not marked. -/
theorem sweep_changed (h : (sweep key parents nodes (marked, false)).2 = true) :
    ∃ node ∈ nodes, key node ∉ marked ∧ key node ∈ (sweep key parents nodes (marked, false)).1 := by
  induction nodes with
  | nil => cases h
  | cons node rest ih =>
    rw [sweep] at h ⊢
    split
    · rename_i hmarks
      refine ⟨node, List.mem_cons_self, (marks_iff.1 hmarks).1, ?_⟩
      exact sweep_grows _ _ _ List.mem_concat_self
    · rename_i hmarks
      rw [if_neg hmarks] at h
      obtain ⟨member, hmember, hfound⟩ := ih h
      exact ⟨member, List.mem_cons_of_mem _ hmember, hfound⟩

/-! ## Until nothing changes -/

/-- The nodes that are not marked. -/
def rest (key : α → κ) (nodes : List α) (marked : List κ) : Nat := nodes.countP fun node ↦ key node ∉ marked

theorem rest_sweep_lt (h : (sweep key parents nodes (marked, false)).2 = true) :
    rest key nodes (sweep key parents nodes (marked, false)).1 < rest key nodes marked := by
  obtain ⟨node, hnode, hnot, hmarked⟩ := sweep_changed h
  have hgrows : marked ⊆ (sweep key parents nodes (marked, false)).1 := sweep_grows nodes marked false
  generalize (sweep key parents nodes (marked, false)).1 = after at hmarked hgrows
  obtain ⟨front, back, rfl⟩ := List.append_of_mem hnode
  have hmono : ∀ part : List α, rest key part after ≤ rest key part marked := fun part ↦
    List.countP_mono_left fun member _ h ↦ by
      simp only [decide_eq_true_eq] at h ⊢
      exact fun hmem ↦ h (hgrows hmem)
  have hfront := hmono front
  have hback := hmono back
  simp only [rest, List.countP_append, List.countP_cons, hnot, hmarked, not_true_eq_false, not_false_eq_true,
    decide_true, decide_false, if_true, Bool.false_eq_true, if_false] at hfront hback ⊢
  omega

theorem saturate_ends (parents : α → List κ) {steps : Nat} (h : rest key nodes marked < steps) :
    ∃ after, ∀ more, steps ≤ more → saturate key parents nodes more marked = some after := by
  induction steps generalizing marked with
  | zero => omega
  | succ steps ih =>
    cases hchanged : (sweep key parents nodes (marked, false)).2 with
    | true =>
      have hlt := rest_sweep_lt hchanged
      obtain ⟨after, hafter⟩ := ih (show rest key nodes (sweep key parents nodes (marked, false)).1 < steps by omega)
      refine ⟨after, fun more hmore ↦ ?_⟩
      obtain ⟨fewer, rfl⟩ : ∃ fewer, more = fewer + 1 := ⟨more - 1, by omega⟩
      rw [saturate]
      simp only [hchanged, if_true]
      exact hafter fewer (by omega)
    | false =>
      refine ⟨(sweep key parents nodes (marked, false)).1, fun more hmore ↦ ?_⟩
      obtain ⟨fewer, rfl⟩ : ∃ fewer, more = fewer + 1 := ⟨more - 1, by omega⟩
      rw [saturate]
      simp only [hchanged, Bool.false_eq_true, if_false]

/-- **What is marked in the end is what is reached.** -/
theorem mem_saturate_iff {steps : Nat} {after : List κ} (h : saturate key parents nodes steps marked = some after) :
    found ∈ after ↔ Reached key parents nodes (· ∈ marked) found := by
  have hsound : ∀ {steps : Nat} {begun : List κ}, (∀ found ∈ begun, Reached key parents nodes (· ∈ marked) found) →
      saturate key parents nodes steps begun = some after → marked ⊆ begun →
      marked ⊆ after ∧ (∀ found ∈ after, Reached key parents nodes (· ∈ marked) found) ∧
        ∀ node ∈ nodes, ∀ parent ∈ parents node, parent ∈ after → key node ∈ after := by
    intro steps
    induction steps with
    | zero => exact fun _ h ↦ nomatch h
    | succ steps ih =>
      intro begun hbegun hends hsub
      rw [saturate] at hends
      cases hchanged : (sweep key parents nodes (begun, false)).2 with
      | true =>
        simp only [hchanged, if_true] at hends
        exact ih (sweep_sound (List.Subset.refl _) hbegun) hends (List.Subset.trans hsub (sweep_grows _ _ _))
      | false =>
        simp only [hchanged, Bool.false_eq_true, if_false] at hends
        obtain ⟨hsame, hclosed⟩ := sweep_unchanged hchanged
        rw [hsame] at hends
        cases hends
        exact ⟨hsub, hbegun, hclosed⟩
  obtain ⟨hsub, hreached, hclosed⟩ := hsound (fun found h ↦ .seed h) h (List.Subset.refl _)
  refine ⟨hreached found, fun hfound ↦ ?_⟩
  induction hfound with
  | seed h => exact hsub h
  | parent member link _ ih => exact hclosed _ member _ link ih

end Marking
