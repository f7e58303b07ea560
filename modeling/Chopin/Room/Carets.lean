import Mathlib.Data.List.Nodup
import Mathlib.Data.List.Perm.Basic
import Chopin.Room.Reconciliation

/-!
# The empty paragraphs of a document

Whatever becomes of the blocks, `rearrange` has every empty paragraph once, and without these it is the blocks in
their order.  The two loops are followed for the paragraphs that they still hold: what `groups` has collected, and
what `Placement.place` has put somewhere, are together those that were met.
-/

set_option autoImplicit false

open scoped List

namespace Chopin.Room

variable {all ordered : List LexicalNode}

/-! ## The groups -/

theorem groups_snoc (all : List LexicalNode) (node : LexicalNode) :
    groups (all ++ [node]) =
      if node.caret then ((groups all).1, (groups all).2 ++ [node])
      else (Entries.set (groups all).1 node.key (groups all).2, []) := by
  rw [groups, List.foldl_append]
  rfl

/-- The group of a block. -/
def group (all : List LexicalNode) (node : LexicalNode) : List LexicalNode :=
  ((groups all).1.lookup node.key).getD []

/-- **The groups** in the order of the blocks, and what follows the last block. -/
theorem groups_flatten (hnodup : (all.map (·.key)).Nodup) :
    (all.filter (!·.caret)).flatMap (group all) ++ (groups all).2 = all.filter (·.caret) := by
  induction all using List.reverseRecOn with
  | nil => rfl
  | append_singleton rest node ih =>
    rw [List.map_append, List.nodup_append'] at hnodup
    have hfresh : ∀ other ∈ rest, other.key ≠ node.key := fun other hother heq ↦
      hnodup.2.2 (List.mem_map_of_mem hother) (by simp [heq])
    rw [List.filter_append, List.filter_append, ← ih hnodup.1]
    cases hcaret : node.caret with
    | true =>
      have hgroup : group (rest ++ [node]) = group rest := by
        funext other
        rw [group, groups_snoc, if_pos hcaret, group]
      rw [hgroup, groups_snoc, if_pos hcaret, List.filter_singleton, List.filter_singleton, hcaret]
      simp
    | false =>
      have hgroup : ∀ other ∈ rest.filter (!·.caret), group (rest ++ [node]) other = group rest other := by
        intro other hother
        rw [group, groups_snoc, if_neg (by simp [hcaret]), Entries.lookup_set,
          if_neg (hfresh other (List.mem_filter.1 hother).1), group]
      have hlast : group (rest ++ [node]) node = (groups rest).2 := by
        rw [group, groups_snoc, if_neg (by simp [hcaret]), Entries.lookup_set, if_pos rfl]
        rfl
      rw [groups_snoc, if_neg (by simp [hcaret]), List.filter_singleton, List.filter_singleton, hcaret]
      simp only [Bool.not_false, cond_true, cond_false, List.flatMap_append, List.append_nil]
      rw [List.flatMap_congr hgroup, List.flatMap_singleton, hlast]

variable {node other : LexicalNode}

theorem caret_of_group (hnodup : (all.map (·.key)).Nodup)
    (hnode : node ∈ all.filter (!·.caret)) (hother : other ∈ group all node) : other.caret = true := by
  have hmem : other ∈ all.filter (·.caret) := by
    rw [← groups_flatten hnodup]
    exact List.mem_append_left _ (List.mem_flatMap.2 ⟨node, hnode, hother⟩)
  exact (List.mem_filter.1 hmem).2

theorem caret_of_pending (hnodup : (all.map (·.key)).Nodup) (hother : other ∈ (groups all).2) : other.caret = true := by
  have hmem : other ∈ all.filter (·.caret) := by
    rw [← groups_flatten hnodup]
    exact List.mem_append_right _ hother
  exact (List.mem_filter.1 hmem).2

/-! ## Where they go -/

variable {live : List LexicalNode}

/-- A recipient survives. -/
theorem nextSurvivor_surviving {surviving : LexicalNode → Bool} {recipient : LexicalNode}
    (h : some recipient ∈ nextSurvivor surviving live) : surviving recipient = true := by
  induction live with
  | nil => cases h
  | cons node rest ih =>
    rw [nextSurvivor, List.mem_cons] at h
    obtain h | h := h
    · split at h
      · rename_i hnode
        cases h
        exact hnode
      · exact ih (List.mem_of_mem_head? (Option.join_eq_some_iff.1 h.symm))
    · exact ih h

theorem length_nextSurvivor (surviving : LexicalNode → Bool) (live : List LexicalNode) :
    (nextSurvivor surviving live).length = live.length := by
  induction live with
  | nil => rfl
  | cons node rest ih => exact congrArg (· + 1) ih

/-- The nodes in their order, each after the empty paragraphs that go before it. -/
def interleave (caretBefore : List (Nat × List LexicalNode)) (ordered : List LexicalNode) : List LexicalNode :=
  ordered.flatMap fun node ↦ (caretBefore.lookup node.key).getD [] ++ [node]

theorem interleave_nil (ordered : List LexicalNode) : interleave [] ordered = ordered := by
  rw [interleave]
  exact List.flatMap_singleton' ordered

/-- More of them before one of the nodes. -/
theorem interleave_set (hnodup : (ordered.map (·.key)).Nodup) {key : Nat} (hkey : key ∈ ordered.map (·.key))
    (caretBefore : List (Nat × List LexicalNode)) (carets : List LexicalNode) :
    interleave (Entries.set caretBefore key ((caretBefore.lookup key).getD [] ++ carets)) ordered ~
      interleave caretBefore ordered ++ carets := by
  induction ordered with
  | nil => cases hkey
  | cons node rest ih =>
    rw [List.map_cons, List.nodup_cons] at hnodup
    rw [interleave, interleave, List.flatMap_cons, List.flatMap_cons, Entries.lookup_set, ← interleave, ← interleave]
    by_cases hnode : node.key = key
    · have hrest : interleave (Entries.set caretBefore key ((caretBefore.lookup key).getD [] ++ carets)) rest =
          interleave caretBefore rest := by
        refine List.flatMap_congr fun other hother ↦ ?_
        rw [Entries.lookup_set, if_neg]
        rintro rfl
        exact hnodup.1 (hnode ▸ List.mem_map_of_mem hother)
      rw [if_pos hnode, hrest, hnode, List.perm_iff_count]
      intro other
      simp only [Option.getD_some, List.count_append]
      omega
    · have hmem := (List.mem_cons.1 hkey).resolve_left (Ne.symm hnode)
      rw [if_neg hnode, List.append_assoc _ (interleave caretBefore rest)]
      exact (ih hnodup.2 hmem).append_left _

/-- What was placed so far: these paragraphs among the nodes, and nothing else. -/
structure Placed (ordered seen : List LexicalNode) (placement : Placement) : Prop where
  perm : placement.leading ++ interleave placement.caretBefore ordered ++ placement.displaced ~ ordered ++ seen
  leading : ∀ node ∈ placement.leading, node.caret = true
  displaced : ∀ node ∈ placement.displaced, node.caret = true
  before : ∀ key carets, placement.caretBefore.lookup key = some carets → ∀ node ∈ carets, node.caret = true

theorem Placed.start (ordered : List LexicalNode) : Placed ordered [] ⟨[], [], []⟩ :=
  ⟨by rw [interleave_nil]; exact .refl _, fun _ h ↦ (List.not_mem_nil h).elim,
    fun _ h ↦ (List.not_mem_nil h).elim, fun _ _ h ↦ (nomatch h)⟩

variable {seen : List LexicalNode} {placement : Placement}

/-- One block more. -/
theorem Placed.place (h : Placed ordered seen placement)
    (hnodup : (ordered.map (·.key)).Nodup) {recipient : Option LexicalNode} (index : Nat)
    (hrecipient : ∀ found, recipient = some found → found.key ∈ ordered.map (·.key))
    (hcarets : ∀ other ∈ group all node, other.caret = true) :
    Placed ordered (seen ++ group all node) (placement.place (groups all).1 ((node, recipient), index)) := by
  have hperm := h.perm
  rw [List.perm_iff_count] at hperm
  unfold Placement.place
  dsimp only
  rw [← group]
  split
  · rename_i hempty
    rw [List.isEmpty_iff.1 hempty, List.append_nil]
    exact h
  · split
    · refine ⟨List.perm_iff_count.2 fun other ↦ ?_, ?_, h.displaced, h.before⟩
      · have hcount := hperm other
        simp only [List.count_append] at hcount ⊢
        omega
      · intro other hother
        obtain hother | hother := List.mem_append.1 hother
        · exact h.leading other hother
        · exact hcarets other hother
    · cases recipient with
      | some found =>
        refine ⟨List.perm_iff_count.2 fun other ↦ ?_, h.leading, h.displaced, ?_⟩
        · have hcount := hperm other
          have hset := (interleave_set hnodup (hrecipient found rfl) placement.caretBefore
            (group all node)).count_eq other
          simp only [List.count_append] at hcount hset ⊢
          omega
        · intro key carets hlookup other hother
          rw [Entries.lookup_set] at hlookup
          split at hlookup
          · cases hlookup
            obtain hother | hother := List.mem_append.1 hother
            · cases hfound : placement.caretBefore.lookup found.key with
              | none => rw [hfound] at hother; cases hother
              | some others =>
                rw [hfound] at hother
                exact h.before _ _ hfound other hother
            · exact hcarets other hother
          · exact h.before key carets hlookup other hother
      | none =>
        refine ⟨List.perm_iff_count.2 fun other ↦ ?_, h.leading, ?_, h.before⟩
        · have hcount := hperm other
          simp only [List.count_append] at hcount ⊢
          omega
        · intro other hother
          obtain hother | hother := List.mem_append.1 hother
          · exact h.displaced other hother
          · exact hcarets other hother

/-- All the blocks, one after another. -/
theorem Placed.run (hnodup : (ordered.map (·.key)).Nodup) (hall : (all.map (·.key)).Nodup)
    (entries : List ((LexicalNode × Option LexicalNode) × Nat))
    (hentries : ∀ entry ∈ entries, entry.1.1 ∈ all.filter (!·.caret) ∧
      ∀ found, entry.1.2 = some found → found.key ∈ ordered.map (·.key)) (h : Placed ordered seen placement) :
    Placed ordered (seen ++ (entries.map (·.1.1)).flatMap (group all))
      (entries.foldl (Placement.place (groups all).1) placement) := by
  induction entries generalizing seen placement with
  | nil => rw [List.map_nil, List.flatMap_nil, List.append_nil]; exact h
  | cons entry rest ih =>
    obtain ⟨⟨node, recipient⟩, index⟩ := entry
    obtain ⟨hnode, hrecipient⟩ := hentries _ List.mem_cons_self
    have hplaced := h.place hnodup index hrecipient fun other hother ↦ caret_of_group hall hnode hother
    rw [List.foldl_cons, List.map_cons, List.flatMap_cons, ← List.append_assoc]
    exact ih (fun other hother ↦ hentries other (List.mem_cons_of_mem _ hother)) hplaced

/-- The blocks, each with its recipient and its index. -/
def entries (ordered live : List LexicalNode) : List ((LexicalNode × Option LexicalNode) × Nat) :=
  (live.zip (nextSurvivor (fun node ↦ ordered.any (·.key == node.key)) live)).zipIdx

theorem map_entries (ordered live : List LexicalNode) : (entries ordered live).map (·.1.1) = live := by
  calc (entries ordered live).map (·.1.1)
    _ = ((entries ordered live).map Prod.fst).map Prod.fst := List.map_map.symm
    _ = live := by
        rw [entries, List.zipIdx_map_fst, List.map_fst_zip]
        exact Nat.le_of_eq (length_nextSurvivor _ _).symm

theorem entry_spec {entry : (LexicalNode × Option LexicalNode) × Nat} (h : entry ∈ entries ordered live) :
    entry.1.1 ∈ live ∧ ∀ found, entry.1.2 = some found → found.key ∈ ordered.map (·.key) := by
  obtain ⟨hnode, hnext⟩ := List.of_mem_zip (List.fst_mem_of_mem_zipIdx h)
  refine ⟨hnode, fun found hfound ↦ ?_⟩
  obtain ⟨other, hother, hkey⟩ := List.any_eq_true.1 (nextSurvivor_surviving (hfound ▸ hnext))
  exact List.mem_map.2 ⟨other, hother, beq_iff_eq.1 hkey⟩

/-- What `rearrange` has placed when the loop is over. -/
theorem placed_all (hnodup : (ordered.map (·.key)).Nodup) (hall : (all.map (·.key)).Nodup) :
    ∃ placement, rearrange all ordered =
        placement.leading ++ interleave placement.caretBefore ordered ++ placement.displaced ++ (groups all).2 ∧
      Placed ordered ((all.filter (!·.caret)).flatMap (group all)) placement := by
  refine ⟨_, rfl, ?_⟩
  have hrun := (Placed.start ordered).run hnodup hall (entries ordered (all.filter (!·.caret)))
    fun entry hentry ↦ entry_spec hentry
  rw [List.nil_append, map_entries] at hrun
  exact hrun

/-- **Nothing is lost**, and nothing comes twice. -/
theorem rearrange_perm (hnodup : (ordered.map (·.key)).Nodup) (hall : (all.map (·.key)).Nodup) :
    rearrange all ordered ~ ordered ++ all.filter (·.caret) := by
  obtain ⟨placement, heq, hplaced⟩ := placed_all hnodup hall
  rw [heq, ← groups_flatten hall, ← List.append_assoc]
  exact hplaced.perm.append_right _

theorem filter_interleave {caretBefore : List (Nat × List LexicalNode)}
    (hbefore : ∀ key carets, caretBefore.lookup key = some carets → ∀ node ∈ carets, node.caret = true)
    (hordered : ∀ node ∈ ordered, node.caret = false) :
    (interleave caretBefore ordered).filter (!·.caret) = ordered := by
  induction ordered with
  | nil => rfl
  | cons node rest ih =>
    have hnone : (((caretBefore.lookup node.key).getD []).filter (!·.caret)) = [] := by
      refine List.filter_eq_nil_iff.2 fun other hother ↦ ?_
      cases hfound : caretBefore.lookup node.key with
      | none => rw [hfound] at hother; cases hother
      | some carets =>
        rw [hfound] at hother
        simp [hbefore _ _ hfound other hother]
    rw [interleave, List.flatMap_cons, List.filter_append, List.filter_append, hnone, ← interleave,
      ih fun other hother ↦ hordered other (List.mem_cons_of_mem _ hother), List.filter_singleton,
      hordered node List.mem_cons_self]
    rfl

/-- **The blocks** are the ones it was given, in their order. -/
theorem rearrange_blocks (hnodup : (ordered.map (·.key)).Nodup) (hall : (all.map (·.key)).Nodup)
    (hordered : ∀ node ∈ ordered, node.caret = false) : (rearrange all ordered).filter (!·.caret) = ordered := by
  obtain ⟨placement, heq, hplaced⟩ := placed_all hnodup hall
  have hnone : ∀ nodes : List LexicalNode, (∀ node ∈ nodes, node.caret = true) → nodes.filter (!·.caret) = [] :=
    fun nodes hnodes ↦ List.filter_eq_nil_iff.2 fun node hnode ↦ by simp [hnodes node hnode]
  rw [heq, List.filter_append, List.filter_append, List.filter_append, hnone _ hplaced.leading, List.nil_append,
    hnone _ hplaced.displaced, hnone _ fun node hnode ↦ caret_of_pending hall hnode, List.append_nil, List.append_nil]
  exact filter_interleave hplaced.before hordered

end Chopin.Room
