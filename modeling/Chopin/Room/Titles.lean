import Chopin.Lib.Lists
import Chopin.Room.Document

/-!
# The title of a live document

A document with a title has it first.  `normalizeTitle` finds the heading by its key, or takes an empty one that
was put there in its stead, or writes one; it comes to the top, and all the rest stays as it is.
-/

set_option autoImplicit false

namespace Chopin.Room

/-- A document as the editor has it: a key is one block's, and was drawn from the counter. -/
structure LiveDocument extends Document where
  distinct : (root.map (·.key)).Nodup
  known : ∀ node ∈ root, node.key < nextKey

/-- The title was put first: it is a heading that was there, or a new one. -/
structure Titled (target result : Document) (title : LexicalNode) : Prop where
  root : result.root = title :: target.root.filter (·.key != title.key)
  titleKey : result.titleKey = some title.key
  type : title.type = .heading "h1"
  kept : ∀ heading, titleHeading target = some heading → title.key = heading.key
  origin : (∃ heading ∈ target.root, heading.key = title.key ∧ heading.isHeading = true) ∨ title.key = target.nextKey
  counter : target.nextKey ≤ result.nextKey
  known : title.key < result.nextKey

variable {target : Document}

variable {heading : LexicalNode}

theorem titleHeading_mem (h : titleHeading target = some heading) :
    heading ∈ target.root ∧ heading.isHeading = true := by
  have hfirst : ∀ {first : LexicalNode}, first.type = .heading "h1" → first.isHeading = true := by
    intro first htype
    rw [LexicalNode.isHeading, htype]
  rw [titleHeading] at h
  split at h
  · obtain h | ⟨-, h⟩ := Option.or_eq_some_iff.1 h
    · obtain ⟨hfound, hheading⟩ := Option.filter_eq_some_iff.1 h
      exact ⟨List.mem_of_find?_eq_some hfound, hheading⟩
    · obtain ⟨hhead, htype⟩ := Option.filter_eq_some_iff.1 h
      simp only [Bool.and_eq_true, decide_eq_true_iff] at htype
      exact ⟨List.mem_of_mem_head? hhead, hfirst htype.1.1⟩
  · obtain ⟨hhead, htype⟩ := Option.filter_eq_some_iff.1 h
    exact ⟨List.mem_of_mem_head? hhead, hfirst (decide_eq_true_iff.1 htype)⟩

theorem normalizeTitle_titled (hknown : ∀ node ∈ target.root, node.key < target.nextKey)
    (fallback : String) : ∃ title, Titled target (normalizeTitle target fallback).1 title := by
  rw [normalizeTitle]
  dsimp only
  split
  · rename_i heading hfound
    obtain ⟨hmem, hheading⟩ := titleHeading_mem hfound
    refine ⟨heading.asTitle target.titleKey.isSome, rfl, rfl, rfl, fun other hother ↦ ?_,
      .inl ⟨heading, hmem, rfl, hheading⟩, Nat.le_refl _, hknown heading hmem⟩
    rw [hfound] at hother
    cases hother
    rfl
  · rename_i hnone
    refine ⟨_, ?_, rfl, rfl, fun other hother ↦ ?_, .inr rfl, Nat.le_succ _, Nat.lt_succ_self _⟩
    swap
    · rw [hnone] at hother
      cases hother
    rw [List.filter_eq_self.2]
    intro node hnode
    exact bne_iff_ne.2 (Nat.ne_of_lt (hknown node hnode))

/-- The heading with the title's key stays the title. -/
theorem titleHeading_of_key (hdistinct : (target.root.map (·.key)).Nodup)
    (hmem : heading ∈ target.root) (hheading : heading.isHeading = true) (hkey : target.titleKey = some heading.key) :
    titleHeading target = some heading := by
  rw [titleHeading, hkey]
  dsimp only
  rw [List.find?_key hdistinct hmem, Option.filter_some, if_pos hheading, Option.some_or]

namespace Titled

variable {target result : Document} {title : LexicalNode}

theorem not_caret (h : Titled target result title) : title.caret = false := by
  rw [LexicalNode.caret, h.type]
  rfl

/-- What has the title's key is no empty paragraph. -/
theorem removed (h : Titled target result title) (hdistinct : (target.root.map (·.key)).Nodup)
    (hknown : ∀ node ∈ target.root, node.key < target.nextKey) {node : LexicalNode} (hnode : node ∈ target.root)
    (hkey : node.key = title.key) : node.caret = false := by
  obtain ⟨heading, hmem, hsame, hheading⟩ | hnew := h.origin
  · obtain rfl := List.inj_on_of_nodup_map hdistinct hnode hmem (hkey.trans hsame.symm)
    rw [LexicalNode.isHeading] at hheading
    rw [LexicalNode.caret]
    split at hheading
    · rename_i htype
      rw [htype]
      rfl
    · cases hheading
  · exact absurd (hknown node hnode) (by omega)

theorem carets (h : Titled target result title) (hdistinct : (target.root.map (·.key)).Nodup)
    (hknown : ∀ node ∈ target.root, node.key < target.nextKey) :
    result.root.filter (·.caret) = target.root.filter (·.caret) := by
  rw [h.root, List.filter_cons_of_neg (by simp [h.not_caret]), List.filter_filter]
  refine List.filter_congr fun node hnode ↦ ?_
  cases hcaret : node.caret with
  | false => rfl
  | true =>
    have hne : node.key ≠ title.key := by
      intro hkey
      rw [h.removed hdistinct hknown hnode hkey] at hcaret
      cases hcaret
    simpa using hne

theorem addressable (h : Titled target result title) :
    result.addressable = title :: target.addressable.filter (·.key != title.key) := by
  rw [Document.addressable, h.root, List.filter_cons_of_pos (by simp [h.not_caret]), Document.addressable,
    List.filter_filter, List.filter_filter]
  simp only [Bool.and_comm]

theorem distinct (h : Titled target result title) (hdistinct : (target.root.map (·.key)).Nodup) :
    (result.root.map (·.key)).Nodup := by
  rw [h.root, List.map_cons, List.nodup_cons]
  refine ⟨?_, (List.filter_sublist.map _).nodup hdistinct⟩
  intro hmem
  obtain ⟨node, hnode, hkey⟩ := List.mem_map.1 hmem
  exact absurd hkey (bne_iff_ne.1 (List.mem_filter.1 hnode).2)

theorem root_known (h : Titled target result title) (hknown : ∀ node ∈ target.root, node.key < target.nextKey) :
    ∀ node ∈ result.root, node.key < result.nextKey := by
  intro node hnode
  rw [h.root] at hnode
  obtain rfl | hnode := List.mem_cons.1 hnode
  · exact h.known
  · exact Nat.lt_of_lt_of_le (hknown node (List.mem_filter.1 hnode).1) h.counter

end Titled

end Chopin.Room
