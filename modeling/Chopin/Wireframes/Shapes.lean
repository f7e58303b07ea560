import Chopin.Wireframes.PartFacts

/-!
# Well-formed wireframes

What an accepted wireframe is: the parts are as the table of kinds allows, on at most ten levels; the lines of a part
cover the lines of all that is in it; and what is drawn in the end is counted without a cap.
-/

set_option autoImplicit false
set_option linter.dupNamespace false

open Script

namespace Chopin.Wireframes

/-! ## Levels -/

/-- A part at a level is sound, and contains what its kind does. -/
inductive Node.Shaped : Nat → Node → Prop
  | mk {depth : Nat} {part : Part} {children : List Node} (sound : part.Sound) (deep : depth ≤ maxDepth)
      (items : part.items ≠ [] → part.kind.spec.children = .items) (texts : ∀ item ∈ part.items, Legible item.text)
      (blocks : children ≠ [] → part.kind.spec.children = .blocks)
      (inner : ∀ child ∈ children, Shaped (depth + 1) child) :
      Shaped depth (.mk part children)

/-- Neither the span nor the items are read on the part's line. -/
theorem Part.Sound.of_line {part : Part} (h : part.Sound) (items : List Item) (span : Span) :
    Part.Sound { part with items, span } :=
  ⟨⟨h.label, h.id, h.flags, h.flagsOnce, h.props, h.propsOnce, h.target⟩, h.labelled, h.targeted⟩

namespace Node.Shaped

variable {depth : Nat} {part : Part} {children : List Node}

theorem stretch (h : (Node.mk part children).Shaped depth) (span : Span) :
    (Node.mk { part with span } children).Shaped depth := by
  obtain ⟨sound, deep, items, texts, blocks, inner⟩ := h
  exact ⟨sound.of_line _ _, deep, items, texts, blocks, inner⟩

theorem concat {child : Node} (h : (Node.mk part children).Shaped depth) (hkind : part.kind.spec.children = .blocks)
    (hchild : child.Shaped (depth + 1)) : (Node.mk part (children ++ [child])).Shaped depth := by
  obtain ⟨sound, deep, items, texts, -, inner⟩ := h
  refine ⟨sound, deep, items, texts, fun _ ↦ hkind, fun found hfound ↦ ?_⟩
  rcases List.mem_append.1 hfound with hfound | hfound
  · exact inner found hfound
  · exact List.mem_singleton.1 hfound ▸ hchild

theorem addItem {item : Item} (h : (Node.mk part children).Shaped depth) (hkind : part.kind.spec.children = .items)
    (htext : Legible item.text) : (Node.mk { part with items := part.items ++ [item] } children).Shaped depth := by
  obtain ⟨sound, deep, -, texts, blocks, inner⟩ := h
  refine ⟨sound.of_line _ _, deep, fun _ ↦ hkind, fun found hfound ↦ ?_, blocks, inner⟩
  rcases List.mem_append.1 hfound with hfound | hfound
  · exact texts found hfound
  · exact List.mem_singleton.1 hfound ▸ htext

end Node.Shaped

/-! ## Lines -/

namespace Span

/-- The one covers the lines of the other. -/
def Covers (outer inner : Span) : Prop := outer.start ≤ inner.start ∧ inner.finish ≤ outer.finish

/-- The one ends before the other starts. -/
def Before (first second : Span) : Prop := first.finish < second.start

theorem Covers.trans {first second third : Span} (h : first.Covers second) (hthen : second.Covers third) :
    first.Covers third :=
  ⟨h.1.trans hthen.1, hthen.2.trans h.2⟩

end Span

/-- A part covers all that is in it, and what it contains stands in order. -/
inductive Node.Spanned : Node → Prop
  | mk {part : Part} {children : List Node} (ends : part.span.start ≤ part.span.finish)
      (items : ∀ item ∈ part.items, item.span.start ≤ item.span.finish ∧ part.span.Covers item.span)
      (itemsOrdered : part.items.Pairwise fun first second ↦ first.span.Before second.span)
      (covers : ∀ other ∈ Node.partsOf children,
        part.span.Covers other.span ∧ ∀ item ∈ other.items, part.span.Covers item.span)
      (ordered : children.Pairwise fun first second ↦ first.part.span.Before second.part.span)
      (inner : ∀ child ∈ children, Spanned child) :
      Spanned (.mk part children)

namespace Node.Spanned

theorem ends {node : Node} (h : node.Spanned) : node.part.span.start ≤ node.part.span.finish := by
  obtain ⟨ends, -, -, -, -, -⟩ := h
  exact ends

theorem covers {node : Node} (h : node.Spanned) :
    ∀ other ∈ node.parts, node.part.span.Covers other.span ∧ ∀ item ∈ other.items, node.part.span.Covers item.span := by
  obtain ⟨-, items, -, covers, -, -⟩ := h
  rw [Node.parts]
  exact List.forall_mem_cons.2 ⟨⟨⟨le_rfl, le_rfl⟩, fun item hitem ↦ (items item hitem).2⟩, covers⟩

/-- It is enough that a part covers its own children. -/
theorem of_children {part : Part} {children : List Node} (ends : part.span.start ≤ part.span.finish)
    (items : ∀ item ∈ part.items, item.span.start ≤ item.span.finish ∧ part.span.Covers item.span)
    (itemsOrdered : part.items.Pairwise fun first second ↦ first.span.Before second.span)
    (covers : ∀ child ∈ children, part.span.Covers child.part.span)
    (ordered : children.Pairwise fun first second ↦ first.part.span.Before second.part.span)
    (inner : ∀ child ∈ children, child.Spanned) : (Node.mk part children).Spanned := by
  refine ⟨ends, items, itemsOrdered, fun other hother ↦ ?_, ordered, inner⟩
  rw [Node.partsOf_eq] at hother
  obtain ⟨child, hchild, hother⟩ := List.mem_flatMap.1 hother
  obtain ⟨hpart, hitems⟩ := (inner child hchild).covers other hother
  exact ⟨(covers child hchild).trans hpart, fun item hitem ↦ (covers child hchild).trans (hitems item hitem)⟩

end Node.Spanned

/-! ## What is drawn -/

namespace Node

mutual

/-- How many parts and items are drawn, with all that is repeated and counted. -/
def drawn : Node → Nat
  | mk part children => (1 + part.total + drawnAll children) * part.copies

def drawnAll : List Node → Nat
  | [] => 0
  | node :: rest => node.drawn + drawnAll rest

end

end Node

/-! ## Targets -/

/-- A target means the part with the id, or the part of the kind. -/
def answers (target : Units) (part : Part) : Bool :=
  if target.head? = some hash then part.id == some target.tail else kindOf target == some part.kind

/-! ## All of it -/

structure WellFormed (nodes : List Node) : Prop where
  shaped : ∀ node ∈ nodes, node.Shaped 1
  ids : ((Node.partsOf nodes).filterMap Part.id).Nodup
  drawn : Node.drawnAll nodes ≤ maxNodes
  targets : ∀ part ∈ Node.partsOf nodes, ∀ target ∈ part.target,
    ∃ found, locate (Node.partsOf nodes) target = .ok found ∧
      (Node.partsOf nodes).filter (answers target) = [found] ∧ found.kind ≠ .note
  spanned : ∀ node ∈ nodes, node.Spanned
  ordered : nodes.Pairwise fun first second ↦ first.part.span.Before second.part.span

end Chopin.Wireframes
