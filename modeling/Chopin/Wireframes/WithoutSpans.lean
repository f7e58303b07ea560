import Chopin.Wireframes.Acceptance
import Chopin.Wireframes.Print

/-!
# Wireframes without their spans

Only problems say where something stands.  So frames are closed, trees are printed, and the whole tree is checked in the
same way when the spans are left out.
-/

set_option autoImplicit false
set_option linter.dupNamespace false

open Script

namespace Chopin.Wireframes

def noSpan : Span := ⟨0, 0⟩

def Item.withoutSpan (item : Item) : Item := { item with span := noSpan }

def Part.withoutSpans (part : Part) : Part := { part with items := part.items.map Item.withoutSpan, span := noSpan }

namespace Node

mutual

/-- The tree apart from its spans. -/
def withoutSpans : Node → Node
  | mk part children => mk part.withoutSpans (allWithoutSpans children)

def allWithoutSpans : List Node → List Node
  | [] => []
  | node :: rest => node.withoutSpans :: allWithoutSpans rest

end

theorem allWithoutSpans_eq (nodes : List Node) : allWithoutSpans nodes = nodes.map withoutSpans := by
  induction nodes with
  | nil => rfl
  | cons node rest ih => rw [allWithoutSpans, ih, List.map_cons]

theorem withoutSpans_mk (part : Part) (children : List Node) :
    (mk part children).withoutSpans = mk part.withoutSpans (children.map withoutSpans) := by
  rw [withoutSpans, allWithoutSpans_eq]

mutual

/-- What each part has that all its children have, all parts have. -/
theorem induct {motive : Node → Prop}
    (hmk : ∀ part children, (∀ child ∈ children, motive child) → motive (mk part children)) : ∀ node, motive node
  | mk part children => hmk part children (inductAll hmk children)

theorem inductAll {motive : Node → Prop}
    (hmk : ∀ part children, (∀ child ∈ children, motive child) → motive (mk part children)) :
    ∀ nodes : List Node, ∀ node ∈ nodes, motive node
  | [] => nofun
  | node :: rest => List.forall_mem_cons.2 ⟨induct hmk node, inductAll hmk rest⟩

end

theorem parts_withoutSpans (node : Node) : node.withoutSpans.parts = node.parts.map Part.withoutSpans := by
  induction node using induct with
  | hmk part children ih =>
    rw [withoutSpans_mk, parts, parts, partsOf_eq, partsOf_eq, List.map_cons, List.flatMap_map, List.map_flatMap]
    exact congrArg _ (List.flatMap_congr ih)

theorem partsOf_withoutSpans (nodes : List Node) :
    partsOf (nodes.map withoutSpans) = (partsOf nodes).map Part.withoutSpans := by
  rw [partsOf_eq, partsOf_eq, List.flatMap_map, List.map_flatMap]
  exact List.flatMap_congr fun node _ ↦ node.parts_withoutSpans

end Node

/-! ## Printing -/

theorem allLines_eq (depth : Nat) (nodes : List Node) : allLines depth nodes = nodes.flatMap (linesOf depth) := by
  induction nodes with
  | nil => rfl
  | cons node rest ih => rw [allLines, ih, List.flatMap_cons]

theorem linesOf_withoutSpans (node : Node) (depth : Nat) : linesOf depth node.withoutSpans = linesOf depth node := by
  induction node using Node.induct generalizing depth with
  | hmk part children ih =>
    have hitems : part.withoutSpans.items.map (printedItem depth) = part.items.map (printedItem depth) := by
      rw [Part.withoutSpans, List.map_map]
      rfl
    have hchildren : allLines (depth + 1) (children.map Node.withoutSpans) = allLines (depth + 1) children := by
      rw [allLines_eq, allLines_eq, List.flatMap_map]
      exact List.flatMap_congr fun child hchild ↦ ih child hchild (depth + 1)
    rw [Node.withoutSpans_mk, linesOf, linesOf, hitems, hchildren]
    rfl

/-- **Spans are not printed.** -/
theorem printWireframe_withoutSpans (nodes : List Node) :
    printWireframe (nodes.map Node.withoutSpans) = printWireframe nodes := by
  rw [printWireframe, printWireframe, allLines_eq, allLines_eq, List.flatMap_map]
  exact congrArg _ (List.flatMap_congr fun node _ ↦ linesOf_withoutSpans node 0)

/-! ## Checks -/

/-- A problem without its line. -/
def Problem.withoutLine (problem : Problem) : Problem := { problem with line := 0 }

theorem named_withoutSpans (parts : List Part) (target : Units) :
    named (parts.map Part.withoutSpans) target = (named parts target).map Part.withoutSpans := by
  have hfind : (parts.map Part.withoutSpans).find? (·.id == some target.tail) =
      (parts.find? (·.id == some target.tail)).map Part.withoutSpans := by
    rw [List.find?_map]
    rfl
  have hfilter : ∀ kind, (parts.map Part.withoutSpans).filter (·.kind = kind) =
      (parts.filter (·.kind = kind)).map Part.withoutSpans := fun kind ↦ by
    rw [List.filter_map]
    rfl
  rw [named, named, hfind]
  split_ifs with hhash
  · cases parts.find? (·.id == some target.tail) <;> rfl
  · cases kindOf target with
    | none => rfl
    | some kind =>
      dsimp only
      rw [hfilter]
      cases parts.filter (·.kind = kind) with
      | nil => rfl
      | cons part rest =>
        cases rest with
        | nil => rfl
        | cons next rest =>
          rw [List.map_cons, List.map_cons]
          dsimp only
          rw [List.length_cons, List.length_cons, List.length_cons, List.length_cons, List.length_map]
          rfl

theorem locate_withoutSpans (parts : List Part) (target : Units) :
    locate (parts.map Part.withoutSpans) target = (locate parts target).map Part.withoutSpans := by
  rw [locate, locate, named_withoutSpans]
  cases named parts target with
  | error problem => rfl
  | ok part =>
    dsimp only [Except.map]
    rw [show part.withoutSpans.kind = part.kind from rfl]
    split_ifs <;> rfl

theorem total_withoutSpans (part : Part) : part.withoutSpans.total = part.total := by
  rw [Part.total, Part.total, Part.withoutSpans]
  simp only [List.isEmpty_map, List.length_map]
  rfl

theorem checkTarget_withoutSpans (parts : List Part) (part : Part) :
    checkTarget (parts.map Part.withoutSpans) part.withoutSpans = (checkTarget parts part).map Problem.withoutLine := by
  rw [checkTarget, checkTarget, show part.withoutSpans.target = part.target from rfl]
  cases part.target with
  | none => rfl
  | some target =>
    dsimp only
    rw [locate_withoutSpans]
    cases locate parts target <;> rfl

theorem checkItems_withoutSpans (part : Part) :
    checkItems part.withoutSpans = (checkItems part).map Problem.withoutLine := by
  have hempty : part.withoutSpans.items.isEmpty = part.items.isEmpty := List.isEmpty_map
  have hprop : part.withoutSpans.prop "n" = part.prop "n" := rfl
  rw [checkItems, checkItems, hempty, hprop, show part.withoutSpans.kind = part.kind from rfl]
  split_ifs <;> rfl

theorem checkCounts_withoutSpans (part : Part) :
    checkCounts part.withoutSpans = (checkCounts part).map Problem.withoutLine := by
  rw [checkCounts, checkCounts, List.map_filterMap, total_withoutSpans]
  refine List.filterMap_congr fun entry _ ↦ ?_
  dsimp only
  rw [show part.withoutSpans.kind = part.kind from rfl]
  split_ifs <;> rfl

theorem checkPart_withoutSpans (parts : List Part) (part : Part) :
    checkPart (parts.map Part.withoutSpans) part.withoutSpans = (checkPart parts part).map Problem.withoutLine := by
  rw [checkPart, checkPart, checkTarget_withoutSpans, checkItems_withoutSpans, checkCounts_withoutSpans,
    List.map_append, List.map_append]

theorem expanded_withoutSpans (node : Node) : expanded node.withoutSpans = expanded node := by
  induction node using Node.induct with
  | hmk part children ih =>
    have hchildren : ∀ inside, expandedAll inside (children.map Node.withoutSpans) = expandedAll inside children := by
      intro inside
      induction children generalizing inside with
      | nil => rfl
      | cons child rest ihrest =>
        rw [List.map_cons, expandedAll, expandedAll, ih child List.mem_cons_self,
          ihrest fun other hother ↦ ih other (List.mem_cons_of_mem _ hother)]
    rw [Node.withoutSpans_mk, expanded, expanded, total_withoutSpans, hchildren]
    rfl

theorem overflow_withoutSpans (nodes : List Node) (total : Nat) :
    overflow total (nodes.map Node.withoutSpans) = (overflow total nodes).map Problem.withoutLine := by
  induction nodes generalizing total with
  | nil => rfl
  | cons node rest ih =>
    rw [List.map_cons, overflow, overflow, expanded_withoutSpans, ih]
    split_ifs
    · obtain ⟨part, children⟩ := node
      rfl
    · rfl

/-- **Spans only say where a problem is.** -/
theorem check_withoutSpans (nodes : List Node) :
    check (nodes.map Node.withoutSpans) = (check nodes).map Problem.withoutLine := by
  rw [check, check, Node.partsOf_withoutSpans, overflow_withoutSpans, List.map_append, List.flatMap_map,
    List.map_flatMap]
  exact congrArg (· ++ _) (List.flatMap_congr fun part _ ↦ checkPart_withoutSpans _ part)

/-! ## Frames -/

def Frame.withoutSpans : Frame → Frame
  | node width part children => node width part.withoutSpans (children.map Node.withoutSpans)
  | frame => frame

theorem Frame.withoutSpans_width (frame : Frame) : frame.withoutSpans.width = frame.width := by
  cases frame <;> rfl

theorem Frame.withoutSpans_stretch (number : Nat) (frame : Frame) :
    (frame.stretch number).withoutSpans = frame.withoutSpans := by
  cases frame <;> rfl

theorem Frame.withoutSpans_take (pending : Option Node) (frame : Frame) :
    (frame.take pending).withoutSpans = frame.withoutSpans.take (pending.map Node.withoutSpans) := by
  cases frame <;> cases pending <;> simp [Frame.take, Frame.withoutSpans]

theorem Frame.withoutSpans_closed (frame : Frame) : frame.withoutSpans.closed = frame.closed.map Node.withoutSpans := by
  cases frame with
  | node width part children => simp [Frame.withoutSpans, Frame.closed, Node.withoutSpans_mk]
  | item width => rfl
  | rejected width => rfl

theorem closeFrames_withoutSpans (width : Nat) (pending : Option Node) (stack : List Frame) (nodes : List Node) :
    closeFrames width (pending.map Node.withoutSpans) (stack.map Frame.withoutSpans) (nodes.map Node.withoutSpans) =
      ((closeFrames width pending stack nodes).1.map Frame.withoutSpans,
        (closeFrames width pending stack nodes).2.map Node.withoutSpans) := by
  induction stack generalizing pending with
  | nil => cases pending <;> simp [closeFrames]
  | cons frame rest ih =>
    rw [List.map_cons, closeFrames, closeFrames, Frame.withoutSpans_width, ← Frame.withoutSpans_take,
      Frame.withoutSpans_closed]
    split_ifs
    · exact ih _
    · rfl

/-- What has been closed that is indented more can be closed further. -/
theorem closeFrames_closeFrames {less width : Nat} (h : less ≤ width) (pending : Option Node) (stack : List Frame)
    (nodes : List Node) :
    closeFrames less none (closeFrames width pending stack nodes).1 (closeFrames width pending stack nodes).2 =
      closeFrames less pending stack nodes := by
  induction stack generalizing pending with
  | nil => simp [closeFrames]
  | cons frame rest ih =>
    rw [closeFrames]
    split_ifs with hwidth
    · rw [ih, closeFrames, if_pos (h.trans hwidth)]
    · rw [closeFrames, closeFrames, Frame.take_none, Frame.take_width]

end Chopin.Wireframes
