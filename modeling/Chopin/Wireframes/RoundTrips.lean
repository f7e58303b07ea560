import Chopin.Wireframes.PrintedLines
import Chopin.Wireframes.WithoutSpans

/-!
# Round trips

The printed lines of a tree are read one after the other: the line of a part opens a frame, its items and the lines of
its children fill it, and with the next line on its level the frame is closed and holds the part.  So the printed form
of an accepted wireframe is accepted, and gives the tree that was printed, on other lines.
-/

set_option autoImplicit false
set_option linter.dupNamespace false

open Script

namespace Chopin.Wireframes

/-! ## Where a line stands -/

/-- The innermost frame takes parts on this level. -/
inductive Ready : Nat → List Frame → Prop
  | top : Ready 0 []
  | inside {depth : Nat} {part : Part} {children : List Node} {rest : List Frame}
      (kind : part.kind.spec.children = .blocks) : Ready (depth + 1) (.node (2 * depth) part children :: rest)

/-- What a part has been read as when its line has been. -/
def Part.begun (part : Part) (number : Nat) : Part := { part with items := [], span := ⟨number, number⟩ }

namespace State

/-- What the lines so far have left once all is closed that is indented as much, apart from spans. -/
structure Stands (state : State) (width : Nat) (stack : List Frame) (nodes : List Node) (parts : Nat)
    (ids : List Units) : Prop where
  problems : state.problems = []
  running : state.stopped = false
  parts : state.parts = parts
  ids : state.ids.map Prod.fst = ids
  stack : (state.close width).stack.map Frame.withoutSpans = stack
  nodes : (state.close width).nodes.map Node.withoutSpans = nodes

variable {state : State} {width depth parts : Nat} {stack : List Frame} {nodes : List Node} {ids : List Units}

/-- What is indented less is closed after what is indented more. -/
theorem Stands.close (h : state.Stands width stack nodes parts ids) {less : Nat} (hless : less ≤ width) :
    state.Stands less (closeFrames less none stack nodes).1 (closeFrames less none stack nodes).2 parts ids := by
  have hclosed := closeFrames_withoutSpans less none (state.close width).stack (state.close width).nodes
  have hagain : closeFrames less none (state.close width).stack (state.close width).nodes =
      closeFrames less none state.stack state.nodes := closeFrames_closeFrames hless none state.stack state.nodes
  rw [h.stack, h.nodes, hagain, Option.map_none] at hclosed
  refine ⟨h.problems, h.running, h.parts, h.ids, ?_, ?_⟩
  · rw [hclosed]; rfl
  · rw [hclosed]; rfl

variable {children : List Node}

variable {rest : List Frame}

/-- The innermost frame, by what it is apart from spans. -/
theorem head_node {outer : Nat} {part : Part}
    (h : state.stack.map Frame.withoutSpans = .node outer part children :: rest) :
    ∃ found inner below, state.stack = .node outer found inner :: below ∧ found.kind = part.kind ∧
      found.withoutSpans = part ∧ inner.map Node.withoutSpans = children ∧ below.map Frame.withoutSpans = rest := by
  cases hstack : state.stack with
  | nil => rw [hstack] at h; cases h
  | cons frame below =>
    rw [hstack, List.map_cons] at h
    obtain ⟨hframe, hrest⟩ := List.cons.inj h
    cases frame with
    | node width found inner =>
      obtain ⟨rfl, rfl, rfl⟩ := Frame.node.inj hframe
      exact ⟨found, inner, below, rfl, rfl, rfl, rfl, hrest⟩
    | item width => cases hframe
    | rejected width => cases hframe

/-- A state that is ready for a part. -/
theorem ready_spec (hready : Ready depth (state.stack.map Frame.withoutSpans)) :
    state.within = false ∧ state.tooDeep (2 * depth) = false ∧ ∀ frame ∈ state.stack.head?, frame.Holds .blocks := by
  generalize hstack : state.stack.map Frame.withoutSpans = stack at hready
  cases hready with
  | top =>
    have hnil : state.stack = [] := List.map_eq_nil_iff.1 hstack
    simp [within, tooDeep, hnil]
  | @inside depth part children rest kind =>
    obtain ⟨found, inner, below, hstack, hkind, -⟩ := head_node hstack
    have hwithin : state.within = false := by simp [within, hstack, Frame.isRejected]
    refine ⟨hwithin, ?_, ?_⟩
    · simp [tooDeep, hwithin, hstack, Frame.width]
      omega
    · simpa [hstack, Frame.Holds, Frame.kind, hkind] using kind

/-- A word that begins with a letter is no item. -/
theorem not_item {word : Units} (hfirst : ∀ unit ∈ word.head?, lower unit = true) (hfull : word ≠ []) :
    ¬(word = [dash] ∨ [dash, space].isPrefixOf word = true) := by
  cases word with
  | nil => exact absurd rfl hfull
  | cons unit rest =>
    have hdash : unit ≠ dash := (lower_ne (hfirst unit rfl)).2.2.2.1
    rintro (heq | hprefix)
    · exact hdash (List.cons.inj heq).1
    · simp [List.isPrefixOf, hdash.symm] at hprefix

/-- **The line of a part opens its frame.** -/
theorem line_part {part : Part} (number : Nat)
    (hready : Ready depth ((state.close (2 * depth)).stack.map Frame.withoutSpans)) (hdepth : depth < maxDepth)
    (hpart : part.Sound) (hfresh : ∀ id ∈ part.id, id ∉ state.ids.map Prod.fst) (hroom : state.parts < maxNodes) :
    state.line number (printedPart depth part) =
      { state.close (2 * depth) with
        parts := state.parts + 1
        ids := state.ids ++ part.id.toList.map (·, number)
        stack := .node (2 * depth) (part.begun number) [] ::
          (state.close (2 * depth)).stack.map (.stretch number) } := by
  obtain ⟨hwithin, hdeep, hholds⟩ := ready_spec hready
  have hfirst : ∀ unit ∈ ([space].intercalate (part.kind.name :: tokens part)).head?, lower unit = true := by
    intro unit hunit
    rw [intercalate_space, List.head?_append_of_ne_nil _ part.kind.name_lower.1] at hunit
    exact part.kind.name_lower.2 unit (List.mem_of_mem_head? hunit)
  have hplace : (state.close (2 * depth)).refusesNode (2 * depth) = none :=
    (refusesNode_eq_none hwithin).2 ⟨hholds, by omega⟩
  have hid : (part.begun number).id.bind (fun id ↦ (state.ids.lookup id).map (id, ·)) = none := by
    rw [show (part.begun number).id = part.id from rfl]
    cases hid : part.id with
    | none => rfl
    | some id =>
      have hnone : state.ids.lookup id = none := List.lookup_eq_none_iff.2 fun entry hentry ↦ by
        simpa using fun heq : id = entry.1 ↦ hfresh id hid (heq ▸ List.mem_map_of_mem hentry)
      rw [Option.bind_some, hnone, Option.map_none]
  rw [printedPart, line_indented hpart.line_solid (fun unit hunit ↦ (lower_ne (hfirst unit hunit)).2.2.2.2.2) hdeep,
    if_neg (not_item hfirst hpart.line_solid.full), nodeLine, hplace]
  dsimp only
  rw [readNode_printed hpart]
  dsimp only
  rw [hwithin, if_neg Bool.false_ne_true]
  split
  · rename_i hused
    exact absurd (hused.symm.trans hid) (Option.some_ne_none _)
  · rw [if_neg (show ¬maxNodes < (state.close (2 * depth)).parts + 1 from Nat.not_lt.2 hroom)]
    rfl

/-- **The line of an item adds it to the innermost frame.** -/
theorem line_item {item : Item} {part : Part} (number : Nat)
    (hstack : (state.close (2 * (depth + 1))).stack = .node (2 * depth) part children :: rest)
    (hkind : part.kind.spec.children = .items) (htext : Legible item.text) (hroom : state.parts < maxNodes) :
    state.line number (printedItem depth item) =
      { state.close (2 * (depth + 1)) with
        parts := state.parts + 1
        stack := .item (2 * (depth + 1)) ::
          (addItem ⟨item.text, ⟨number, number⟩⟩ (.node (2 * depth) part children :: rest)).map
            (.stretch number) } := by
  have hline : printedItem depth item = indentation (depth + 1) ++ dash :: space :: printedText item.text := by
    rw [printedItem, indentation, indentation, Nat.mul_add, List.replicate_add]
    simp [List.replicate]
  have hsolid : Solid (dash :: space :: printedText item.text) :=
    @Solid.append [dash, space] _ (by decide) (solid_text htext)
  have hwithin : (state.close (2 * (depth + 1))).within = false := by simp [within, hstack, Frame.isRejected]
  have hdeep : (state.close (2 * (depth + 1))).tooDeep (2 * (depth + 1)) = false := by
    simp [tooDeep, hwithin, hstack, Frame.width]
    omega
  have hplace : (state.close (2 * (depth + 1))).refusesItem = none :=
    (refusesItem_eq_none hwithin).2 ⟨_, _, _, _, hstack, hkind⟩
  have htrim : trimUnits (space :: printedText item.text) = printedText item.text := by
    rw [trimUnits_space, trimUnits_eq_self_iff]
    exact printedText_trimmed item.text
  have hinside : ((state.close (2 * (depth + 1))).within ||
      ((state.close (2 * (depth + 1))).stack.head?.bind Frame.kind).isNone) = false := by
    simp [hwithin, hstack, Frame.kind]
  have hitem : [dash, space].isPrefixOf (dash :: space :: printedText item.text) = true := rfl
  rw [hline, line_indented hsolid (fun unit hunit ↦ by rw [← Option.some.inj hunit]; rfl) hdeep, if_pos (.inr hitem),
    itemLine, hplace]
  dsimp only
  rw [List.tail_cons, htrim, readItem_printed htext]
  dsimp only
  rw [hinside, if_neg Bool.false_ne_true,
    if_neg (show ¬maxNodes < (state.close (2 * (depth + 1))).parts + 1 from Nat.not_lt.2 hroom), hstack]
  rfl

/-! ## Runs of lines -/

/-- A frame that is indented less stays open. -/
theorem closeFrames_open {frame : Frame} (h : frame.width < width) :
    closeFrames width none (frame :: rest) nodes = (frame :: rest, nodes) := by
  rw [closeFrames, if_neg (Nat.not_le.2 h), Frame.take_none]

theorem map_stretch (number : Nat) (frames : List Frame) :
    (frames.map (.stretch number)).map Frame.withoutSpans = frames.map Frame.withoutSpans := by
  rw [List.map_map]
  exact List.map_congr_left fun frame _ ↦ frame.withoutSpans_stretch number

/-- The line of a part, and what it leaves. -/
theorem Stands.part {part : Part} (number : Nat) (h : state.Stands (2 * depth) stack nodes parts ids)
    (hready : Ready depth stack) (hdepth : depth < maxDepth) (hpart : part.Sound) (hfresh : ∀ id ∈ part.id, id ∉ ids)
    (hroom : parts < maxNodes) :
    (state.line number (printedPart depth part)).Stands (2 * (depth + 1))
      (.node (2 * depth) { part.withoutSpans with items := [] } [] :: stack) nodes (parts + 1)
      (ids ++ part.id.toList) := by
  have hline := line_part number (h.stack.symm ▸ hready) hdepth hpart (h.ids.symm ▸ hfresh)
    (h.parts.symm ▸ hroom)
  rw [hline]
  have hless : (Frame.node (2 * depth) (part.begun number) []).width < 2 * (depth + 1) := by simp [Frame.width]
  refine ⟨h.problems, h.running, congrArg (· + 1) h.parts, ?_, ?_, ?_⟩
  · rw [List.map_append, h.ids, List.map_map]
    exact congrArg _ (List.map_id _)
  · show (closeFrames _ none (_ :: _) _).1.map Frame.withoutSpans = _
    rw [closeFrames_open hless, List.map_cons, map_stretch, h.stack]
    rfl
  · show (closeFrames _ none (_ :: _) _).2.map Node.withoutSpans = _
    rw [closeFrames_open hless]
    exact h.nodes

/-- The line of an item, and what it leaves. -/
theorem Stands.item {item : Item} {part : Part} (number : Nat)
    (h : state.Stands (2 * (depth + 1)) (.node (2 * depth) part children :: stack) nodes parts ids)
    (hkind : part.kind.spec.children = .items) (htext : Legible item.text) (hroom : parts < maxNodes) :
    (state.line number (printedItem depth item)).Stands (2 * (depth + 1))
      (.node (2 * depth) { part with items := part.items ++ [item.withoutSpan] } children :: stack) nodes (parts + 1)
      ids := by
  obtain ⟨found, inner, below, hstack, hsame, rfl, rfl, hbelow⟩ := head_node h.stack
  have hline := line_item number hstack (hsame ▸ hkind) htext (h.parts.symm ▸ hroom)
  have hclose : closeFrames (2 * (depth + 1)) none
      (.item (2 * (depth + 1)) ::
        (addItem ⟨item.text, ⟨number, number⟩⟩ (.node (2 * depth) found inner :: below)).map (.stretch number))
      (state.close (2 * (depth + 1))).nodes =
      ((addItem ⟨item.text, ⟨number, number⟩⟩ (.node (2 * depth) found inner :: below)).map (.stretch number),
        (state.close (2 * (depth + 1))).nodes) := by
    rw [closeFrames, if_pos (show 2 * (depth + 1) ≤ (Frame.item (2 * (depth + 1))).width from le_rfl)]
    exact closeFrames_open (show 2 * depth < 2 * (depth + 1) by omega)
  rw [hline]
  refine ⟨h.problems, h.running, congrArg (· + 1) h.parts, h.ids, ?_, ?_⟩
  · show (closeFrames _ none (_ :: _) _).1.map Frame.withoutSpans = _
    rw [hclose, map_stretch, ← hbelow]
    simp [addItem, Frame.withoutSpans, Part.withoutSpans, Item.withoutSpan]
  · show (closeFrames _ none (_ :: _) _).2.map Node.withoutSpans = _
    rw [hclose]
    exact h.nodes

/-- While there is no problem, the lines are read one after the other. -/
theorem Stands.lines_cons (h : state.Stands width stack nodes parts ids) (number : Nat) (text : Units)
    (rest : List Units) : state.lines number (text :: rest) = (state.line number text).lines (number + 1) rest := by
  rw [lines, h.running, h.problems]
  rfl

/-- The lines of the items. -/
theorem Stands.items {items : List Item} {part : Part} (number : Nat)
    (h : state.Stands (2 * (depth + 1)) (.node (2 * depth) part children :: stack) nodes parts ids)
    (hkind : items ≠ [] → part.kind.spec.children = .items) (htext : ∀ item ∈ items, Legible item.text)
    (hroom : parts + items.length ≤ maxNodes) (rest : List Units) :
    ∃ next : State,
      state.lines number (items.map (printedItem depth) ++ rest) = next.lines (number + items.length) rest ∧
      next.Stands (2 * (depth + 1))
        (.node (2 * depth) { part with items := part.items ++ items.map Item.withoutSpan } children :: stack) nodes
        (parts + items.length) ids := by
  induction items generalizing state part parts number with
  | nil => exact ⟨state, rfl, by simpa using h⟩
  | cons item more ih =>
    rw [List.length_cons] at hroom ⊢
    have hitem := h.item number (hkind (List.cons_ne_nil _ _)) (htext item List.mem_cons_self) (by omega)
    obtain ⟨next, hlines, hnext⟩ := ih (number + 1) hitem (fun _ ↦ hkind (List.cons_ne_nil _ _))
      (fun other hother ↦ htext other (List.mem_cons_of_mem _ hother)) (by omega)
    refine ⟨next, ?_, ?_⟩
    · rw [List.map_cons, List.cons_append, h.lines_cons, hlines]
      congr 1
      omega
    · rw [show parts + (more.length + 1) = parts + 1 + more.length by omega]
      simpa using hnext

end State

/-- How many lines the parts have. -/
def countOf (parts : List Part) : Nat := (parts.map fun part ↦ 1 + part.items.length).sum

theorem countOf_append (parts more : List Part) : countOf (parts ++ more) = countOf parts + countOf more := by
  rw [countOf, countOf, countOf, List.map_append, List.sum_append]

namespace State

variable {state : State} {depth parts : Nat} {stack : List Frame} {nodes : List Node} {ids : List Units}

/-- The printed lines of a part leave the part in the frame around it. -/
def Leaves (depth : Nat) (node : Node) : Prop :=
  ∀ (state : State) (stack : List Frame) (nodes : List Node) (parts number : Nat) (ids : List Units),
    state.Stands (2 * depth) stack nodes parts ids → Ready depth stack → (ids ++ node.parts.filterMap Part.id).Nodup →
    parts + countOf node.parts ≤ maxNodes → ∀ rest, ∃ next : State,
      state.lines number (linesOf depth node ++ rest) = next.lines (number + (linesOf depth node).length) rest ∧
      next.Stands (2 * depth) (attach (some node.withoutSpans) stack nodes).1
        (attach (some node.withoutSpans) stack nodes).2 (parts + countOf node.parts)
        (ids ++ node.parts.filterMap Part.id)

/-- Parts that are added one after the other. -/
def attachAll (children : List Node) (stack : List Frame) (nodes : List Node) : List Frame × List Node :=
  children.foldl (fun into child ↦ attach (some child) into.1 into.2) (stack, nodes)

theorem attachAll_nil (children nodes : List Node) : attachAll children [] nodes = ([], nodes ++ children) := by
  induction children generalizing nodes with
  | nil => rw [List.append_nil]; rfl
  | cons child rest ih =>
    rw [attachAll, List.foldl_cons]
    exact (ih (nodes ++ [child])).trans (by rw [List.append_assoc]; rfl)

theorem attachAll_node {outer : Nat} {part : Part} (children inner : List Node) :
    attachAll children (.node outer part inner :: stack) nodes =
      (.node outer part (inner ++ children) :: stack, nodes) := by
  induction children generalizing inner with
  | nil => rw [List.append_nil]; rfl
  | cons child rest ih =>
    rw [attachAll, List.foldl_cons]
    exact (ih (inner ++ [child])).trans (by rw [List.append_assoc]; rfl)

end State

variable {depth : Nat}

variable {stack : List Frame}

theorem Ready.attach (h : Ready depth stack) (pending : Option Node)
    (nodes : List Node) : Ready depth (attach pending stack nodes).1 := by
  cases h with
  | top => exact .top
  | inside kind => exact .inside kind

/-- The frame around a part stays open. -/
theorem Ready.closeFrames (h : Ready depth stack) (pending : Option Node)
    (nodes : List Node) : closeFrames (2 * depth) pending stack nodes = Wireframes.attach pending stack nodes := by
  cases h with
  | top => rfl
  | @inside depth part children rest kind =>
    rw [Wireframes.closeFrames, if_neg (show ¬2 * (depth + 1) ≤ (Frame.node (2 * depth) part children).width by
      simp [Frame.width])]
    rfl

namespace State

variable {state : State} {depth parts : Nat} {stack : List Frame} {nodes : List Node} {ids : List Units}

/-- The lines of parts that stand one after the other. -/
theorem lines_nodes {children : List Node} (number : Nat) (hleaves : ∀ child ∈ children, Leaves depth child)
    (h : state.Stands (2 * depth) stack nodes parts ids) (hready : children ≠ [] → Ready depth stack)
    (honce : (ids ++ (Node.partsOf children).filterMap Part.id).Nodup)
    (hroom : parts + countOf (Node.partsOf children) ≤ maxNodes) (rest : List Units) : ∃ next : State,
      state.lines number (allLines depth children ++ rest) =
        next.lines (number + (allLines depth children).length) rest ∧
      next.Stands (2 * depth) (attachAll (children.map Node.withoutSpans) stack nodes).1
        (attachAll (children.map Node.withoutSpans) stack nodes).2 (parts + countOf (Node.partsOf children))
        (ids ++ (Node.partsOf children).filterMap Part.id) := by
  induction children generalizing state stack nodes parts number ids with
  | nil => exact ⟨state, rfl, by simpa [Node.partsOf, countOf, attachAll] using h⟩
  | cons child more ih =>
    rw [Node.partsOf, List.filterMap_append, ← List.append_assoc] at honce
    rw [Node.partsOf, countOf_append] at hroom
    have hchild := hready (List.cons_ne_nil _ _)
    obtain ⟨next, hlines, hnext⟩ := hleaves child List.mem_cons_self state stack nodes parts number ids h hchild
      (List.nodup_append.1 honce).1 (by omega) (allLines depth more ++ rest)
    obtain ⟨last, hmore, hlast⟩ := ih (number + (linesOf depth child).length)
      (fun other hother ↦ hleaves other (List.mem_cons_of_mem _ hother)) hnext (fun _ ↦ hchild.attach _ _) honce
      (by omega)
    refine ⟨last, ?_, ?_⟩
    · rw [allLines, List.append_assoc, hlines, hmore, List.length_append, Nat.add_assoc]
    · rw [Node.partsOf, countOf_append, List.filterMap_append, ← List.append_assoc, ← Nat.add_assoc]
      exact hlast

/-- **The lines of a part leave the part**, in the frame around it. -/
theorem lines_node {node : Node} (hshaped : node.Shaped (depth + 1)) : Leaves depth node := by
  induction node using Node.induct generalizing depth with
  | hmk part children ih =>
    intro state stack nodes parts number ids h hready honce hroom rest
    obtain ⟨sound, deep, items, texts, blocks, inner⟩ := hshaped
    have hparts : (Node.mk part children).parts = part :: Node.partsOf children := rfl
    have hids : (Node.mk part children).parts.filterMap Part.id =
        part.id.toList ++ (Node.partsOf children).filterMap Part.id := by
      cases hid : part.id <;> simp [hparts, hid]
    have hcount : countOf (Node.mk part children).parts = 1 + part.items.length + countOf (Node.partsOf children) := by
      simp [hparts, countOf]
    rw [hids, ← List.append_assoc] at honce
    rw [hcount] at hroom
    have hfresh : ∀ id ∈ part.id, id ∉ ids := fun id hid hmem ↦
      (List.nodup_append.1 (List.nodup_append.1 honce).1).2.2 id hmem id (by simpa using hid) rfl
    have hfirst := h.part number hready (by omega) sound hfresh (by omega)
    obtain ⟨second, hsecond, hitems⟩ := hfirst.items (number + 1) items texts (by omega)
      (allLines (depth + 1) children ++ rest)
    obtain ⟨third, hthird, hchildren⟩ := lines_nodes (number + 1 + part.items.length)
      (fun child hchild ↦ ih child hchild (inner child hchild)) hitems
      (fun hsome ↦ .inside (blocks hsome)) honce (by omega) rest
    refine ⟨third, ?_, ?_⟩
    · rw [linesOf, List.cons_append, h.lines_cons, List.append_assoc, hsecond, hthird]
      congr 1
      simp
      omega
    · have hclose : closeFrames (2 * depth) none
          (.node (2 * depth) part.withoutSpans (children.map Node.withoutSpans) :: stack) nodes =
          attach (some (Node.mk part children).withoutSpans) stack nodes := by
        rw [closeFrames, if_pos (show 2 * depth ≤ (Frame.node (2 * depth) _ _).width from le_rfl), Frame.take_none,
          Node.withoutSpans_mk]
        exact hready.closeFrames _ nodes
      rw [attachAll_node] at hchildren
      have hclosed := hchildren.close (show 2 * depth ≤ 2 * (depth + 1) by omega)
      rw [hids, hcount, ← hclose, ← List.append_assoc]
      rw [show parts + (1 + part.items.length + countOf (Node.partsOf children)) =
        parts + 1 + part.items.length + countOf (Node.partsOf children) by omega]
      exact hclosed

/-- Nothing has been read. -/
theorem stands_initial : ({} : State).Stands 0 [] [] 0 [] := ⟨rfl, rfl, rfl, rfl, rfl, rfl⟩

end State

/-! ## Sources -/

variable {nodes : List Node}

theorem countOf_partsOf (h : ∀ node ∈ nodes, countOf node.parts ≤ node.drawn) :
    countOf (Node.partsOf nodes) ≤ Node.drawnAll nodes := by
  induction nodes with
  | nil => exact le_rfl
  | cons node rest ih =>
    rw [Node.partsOf, countOf_append, Node.drawnAll]
    exact Nat.add_le_add (h node List.mem_cons_self) (ih fun other hother ↦ h other (List.mem_cons_of_mem _ hother))

theorem items_le_total (part : Part) : part.items.length ≤ part.total := by
  rw [Part.total]
  split_ifs with hempty
  · rw [List.isEmpty_iff.1 hempty]
    exact Nat.zero_le _
  · exact le_rfl

/-- A part is drawn with all its items, once at least. -/
theorem Node.Shaped.countOf_le {node : Node} (h : node.Shaped depth) : countOf node.parts ≤ node.drawn := by
  induction h with
  | @mk depth part children sound _ _ _ _ _ ih =>
    have hinner := countOf_partsOf ih
    have hitems := items_le_total part
    calc countOf (Node.mk part children).parts
        = 1 + part.items.length + countOf (Node.partsOf children) := by simp [Node.parts, countOf]
      _ ≤ 1 + part.total + Node.drawnAll children := by omega
      _ ≤ (Node.mk part children).drawn := Nat.le_mul_of_pos_right _ sound.copies_pos

/-- No printed line has a line end in it. -/
theorem linesOf_solid {node : Node} {level : Nat} (h : node.Shaped level) (depth : Nat) :
    ∀ line ∈ linesOf depth node, Solid line := by
  induction h generalizing depth with
  | @mk level part children sound _ _ texts _ _ ih =>
    rw [linesOf, allLines_eq]
    refine List.forall_mem_cons.2 ⟨printedPart_solid sound depth, List.forall_mem_append.2 ⟨?_, ?_⟩⟩
    · intro line hline
      obtain ⟨item, hitem, rfl⟩ := List.mem_map.1 hline
      exact printedItem_solid (texts item hitem) depth
    · intro line hline
      obtain ⟨child, hchild, hline⟩ := List.mem_flatMap.1 hline
      exact ih child hchild (depth + 1) line hline

/-- The first line begins with a kind. -/
theorem printWireframe_head (hfull : nodes ≠ []) :
    ∃ unit rest, printWireframe nodes = unit :: rest ∧ lower unit = true := by
  cases nodes with
  | nil => exact absurd rfl hfull
  | cons node more =>
    obtain ⟨part, children⟩ := node
    obtain ⟨hname, hlower⟩ := part.kind.name_lower
    obtain ⟨unit, word, hword⟩ := List.exists_cons_of_ne_nil hname
    obtain ⟨rest, hrest⟩ : ∃ rest, printWireframe (.mk part children :: more) = printedPart 0 part ++ rest := by
      rw [printWireframe, allLines, linesOf, List.cons_append]
      cases part.items.map (printedItem 0) ++ allLines (0 + 1) children ++ allLines 0 more with
      | nil => exact ⟨[], by rw [List.intercalate_singleton, List.append_nil]⟩
      | cons next others => exact ⟨_, by rw [List.intercalate_cons_cons, List.append_assoc]⟩
    refine ⟨unit, word ++ (spaced (tokens part) ++ rest), ?_, hlower unit (hword ▸ List.mem_cons_self)⟩
    rw [hrest, printedPart, intercalate_space, hword]
    simp [indentation]

/-- The lines of a printed tree. -/
theorem lines_printed (hnodes : ∀ node ∈ nodes, node.Shaped 1) (hfull : nodes ≠ []) :
    splitLines (withoutMark (printWireframe nodes)) = allLines 0 nodes := by
  obtain ⟨unit, rest, hhead, hlower⟩ := printWireframe_head hfull
  have hmark : withoutMark (printWireframe nodes) = printWireframe nodes := by
    rw [hhead]
    refine withoutMark.eq_2 _ fun _ heq ↦ ?_
    rw [(List.cons.inj heq).1] at hlower
    exact absurd hlower (by decide)
  have hlines : allLines 0 nodes ≠ [] := by
    cases nodes with
    | nil => exact absurd rfl hfull
    | cons node more =>
      obtain ⟨part, children⟩ := node
      rw [allLines, linesOf]
      exact List.cons_ne_nil _ _
  rw [hmark, printWireframe, splitLines_join hlines fun line hline ↦ ?_]
  rw [allLines_eq] at hline
  obtain ⟨node, hnode, hline⟩ := List.mem_flatMap.1 hline
  exact (linesOf_solid (hnodes node hnode) 0 line hline).plain

/-- **The printed form of an accepted wireframe is accepted**, where it is not too large; it gives the same tree apart
from spans, and that is printed as the same text. -/
theorem print_round_trips {source : Units} {nodes : List Node} (h : parseWireframe source = .ok nodes)
    (hlarge : tooLarge (printWireframe nodes) = false) : ∃ again, parseWireframe (printWireframe nodes) = .ok again ∧
      again.map Node.withoutSpans = nodes.map Node.withoutSpans ∧ printWireframe again = printWireframe nodes := by
  obtain ⟨hshaped, honce, hdrawn, -, -, -⟩ := accepted_well_formed h
  obtain ⟨-, -, -, hfull, hcheck⟩ := parse_eq_ok.1 h
  have hroom : 0 + countOf (Node.partsOf nodes) ≤ maxNodes := by
    have := countOf_partsOf fun node hnode ↦ (hshaped node hnode).countOf_le
    omega
  obtain ⟨last, hlines, hlast⟩ := State.lines_nodes 1
    (fun node hnode ↦ State.lines_node (hshaped node hnode)) State.stands_initial (fun _ ↦ .top) honce hroom []
  have hread : read (printWireframe nodes) = last := by
    rw [List.append_nil] at hlines
    rw [read, lines_printed hshaped hfull, hlines]
    rfl
  rw [State.attachAll_nil, List.nil_append] at hlast
  have hsame : (last.close 0).nodes.map Node.withoutSpans = nodes.map Node.withoutSpans := hlast.nodes
  have hnone : check (last.close 0).nodes = [] := by
    have hmap := check_withoutSpans (last.close 0).nodes
    rw [hsame, check_withoutSpans, hcheck] at hmap
    exact List.map_eq_nil_iff.1 hmap.symm
  have hagain : (last.close 0).nodes ≠ [] := fun hnil ↦ by
    rw [hnil] at hsame
    exact hfull (List.map_eq_nil_iff.1 hsame.symm)
  refine ⟨(last.close 0).nodes, parse_eq_ok.2 ⟨hlarge, ?_, ?_, hagain, hnone⟩, hsame, ?_⟩
  · rw [hread]
    exact hlast.problems
  · rw [hread]
  · rw [← printWireframe_withoutSpans, hsame, printWireframe_withoutSpans]

theorem print_round_trips_sample : ∃ nodes again, parseWireframe sampleSource = .ok nodes ∧
    parseWireframe (printWireframe nodes) = .ok again ∧
    again.map Node.withoutSpans = nodes.map Node.withoutSpans ∧ printWireframe again = printWireframe nodes := by
  have hlarge : (parseWireframe sampleSource).toOption.map (fun nodes ↦ tooLarge (printWireframe nodes)) =
      some false := by decide +kernel
  obtain ⟨nodes, hnodes, hprinted⟩ := Option.map_eq_some_iff.1 hlarge
  have hok := Except.toOption_eq_some.1 hnodes
  obtain ⟨again, hagain⟩ := print_round_trips hok hprinted
  exact ⟨nodes, again, hok, hagain⟩

end Chopin.Wireframes
