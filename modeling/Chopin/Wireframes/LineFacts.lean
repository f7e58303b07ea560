import Chopin.Wireframes.Shapes

/-!
# What a line adds

As long as no line has a problem, the open frames are the parts around the last line, one a level, and an item can only
be the innermost.  Then a line adds nothing, an item to the innermost frame that it leaves open, or a part.
-/

set_option autoImplicit false
set_option linter.dupNamespace false

open Script

namespace Chopin.Wireframes

/-! ## Closing -/

/-- What has been closed is added to the innermost frame. -/
def attach (pending : Option Node) : List Frame → List Node → List Frame × List Node
  | [], nodes => ([], nodes ++ pending.toList)
  | frame :: rest, nodes => (frame.take pending :: rest, nodes)

@[simp] theorem Frame.take_none (frame : Frame) : frame.take none = frame := by
  cases frame <;> simp [Frame.take]

@[simp] theorem Frame.take_width (pending : Option Node) (frame : Frame) :
    (frame.take pending).width = frame.width := by
  cases frame <;> rfl

@[simp] theorem Frame.stretch_kind (number : Nat) (frame : Frame) : (frame.stretch number).kind = frame.kind := by
  cases frame <;> rfl

@[simp] theorem attach_none (stack : List Frame) (nodes : List Node) : attach none stack nodes = (stack, nodes) := by
  cases stack <;> simp [attach]

section

variable {width : Nat}

variable {pending : Option Node} {stack : List Frame} {nodes : List Node}

/-- What closing one frame keeps, closing all of them keeps. -/
theorem closeFrames_keeps (inv : List Frame → List Node → Prop) (hpop : ∀ frame rest nodes, inv (frame :: rest) nodes →
      inv (attach frame.closed rest nodes).1 (attach frame.closed rest nodes).2) (h : inv (attach pending stack nodes).1 (attach pending stack nodes).2) :
    inv (closeFrames width pending stack nodes).1 (closeFrames width pending stack nodes).2 := by
  induction stack generalizing pending nodes with
  | nil => exact h
  | cons frame rest ih =>
    rw [closeFrames]
    split_ifs
    · exact ih (hpop _ _ _ h)
    · exact h

/-- What stays open is indented less. -/
theorem closeFrames_width : ∀ frame ∈ (closeFrames width pending stack nodes).1.head?, frame.width < width := by
  induction stack generalizing pending nodes with
  | nil => exact nofun
  | cons frame rest ih =>
    rw [closeFrames]
    split_ifs with hwidth
    · exact ih
    · intro found hfound
      cases hfound
      exact (Frame.take_width _ _).trans_lt (Nat.lt_of_not_le hwidth)

end

/-! ## Open frames -/

/-- The frame is a part of a kind with this rule. -/
def Frame.Holds (rule : ChildrenRule) (frame : Frame) : Prop :=
  frame.kind.map (fun kind ↦ kind.spec.children) = some rule

/-- The frames that are open while there is no problem. -/
inductive Opened : List Frame → Prop
  | root : Opened []
  | part {part : Part} {children : List Node} {rest : List Frame} (outer : Opened rest)
      (around : ∀ frame ∈ rest.head?, frame.Holds .blocks) (shaped : (Node.mk part children).Shaped (rest.length + 1)) :
      Opened (.node (2 * rest.length) part children :: rest)
  | item {top : Frame} {rest : List Frame} (outer : Opened (top :: rest)) (around : top.Holds .items) :
      Opened (.item (2 * (rest.length + 1)) :: top :: rest)

namespace Opened

variable {frame : Frame} {rest stack : List Frame} {nodes : List Node}

theorem width (h : Opened (frame :: rest)) : frame.width = 2 * rest.length := by
  cases h <;> rfl

theorem not_rejected (h : Opened stack) : stack.head?.any Frame.isRejected = false := by
  cases h <;> rfl

theorem pop (h : Opened (frame :: rest)) (hnodes : ∀ node ∈ nodes, node.Shaped 1) :
    Opened (attach frame.closed rest nodes).1 ∧ ∀ node ∈ (attach frame.closed rest nodes).2, node.Shaped 1 := by
  cases h with
  | item outer around =>
    rw [show (Frame.item _).closed = none from rfl, attach_none]
    exact ⟨outer, hnodes⟩
  | @part part children rest outer around shaped =>
    cases outer with
    | root =>
      refine ⟨.root, fun node hnode ↦ ?_⟩
      rcases List.mem_append.1 hnode with hnode | hnode
      · exact hnodes node hnode
      · exact List.mem_singleton.1 hnode ▸ shaped
    | part outer around' shaped' =>
      have hkind := Option.some.inj (around _ rfl)
      exact ⟨.part outer around' (shaped'.concat hkind shaped), hnodes⟩
    | item outer around' => exact nomatch around _ rfl

theorem closed (width : Nat) (h : Opened stack) (hnodes : ∀ node ∈ nodes, node.Shaped 1) :
    Opened (closeFrames width none stack nodes).1 ∧ ∀ node ∈ (closeFrames width none stack nodes).2, node.Shaped 1 := by
  refine closeFrames_keeps (fun stack nodes ↦ Opened stack ∧ ∀ node ∈ nodes, node.Shaped 1) ?_ ?_
  · exact fun frame rest nodes hinv ↦ hinv.1.pop hinv.2
  · rw [attach_none]
    exact ⟨h, hnodes⟩

theorem stretch (number : Nat) (h : Opened stack) : Opened (stack.map (.stretch number)) := by
  have hhead : ∀ {rule} (frames : List Frame), (∀ frame ∈ frames.head?, frame.Holds rule) →
      ∀ frame ∈ (frames.map (Frame.stretch number)).head?, frame.Holds rule := by
    intro rule frames hframes frame hframe
    rw [List.head?_map] at hframe
    obtain ⟨inner, hinner, rfl⟩ := Option.mem_map.1 hframe
    rw [Frame.Holds, Frame.stretch_kind]
    exact hframes inner hinner
  induction h with
  | root => exact .root
  | @part part children rest outer around shaped ih =>
    have hshaped := shaped.stretch { part.span with finish := number }
    rw [← List.length_map (Frame.stretch number)] at hshaped
    have hpart := Opened.part ih (hhead rest around) hshaped
    rwa [List.length_map] at hpart
  | @item top rest outer around ih =>
    have hitem := Opened.item ih (hhead [top] (by simpa using around) _ rfl)
    rwa [List.length_map] at hitem

theorem addItem {width : Nat} {part : Part} {children : List Node} {item : Item}
    (h : Opened (.node width part children :: rest)) (hkind : part.kind.spec.children = .items)
    (htext : Legible item.text) : Opened (State.addItem item (.node width part children :: rest)) := by
  cases h with
  | part outer around shaped => exact .part outer around (shaped.addItem hkind htext)

end Opened

/-! ## Lines -/

namespace State

/-- The state with all closed that is indented as much. -/
def close (state : State) (width : Nat) : State :=
  { state with
    stack := (closeFrames width none state.stack state.nodes).1
    nodes := (closeFrames width none state.stack state.nodes).2 }

/-- What a line without a problem adds to the frames that it leaves open. -/
inductive Adds (number : Nat) (state : State) : State → Prop
  | item {width : Nat} {part : Part} {children : List Node} {rest : List Frame} {text : Units}
      (top : state.stack = .node width part children :: rest) (kind : part.kind.spec.children = .items)
      (legible : Legible text) :
      Adds number state { state with
        parts := state.parts + 1
        stack := .item (2 * state.stack.length) ::
          (addItem ⟨text, ⟨number, number⟩⟩ state.stack).map (.stretch number) }
  | part {part : Part} (around : ∀ frame ∈ state.stack.head?, frame.Holds .blocks)
      (deep : state.stack.length < maxDepth) (sound : part.Sound) (items : part.items = [])
      (span : part.span = ⟨number, number⟩)
      (fresh : ∀ id ∈ part.id, id ∉ state.ids.map Prod.fst) :
      Adds number state { state with
        parts := state.parts + 1
        ids := state.ids ++ part.id.toList.map (·, number)
        stack := .node (2 * state.stack.length) part [] :: state.stack.map (.stretch number) }

variable {state : State} {number width : Nat} {rest : Units}

theorem reject_problems {message : Units} : (state.reject width number message).problems ≠ [] := by simp [reject]

theorem tooMany_problems : (state.tooMany number).problems ≠ [] := by simp [tooMany]

/-- An item stands in a part that contains items. -/
theorem refusesItem_eq_none (hwithin : state.within = false) : state.refusesItem = none ↔ ∃ width part children rest,
        state.stack = .node width part children :: rest ∧ part.kind.spec.children = .items := by
  rw [refusesItem, hwithin, if_neg Bool.false_ne_true]
  cases hstack : state.stack with
  | nil => simp [ownerChildren, hstack]
  | cons frame rest =>
    cases frame with
    | node width part children =>
      have howner : state.ownerChildren = some part.kind.spec.children := by simp [ownerChildren, hstack, Frame.kind]
      rw [howner]
      simp [Frame.isItem]
    | item width => simp [Frame.isItem]
    | rejected width => simp [within, hstack, Frame.isRejected] at hwithin

/-- A part stands at the top or in a part that contains parts, on one of ten levels. -/
theorem refusesNode_eq_none (hwithin : state.within = false) : state.refusesNode width = none ↔
      (∀ frame ∈ state.stack.head?, frame.Holds .blocks) ∧ width / 2 + 1 ≤ maxDepth := by
  rw [refusesNode, hwithin, if_neg Bool.false_ne_true]
  cases hstack : state.stack with
  | nil => simp [ownerChildren, hstack]
  | cons frame rest =>
    cases frame with
    | node outer part children =>
      have howner : state.ownerChildren = some part.kind.spec.children := by simp [ownerChildren, hstack, Frame.kind]
      rw [howner]
      cases hrule : part.kind.spec.children <;> simp [Frame.isItem, Frame.Holds, Frame.kind, hrule]
    | item outer => simp [Frame.isItem, Frame.Holds, Frame.kind]
    | rejected outer => simp [within, hstack, Frame.isRejected] at hwithin

theorem itemLine_adds (hopened : Opened state.stack) (hwidth : width = 2 * state.stack.length)
    (h : (state.itemLine width number rest).problems = []) :
    state.problems = [] ∧ Adds number state (state.itemLine width number rest) := by
  have hwithin : state.within = false := hopened.not_rejected
  rw [itemLine] at h ⊢
  split at h
  · exact absurd h reject_problems
  rename_i hplace
  obtain ⟨outer, part, children, below, hstack, hkind⟩ := (refusesItem_eq_none hwithin).1 hplace
  split at h
  · exact absurd h reject_problems
  rename_i text hread
  have hinside : (state.within || (state.stack.head?.bind Frame.kind).isNone) = false := by
    simp [hwithin, hstack, Frame.kind]
  rw [if_neg (by simp [hinside])] at h ⊢
  split_ifs at h ⊢ with hmany
  · exact absurd h tooMany_problems
  · subst hwidth
    exact ⟨h, .item hstack hkind (readItem_legible hread)⟩

theorem nodeLine_adds (hopened : Opened state.stack) (hwidth : width = 2 * state.stack.length)
    (h : (state.nodeLine width number rest).problems = []) :
    state.problems = [] ∧ Adds number state (state.nodeLine width number rest) := by
  have hwithin : state.within = false := hopened.not_rejected
  rw [nodeLine] at h ⊢
  split at h
  · exact absurd h reject_problems
  rename_i hplace
  obtain ⟨haround, hdeep⟩ := (refusesNode_eq_none hwithin).1 hplace
  split at h
  · exact absurd h reject_problems
  rename_i part hread
  rw [if_neg (by simp [hwithin])] at h ⊢
  split at h
  · exact absurd h reject_problems
  rename_i hid
  split_ifs at h ⊢ with hmany
  · exact absurd h tooMany_problems
  · subst hwidth
    obtain ⟨hsound, hitems, hspan⟩ := readNode_sound hread
    refine ⟨h, .part haround (by omega) hsound hitems hspan fun id hfound hused ↦ ?_⟩
    obtain ⟨⟨found, line⟩, hmem, rfl⟩ := List.mem_map.1 hused
    rw [Option.mem_def.1 hfound, Option.bind_some, Option.map_eq_none_iff, List.lookup_eq_none_iff] at hid
    simpa using hid _ hmem

/-- The indentation of a line, where it is even and no deeper than the open frames allow. -/
theorem width_eq (hopened : Opened state.stack) (hless : ∀ frame ∈ state.stack.head?, frame.width < width)
    (heven : width % 2 = 0) (hdeep : state.tooDeep width = false) : width = 2 * state.stack.length := by
  rw [tooDeep, show state.within = false from hopened.not_rejected, Bool.not_false, Bool.true_and,
    decide_eq_false_iff_not, Nat.not_lt] at hdeep
  cases hstack : state.stack with
  | nil =>
    rw [hstack] at hdeep
    simpa using hdeep
  | cons frame rest =>
    rw [hstack] at hopened hless hdeep
    have hframe := hopened.width
    have hlower := hless frame rfl
    simp only [List.head?_cons, Option.map_some, Option.getD_some] at hdeep
    rw [List.length_cons]
    omega

/-- **A line without a problem adds nothing, or one item or part.** -/
theorem line_adds {text : Units} (hopened : Opened state.stack) (hnodes : ∀ node ∈ state.nodes, node.Shaped 1)
    (h : (state.line number text).problems = []) : state.problems = [] ∧
      (state.line number text = state ∨ ∃ width, (state.close width).Adds number (state.line number text)) := by
  rw [line] at h ⊢
  dsimp only at h ⊢
  split_ifs at h ⊢ with hempty htab hodd hdeep hitem
  · exact ⟨h, .inl rfl⟩
  · exact absurd h reject_problems
  · exact absurd h reject_problems
  · exact absurd h reject_problems
  all_goals
    have hclosed := hopened.closed ((text.rdropWhile blank).takeWhile blank).length hnodes
    have hwidth : _ = 2 * (state.close ((text.rdropWhile blank).takeWhile blank).length).stack.length :=
      width_eq hclosed.1 closeFrames_width (by simpa using hodd) (Bool.eq_false_iff.2 hdeep)
  · obtain ⟨hproblems, hadds⟩ := itemLine_adds hclosed.1 hwidth h
    exact ⟨hproblems, .inr ⟨_, hadds⟩⟩
  · obtain ⟨hproblems, hadds⟩ := nodeLine_adds hclosed.1 hwidth h
    exact ⟨hproblems, .inr ⟨_, hadds⟩⟩

/-! ## Runs of lines -/

theorem itemLine_problems : state.problems <+: (state.itemLine width number rest).problems := by
  rw [itemLine]
  split
  · exact List.prefix_append _ _
  split
  · exact List.prefix_append _ _
  split_ifs
  · exact List.prefix_rfl
  · exact List.prefix_append _ _
  · exact List.prefix_rfl

theorem nodeLine_problems : state.problems <+: (state.nodeLine width number rest).problems := by
  rw [nodeLine]
  split
  · exact List.prefix_append _ _
  split
  · exact List.prefix_append _ _
  split_ifs
  · exact List.prefix_rfl
  all_goals split
  · exact List.prefix_append _ _
  · exact List.prefix_append _ _
  · exact List.prefix_append _ _
  · exact List.prefix_rfl

/-- Problems stay. -/
theorem line_problems {text : Units} : state.problems <+: (state.line number text).problems := by
  rw [line]
  dsimp only
  split_ifs
  · exact List.prefix_rfl
  · exact List.prefix_append _ _
  · exact List.prefix_append _ _
  · exact List.prefix_append _ _
  · exact (itemLine_problems : (state.close _).problems <+: _)
  · exact (nodeLine_problems : (state.close _).problems <+: _)

variable {texts : List Units}

theorem lines_problems : state.problems <+: (state.lines number texts).problems := by
  induction texts generalizing state number with
  | nil => exact List.prefix_rfl
  | cons text rest ih =>
    rw [lines]
    split_ifs
    · exact List.prefix_rfl
    · exact line_problems.trans ih

/-- What each line without a problem keeps, all of them keep. -/
theorem lines_keeps {inv : Nat → State → Prop}
    (hline : ∀ number state text, inv number state → (state.line number text).problems = [] →
      inv (number + 1) (state.line number text)) (hstate : inv number state) (h : (state.lines number texts).problems = []) :
    ∃ last, inv last (state.lines number texts) := by
  induction texts generalizing state number with
  | nil => exact ⟨number, hstate⟩
  | cons text rest ih =>
    rw [lines] at h ⊢
    split_ifs at h ⊢
    · exact ⟨number, hstate⟩
    · have hnone : (state.line number text).problems = [] := List.prefix_nil.1 (h ▸ lines_problems)
      exact ih (hline _ _ _ hstate hnone) h

end State

end Chopin.Wireframes
