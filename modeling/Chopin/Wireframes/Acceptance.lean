import Chopin.Lib.Except
import Chopin.Wireframes.LineFacts

/-!
# What is accepted

The lines of a source without a problem keep three things: the open frames are shaped as their kinds allow, the ids are
those of the parts so far, and every open part reaches to the last line and contains what has been closed in it.  So the
tree is well formed once the last frame is closed, and `check` finds the rest.
-/

set_option autoImplicit false
set_option linter.dupNamespace false

open Script

namespace Chopin.Wireframes

/-! ## Parts so far -/

def Frame.parts : Frame → List Part
  | node _ part children => part :: Node.partsOf children
  | _ => []

/-- The parts of closed and open frames, in the order of their lines. -/
def partsIn : List Frame → List Node → List Part
  | [], nodes => Node.partsOf nodes
  | frame :: rest, nodes => partsIn rest nodes ++ frame.parts

theorem Node.partsOf_append (nodes more : List Node) : partsOf (nodes ++ more) = partsOf nodes ++ partsOf more := by
  rw [partsOf_eq, partsOf_eq, partsOf_eq, List.flatMap_append]

theorem Node.partsOf_concat (nodes : List Node) (node : Node) :
    partsOf (nodes ++ [node]) = partsOf nodes ++ node.parts := by
  rw [partsOf_append, partsOf, partsOf, List.append_nil]

variable {nodes : List Node}

/-- Closing a frame moves no part. -/
theorem partsIn_attach {frame : Frame} {rest : List Frame} (h : Opened (frame :: rest)) :
    partsIn (attach frame.closed rest nodes).1 (attach frame.closed rest nodes).2 = partsIn (frame :: rest) nodes := by
  cases h with
  | item outer around =>
    rw [show (Frame.item _).closed = none from rfl, attach_none]
    exact (List.append_nil _).symm
  | @part part children rest outer around shaped =>
    cases outer with
    | root =>
      show Node.partsOf (nodes ++ [Node.mk part children]) = Node.partsOf nodes ++ (part :: Node.partsOf children)
      rw [Node.partsOf_concat, Node.parts]
    | @part top before below outer' around' shaped' =>
      show partsIn below nodes ++ (top :: Node.partsOf (before ++ [Node.mk part children])) =
        partsIn below nodes ++ (top :: Node.partsOf before) ++ (part :: Node.partsOf children)
      rw [Node.partsOf_concat, Node.parts, List.append_assoc]
      rfl
    | item outer around' => cases around _ rfl

theorem ids_stretch (number : Nat) (stack : List Frame) (nodes : List Node) :
    (partsIn (stack.map (.stretch number)) nodes).filterMap Part.id = (partsIn stack nodes).filterMap Part.id := by
  induction stack with
  | nil => rfl
  | cons frame rest ih =>
    have hframe : (frame.stretch number).parts.filterMap Part.id = frame.parts.filterMap Part.id := by
      cases frame with
      | node width part children => simp only [Frame.stretch, Frame.parts, List.filterMap_cons]
      | item width => rfl
      | rejected width => rfl
    rw [List.map_cons, partsIn, partsIn, List.filterMap_append, List.filterMap_append, ih, hframe]

theorem ids_addItem (item : Item) (stack : List Frame) (nodes : List Node) :
    (partsIn (State.addItem item stack) nodes).filterMap Part.id = (partsIn stack nodes).filterMap Part.id := by
  cases stack with
  | nil => rfl
  | cons frame rest =>
    cases frame with
    | node width part children =>
      simp only [State.addItem, partsIn, Frame.parts, List.filterMap_append, List.filterMap_cons]
    | item width => rfl
    | rejected width => rfl

/-! ## Lines so far -/

/-- Lines from one on and above another, in order. -/
structure InOrder (start above : Nat) (spans : List Span) : Prop where
  ends : ∀ span ∈ spans, span.start ≤ span.finish
  within : ∀ span ∈ spans, start ≤ span.start ∧ span.finish < above
  ordered : spans.Pairwise Span.Before

/-- The lines of parts that are closed. -/
def spansOf (nodes : List Node) : List Span := nodes.map fun node ↦ node.part.span

/-- All open parts reach to the last line; each contains what has been closed in it, above the next one. -/
def Laid (last : Nat) : Nat → List Frame → List Node → Prop
  | above, [], nodes => (∀ node ∈ nodes, node.Spanned) ∧ InOrder 0 above (spansOf nodes)
  | above, .node _ part children :: rest, nodes =>
    (part.span.start < above ∧ part.span.start ≤ last ∧ part.span.finish = last) ∧
      (∀ child ∈ children, child.Spanned) ∧ InOrder part.span.start above (spansOf children) ∧
      InOrder part.span.start above (part.items.map Item.span) ∧ Laid last part.span.start rest nodes
  | above, _ :: rest, nodes => Laid last above rest nodes

section

variable {start above more last : Nat}

theorem InOrder.nil : InOrder start above [] := ⟨nofun, nofun, .nil⟩

variable {spans : List Span}

theorem InOrder.mono (h : InOrder start above spans) (hmore : above ≤ more) : InOrder start more spans :=
  ⟨h.ends, fun span hspan ↦ ⟨(h.within span hspan).1, (h.within span hspan).2.trans_le hmore⟩, h.ordered⟩

theorem InOrder.concat {span : Span} (h : InOrder start above spans)
    (hends : span.start ≤ span.finish) (hstart : start ≤ span.start) (habove : above ≤ span.start)
    (hmore : span.finish < more) : InOrder start more (spans ++ [span]) := by
  refine ⟨fun found hfound ↦ ?_, fun found hfound ↦ ?_, ?_⟩
  · rcases List.mem_append.1 hfound with hfound | hfound
    · exact h.ends found hfound
    · exact List.mem_singleton.1 hfound ▸ hends
  · rcases List.mem_append.1 hfound with hfound | hfound
    · have := h.within found hfound
      exact ⟨this.1, by omega⟩
    · exact List.mem_singleton.1 hfound ▸ ⟨hstart, hmore⟩
  · refine List.pairwise_append.2 ⟨h.ordered, List.pairwise_singleton _ _, fun first hfirst second hsecond ↦ ?_⟩
    rw [List.mem_singleton.1 hsecond]
    exact (h.within first hfirst).2.trans_le habove

variable {node : Node}

theorem InOrder.concatNode (h : InOrder start above (spansOf nodes))
    (hends : node.part.span.start ≤ node.part.span.finish) (hstart : start ≤ node.part.span.start)
    (habove : above ≤ node.part.span.start) (hmore : node.part.span.finish < more) :
    InOrder start more (spansOf (nodes ++ [node])) := by
  rw [spansOf, List.map_append]
  exact h.concat hends hstart habove hmore

theorem forall_concat (h : ∀ other ∈ nodes, other.Spanned) (hnode : node.Spanned) :
    ∀ other ∈ nodes ++ [node], other.Spanned :=
  List.forall_mem_append.2 ⟨h, List.forall_mem_singleton.2 hnode⟩

variable {stack : List Frame} {nodes : List Node}

theorem Laid.mono (h : Laid last above stack nodes) (hmore : above ≤ more) : Laid last more stack nodes := by
  induction stack with
  | nil => exact ⟨h.1, h.2.mono hmore⟩
  | cons frame rest ih =>
    cases frame with
    | node width part children =>
      obtain ⟨hspan, hspanned, hchildren, hitems, hrest⟩ := h
      exact ⟨⟨hspan.1.trans_le hmore, hspan.2⟩, hspanned, hchildren.mono hmore, hitems.mono hmore, hrest⟩
    | item width => exact ih h
    | rejected width => exact ih h

/-- A part that reaches to the last line can be added, below all that has been closed. -/
theorem Laid.attach (h : Laid last above stack nodes) (hnode : node.Spanned)
    (habove : above ≤ node.part.span.start) (hlast : node.part.span.finish = last) :
    Laid last (last + 1) (attach (some node) stack nodes).1 (attach (some node) stack nodes).2 := by
  have hends := hnode.ends
  cases stack with
  | nil => exact ⟨forall_concat h.1 hnode, h.2.concatNode hends (Nat.zero_le _) habove (by omega)⟩
  | cons frame rest =>
    cases frame with
    | node width part children =>
      obtain ⟨hspan, hspanned, hchildren, hitems, hrest⟩ := h
      have hmore := hchildren.concatNode hends (by omega) habove (show node.part.span.finish < last + 1 by omega)
      exact ⟨⟨by omega, hspan.2⟩, forall_concat hspanned hnode, hmore, hitems.mono (by omega), hrest⟩
    | item width =>
      have hrest : Laid last above rest nodes := h
      exact hrest.mono (show above ≤ last + 1 by omega)
    | rejected width =>
      have hrest : Laid last above rest nodes := h
      exact hrest.mono (show above ≤ last + 1 by omega)

/-- A part whose frame is closed covers what it contains. -/
theorem Laid.spanned {width : Nat} {part : Part} {children : List Node}
    (h : Laid last (last + 1) (.node width part children :: stack) nodes) : (Node.mk part children).Spanned := by
  obtain ⟨hspan, hspanned, hchildren, hitems, -⟩ := h
  refine Node.Spanned.of_children (by omega) (fun item hitem ↦ ?_) (List.pairwise_map.1 hitems.ordered)
    (fun child hchild ↦ ?_) (List.pairwise_map.1 hchildren.ordered) hspanned
  · have hwithin := hitems.within _ (List.mem_map_of_mem hitem)
    exact ⟨hitems.ends _ (List.mem_map_of_mem hitem), hwithin.1, by omega⟩
  · have hwithin := hchildren.within _ (List.mem_map_of_mem hchild)
    exact ⟨hwithin.1, by omega⟩

theorem Laid.pop {frame : Frame} (h : Laid last (last + 1) (frame :: stack) nodes) :
    Laid last (last + 1) (Wireframes.attach frame.closed stack nodes).1
      (Wireframes.attach frame.closed stack nodes).2 := by
  cases frame with
  | node width part children =>
    have hspanned := h.spanned
    obtain ⟨hspan, -, -, -, hrest⟩ := h
    exact hrest.attach hspanned le_rfl hspan.2.2
  | item width => exact (attach_none stack nodes).symm ▸ h
  | rejected width => exact (attach_none stack nodes).symm ▸ h

theorem Laid.stretch {number : Nat} (h : Laid last above stack nodes) (hnumber : last ≤ number) :
    Laid number above (stack.map (.stretch number)) nodes := by
  induction stack generalizing above with
  | nil => exact h
  | cons frame rest ih =>
    cases frame with
    | node width part children =>
      obtain ⟨hspan, hspanned, hchildren, hitems, hrest⟩ := h
      exact ⟨⟨hspan.1, hspan.2.1.trans hnumber, rfl⟩, hspanned, hchildren, hitems, ih hrest⟩
    | item width => exact ih h
    | rejected width => exact ih h

end

/-! ## States -/

namespace State

/-- What the lines of a source keep, while there is no problem. -/
structure Sound (number : Nat) (state : State) : Prop where
  opened : Opened state.stack
  nodes : ∀ node ∈ state.nodes, node.Shaped 1
  ids : (partsIn state.stack state.nodes).filterMap Part.id = state.ids.map Prod.fst
  once : (state.ids.map Prod.fst).Nodup
  laid : ∃ last < number, Laid last (last + 1) state.stack state.nodes

variable {state next : State} {number : Nat}

theorem Sound.initial : ({} : State).Sound 1 :=
  ⟨.root, nofun, rfl, List.nodup_nil, 0, Nat.zero_lt_one, nofun, .nil⟩

theorem Sound.close (h : state.Sound number) (width : Nat) : (state.close width).Sound number := by
  obtain ⟨hopened, hnodes, hids, honce, last, hlast, hlaid⟩ := h
  obtain ⟨⟨hopened', hnodes'⟩, hids', hlaid'⟩ := closeFrames_keeps
    (fun stack nodes ↦ (Opened stack ∧ ∀ node ∈ nodes, node.Shaped 1) ∧
      (partsIn stack nodes).filterMap Part.id = state.ids.map Prod.fst ∧ Laid last (last + 1) stack nodes)
    (fun frame rest nodes hinv ↦ ⟨hinv.1.1.pop hinv.1.2, (partsIn_attach hinv.1.1).symm ▸ hinv.2.1, hinv.2.2.pop⟩)
    (by rw [attach_none]; exact ⟨⟨hopened, hnodes⟩, hids, hlaid⟩)
  exact ⟨hopened', hnodes', hids', honce, last, hlast, hlaid'⟩

theorem Sound.addItem {item : Item} (h : state.Sound number) {width : Nat} {part : Part} {children : List Node}
    {rest : List Frame} (htop : state.stack = .node width part children :: rest)
    (hspan : item.span = ⟨number, number⟩) :
    Laid number (number + 1) ((State.addItem item state.stack).map (.stretch number)) state.nodes := by
  obtain ⟨-, -, -, -, last, hlast, hlaid⟩ := h
  rw [htop] at hlaid ⊢
  obtain ⟨⟨habove, hstart, hfinish⟩, hspanned, hchildren, hitems, hrest⟩ := hlaid
  have hmore : InOrder part.span.start (number + 1) ((part.items ++ [item]).map Item.span) := by
    rw [List.map_append, List.map_singleton, hspan]
    exact hitems.concat le_rfl (show part.span.start ≤ number by omega) hlast (Nat.lt_succ_self _)
  exact ⟨⟨show part.span.start < number + 1 by omega, show part.span.start ≤ number by omega, rfl⟩, hspanned,
    hchildren.mono (by omega), hmore, hrest.stretch hlast.le⟩

theorem Sound.adds (h : state.Sound number) (hadds : state.Adds number next) : next.Sound (number + 1) := by
  have hsound := h
  obtain ⟨hopened, hnodes, hids, honce, last, hlast, hlaid⟩ := h
  cases hadds with
  | @item width part children rest text top kind legible =>
    refine ⟨?_, hnodes, ?_, honce, number, Nat.lt_succ_self _, hsound.addItem top rfl⟩
    · have htext : Legible (Item.mk text ⟨number, number⟩).text := legible
      have hinner := ((top ▸ hopened).addItem kind htext).stretch number
      have hitem := Opened.item hinner (congrArg some kind)
      rw [List.length_map] at hitem
      rw [top]
      exact hitem
    · rw [partsIn, show (Frame.item _).parts = [] from rfl, List.append_nil, ids_stretch, ids_addItem]
      exact hids
  | @part part around deep sound items span fresh =>
    have hshaped : (Node.mk part []).Shaped ((state.stack.map (Frame.stretch number)).length + 1) := by
      rw [List.length_map]
      exact ⟨sound, deep, fun hsome ↦ absurd items hsome, by simp [items], fun hsome ↦ absurd rfl hsome, nofun⟩
    refine ⟨?_, hnodes, ?_, ?_, number, Nat.lt_succ_self _, ?_⟩
    · have hpart := Opened.part (hopened.stretch number) (fun frame hframe ↦ ?_) hshaped
      · rwa [List.length_map] at hpart
      · rw [List.head?_map] at hframe
        obtain ⟨inner, hinner, rfl⟩ := Option.mem_map.1 hframe
        rw [Frame.Holds, Frame.stretch_kind]
        exact around inner hinner
    · rw [partsIn, List.filterMap_append, ids_stretch, hids, List.map_append]
      cases hid : part.id <;> simp [Frame.parts, Node.partsOf, hid]
    · cases hid : part.id with
      | none => simpa using honce
      | some id =>
        have hnew := fresh id hid
        simpa [List.nodup_append] using ⟨honce, fun found line hfound heq ↦
          hnew (List.mem_map.2 ⟨_, hfound, heq⟩)⟩
    · have hrest : Laid number number (state.stack.map (.stretch number)) state.nodes :=
        (hlaid.mono (show last + 1 ≤ number by omega)).stretch hlast.le
      refine ⟨?_, nofun, .nil, ?_, ?_⟩
      · rw [span]; exact ⟨Nat.lt_succ_self _, le_rfl, rfl⟩
      · rw [items]; exact .nil
      · rw [span]; exact hrest

/-- **A line without a problem keeps the state sound.** -/
theorem Sound.line {text : Units} (h : state.Sound number) (hnone : (state.line number text).problems = []) :
    (state.line number text).Sound (number + 1) := by
  obtain ⟨-, hsame | ⟨width, hadds⟩⟩ := line_adds h.opened h.nodes hnone
  · rw [hsame]
    obtain ⟨last, hlast, hlaid⟩ := h.laid
    exact ⟨h.opened, h.nodes, h.ids, h.once, last, hlast.trans (Nat.lt_succ_self _), hlaid⟩
  · exact (h.close width).adds hadds

end State

/-! ## What is drawn -/

/-- What is repeated is repeated as often as is written, twice at least. -/
theorem Kind.repeat_eq {kind : Kind} {allowed : Value}
    (h : kind.spec.props.lookup (utf16 "repeat") = some allowed) : allowed = repeats := by
  cases kind <;> cases h <;> rfl

theorem repeats_pos : ∀ value ∈ (range 2 12).map utf16, 1 ≤ decimal value := by decide

variable {part : Part}

/-- A part is drawn once at least. -/
theorem Part.Sound.copies_pos (h : part.Sound) : 1 ≤ part.copies := by
  rw [Part.copies, Part.prop]
  cases hvalue : part.props.lookup (utf16 "repeat") with
  | none => exact le_rfl
  | some value =>
    obtain ⟨before, after, hprops, -⟩ := List.lookup_eq_some_iff.1 hvalue
    obtain ⟨-, allowed, hallowed, hvalue⟩ := h.props (utf16 "repeat") value (by simp [hprops])
    rw [Kind.repeat_eq hallowed] at hvalue
    exact repeats_pos value hvalue

theorem min_add_cap (first second cap : Nat) : min (min first cap + second) cap = min (first + second) cap := by
  omega

theorem min_mul_cap (count cap : Nat) {copies : Nat} (h : 1 ≤ copies) :
    min (min count cap * copies) cap = min (count * copies) cap := by
  rcases Nat.le_total count cap with hle | hle
  · rw [Nat.min_eq_left hle]
  · have hcap : cap ≤ cap * copies := Nat.le_mul_of_pos_right cap h
    rw [Nat.min_eq_right hle, Nat.min_eq_right hcap, Nat.min_eq_right (hcap.trans (Nat.mul_le_mul_right copies hle))]

/-- The parts of a list, added to what has been counted. -/
theorem expandedAll_eq (h : ∀ node ∈ nodes, expanded node = min node.drawn (maxNodes + 1)) (inside : Nat) :
    min (expandedAll inside nodes) (maxNodes + 1) = min (inside + Node.drawnAll nodes) (maxNodes + 1) := by
  induction nodes generalizing inside with
  | nil => rfl
  | cons node rest ih =>
    rw [expandedAll, ih (fun other hother ↦ h other (List.mem_cons_of_mem _ hother)), h node List.mem_cons_self,
      Node.drawnAll, min_add_cap]
    omega

/-- **The capped count is the count, up to the cap.** -/
theorem Node.Shaped.expanded_eq {depth : Nat} {node : Node} (h : node.Shaped depth) :
    expanded node = min node.drawn (maxNodes + 1) := by
  induction h with
  | @mk depth part children sound _ _ _ _ _ ih =>
    rw [expanded, Node.drawn, ← min_mul_cap _ _ sound.copies_pos, expandedAll_eq ih, min_mul_cap _ _ sound.copies_pos]

theorem overflow_eq_nil (h : ∀ node ∈ nodes, node.Shaped 1) {total : Nat}
    (htotal : total ≤ maxNodes) : overflow total nodes = [] ↔ total + Node.drawnAll nodes ≤ maxNodes := by
  induction nodes generalizing total with
  | nil => simpa [overflow, Node.drawnAll] using htotal
  | cons node rest ih =>
    have hnode := (h node List.mem_cons_self).expanded_eq
    rw [overflow, Node.drawnAll]
    split_ifs with hmore
    · simp only [false_iff]
      omega
    · rw [ih (fun other hother ↦ h other (List.mem_cons_of_mem _ hother)) (by omega)]
      omega

/-! ## Targets -/

/-- What is found by a key that only one has is the only one with it. -/
theorem filter_of_find {parts : List Part} {id : Units} (hnodup : (parts.filterMap Part.id).Nodup)
    (h : parts.find? (·.id == some id) = some part) : parts.filter (·.id == some id) = [part] := by
  induction parts with
  | nil => cases h
  | cons first rest ih =>
    rw [List.find?_cons] at h
    cases hfirst : first.id == some id with
    | true =>
      rw [hfirst] at h
      obtain rfl := Option.some.inj h
      have hid : first.id = some id := by simpa using hfirst
      rw [List.filterMap_cons, hid] at hnodup
      rw [List.filter_cons, if_pos hfirst]
      congr 1
      refine List.filter_eq_nil_iff.2 fun other hother hsame ↦ (List.nodup_cons.1 hnodup).1 ?_
      exact List.mem_filterMap.2 ⟨other, hother, by simpa using hsame⟩
    | false =>
      rw [hfirst] at h
      rw [List.filter_cons, if_neg (by simp [hfirst])]
      refine ih (hnodup.sublist ?_) h
      exact List.Sublist.filterMap _ (List.sublist_cons_self _ _)

/-- A target that is located means one part, and no note. -/
theorem locate_ok {parts : List Part} {target : Units} (hnodup : (parts.filterMap Part.id).Nodup)
    (h : locate parts target = .ok part) : parts.filter (answers target) = [part] ∧ part.kind ≠ .note := by
  rw [locate] at h
  split at h
  · cases h
  rename_i found hfound
  split_ifs at h with hnote
  cases h
  refine ⟨?_, hnote⟩
  rw [named] at hfound
  split_ifs at hfound with hhash
  · have hanswers : answers target = fun part ↦ part.id == some target.tail := funext fun part ↦ by
      rw [answers, if_pos hhash]
    split at hfound
    · cases hfound
      rw [hanswers]
      exact filter_of_find hnodup ‹_›
    · cases hfound
  · split at hfound
    · cases hfound
    rename_i kind hkind
    have hanswers : answers target = fun part ↦ decide (part.kind = kind) := funext fun part ↦ by
      rw [answers, if_neg hhash, hkind, Bool.eq_iff_iff, beq_iff_eq, decide_eq_true_iff, Option.some.injEq]
      exact eq_comm
    split at hfound
    · cases hfound
    · cases hfound
      rw [hanswers]
      assumption
    · cases hfound

/-- What `check` lets through. -/
theorem check_eq_nil (h : check nodes = []) : (∀ part ∈ Node.partsOf nodes, ∀ target ∈ part.target,
      ∃ found, locate (Node.partsOf nodes) target = .ok found) ∧ overflow 0 nodes = [] := by
  rw [check, List.append_eq_nil_iff] at h
  refine ⟨fun part hpart target htarget ↦ ?_, h.2⟩
  have hnone := List.flatMap_eq_nil_iff.1 h.1 part hpart
  rw [checkPart, List.append_eq_nil_iff, List.append_eq_nil_iff, checkTarget, Option.mem_def.1 htarget] at hnone
  have hlocated := hnone.1.1
  dsimp only at hlocated
  split at hlocated
  · cases hlocated
  · exact ⟨_, ‹_›⟩

/-! ## Sources -/

/-- The lines of a source. -/
def read (source : Units) : State := ({} : State).lines 1 (splitLines (withoutMark source))

variable {source : Units}

theorem parse_eq_ok : parseWireframe source = .ok nodes ↔
      tooLarge source = false ∧ (read source).problems = [] ∧ ((read source).close 0).nodes = nodes ∧ nodes ≠ [] ∧
        check nodes = [] := by
  have hstate : ({} : State).lines 1 (splitLines (withoutMark source)) = read source := rfl
  have hnodes : (closeFrames 0 none (read source).stack (read source).nodes).2 = ((read source).close 0).nodes := rfl
  rw [parseWireframe]
  simp only [hstate, hnodes]
  by_cases hlarge : tooLarge source = true
  · simp [hlarge]
  rw [if_neg hlarge, Bool.eq_false_iff.2 hlarge]
  cases hproblems : (read source).problems with
  | cons problem rest => simp
  | nil =>
    cases htree : ((read source).close 0).nodes with
    | nil =>
      simp only [List.isEmpty_nil, List.isEmpty_cons, Bool.and_self, if_true, if_false, Bool.false_eq_true,
        reduceCtorEq, false_iff, not_and]
      rintro - - rfl hne
      exact absurd rfl hne
    | cons node rest =>
      simp only [List.isEmpty_nil, List.isEmpty_cons, Bool.and_false, if_true, if_false, Bool.false_eq_true,
        List.isEmpty_iff, true_and]
      split_ifs with hcheck
      · simp only [Except.ok.injEq]
        exact ⟨by rintro rfl; exact ⟨rfl, by simp, hcheck⟩, fun h ↦ h.1⟩
      · simp only [false_iff, not_and]
        rintro rfl - hnone
        exact hcheck hnone

theorem read_sound (h : (read source).problems = []) : ∃ number, (read source).Sound number :=
  State.lines_keeps (fun _ _ _ hstate hnone ↦ hstate.line hnone) .initial h

/-- Once everything is closed, the tree is what is left. -/
theorem State.close_stack (state : State) : (state.close 0).stack = [] := by
  cases hstack : (state.close 0).stack with
  | nil => rfl
  | cons frame rest =>
    have htop : frame ∈ (state.close 0).stack.head? := by rw [hstack]; rfl
    exact absurd (closeFrames_width frame htop) (Nat.not_lt_zero _)

variable {problems : List Problem}

/-- What is found is reported in the order of the lines, where it is anything. -/
theorem reported {found : List Problem} (h : (if found.isEmpty then .ok nodes
      else .error ((found.insertionSort fun a b ↦ a.line ≤ b.line).take maxProblems)) = Except.error problems) :
    problems ≠ [] ∧ problems.length ≤ maxProblems ∧ problems.Pairwise fun first second ↦ first.line ≤ second.line := by
  have : Std.Total fun a b : Problem ↦ a.line ≤ b.line := ⟨fun a b ↦ Nat.le_total a.line b.line⟩
  have : IsTrans Problem fun a b ↦ a.line ≤ b.line := ⟨fun _ _ _ h h' ↦ Nat.le_trans h h'⟩
  split_ifs at h with hempty
  cases h
  refine ⟨fun hnone ↦ hempty ?_, List.length_take_le _ _,
    (List.pairwise_insertionSort _ _).sublist (List.take_sublist _ _)⟩
  have hsorted := (List.take_eq_nil_iff.1 hnone).resolve_left (by decide)
  exact List.isEmpty_iff.2 (List.perm_nil.1 (hsorted ▸ (List.perm_insertionSort _ found).symm))

theorem parse_error (h : parseWireframe source = .error problems) :
    problems ≠ [] ∧ problems.length ≤ maxProblems ∧ problems.Pairwise fun first second ↦ first.line ≤ second.line := by
  rw [parseWireframe] at h
  by_cases hlarge : tooLarge source = true
  · rw [if_pos hlarge] at h
    cases h
    exact ⟨List.cons_ne_nil _ _, by decide, List.pairwise_singleton _ _⟩
  · rw [if_neg hlarge] at h
    exact reported h

theorem accepted_well_formed (h : parseWireframe source = .ok nodes) : WellFormed nodes := by
  obtain ⟨-, hproblems, rfl, -, hcheck⟩ := parse_eq_ok.1 h
  obtain ⟨number, hsound⟩ := read_sound hproblems
  obtain ⟨-, hnodes, hids, honce, last, -, hlaid⟩ := hsound.close 0
  rw [State.close_stack] at hids hlaid
  rw [← hids] at honce
  obtain ⟨htargets, hdrawn⟩ := check_eq_nil hcheck
  refine ⟨hnodes, honce, ?_, fun part hpart target htarget ↦ ?_, hlaid.1, List.pairwise_map.1 hlaid.2.ordered⟩
  · simpa using (overflow_eq_nil hnodes (Nat.zero_le _)).1 hdrawn
  · obtain ⟨found, hfound⟩ := htargets part hpart target htarget
    exact ⟨found, hfound, locate_ok honce hfound⟩

/-- **An accepted wireframe is well formed.** And a refused one has problems, in the order of their lines. -/
theorem parse_well_formed (source : Units) : (∀ nodes, parseWireframe source = .ok nodes → WellFormed nodes) ∧
      ∀ problems, parseWireframe source = .error problems → problems ≠ [] ∧ problems.length ≤ maxProblems ∧
        problems.Pairwise fun first second ↦ first.line ≤ second.line :=
  ⟨fun _ h ↦ accepted_well_formed h, fun _ h ↦ parse_error h⟩

/-- A row of cards, and a note that points at it. -/
def sampleSource : Units := utf16 "row #cards wrap\n  card \"A\" repeat=2\n  list n=3\nnote \"Look\" -> #cards"

theorem parse_well_formed_sample : ∃ nodes, parseWireframe sampleSource = .ok nodes ∧ WellFormed nodes := by
  have hsome : (parseWireframe sampleSource).toOption.isSome = true := by decide +kernel
  obtain ⟨nodes, hnodes⟩ := Option.isSome_iff_exists.1 hsome
  have hok := Except.toOption_eq_some.1 hnodes
  exact ⟨nodes, hok, (parse_well_formed sampleSource).1 nodes hok⟩

end Chopin.Wireframes
