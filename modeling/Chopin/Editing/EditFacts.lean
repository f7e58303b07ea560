import Chopin.Lib.Exchange
import Chopin.Lib.Lists
import Chopin.Editing.Edits

/-!
# What a batch does to the blocks

## What is here

* `fragment_questionnaire` — the source of an operation holds no questionnaire.
* `prepare_conserves` — **a batch** loses and duplicates no block: the ones it does not take are in the
  result once, the ones it does not move either are in their order, and what it supplies is there once.
-/

set_option autoImplicit false

open scoped List

namespace Chopin.Editing

variable {dialect : Dialect}

/-! ## What an operation may supply -/

/-- What a node is called, whatever id it is given. -/
def Node.label (node : Node) : Kind × Option String := (node.kind, node.name)

mutual

theorem walk_stamp (ulid : Nat → String) : ∀ (node : Node) (next : Nat),
    (stamp ulid next node).1.walk.map Node.label = node.walk.map Node.label
  | .mk kind name attributes lang value children, next => by
    rw [stamp]
    split
    · rw [Node.walk, Node.walk, List.map_cons, List.map_cons, walkAll_stampAll ulid children]
      rfl
    · rw [Node.walk, Node.walk, List.map_cons, List.map_cons, walkAll_stampAll ulid children]
      rfl

theorem walkAll_stampAll (ulid : Nat → String) : ∀ (nodes : List Node) (next : Nat),
    (Node.walkAll (stampAll ulid next nodes).1).map Node.label = (Node.walkAll nodes).map Node.label
  | [], _ => rfl
  | node :: rest, next => by
    rw [stampAll, Node.walkAll, Node.walkAll, List.map_append, List.map_append, walk_stamp ulid node,
      walkAll_stampAll ulid rest]

end

theorem mem_walk (node : Node) : node ∈ node.walk := by
  cases node
  exact List.mem_cons_self

theorem walkAll_eq_flatMap (nodes : List Node) : Node.walkAll nodes = nodes.flatMap Node.walk := by
  induction nodes with
  | nil => rfl
  | cons node rest ih => rw [Node.walkAll, ih, List.flatMap_cons]

variable {node : Node} {nodes : List Node}

theorem mem_walkAll {block : Node} (hblock : block ∈ nodes) (h : node ∈ block.walk) : node ∈ Node.walkAll nodes := by
  rw [walkAll_eq_flatMap]
  exact List.mem_flatMap.2 ⟨block, hblock, h⟩

/-- A component with this name is not the agent's to write. -/
def reserved (label : Kind × Option String) : Bool :=
  label.1.component && label.2.any fun name ↦ RESERVED_COMPONENTS.contains name

theorem refused_of_reserved (h : reserved node.label = true) : (refused node).isSome := by
  rw [reserved, Bool.and_eq_true, Option.any_eq_true] at h
  obtain ⟨hkind, name, hname, hmem⟩ := h
  have hspec : ∃ spec, lookup (some name) = some spec ∧ spec.name = name := by
    have hall : ∀ name ∈ RESERVED_COMPONENTS, ∃ spec ∈ COMPONENTS,
        lookup (some name) = some spec ∧ spec.name = name := by decide
    obtain ⟨spec, -, hspec⟩ := hall name (List.contains_iff_mem.1 hmem)
    exact ⟨spec, hspec⟩
  obtain ⟨spec, hlookup, hspec⟩ := hspec
  rw [refused, if_pos (show node.kind.component = true from hkind), show node.name = some name from hname, hlookup,
    Option.bind_some,
    if_pos (by rw [hspec]; exact List.contains_iff_mem.1 hmem)]
  rfl

variable {source : String}

variable {ulid : Nat → String}

/-- Nothing in the source of an operation is reserved, at any depth. -/
theorem fragment_reserved
    (h : fragment dialect ulid source = .ok nodes) : ∀ node ∈ Node.walkAll nodes, reserved node.label = false := by
  obtain ⟨read, -, h⟩ := Except.bind_eq_ok.1 h
  split at h
  · cases h
  obtain ⟨stamped, hstamped, h⟩ := Except.bind_eq_ok.1 h
  obtain ⟨-, -, h⟩ := Except.bind_eq_ok.1 h
  cases h
  rw [identify] at hstamped
  split at hstamped
  · cases hstamped
  rename_i hnone
  cases hstamped
  intro node hmem
  have hlabel : node.label ∈ (Node.walkAll read).map Node.label := by
    rw [← walkAll_stampAll ulid read 0]
    exact List.mem_map_of_mem hmem
  obtain ⟨original, horiginal, hsame⟩ := List.mem_map.1 hlabel
  rw [← hsame, ← Bool.not_eq_true]
  intro hreserved
  have hrefused := refused_of_reserved hreserved
  rw [List.findSome?_eq_none_iff.1 hnone original horiginal] at hrefused
  cases hrefused

theorem questionnaire_label {id : String} (h : node.questionnaire = some id) : reserved node.label = true := by
  rw [Node.questionnaire] at h
  split at h
  · rename_i hnode
    rw [Node.label, hnode.1, hnode.2]
    decide
  · cases h

theorem fragment_questionnaire
    (h : fragment dialect ulid source = .ok nodes) : ∀ node ∈ nodes, node.questionnaire = none := by
  intro node hmem
  cases hid : node.questionnaire with
  | none => rfl
  | some id =>
    exact absurd (questionnaire_label hid)
      (by rw [fragment_reserved h node (mem_walkAll hmem (mem_walk node))]; decide)

/-! ## Blocks as objects -/

variable {block : Held}

theorem mem_held : block ∈ held nodes ↔ ∃ index, nodes[index]? = some block.node ∧ block.origin = .base index := by
  simp only [held, List.mem_map, List.mem_zipIdx_iff_getElem?]
  constructor
  · rintro ⟨⟨node, index⟩, hmem, rfl⟩
    exact ⟨index, hmem, rfl⟩
  · rintro ⟨index, hmem, horigin⟩
    exact ⟨(block.node, index), hmem, by rw [← horigin]⟩

variable {position : Nat}

theorem mem_supplied : block ∈ supplied position nodes ↔
      ∃ index, nodes[index]? = some block.node ∧ block.origin = .supplied position index := by
  simp only [supplied, List.mem_map, List.mem_zipIdx_iff_getElem?]
  constructor
  · rintro ⟨⟨node, index⟩, hmem, rfl⟩
    exact ⟨index, hmem, rfl⟩
  · rintro ⟨index, hmem, horigin⟩
    exact ⟨(block.node, index), hmem, by rw [← horigin]⟩

theorem getElem?_held {index : Nat} (h : (held nodes)[index]? = some block) :
    block ∈ held nodes ∧ block.origin = .base index := by
  refine ⟨List.mem_of_getElem? h, ?_⟩
  rw [held, List.getElem?_map, List.getElem?_zipIdx, Option.map_map, Option.map_eq_some_iff] at h
  obtain ⟨node, -, rfl⟩ := h
  simp

theorem map_node_held (nodes : List Node) : (held nodes).map (·.node) = nodes := by
  rw [held, List.map_map]
  exact List.zipIdx_map_fst 0 nodes

theorem nodup_held (nodes : List Node) : ((held nodes).map (·.origin)).Nodup := by
  have horigin : (held nodes).map (·.origin) = nodes.zipIdx.map (Origin.base ∘ Prod.snd) := List.map_map
  rw [horigin, ← List.map_map, List.zipIdx_map_snd]
  exact List.Nodup.map (fun _ _ ↦ Origin.base.inj) List.nodup_range'

theorem nodup_supplied (position : Nat) (nodes : List Node) : ((supplied position nodes).map (·.origin)).Nodup := by
  have horigin : (supplied position nodes).map (·.origin) =
      nodes.zipIdx.map (Origin.supplied position ∘ Prod.snd) := List.map_map
  rw [horigin, ← List.map_map, List.zipIdx_map_snd]
  exact List.Nodup.map (fun _ _ h ↦ (Origin.supplied.inj h).2) List.nodup_range'

/-- The blocks there are before the operation at this position: no two of them are one object, each is a
block of the base or one supplied before, and the supplied ones are no questionnaires. -/
structure Sound (base : List Held) (position : Nat) (children : List Held) : Prop where
  origins : (children.map (·.origin)).Nodup
  own : ∀ block ∈ children, block ∈ base ∨
    (∃ operation < position, ∃ index, block.origin = .supplied operation index) ∧
      block.node.questionnaire = none

theorem Sound.start (nodes : List Node) : Sound (held nodes) 0 (held nodes) :=
  ⟨nodup_held nodes, fun _ ↦ .inl⟩

variable {target : Held}

variable {children : List Held}

/-- The block of the base that is found again is that block. -/
theorem Sound.same (h : Sound (held nodes) position children) (hmem : block ∈ children)
    (htarget : target ∈ held nodes) (horigin : block.origin = target.origin) : block = target := by
  rcases h.own block hmem with hbase | ⟨⟨operation, -, index, hsupplied⟩, -⟩
  · exact List.inj_on_of_nodup_map (nodup_held nodes) hbase htarget horigin
  · obtain ⟨place, -, hplace⟩ := mem_held.1 htarget
    rw [hsupplied, hplace] at horigin
    cases horigin

/-! ## One operation -/

/-- The blocks of an operation's source, when it has one. -/
def Supplies (dialect : Dialect) (position : Nat) (operation : Operation) (nodes : List Node) : Prop :=
  match operation.source with
  | none => nodes = []
  | some source => fragment dialect (dialect.ulid position) source = .ok nodes

/-- What one operation can do: the blocks before it, the ones it puts in, the ones after it, and the
questionnaires it detaches. -/
inductive Steps (base : List Held) : Operation → List Held → List Held → List Held → List String → Prop
  | replaceRoot {source : String} {children added : List Held} (clear : ∀ block ∈ base, block.node.research = false) :
      Steps base (.replaceRoot source) children added added []
  | insertRoot {source : String} {children added : List Held} :
      Steps base (.insertRoot source) children added (children ++ added) []
  | insert {index : Nat} {source : String} {front back added : List Held} {target : Held}
      (mem : target ∈ base) (origin : target.origin = .base index) :
      Steps base (.insert index source) (front ++ target :: back) added (front ++ [target] ++ added ++ back) []
  | replace {index : Nat} {source : String} {front back added : List Held} {target : Held}
      (mem : target ∈ base) (origin : target.origin = .base index) (decision : target.node.decision = false)
      (research : target.node.research = false) :
      Steps base (.replace index source) (front ++ target :: back) added (front ++ added ++ back) []
  | delete {index : Nat} {front back : List Held} {target : Held} (mem : target ∈ base)
      (origin : target.origin = .base index) (decision : target.node.decision = false)
      (research : target.node.research = false) :
      Steps base (.delete index) (front ++ target :: back) [] (front ++ back) []
  | stay {index : Nat} {children : List Held} : Steps base (.move index index) children [] children []
  | move {index «to» : Nat} {front back front' back' : List Held} {target : Held} (mem : target ∈ base)
      (origin : target.origin = .base index) (research : target.node.research = false)
      (rest : front ++ back = front' ++ back') :
      Steps base (.move index «to») (front ++ target :: back) [] (front' ++ target :: back') []
  | detach {id : String} {front back : List Held} {block : Held} (questionnaire : block.node.questionnaire = some id) :
      Steps base (.detachQuestion id) (front ++ block :: back) [] (front ++ back) [id]

variable {index : Int}

theorem addressed_ok (h : addressed (held nodes) index = .ok target) :
    ∃ place : Nat, index = place ∧ target ∈ held nodes ∧ target.origin = .base place := by
  cases index with
  | ofNat place =>
    rw [addressed] at h
    cases hfound : (held nodes)[place]? with
    | none => rw [hfound] at h; cases h
    | some block =>
      rw [hfound] at h
      cases h
      exact ⟨place, rfl, getElem?_held hfound⟩
  | negSucc _ => cases h

/-- Where a block is found, with the blocks around it. -/
theorem placed_ok {place : Nat} (hsound : Sound (held nodes) position children)
    (htarget : target ∈ held nodes) (h : placed children target index = .ok place) :
    ∃ front back, children = front ++ target :: back ∧ front.length = place := by
  rw [placed, indexOf] at h
  cases hfound : children.findIdx? (·.origin == target.origin) with
  | none => rw [hfound] at h; cases h
  | some found =>
    rw [hfound] at h
    obtain rfl := Except.ok.inj h
    obtain ⟨hlt, horigin, -⟩ := List.findIdx?_eq_some_iff_getElem.1 hfound
    have hsame := hsound.same (List.getElem_mem hlt) htarget (by simpa using horigin)
    refine ⟨children.take found, children.drop (found + 1), ?_, List.length_take_of_le (Nat.le_of_lt hlt)⟩
    rw [← hsame, ← List.drop_eq_getElem_cons, List.take_append_drop]

theorem unprotected_ok (h : unprotected target index = .ok ()) :
    target.node.decision = false ∧ target.node.research = false := by
  rw [unprotected] at h
  split at h
  · cases h
  split at h
  · cases h
  · rename_i hdecision hresearch
    exact ⟨Bool.eq_false_iff.2 hdecision, Bool.eq_false_iff.2 hresearch⟩

theorem movable_ok (h : movable target index = .ok ()) : target.node.research = false := by
  rw [movable] at h
  split at h
  · cases h
  · rename_i hresearch
    exact Bool.eq_false_iff.2 hresearch

variable {added : List Held}

theorem supply_ok (h : supply dialect position source = .ok added) :
    ∃ nodes, fragment dialect (dialect.ulid position) source = .ok nodes ∧ added = supplied position nodes := by
  obtain ⟨nodes, hnodes, rfl⟩ := Except.map_eq_ok.1 h
  exact ⟨nodes, hnodes, rfl⟩

variable {base front back : List Held}

/-- The other blocks, in their order. -/
theorem filter_others (h : Sound base position (front ++ target :: back)) :
    (front ++ target :: back).filter (·.origin != target.origin) = front ++ back := by
  have hnodup := h.origins
  rw [List.map_append, List.map_cons, List.nodup_middle, List.nodup_cons, List.mem_append, not_or] at hnodup
  have hother : ∀ part : List Held, target.origin ∉ part.map (·.origin) →
      part.filter (·.origin != target.origin) = part := fun part hpart ↦
    List.filter_eq_self.2 fun block hmem ↦ bne_iff_ne.2 fun horigin ↦
      hpart (List.mem_map.2 ⟨block, hmem, horigin⟩)
  rw [List.filter_append, List.filter_cons_of_neg (by simp), hother front hnodup.1.1, hother back hnodup.1.2]

variable {after : List Held} {operation : Operation}

variable {detached : List String}

/-- **One operation** does one of these. -/
theorem steps_of_step (hsound : Sound (held nodes) position children)
    (h : step dialect (held nodes) children position operation = .ok (after, detached)) :
    ∃ supply, Supplies dialect position operation supply ∧
      Steps (held nodes) operation children (supplied position supply) after detached := by
  cases operation with
  | replaceRoot source =>
    rw [step] at h
    split at h
    · cases h
    · rename_i hclear
      obtain ⟨parsed, hparsed, h⟩ := Except.bind_eq_ok.1 h
      obtain ⟨supply, hsupply, rfl⟩ := supply_ok hparsed
      obtain ⟨rfl, rfl⟩ := Prod.mk.inj (Except.ok.inj h)
      refine ⟨supply, hsupply, .replaceRoot fun block hmem ↦ ?_⟩
      exact List.findIdx?_eq_none_iff.1 hclear block hmem
  | insertRoot source =>
    obtain ⟨parsed, hparsed, h⟩ := Except.bind_eq_ok.1 h
    obtain ⟨supply, hsupply, rfl⟩ := supply_ok hparsed
    obtain ⟨rfl, rfl⟩ := Prod.mk.inj (Except.ok.inj h)
    exact ⟨supply, hsupply, .insertRoot⟩
  | insert index source =>
    obtain ⟨target, htarget, h⟩ := Except.bind_eq_ok.1 h
    obtain ⟨place, hplace, h⟩ := Except.bind_eq_ok.1 h
    obtain ⟨parsed, hparsed, h⟩ := Except.bind_eq_ok.1 h
    obtain ⟨supply, hsupply, rfl⟩ := supply_ok hparsed
    obtain ⟨rfl, rfl⟩ := Prod.mk.inj (Except.ok.inj h)
    obtain ⟨index, rfl, hmem, horigin⟩ := addressed_ok htarget
    obtain ⟨front, back, rfl, rfl⟩ := placed_ok hsound hmem hplace
    rw [List.take_length_add_append, List.drop_length_add_append]
    exact ⟨supply, hsupply, .insert hmem horigin⟩
  | replace index source =>
    obtain ⟨target, htarget, h⟩ := Except.bind_eq_ok.1 h
    obtain ⟨_, hfree, h⟩ := Except.bind_eq_ok.1 h
    obtain ⟨place, hplace, h⟩ := Except.bind_eq_ok.1 h
    obtain ⟨parsed, hparsed, h⟩ := Except.bind_eq_ok.1 h
    obtain ⟨supply, hsupply, rfl⟩ := supply_ok hparsed
    obtain ⟨rfl, rfl⟩ := Prod.mk.inj (Except.ok.inj h)
    obtain ⟨index, rfl, hmem, horigin⟩ := addressed_ok htarget
    obtain ⟨hdecision, hresearch⟩ := unprotected_ok hfree
    obtain ⟨front, back, rfl, rfl⟩ := placed_ok hsound hmem hplace
    rw [List.take_left, List.drop_length_add_append]
    exact ⟨supply, hsupply, .replace hmem horigin hdecision hresearch⟩
  | delete index =>
    obtain ⟨target, htarget, h⟩ := Except.bind_eq_ok.1 h
    obtain ⟨_, hfree, h⟩ := Except.bind_eq_ok.1 h
    obtain ⟨place, hplace, h⟩ := Except.bind_eq_ok.1 h
    obtain ⟨rfl, rfl⟩ := Prod.mk.inj (Except.ok.inj h)
    obtain ⟨index, rfl, hmem, horigin⟩ := addressed_ok htarget
    obtain ⟨hdecision, hresearch⟩ := unprotected_ok hfree
    obtain ⟨front, back, rfl, rfl⟩ := placed_ok hsound hmem hplace
    rw [show (front ++ target :: back).eraseIdx front.length = front ++ back by
      simp [List.eraseIdx_append_of_length_le]]
    exact ⟨[], rfl, .delete hmem horigin hdecision hresearch⟩
  | move index «to» =>
    obtain ⟨target, htarget, h⟩ := Except.bind_eq_ok.1 h
    obtain ⟨_, hmovable, h⟩ := Except.bind_eq_ok.1 h
    obtain ⟨destination, hdestination, h⟩ := Except.bind_eq_ok.1 h
    obtain ⟨place, hplace, h⟩ := Except.bind_eq_ok.1 h
    obtain ⟨_, -, h⟩ := Except.bind_eq_ok.1 h
    obtain ⟨index, rfl, hmem, horigin⟩ := addressed_ok htarget
    obtain ⟨«to», rfl, -, hto⟩ := addressed_ok hdestination
    split at h
    · rename_i hsame
      obtain ⟨rfl, rfl⟩ := Prod.mk.inj (Except.ok.inj h)
      obtain rfl : index = «to» := Origin.base.inj (horigin.symm.trans (hsame.trans hto))
      exact ⟨[], rfl, .stay⟩
    · obtain ⟨rfl, rfl⟩ := Prod.mk.inj (Except.ok.inj h)
      obtain ⟨front, back, rfl, -⟩ := placed_ok hsound hmem hplace
      rw [filter_others hsound]
      exact ⟨[], rfl, .move hmem horigin (movable_ok hmovable) (List.take_append_drop _ _).symm⟩
  | detachQuestion id =>
    rw [step] at h
    split at h
    · cases h
    · rename_i place hplace
      obtain ⟨rfl, rfl⟩ := Prod.mk.inj (Except.ok.inj h)
      obtain ⟨hlt, hid, -⟩ := List.findIdx?_eq_some_iff_getElem.1 hplace
      have hsplit : children = children.take place ++ children[place] :: children.drop (place + 1) := by
        rw [← List.drop_eq_getElem_cons, List.take_append_drop]
      rw [List.eraseIdx_eq_take_drop_succ]
      refine ⟨[], rfl, ?_⟩
      have hdetach : Steps (held nodes) (.detachQuestion id)
          (children.take place ++ children[place] :: children.drop (place + 1)) []
          (children.take place ++ children.drop (place + 1)) [id] := .detach (by simpa using hid)
      rwa [← hsplit] at hdetach

/-! ## What operations take and move -/

/-- Whether this is the block of the base at the index. -/
def Held.isAt (block : Held) (index : Int) : Bool :=
  match block.origin with
  | .base place => (place : Int) == index
  | .supplied _ _ => false

/-- Whether an operation replaces or deletes the block. -/
def Operation.removes (operation : Operation) (block : Held) : Bool :=
  match operation with
  | .replace index _ | .delete index => block.isAt index
  | .replaceRoot _ => true
  | .insert _ _ | .insertRoot _ | .move _ _ | .detachQuestion _ => false

/-- Whether an operation detaches questionnaires with the id of the block. -/
def Operation.detaches (operation : Operation) (block : Held) : Bool :=
  match operation with
  | .detachQuestion id => block.node.questionnaire == some id
  | _ => false

/-- Whether a replacement, a deletion or a detachment is about the block. -/
def Operation.targets (operation : Operation) (block : Held) : Bool :=
  operation.removes block || operation.detaches block

def Operation.moves (operation : Operation) (block : Held) : Bool :=
  match operation with
  | .move index _ => block.isAt index
  | _ => false

/-- Whether the operations leave the block where it is. -/
def stays (operations : List Operation) (block : Held) : Bool :=
  operations.all fun operation ↦ !operation.targets block && !operation.moves block

/-- What operations do with the blocks: the ones that are gone, the ones set loose with their ids, and the
ones added. -/
structure Effect (base : List Held) (operations : List Operation) (children after gone loosed added : List Held)
    (detached : List String) : Prop where
  exchange : List.Exchange (gone ++ loosed) added children after
  mem : ∀ block ∈ gone ++ loosed, block ∈ children
  owned : (∀ operation ∈ operations, operation.replacesRoot = false) → ∀ block ∈ gone ++ loosed, block ∈ base
  removed : ∀ block ∈ gone, ∃ operation ∈ operations, operation.removes block = true
  complete : ∀ block ∈ base, (∃ operation ∈ operations, operation.removes block = true) → block ∈ gone
  detaches : ∀ block ∈ loosed, ∃ operation ∈ operations, operation.detaches block = true
  ids : loosed.map (·.node.questionnaire) = detached.map some
  order : (children.filter (stays operations)).Sublist after

theorem isAt_base {index : Nat} (h : block.origin = .base index) : block.isAt index = true := by
  rw [Held.isAt, h]
  exact beq_self_eq_true _

/-- The block of the base at an index is one object. -/
theorem isAt_unique {index : Nat} (hblock : block ∈ held nodes)
    (htarget : target ∈ held nodes) (horigin : target.origin = .base index) (h : block.isAt index = true) :
    block = target := by
  refine List.inj_on_of_nodup_map (nodup_held nodes) hblock htarget ?_
  rw [Held.isAt] at h
  split at h
  · rename_i place hplace
    rw [hplace, horigin, Int.ofNat.inj (eq_of_beq h)]
  · cases h

variable {gone : List Held}

/-- An operation that removes nothing. -/
theorem none_removed (h : ∀ block, operation.removes block = false)
    (hremoved : ∃ other ∈ [operation], other.removes block = true) : block ∈ gone := by
  obtain ⟨other, hother, hremoves⟩ := hremoved
  rw [List.mem_singleton.1 hother, h block] at hremoves
  cases hremoves

theorem filter_sublist_of {stay : Held → Bool} (hblock : stay block = false) (h : (front ++ back).Sublist after) :
    ((front ++ block :: back).filter stay).Sublist after := by
  rw [List.filter_append, List.filter_cons_of_neg (by simp [hblock]), ← List.filter_append]
  exact List.filter_sublist.trans h

theorem not_stays (h : operation.targets block = true ∨ operation.moves block = true) :
    stays [operation] block = false := by
  rw [stays, List.all_cons, List.all_nil, Bool.and_true]
  rcases h with h | h <;> simp [h]

/-- **What an operation does**, said in one way for all of them. -/
theorem Steps.effect
    (h : Steps (held nodes) operation children added after detached) (hsound : Sound (held nodes) position children)
    (hroot : operation.replacesRoot = true → ∀ block ∈ held nodes, block ∈ children) :
    ∃ gone loosed, Effect (held nodes) [operation] children after gone loosed added detached := by
  have honly : ∀ {block : Held}, (∃ other ∈ [operation], other.removes block = true) →
      operation.removes block = true := fun ⟨other, hother, hremoves⟩ ↦ List.mem_singleton.1 hother ▸ hremoves
  cases h with
  | @replaceRoot source _ _ clear =>
    have hgone : ∀ block, stays [.replaceRoot source] block = false := fun _ ↦ not_stays (.inl rfl)
    refine ⟨children, [], ⟨⟨by rw [List.append_nil]⟩, by simp, fun hnone ↦ ?_,
      fun block _ ↦ ⟨_, List.mem_singleton_self _, rfl⟩, fun block hblock _ ↦ hroot rfl block hblock, by simp, rfl,
      ?_⟩⟩
    · cases hnone _ (List.mem_singleton_self _)
    · rw [List.filter_eq_nil_iff.2 fun block _ ↦ Bool.eq_false_iff.1 (hgone block)]
      exact List.nil_sublist _
  | insertRoot =>
    exact ⟨[], [], ⟨⟨List.Perm.refl _⟩, by simp, by simp, by simp, fun _ _ ↦ none_removed fun _ ↦ rfl, by simp, rfl,
      List.filter_sublist.trans (List.sublist_append_left _ _)⟩⟩
  | @insert index source front back added target mem origin =>
    have hsplit : front ++ target :: back = front ++ [target] ++ back := by simp
    refine ⟨[], [], ⟨?_, by simp, by simp, by simp, fun _ _ ↦ none_removed fun _ ↦ rfl, by simp, rfl, ?_⟩⟩
    · rw [hsplit]
      exact List.Exchange.insert _ _ _
    · rw [hsplit]
      exact List.filter_sublist.trans ((List.sublist_append_left _ _).append (List.Sublist.refl _))
  | @replace index source front back added target mem origin decision research =>
    have htakes : (Operation.replace index source).removes target = true := isAt_base origin
    refine ⟨[target], [], ⟨List.Exchange.replace _ _ _ _, by simp, fun _ block hblock ↦ ?_,
      fun block hblock ↦ ⟨_, List.mem_singleton_self _, ?_⟩, fun block hblock hremoved ↦ List.mem_singleton.2
        (isAt_unique hblock mem origin (honly hremoved)), by simp, rfl, ?_⟩⟩
    · rw [List.append_nil, List.mem_singleton] at hblock
      rwa [hblock]
    · rwa [List.mem_singleton.1 hblock]
    · refine filter_sublist_of (not_stays (.inl ?_)) ((List.sublist_append_left _ _).append (List.Sublist.refl _))
      rw [Operation.targets, htakes, Bool.true_or]
  | @delete index front back target mem origin decision research =>
    have htakes : (Operation.delete index).removes target = true := isAt_base origin
    refine ⟨[target], [], ⟨List.Exchange.erase _ _ _, by simp, fun _ block hblock ↦ ?_,
      fun block hblock ↦ ⟨_, List.mem_singleton_self _, ?_⟩, fun block hblock hremoved ↦ List.mem_singleton.2
        (isAt_unique hblock mem origin (honly hremoved)), by simp, rfl, ?_⟩⟩
    · rw [List.append_nil, List.mem_singleton] at hblock
      rwa [hblock]
    · rwa [List.mem_singleton.1 hblock]
    · refine filter_sublist_of (not_stays (.inl ?_)) (List.Sublist.refl _)
      rw [Operation.targets, htakes, Bool.true_or]
  | stay =>
    exact ⟨[], [], ⟨List.Exchange.refl _, by simp, by simp, by simp, fun _ _ ↦ none_removed fun _ ↦ rfl, by simp, rfl,
      List.filter_sublist⟩⟩
  | @move index «to» front back front' back' target mem origin research rest =>
    refine ⟨[], [], ⟨List.Exchange.of_perm ?_, by simp, by simp, by simp, fun _ _ ↦ none_removed fun _ ↦ rfl, by simp,
      rfl, ?_⟩⟩
    · calc front' ++ target :: back'
        _ ~ target :: (front' ++ back') := List.perm_middle
        _ = target :: (front ++ back) := by rw [rest]
        _ ~ front ++ target :: back := List.perm_middle.symm
    · refine filter_sublist_of (not_stays (.inr (isAt_base origin))) ?_
      rw [rest]
      exact (List.Sublist.refl _).append (List.sublist_cons_self _ _)
  | @detach id front back block questionnaire =>
    have htakes : (Operation.detachQuestion id).detaches block = true := by simp [Operation.detaches, questionnaire]
    refine ⟨[], [block], ⟨List.Exchange.erase _ _ _, by simp, fun _ other hother ↦ ?_, by simp,
      fun _ _ ↦ none_removed fun _ ↦ rfl, fun other hother ↦ ⟨_, List.mem_singleton_self _, ?_⟩,
      by simp [questionnaire], ?_⟩⟩
    · obtain rfl : other = block := by simpa using hother
      refine (hsound.own other (by simp)).resolve_right fun hsupplied ↦ ?_
      rw [hsupplied.2] at questionnaire
      cases questionnaire
    · rwa [List.mem_singleton.1 hother]
    · refine filter_sublist_of (not_stays (.inl ?_)) (List.Sublist.refl _)
      rw [Operation.targets, htakes, Bool.or_true]

/-! ## A batch -/

/-- The blocks that the operations from a position on supply. -/
inductive Supplied (dialect : Dialect) : Nat → List Operation → List Held → Prop
  | nil (position : Nat) : Supplied dialect position [] []
  | cons {position : Nat} {operation : Operation} {rest : List Operation} {nodes : List Node} {added : List Held}
      (first : Supplies dialect position operation nodes) (more : Supplied dialect (position + 1) rest added) :
      Supplied dialect position (operation :: rest) (supplied position nodes ++ added)

theorem Supplies.questionnaire
    (h : Supplies dialect position operation nodes) : ∀ node ∈ nodes, node.questionnaire = none := by
  rw [Supplies] at h
  split at h
  · simp [h]
  · exact fragment_questionnaire h

variable {operations : List Operation}

theorem Supplied.origin (h : Supplied dialect position operations added) : ∀ block ∈ added,
      ∃ operation ≥ position, ∃ index, block.origin = .supplied operation index := by
  induction h with
  | nil => simp
  | cons first more ih =>
    intro block hblock
    rcases List.mem_append.1 hblock with hblock | hblock
    · obtain ⟨index, -, horigin⟩ := mem_supplied.1 hblock
      exact ⟨_, le_rfl, index, horigin⟩
    · obtain ⟨operation, hle, index, horigin⟩ := ih block hblock
      exact ⟨operation, by omega, index, horigin⟩

theorem Supplied.nodup (h : Supplied dialect position operations added) : (added.map (·.origin)).Nodup := by
  induction h with
  | nil => exact List.nodup_nil
  | cons first more ih =>
    rw [List.map_append, List.nodup_append']
    refine ⟨nodup_supplied _ _, ih, fun origin hfirst hmore ↦ ?_⟩
    obtain ⟨block, hblock, rfl⟩ := List.mem_map.1 hfirst
    obtain ⟨other, hother, hsame⟩ := List.mem_map.1 hmore
    obtain ⟨index, -, horigin⟩ := mem_supplied.1 hblock
    obtain ⟨operation, hle, place, hplace⟩ := more.origin other hother
    rw [hplace, horigin] at hsame
    have hposition := (Origin.supplied.inj hsame).1
    omega

/-- What is supplied from here on is no object there is. -/
theorem Sound.nodup
    (h : Sound (held nodes) position children) (hsupplied : Supplied dialect position operations added) :
    ((children ++ added).map (·.origin)).Nodup := by
  rw [List.map_append, List.nodup_append']
  refine ⟨h.origins, hsupplied.nodup, fun origin hchild hadded ↦ ?_⟩
  obtain ⟨block, hblock, rfl⟩ := List.mem_map.1 hchild
  obtain ⟨other, hother, hsame⟩ := List.mem_map.1 hadded
  obtain ⟨operation, hle, index, horigin⟩ := hsupplied.origin other hother
  rcases h.own block hblock with hbase | ⟨⟨earlier, hearlier, place, hplace⟩, -⟩
  · obtain ⟨place, -, hplace⟩ := mem_held.1 hbase
    rw [hplace, horigin] at hsame
    cases hsame
  · rw [hplace, horigin] at hsame
    have hposition := (Origin.supplied.inj hsame).1
    omega

variable {loosed : List Held}

/-- An operation leaves the blocks sound. -/
theorem Effect.sound {supply : List Node}
    (h : Effect (held nodes) [operation] children after gone loosed (supplied position supply) detached)
    (hsound : Sound (held nodes) position children) (hsupply : Supplies dialect position operation supply) :
    Sound (held nodes) (position + 1) after := by
  have hone : Supplied dialect position [operation] (supplied position supply ++ []) := .cons hsupply (.nil _)
  rw [List.append_nil] at hone
  have hnodup := h.exchange.nodup (hsound.nodup hone)
  rw [List.map_append] at hnodup
  refine ⟨hnodup.of_append_right, fun block hblock ↦ ?_⟩
  rcases h.exchange.mem.1 (.inr hblock) with hchild | hadded
  · rcases hsound.own block hchild with hbase | ⟨⟨earlier, hearlier, place, hplace⟩, hplain⟩
    · exact .inl hbase
    · exact .inr ⟨⟨earlier, by omega, place, hplace⟩, hplain⟩
  · obtain ⟨index, hnode, horigin⟩ := mem_supplied.1 hadded
    exact .inr ⟨⟨position, by omega, index, horigin⟩, hsupply.questionnaire _ (List.mem_of_getElem? hnode)⟩

theorem Effect.nil (base children : List Held) : Effect base [] children children [] [] [] [] :=
  ⟨List.Exchange.refl _, by simp, by simp, by simp, by simp, by simp, rfl, List.filter_sublist⟩

/-- An operation, and then the others. -/
theorem Effect.cons {rest : List Operation} {between gone' loosed' added' : List Held} {detached' : List String}
    (first : Effect base [operation] children between gone loosed added detached)
    (second : Effect base rest between after gone' loosed' added' detached')
    (hroot : ∀ operation ∈ rest, operation.replacesRoot = false) (hadded : ∀ block ∈ added, block ∉ base) :
    Effect base (operation :: rest) children after (gone ++ gone') (loosed ++ loosed') (added ++ added')
      (detached ++ detached') := by
  have htaken : (gone ++ loosed ++ (gone' ++ loosed')).Perm (gone ++ gone' ++ (loosed ++ loosed')) := by
    rw [List.append_assoc, List.append_assoc]
    exact (List.perm_append_comm_assoc loosed gone' loosed').append_left _
  have hmem : ∀ {block : Held}, block ∈ gone ++ gone' ++ (loosed ++ loosed') ↔
      block ∈ gone ++ loosed ∨ block ∈ gone' ++ loosed' := by
    intro block
    rw [← htaken.mem_iff, List.mem_append]
  refine ⟨⟨?_⟩, fun block hblock ↦ ?_, fun hnone block hblock ↦ ?_, fun block hblock ↦ ?_,
    fun block hblock hremoved ↦ ?_, fun block hblock ↦ ?_, ?_, ?_⟩
  · exact (htaken.symm.append_right _).trans (first.exchange.trans second.exchange).perm
  · rcases hmem.1 hblock with hfirst | hsecond
    · exact first.mem block hfirst
    · have hbetween := first.exchange.mem.1 (.inr (second.mem block hsecond))
      exact hbetween.resolve_right fun hnew ↦ hadded block hnew (second.owned hroot block hsecond)
  · rcases hmem.1 hblock with hfirst | hsecond
    · exact first.owned (fun other hother ↦ hnone other (by simp [List.mem_singleton.1 hother])) block hfirst
    · exact second.owned hroot block hsecond
  · rcases List.mem_append.1 hblock with hblock | hblock
    · obtain ⟨other, hother, hremoves⟩ := first.removed block hblock
      exact ⟨other, by simp [List.mem_singleton.1 hother], hremoves⟩
    · obtain ⟨other, hother, hremoves⟩ := second.removed block hblock
      exact ⟨other, List.mem_cons_of_mem _ hother, hremoves⟩
  · obtain ⟨other, hother, hremoves⟩ := hremoved
    rcases List.mem_cons.1 hother with rfl | hother
    · exact List.mem_append_left _ (first.complete block hblock ⟨other, List.mem_singleton_self _, hremoves⟩)
    · exact List.mem_append_right _ (second.complete block hblock ⟨other, hother, hremoves⟩)
  · rcases List.mem_append.1 hblock with hblock | hblock
    · obtain ⟨other, hother, hdetaches⟩ := first.detaches block hblock
      exact ⟨other, by simp [List.mem_singleton.1 hother], hdetaches⟩
    · obtain ⟨other, hother, hdetaches⟩ := second.detaches block hblock
      exact ⟨other, List.mem_cons_of_mem _ hother, hdetaches⟩
  · rw [List.map_append, List.map_append, first.ids, second.ids]
  · have hsplit : children.filter (stays (operation :: rest)) =
        (children.filter (stays [operation])).filter (stays rest) := by
      rw [List.filter_filter]
      refine List.filter_congr fun block _ ↦ ?_
      simp only [stays, List.all_cons, List.all_nil, Bool.and_true]
      exact Bool.and_comm _ _
    rw [hsplit]
    exact (first.order.filter _).trans second.order

/-- **The operations in order** do together what each does. -/
theorem applyAll_effect (operations : List Operation) :
    ∀ {position : Nat} {children after : List Held} {detach detached : List String},
      Sound (held nodes) position children →
      applyAll dialect (held nodes) position operations (children, detach) = .ok (after, detached) →
      (∀ operation ∈ operations.tail, operation.replacesRoot = false) →
      ((∃ operation ∈ operations, operation.replacesRoot = true) → ∀ block ∈ held nodes, block ∈ children) →
      ∃ gone loosed added more, Supplied dialect position operations added ∧ detached = detach ++ more ∧
        Effect (held nodes) operations children after gone loosed added more := by
  induction operations with
  | nil =>
    intro position children after detach detached _ h _ _
    obtain ⟨rfl, rfl⟩ := Prod.mk.inj (Except.ok.inj h)
    exact ⟨[], [], [], [], .nil _, (List.append_nil _).symm, Effect.nil _ _⟩
  | cons operation rest ih =>
    intro position children after detach detached hsound h hroot hwhole
    rw [applyAll] at h
    split at h
    · cases h
    rename_i between freed hstep
    obtain ⟨supply, hsupply, hsteps⟩ := steps_of_step hsound hstep
    obtain ⟨gone, loosed, hfirst⟩ :=
      hsteps.effect hsound fun hreplaces ↦ hwhole ⟨operation, List.mem_cons_self, hreplaces⟩
    obtain ⟨gone', loosed', added, more, hsupplied, rfl, hsecond⟩ :=
      ih (hfirst.sound hsound hsupply) h (fun other hother ↦ hroot other (List.mem_of_mem_tail hother))
        fun ⟨other, hother, hreplaces⟩ ↦ by rw [hroot other hother] at hreplaces; cases hreplaces
    refine ⟨_, _, _, freed ++ more, .cons hsupply hsupplied, List.append_assoc _ _ _,
      hfirst.cons hsecond hroot fun block hblock hbase ↦ ?_⟩
    obtain ⟨index, -, horigin⟩ := mem_supplied.1 hblock
    obtain ⟨place, -, hplace⟩ := mem_held.1 hbase
    rw [horigin] at hplace
    cases hplace

theorem require_ok {condition : Bool} {message : String} (h : require condition message = .ok ()) :
    condition = true := by
  rw [require] at h
  split at h
  · assumption
  · cases h

/-- A root is replaced by a batch of its own. -/
theorem checkBatch_tail (h : checkBatch operations = .ok ()) :
    ∀ operation ∈ operations.tail, operation.replacesRoot = false := by
  obtain ⟨_, -, h⟩ := Except.bind_eq_ok.1 h
  obtain ⟨_, hroot, -⟩ := Except.bind_eq_ok.1 h
  have hroot := require_ok hroot
  intro operation hmem
  rw [decide_eq_true_eq, not_and] at hroot
  have hlength : 1 < operations.length := by
    have hpos := List.length_pos_of_mem hmem
    rw [List.length_tail] at hpos
    omega
  exact Bool.eq_false_iff.2 fun htrue ↦
    hroot hlength (List.any_eq_true.2 ⟨operation, List.mem_of_mem_tail hmem, htrue⟩)

variable {prepared : Prepared}

/-- What an accepted batch has passed. -/
theorem prepare_ok {plan : Plan} {revision : Int} (h : prepare dialect plan revision operations = .ok prepared) :
    revision = plan.revision ∧ checkBatch operations = .ok () ∧ ∃ root, dialect.parse plan.source = .ok root ∧
      prepared.root = held root ∧
      applyAll dialect (held root) 0 operations (held root, []) = .ok (prepared.children, prepared.detached) ∧
      checkResult dialect root (prepared.children.map (·.node)) = .ok prepared.source := by
  rw [prepare] at h
  split at h
  · split at h <;> cases h
  rename_i hrevision
  obtain ⟨_, hbatch, h⟩ := Except.bind_eq_ok.1 h
  obtain ⟨root, hroot, h⟩ := Except.bind_eq_ok.1 h
  obtain ⟨⟨children, detached⟩, happly, h⟩ := Except.bind_eq_ok.1 h
  obtain ⟨source, hsource, h⟩ := Except.bind_eq_ok.1 h
  cases h
  exact ⟨not_not.1 hrevision, Except.mapError_eq_ok.1 hbatch, root, Except.mapError_eq_ok.1 hroot, rfl, happly,
    Except.mapError_eq_ok.1 hsource⟩

/-- What an accepted batch does with the blocks. -/
theorem prepare_effect {plan : Plan} {revision : Int} (h : prepare dialect plan revision operations = .ok prepared) :
    ∃ root gone loosed added, dialect.parse plan.source = .ok root ∧ prepared.root = held root ∧
      Supplied dialect 0 operations added ∧
        Effect (held root) operations (held root) prepared.children gone loosed added prepared.detached := by
  obtain ⟨-, hbatch, root, hparse, hroot, happly, -⟩ := prepare_ok h
  obtain ⟨gone, loosed, added, more, hsupplied, hmore, heffect⟩ :=
    applyAll_effect operations (Sound.start root) happly (checkBatch_tail hbatch) fun _ _ hblock ↦ hblock
  rw [List.nil_append] at hmore
  rw [hmore]
  exact ⟨root, gone, loosed, added, hparse, hroot, hsupplied, heffect⟩

/-- The blocks of each operation's source are among those supplied. -/
theorem Supplied.mem (h : Supplied dialect position operations added) : ∀ {index : Nat} {operation : Operation},
      operations[index]? = some operation → ∃ nodes, Supplies dialect (position + index) operation nodes ∧
        ∀ block ∈ supplied (position + index) nodes, block ∈ added := by
  induction h with
  | nil => intro index operation hoperation; cases hoperation
  | @cons position first rest nodes added hfirst _ ih =>
    intro index operation hoperation
    cases index with
    | zero =>
      obtain rfl : first = operation := Option.some.inj hoperation
      exact ⟨nodes, hfirst, fun block hblock ↦ List.mem_append_left _ hblock⟩
    | succ index =>
      rw [List.getElem?_cons_succ] at hoperation
      obtain ⟨nodes, hnodes, hmem⟩ := ih hoperation
      rw [Nat.succ_add_eq_add_succ] at hnodes hmem
      exact ⟨nodes, hnodes, fun block hblock ↦ List.mem_append_right _ (hmem block hblock)⟩

/-- What a batch leaves of the blocks that were there and of those it supplies. -/
structure Conserved (dialect : Dialect) (operations : List Operation) (prepared : Prepared) : Prop where
  /-- A block that nothing replaces, deletes or detaches is in the result once, as it was. -/
  kept : ∀ block ∈ prepared.root, (∀ operation ∈ operations, operation.targets block = false) →
    prepared.children.filter (·.origin == block.origin) = [block]
  /-- Those that are not moved either are in their order. -/
  order : (prepared.root.filter (stays operations)).Sublist prepared.children
  /-- Each block of each source is in the result once. -/
  supplied : ∀ (position : Nat) (operation : Operation) (source : String), operations[position]? = some operation →
    operation.source = some source → ∃ nodes, fragment dialect (dialect.ulid position) source = .ok nodes ∧
      ∀ block ∈ supplied position nodes, prepared.children.filter (·.origin == block.origin) = [block]
  /-- The source of the result is that of these blocks. -/
  written : dialect.serialize (prepared.children.map (·.node)) = .ok prepared.source

theorem checkResult_ok {root children : List Node}
    (h : checkResult dialect root children = .ok source) : dialect.serialize children = .ok source := by
  obtain ⟨_, -, h⟩ := Except.bind_eq_ok.1 h
  obtain ⟨_, -, h⟩ := Except.bind_eq_ok.1 h
  obtain ⟨_, -, h⟩ := Except.bind_eq_ok.1 h
  obtain ⟨_, -, h⟩ := Except.bind_eq_ok.1 h
  obtain ⟨next, hnext, h⟩ := Except.bind_eq_ok.1 h
  obtain ⟨_, -, h⟩ := Except.bind_eq_ok.1 h
  obtain ⟨_, -, h⟩ := Except.bind_eq_ok.1 h
  obtain ⟨_, -, h⟩ := Except.bind_eq_ok.1 h
  obtain ⟨_, -, h⟩ := Except.bind_eq_ok.1 h
  obtain ⟨_, -, h⟩ := Except.bind_eq_ok.1 h
  rw [hnext, Except.ok.inj h]

/-- **A batch of edits neither loses nor duplicates** a block that it does not target. -/
theorem prepare_conserves {dialect : Dialect} {plan : Plan} {revision : Int} {operations : List Operation}
    {prepared : Prepared} (h : prepare dialect plan revision operations = .ok prepared) :
    Conserved dialect operations prepared := by
  obtain ⟨-, -, read, -, -, -, hresult⟩ := prepare_ok h
  obtain ⟨root, gone, loosed, added, -, hroot, hsupplied, heffect⟩ := prepare_effect h
  have hnodup := (Sound.start root).nodup hsupplied
  refine ⟨fun block hblock hfree ↦ ?_, ?_, fun position operation source hoperation hsource ↦ ?_,
    checkResult_ok hresult⟩
  · rw [hroot] at hblock
    refine heffect.exchange.once hnodup (.inl hblock) fun htaken ↦ ?_
    rcases List.mem_append.1 htaken with hgone | hloosed
    · obtain ⟨operation, hmem, hremoves⟩ := heffect.removed block hgone
      have hnone := hfree operation hmem
      rw [Operation.targets, hremoves, Bool.true_or] at hnone
      cases hnone
    · obtain ⟨operation, hmem, hdetaches⟩ := heffect.detaches block hloosed
      have hnone := hfree operation hmem
      rw [Operation.targets, hdetaches, Bool.or_true] at hnone
      cases hnone
  · rw [hroot]
    exact heffect.order
  · obtain ⟨nodes, hnodes, hmem⟩ := hsupplied.mem hoperation
    rw [Nat.zero_add] at hnodes hmem
    rw [Supplies, hsource] at hnodes
    refine ⟨nodes, hnodes, fun block hblock ↦ heffect.exchange.once hnodup (.inr (hmem block hblock)) fun htaken ↦ ?_⟩
    obtain ⟨index, -, horigin⟩ := mem_supplied.1 hblock
    obtain ⟨place, -, hplace⟩ := mem_held.1 (heffect.mem block htaken)
    rw [horigin] at hplace
    cases hplace

/-! ## A dialect to run -/

def paragraph (text : String) : Node :=
  .mk (.markdown "paragraph") none [] none none [.mk (.markdown "text") none [] none (some text) []]

/-- A component without attributes but its id, and without content. -/
def card (name id : String) : Node := .mk .flow (some name) [.named "id" (some id)] none none []

/-- One block to a line: a card where the line names one, and else a paragraph without any markup. -/
def simple (cards : List (String × Node)) : Dialect where
  parse source := .ok <| ((source.toList.splitOn '\n').filter (· ≠ [])).map fun line ↦
    ((cards.find? (·.1.toList == line)).map Prod.snd).getD (paragraph (String.ofList line))
  serialize nodes := .ok <| "\n\n".intercalate (nodes.map fun node ↦
    ((cards.find? fun card ↦ card.2.kind = node.kind ∧ card.2.claimed = node.claimed).map Prod.fst).getD node.content)
    ++ "\n"
  assert _ _ := .ok ()
  validTitle _ _ := true
  assertIntroducedUrls _ _ := .ok ()
  validate _ := .ok ()
  fence _ := none
  ulid _ _ := ""
  sha256 source := source

theorem conserved_sample : ∃ prepared,
    prepare (simple []) ⟨1, "One.\n\nTwo.\n", []⟩ 1 [.move 0 1, .insert 1 "Three.\n"] = .ok prepared ∧
      Conserved (simple []) [.move 0 1, .insert 1 "Three.\n"] prepared := by
  obtain ⟨prepared, hprepared⟩ : ∃ prepared,
      (prepare (simple []) ⟨1, "One.\n\nTwo.\n", []⟩ 1 [.move 0 1, .insert 1 "Three.\n"]).toOption = some prepared :=
    Option.isSome_iff_exists.1 (by decide +kernel)
  exact ⟨prepared, Except.toOption_eq_some.1 hprepared, prepare_conserves (Except.toOption_eq_some.1 hprepared)⟩

end Chopin.Editing
