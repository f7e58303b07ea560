import Chopin.Editing.Edits
import Chopin.Lib.Entries

/-!
# What a batch did

After a batch of operations its reader is sent to what changed.  What was written comes from the identity of
the blocks; what moved or went comes from the operations, since identity cannot tell those apart.  A block
that has gone cannot be addressed, so the space it left is named by a block beside it.
-/

set_option autoImplicit false

open Script

namespace Chopin.Editing

/-- Enough of a block to recognise it in a list: its type and a preview. -/
abbrev Excerpt := String × Units

inductive Side where
  | before
  | after
  deriving DecidableEq

/-- Where a gap sits, in post-edit indices. -/
structure Spot where
  index : Nat
  side : Side
  deriving DecidableEq

inductive Change where
  | added (index : Nat) (excerpt : Excerpt)
  | moved (index : Nat) («from» : Spot) (excerpt : Excerpt)
  | removed (gap : Spot) (blocks : List Excerpt)
  deriving DecidableEq

/-- `at` -/
def Change.place : Change → Nat
  | added index _ | moved index _ _ => index
  | removed gap _ => gap.index

/-- Whether this very block is among these. -/
def has (blocks : List Held) (block : Held) : Bool := blocks.any (·.origin == block.origin)

/-- `new Map(after.map((node, index) => [node, index]))` -/
def places (after : List Held) : List (Held × Nat) :=
  after.zipIdx.foldl (Entries.put fun entry : Held × Nat ↦ entry.1.origin) []

/-- `place.get(node)` -/
def placeOf (place : List (Held × Nat)) (block : Held) : Option Nat :=
  (place.find? (·.1.origin == block.origin)).map Prod.snd

/-- The gap a departed block left, named by a block still beside it: forward first, and then back. -/
def gapAt (base : List Held) (place : List (Held × Nat)) (vacating : List Held) (index : Nat) : Option Spot :=
  let beside (blocks : List Held) : Option Nat :=
    blocks.findSome? fun node ↦ if has vacating node then none else placeOf place node
  ((beside (base.drop (index + 1))).map (⟨·, .before⟩)).or
    ((beside (base.take index).reverse).map (⟨·, .after⟩))

/-- A block that left its place in the base. -/
structure Departed where
  node : Held
  index : Nat
  moved : Bool

/-- `base[index]`, unless there is none. -/
def blockAt (base : List Held) (index : Int) (moved : Bool) : Option Departed :=
  match index with
  | .ofNat place => (base[place]?).map (⟨·, place, moved⟩)
  | .negSucc _ => none

/-- What an operation took from its place. -/
def departed (base : List Held) : Operation → Option Departed
  | .delete index => blockAt base index false
  | .detachQuestion id =>
    (base.findIdx? (·.node.questionnaire == some id)).bind fun index ↦ blockAt base index false
  -- `step` treats this as a no-op, so neither end is worth marking
  | .move index «to» => if «to» = index then none else blockAt base index true
  | .insert _ _ | .insertRoot _ | .replace _ _ | .replaceRoot _ => none

/-- One departed block: a change of its own if it moved, and else a part of the hole that it left. -/
def record (base : List Held) (place : List (Held × Nat)) (vacating : List Held)
    (found : List Change × List (Spot × List Excerpt)) (item : Departed) : List Change × List (Spot × List Excerpt) :=
  match gapAt base place vacating item.index with
  | none => found
  | some gap =>
    if item.moved then
      match placeOf place item.node with
      | none => found
      | some index => (found.1 ++ [.moved index gap (excerpt item.node.node)], found.2)
    else
      (found.1, Entries.set found.2 gap ((found.2.lookup gap).getD [] ++ [excerpt item.node.node]))

/-- What a batch did, as places a reader can be sent. -/
def describeChanges (base after : List Held) (operations : List Operation) : List Change :=
  -- a document marked from end to end says nothing at all
  if operations.any Operation.replacesRoot then []
  else
    let place := places after
    let left := operations.filterMap (departed base)
    let vacating := left.map (·.node)
    let added := place.filterMap fun (node, index) ↦
      if has base node then none else some (.added index (excerpt node.node))
    let (moved, holes) := left.foldl (record base place vacating) ([], [])
    (added ++ moved ++ holes.map fun (gap, blocks) ↦ Change.removed gap blocks).mergeSort fun a b ↦ a.place ≤ b.place

end Chopin.Editing
