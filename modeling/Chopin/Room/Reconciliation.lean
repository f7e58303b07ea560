import Chopin.Lib.Entries
import Chopin.Editing.Blocks
import Chopin.Room.Document

/-!
# Reconciling an edit into the live document

An edit works on the blocks that it read, and leaves a sequence of these and of new ones.  `reconcile` makes the
live document follow it: a block that was read stands for the node that is there, which moves as it is, and only
what is new is built.  The empty paragraphs between the blocks are none of the edit's business, and stay before
the block that they stood before, or the next that is still there.

How a block becomes a node is not the room's to say: `Create` is whatever the import does.
-/

set_option autoImplicit false

open Chopin.Editing

namespace Chopin.Room

/-- A block as an object; a heading has a depth. -/
structure RootContent where
  object : Nat
  node : Node
  depth : Option Nat

/-- Whether it is a heading of the first level. -/
def RootContent.isTitle (block : RootContent) : Bool := block.node.kind = .markdown "heading" && block.depth = some 1

/-- `$createPlanNodes`: the nodes of new blocks, from the next key on, and the key after them. -/
abbrev Create := Nat → List RootContent → List LexicalNode × Nat

/-- `nodes.set(block, node)`, for one after another. -/
def assign (nodes : List (Nat × LexicalNode)) (pairs : List (RootContent × LexicalNode)) : List (Nat × LexicalNode) :=
  pairs.foldl (fun nodes (block, node) ↦ Entries.set nodes block.object node) nodes

/-- The empty paragraphs before each block, and those after the last. -/
def groups (all : List LexicalNode) : List (Nat × List LexicalNode) × List LexicalNode :=
  all.foldl (fun (groups, pending) node ↦
    if node.caret then (groups, pending ++ [node]) else (Entries.set groups node.key pending, [])) ([], [])

/-- For each block the first from there on that survives. -/
def nextSurvivor (surviving : LexicalNode → Bool) : List LexicalNode → List (Option LexicalNode)
  | [] => []
  | node :: rest =>
    let later := nextSurvivor surviving rest
    (if surviving node then some node else later.head?.join) :: later

/-- Where the empty paragraphs go. -/
structure Placement where
  leading : List LexicalNode
  caretBefore : List (Nat × List LexicalNode)
  displaced : List LexicalNode

/-- Those before one block: the document starts with them, or they go to the block that survives. -/
def Placement.place (groups : List (Nat × List LexicalNode)) (placement : Placement)
    (entry : (LexicalNode × Option LexicalNode) × Nat) : Placement :=
  let ((node, recipient), index) := entry
  let carets := (groups.lookup node.key).getD []
  if carets.isEmpty then placement
  else if index = 0 then { placement with leading := placement.leading ++ carets }
  else
    match recipient with
    | some recipient =>
      { placement with
        caretBefore := Entries.set placement.caretBefore recipient.key
          ((placement.caretBefore.lookup recipient.key).getD [] ++ carets) }
    | none => { placement with displaced := placement.displaced ++ carets }

/-- What the root is set to: the nodes in their order, and the empty paragraphs of the root among them. -/
def rearrange (all ordered : List LexicalNode) : List LexicalNode :=
  let live := all.filter (!·.caret)
  let surviving (node : LexicalNode) : Bool := ordered.any (·.key == node.key)
  let (groups, pending) := groups all
  let placement := (live.zip (nextSurvivor surviving live)).zipIdx.foldl (Placement.place groups) ⟨[], [], []⟩
  placement.leading
    ++ ordered.flatMap (fun node ↦ (placement.caretBefore.lookup node.key).getD [] ++ [node])
    ++ placement.displaced ++ pending

/-- `ordered[0]` has the title when the edit wrote it as a heading of the first level. -/
def titleKeyOf (target : Document) (before after : List RootContent) (ordered : List LexicalNode) : Option Nat :=
  if target.titleKey.isSome && after.head?.any fun first ↦ first.isTitle && !before.any (·.object == first.object) then
    ordered.head?.map (·.key)
  else target.titleKey

def nodeOf (nodes : List (Nat × LexicalNode)) (block : RootContent) : Except String LexicalNode :=
  match nodes.lookup block.object with
  | some found => .ok found
  | none => .error "a plan block has no live node"

/-- The node that each block stands for, with the key that is next when the new ones are built. -/
def orderedNodes (create : Create) (target : Document) (before after : List RootContent) :
    Except String (List LexicalNode × Nat) := do
  let live := target.addressable
  if live.length ≠ before.length then throw "the plan changed while the edit was being applied"
  let nodes := assign [] (before.zip live)
  let fresh := after.filter fun block ↦ (nodes.lookup block.object).isNone
  let (created, nextKey) := create target.nextKey fresh
  if created.length ≠ fresh.length then throw "a plan block did not import to exactly one node"
  let nodes := assign nodes (fresh.zip created)
  let ordered ← after.mapM (nodeOf nodes)
  pure (ordered, nextKey)

/-- Reconcile a validated sequence of top-level blocks into the live document. -/
def reconcile (create : Create) (target : Document) (before after : List RootContent) :
    Except String (Document × Bool) :=
  mutate target fun target ↦ do
    let (ordered, nextKey) ← orderedNodes create target before after
    pure ({ target with
      titleKey := titleKeyOf target before after ordered
      root := rearrange target.root ordered
      nextKey }, true)

end Chopin.Room
