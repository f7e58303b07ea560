import Chopin.Lib.Except
import Chopin.Editing.Blocks

/-!
# Agent edits to the plan, addressed by block

A batch of operations is resolved against the blocks as they were read: `step` applies one of them, and
`prepare` all, with the checks around them.  Nothing is written here, so a batch that is refused leaves
the plan as it was.

In the source a block is an object, and a block of the base is found again by its identity however the
others have moved.  `Held` is such an object: the node, and where it came from.
-/

set_option autoImplicit false

open Script

namespace Chopin.Editing

export Script (Units)

/-- Enough leading text to tell two blocks apart without resending the source. -/
def PREVIEW : Nat := 120

structure Block where
  index : Nat
  type : String
  preview : Units
  /-- Content fingerprint. -/
  digest : String
  deriving DecidableEq

inductive Operation where
  | insert (index : Int) (source : String)
  | insertRoot (source : String)
  | replace (index : Int) (source : String)
  | replaceRoot (source : String)
  | move (index «to» : Int)
  | delete (index : Int)
  | detachQuestion (id : String)
  deriving DecidableEq

namespace Operation

/-- `"index" in operation` -/
def index : Operation → Option Int
  | insert index _ | replace index _ | move index _ | delete index => some index
  | insertRoot _ | replaceRoot _ | detachQuestion _ => none

def source : Operation → Option String
  | insert _ source | insertRoot source | replace _ source | replaceRoot source => some source
  | move _ _ | delete _ | detachQuestion _ => none

def replacesRoot : Operation → Bool
  | replaceRoot _ => true
  | _ => false

end Operation

/-! ## Blocks as objects -/

/-- Where a block came from: a place in the base, or one in the source of an operation. -/
inductive Origin where
  | base (index : Nat)
  | supplied (operation index : Nat)
  deriving DecidableEq

structure Held where
  origin : Origin
  node : Node

/-- The blocks of the base. -/
def held (nodes : List Node) : List Held := nodes.zipIdx.map fun (node, index) ↦ ⟨.base index, node⟩

/-- The blocks that the operation at this position supplies. -/
def supplied (position : Nat) (nodes : List Node) : List Held :=
  nodes.zipIdx.map fun (node, index) ↦ ⟨.supplied position index, node⟩

/-- `children.indexOf(target)` -/
def indexOf (children : List Held) (target : Held) : Option Nat :=
  children.findIdx? (·.origin == target.origin)

/-! ## Messages -/

def missing (index : Int) (children : List Held) : String :=
  s!"no block at index {index}; the plan has {children.length}."

def changed (index : Int) : String :=
  s!"block {index} is already changed by another operation in this batch."

def protects (index : Int) : String :=
  s!"block {index} is a decision the room accepted; it cannot be edited or removed."

def protectsResearch (index : Int) : String :=
  s!"block {index} is inline research or an investigation owned by its record; "
    ++ "it cannot be edited, moved, or removed."

/-! ## One operation -/

def addressed (base : List Held) (index : Int) : Except String Held :=
  match index with
  | .ofNat position => (base[position]?).elim (.error (missing index base)) .ok
  | .negSucc _ => .error (missing index base)

/-- Where a block of the base is now, unless another operation has taken it. -/
def placed (children : List Held) (target : Held) (index : Int) : Except String Nat :=
  (indexOf children target).elim (.error (changed index)) .ok

/-- Refuses to replace or delete a block that a record owns. -/
def unprotected (target : Held) (index : Int) : Except String Unit :=
  if target.node.decision then .error (protects index)
  else if target.node.research then .error (protectsResearch index)
  else .ok ()

/-- Refuses to move a block that a record places. -/
def movable (target : Held) (index : Int) : Except String Unit :=
  if target.node.research then .error (protectsResearch index) else .ok ()

/-- The blocks of an operation's source. -/
def supply (dialect : Dialect) (position : Nat) (source : String) : Except String (List Held) :=
  (fragment dialect (dialect.ulid position) source).map (supplied position)

/-- Apply one operation, or describe why it cannot be applied.  The second result is what it detaches. -/
def step (dialect : Dialect) (base children : List Held) (position : Nat) :
    Operation → Except String (List Held × List String)
  | .replaceRoot source =>
    match base.findIdx? (·.node.research) with
    | some protectedIndex => .error (protectsResearch protectedIndex)
    | none => do
      let parsed ← supply dialect position source
      pure (parsed, [])
  | .insertRoot source => do
    let parsed ← supply dialect position source
    pure (children ++ parsed, [])
  | .insert index source => do
    let target ← addressed base index
    let place ← placed children target index
    let parsed ← supply dialect position source
    pure (children.take (place + 1) ++ parsed ++ children.drop (place + 1), [])
  | .replace index source => do
    let target ← addressed base index
    unprotected target index
    let place ← placed children target index
    let parsed ← supply dialect position source
    pure (children.take place ++ parsed ++ children.drop (place + 1), [])
  | .delete index => do
    let target ← addressed base index
    unprotected target index
    let place ← placed children target index
    pure (children.eraseIdx place, [])
  | .move index «to» => do
    let target ← addressed base index
    movable target index
    let destination ← addressed base «to»
    let _ ← placed children target index
    let _ ← placed children destination «to»
    if target.origin = destination.origin then pure (children, [])
    else
      let rest := children.filter (·.origin != target.origin)
      let position := rest.findIdx (·.origin == destination.origin) + if index < «to» then 1 else 0
      pure (rest.take position ++ target :: rest.drop position, [])
  | .detachQuestion id =>
    match children.findIdx? (·.node.questionnaire == some id) with
    | none => .error s!"no questionnaire {id} in the plan."
    | some place => .ok (children.eraseIdx place, [id])

/-! ## A batch -/

structure Plan where
  revision : Int
  /-- `room.project(plan.document)` -/
  source : String
  /-- What was remembered of the blocks at earlier revisions. -/
  outlines : List (Int × List Block)

inductive Refusal where
  | stale (revision : Int) (changed : List Nat) (blocks : List Block)
  | invalid (message : String)
  | thrown (message : String)
  deriving DecidableEq

structure Prepared where
  source : String
  root : List Held
  children : List Held
  detached : List String

/-- Enough of a block to recognise it, without hashing it. -/
def excerpt (node : Node) : String × Units :=
  let text := utf16 node.content
  (if node.kind = .flow then (node.name.filter (· ≠ "")).getD "component" else node.kind.type,
    if PREVIEW < text.length then text.take PREVIEW ++ utf16 "…" else text)

def fingerprint (dialect : Dialect) (node : Node) : Except String String := do
  let source ← dialect.serialize [node]
  pure ("sha256:" ++ dialect.sha256 source)

def describe (dialect : Dialect) (node : Node) (index : Nat) : Except String Block := do
  let (type, preview) := excerpt node
  pure { index, type, preview, digest := ← fingerprint dialect node }

def describeBlocks (dialect : Dialect) (source : String) : Except String (List Block) := do
  let nodes ← dialect.parse source
  nodes.zipIdx.mapM fun (node, index) ↦ describe dialect node index

/-- Which blocks differ from the revision the agent last read. -/
def drift (plan : Plan) (revision : Int) (blocks : List Block) : List Nat :=
  match plan.outlines.lookup revision with
  | none => blocks.map (·.index)
  | some previous => (List.range (max previous.length blocks.length)).filter fun index ↦
      (previous[index]?).map (·.digest) != (blocks[index]?).map (·.digest)

/-- The first index that two operations name. -/
def targetedTwice : (targets : List Int) → List Operation → Option Int
  | _, [] => none
  | targets, operation :: rest =>
    match operation.index with
    | none => targetedTwice targets rest
    | some index => if index ∈ targets then some index else targetedTwice (targets ++ [index]) rest

/-- Apply the operations in order; the first that fails names its position. -/
def applyAll (dialect : Dialect) (base : List Held) : (position : Nat) → List Operation →
    List Held × List String → Except Refusal (List Held × List String)
  | _, [], state => .ok state
  | position, operation :: rest, (children, detach) =>
    match step dialect base children position operation with
    | .error outcome => .error (.invalid s!"Operation {position + 1}: {outcome}")
    | .ok (children, more) => applyAll dialect base (position + 1) rest (children, detach ++ more)

/-- Refuses with the message when the condition does not hold. -/
def require (condition : Bool) (message : String) : Except String Unit :=
  if condition then .ok () else .error message

/-- Refuses with the message when there is one. -/
def refuse (message : Option String) : Except String Unit := message.elim (.ok ()) .error

/-- What has to hold of a batch before any of it is applied. -/
def checkBatch (operations : List Operation) : Except String Unit := do
  require (operations ≠ []) "No operations."
  require (¬ (1 < operations.length ∧ operations.any Operation.replacesRoot))
    "replace_root must be the only operation in its batch."
  refuse ((targetedTwice [] operations).map fun index ↦
    s!"Block {index} is targeted more than once in one batch.")

/-- What has to hold of the result; its source is what `serialize` makes of it. -/
def checkResult (dialect : Dialect) (root children : List Node) : Except String String := do
  require (children ≠ []) "The planner cannot clear the plan."
  refuse ((repeated children).map fun duplicate ↦
    "`" ++ duplicate ++ "` appears twice; copied source keeps the original's id, "
      ++ "so insert new content rather than duplicating a block you read.")
  refuse (introducedFenceError dialect root children)
  require (dialect.validTitle root children)
    "Document title contains control characters or damaged Unicode text"
  let next ← dialect.serialize children
  let parsed ← dialect.parse next
  dialect.assert parsed (some next.utf8ByteSize)
  dialect.assertIntroducedUrls root parsed
  require (parsed.length = children.length) "plan blocks merge or split during Markdown normalisation"
  dialect.validate next
  pure next

/-- Prepare a batch of operations without changing the live document. -/
def prepare (dialect : Dialect) (plan : Plan) (revision : Int) (operations : List Operation) :
    Except Refusal Prepared :=
  if revision ≠ plan.revision then
    match describeBlocks dialect plan.source with
    | .error message => .error (.thrown message)
    | .ok blocks => .error (.stale plan.revision (drift plan revision blocks) blocks)
  else do
    (checkBatch operations).mapError .invalid
    let root ← (dialect.parse plan.source).mapError .invalid
    let (children, detached) ← applyAll dialect (held root) 0 operations (held root, [])
    let source ← (checkResult dialect root (children.map (·.node))).mapError .invalid
    pure { source, root := held root, children, detached }

end Chopin.Editing
