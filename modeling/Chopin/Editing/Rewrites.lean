import Chopin.Editing.Edits
import Chopin.Lib.Attach
import Chopin.Lib.Entries

/-!
# Rewriting a plan from source

Besides batches of operations a plan is rewritten as a whole: from source that somebody sends, or from that
of an earlier version that is restored.  The projections of records are not theirs to write.
-/

set_option autoImplicit false

open Script

namespace Chopin.Editing

/-! ## Projections -/

def PROTECTED_PROJECTIONS : List String := ["Questionnaire", "Decision", "Research", "Investigation"]

/-- The name of a node that is the projection of a record. -/
def Node.projection (node : Node) : Option String :=
  if node.kind.component then node.name.filter PROTECTED_PROJECTIONS.contains else none

/-- `componentId` -/
def Node.componentId (node : Node) : Option String := node.claimed.head?

/-- A projection that is malformed, or an error of the serializer. -/
inductive Fault where
  | failure (message : String)
  | thrown (message : String)
  deriving DecidableEq

/-- One node: a projection is filed under its id. -/
def collect (dialect : Dialect) (found : List (String × String)) (node : Node) : Except Fault (List (String × String)) :=
  match node.projection with
  | none => .ok found
  | some name =>
    match node.componentId.filter (· ≠ "") with
    | none => .error (.failure s!"a {name} projection is missing its id")
    | some id =>
      if found.any (·.1 == id) then .error (.failure ("`" ++ id ++ "` appears twice"))
      else do
        let source ← (dialect.serialize [node]).mapError .thrown
        pure (found ++ [(id, source)])

/-- The source of each projection, under its id. -/
def collectProjections (dialect : Dialect) (nodes : List Node) : Except Fault (List (String × String)) :=
  (Node.walkAll nodes).foldlM (collect dialect) []

def holdsProjection (dialect : Dialect) (node : Node) : Except String Bool :=
  match collectProjections dialect [node] with
  | .ok found => .ok (0 < found.length)
  | .error (.failure _) => .ok true
  | .error (.thrown message) => .error message

/-- What is wrong with a current projection in the proposed document. -/
def mishandled (proposed : List (String × String)) : String × String → Option String
  | (id, source) =>
    match (proposed.lookup id).filter (· ≠ "") with
    | none => some "Existing Questionnaire, Decision, and Research projections cannot be dropped."
    | some replacement =>
      if replacement ≠ source then some "Existing Questionnaire, Decision, and Research projections cannot be altered."
      else none

/-- Why the next document is refused, if it is. -/
def protectProjections (dialect : Dialect) (base next : List Node) : Except String (Option String) :=
  match collectProjections dialect base with
  | .error (.thrown message) => .error message
  | .error (.failure message) => .ok (some message)
  | .ok current =>
    match collectProjections dialect next with
    | .error (.thrown message) => .error message
    | .error (.failure message) => .ok (some message)
    | .ok proposed =>
      .ok <| (current.findSome? (mishandled proposed)).or <|
        if proposed.any fun (id, _) ↦ (current.lookup id).isNone then
          some "Questionnaire, Decision, and Research projections cannot be authored by rewriting the plan."
        else none

/-! ## Restoring an earlier version -/

/-- The blocks of the earlier version that stay. -/
def kept (dialect : Dialect) : List Held → Except String (List Held)
  | [] => .ok []
  | block :: rest => do
    let holds ← holdsProjection dialect block.node
    let others ← kept dialect rest
    pure (if holds then others else block :: others)

/-- `restored.findIndex`: the first block of this fingerprint that is not used yet. -/
def unusedAt (dialect : Dialect) (used : List Nat) (digest : String) : (place : Nat) → List Held →
    Except String (Option Nat)
  | _, [] => .ok none
  | place, block :: rest =>
    if place ∈ used then unusedAt dialect used digest (place + 1) rest
    else do
      if (← fingerprint dialect block.node) = digest then pure (some place)
      else unusedAt dialect used digest (place + 1) rest

/-- Where the projections go, while the current document is read. -/
structure Placing where
  used : List Nat
  placed : List (Held × Option Held)
  previous : Option Held
  lastPlaced : Option Held

/-- The place of the block that the next projection follows: `previous ? after(fingerprint(previous)) : -1`. -/
def indexAfter (dialect : Dialect) (restored : List Held) (state : Placing) : Except String (Option Nat) :=
  match state.previous with
  | none => .ok none
  | some previous => do unusedAt dialect state.used (← fingerprint dialect previous.node) 0 restored

/-- One block of the current document: a projection returns after the block that it follows now. -/
def place (dialect : Dialect) (restored : List Held) (state : Placing) (node : Held) : Except String Placing := do
  if ← holdsProjection dialect node.node then
    match ← indexAfter dialect restored state with
    | some index => pure { state with
        used := state.used ++ [index]
        placed := state.placed ++ [(node, restored[index]?)]
        lastPlaced := some node }
    | none => pure { state with
        placed := state.placed ++ [(node, state.lastPlaced)]
        lastPlaced := some node }
  else pure { state with previous := some node }

/-- The blocks of the restored document. -/
def restoredBlocks (dialect : Dialect) (now earlier : List Node) : Except String (List Held) := do
  let restored ← kept dialect (supplied 0 earlier)
  let placing ← (held now).foldlM (place dialect restored) ⟨[], [], none, none⟩
  -- `follow`, which would not return if a projection followed itself
  (Attach.gather (·.origin) placing.placed restored).elim (.error "Maximum call stack size exceeded") .ok

/-- An earlier version's source with the current projections carried across. -/
def restoration (dialect : Dialect) (current earlier : String) : Except String String := do
  let now ← dialect.parse current
  let before ← dialect.parse earlier
  let children ← restoredBlocks dialect now before
  dialect.serialize (children.map (·.node))

/-! ## Blocks that were there before -/

/-- The blocks of one fingerprint, and how many of them are taken. -/
structure Bucket where
  nodes : List Held
  used : Nat

/-- `candidates`, by fingerprint. -/
def candidates (dialect : Dialect) : List (String × Bucket) → List Held → Except String (List (String × Bucket))
  | buckets, [] => .ok buckets
  | buckets, node :: rest => do
    let digest ← fingerprint dialect node.node
    let bucket := (buckets.lookup digest).getD ⟨[], 0⟩
    candidates dialect (Entries.set buckets digest { bucket with nodes := bucket.nodes ++ [node] }) rest

/-- One block of the next document: its counterpart, if as many of its fingerprint were there as are now. -/
def alignOne (digests : List String) (buckets : List (String × Bucket)) : Held × String →
    Held × List (String × Bucket)
  | (node, digest) =>
    match buckets.lookup digest with
    | none => (node, buckets)
    | some bucket =>
      if bucket.nodes.length ≠ digests.count digest then (node, buckets)
      else
        match bucket.nodes[bucket.used]? with
        | none => (node, buckets)
        | some reused => (reused, Entries.set buckets digest { bucket with used := bucket.used + 1 })

/-- The blocks in turn. -/
def alignFrom (digests : List String) : List (String × Bucket) → List (Held × String) → List Held
  | _, [] => []
  | buckets, next :: rest =>
    let (node, after) := alignOne digests buckets next
    node :: alignFrom digests after rest

/-- `align`, which puts a block of the base in the place of one of its content. -/
def align (dialect : Dialect) (base next : List Held) : Except String (List Held) := do
  let buckets ← candidates dialect [] base
  let digests ← next.mapM fun node ↦ fingerprint dialect node.node
  pure (alignFrom digests buckets (next.zip digests))

end Chopin.Editing
