import Chopin.Lib.Utf16

/-!
# The blocks of a plan

A plan is read as Markdown with components, and edited by its top-level blocks.  `Node` has what
`plan/edit.ts` looks at in a node of that tree; the functions here are its questions about one.

Parsing and writing Markdown, drawing the diagrams of a fence and the rules of the dialect are not part
of `edit.ts`: `Dialect` is whatever they do.
-/

set_option autoImplicit false

namespace Chopin.Editing

/-- An attribute of a component; only a string is a value here. -/
inductive Attribute where
  | named (name : String) (value : Option String)
  | expression
  deriving DecidableEq

/-- `mdxJsxFlowElement`, `mdxJsxTextElement`, and the types of Markdown's own nodes. -/
inductive Kind where
  | flow
  | text
  | markdown (type : String)
  deriving DecidableEq

def Kind.type : Kind → String
  | flow => "mdxJsxFlowElement"
  | text => "mdxJsxTextElement"
  | markdown type => type

def Kind.component : Kind → Bool
  | flow | text => true
  | markdown _ => false

inductive Node where
  | mk (kind : Kind) (name : Option String) (attributes : List Attribute) (lang value : Option String)
      (children : List Node)

namespace Node

def kind : Node → Kind
  | mk kind _ _ _ _ _ => kind

def name : Node → Option String
  | mk _ name _ _ _ _ => name

def attributes : Node → List Attribute
  | mk _ _ attributes _ _ _ => attributes

def lang : Node → Option String
  | mk _ _ _ lang _ _ => lang

def value : Node → Option String
  | mk _ _ _ _ value _ => value

def children : Node → List Node
  | mk _ _ _ _ _ children => children

mutual

/-- A node and everything below it, in document order. -/
def walk : Node → List Node
  | mk kind name attributes lang value children =>
    mk kind name attributes lang value children :: walkAll children

def walkAll : List Node → List Node
  | [] => []
  | node :: rest => node.walk ++ walkAll rest

end

/-! ## What a block is -/

/-- The string values of the attributes with this name. -/
def strings (node : Node) (name : String) : List String :=
  node.attributes.filterMap fun
    | .named other value => if other = name then value else none
    | .expression => none

/-- The questionnaire id a node carries, when it is one. -/
def questionnaire (node : Node) : Option String :=
  if node.kind = .flow ∧ node.name = some "Questionnaire" then (node.strings "id").head? else none

/-- Whether a block is an accepted decision. -/
def decision (node : Node) : Bool := node.kind = .flow ∧ node.name = some "Decision"

/-- Whether a block is or holds inline research or an investigation. -/
def research (node : Node) : Bool :=
  node.walk.any fun node ↦ node.kind = .flow ∧ (node.name = some "Research" ∨ node.name = some "Investigation")

/-- The ids that a component claims. -/
def claimed (node : Node) : List String := if node.kind.component then node.strings "id" else []

mutual

/-- Flatten a node to its text, for previews and fingerprints. -/
def content : Node → String
  | mk _ _ _ _ (some value) _ => value
  | mk _ _ _ _ none children => " ".intercalate (contents children)

def contents : List Node → List String
  | [] => []
  | node :: rest => node.content :: contents rest

end

end Node

open Node

/-! ## The dialect -/

/-- A component of the dialect: whether it has an id of its own, or one that it refers to. -/
structure Component where
  name : String
  id : Bool
  deriving DecidableEq

def COMPONENTS : List Component :=
  [⟨"Image", false⟩, ⟨"Experiment", true⟩, ⟨"Questionnaire", true⟩, ⟨"Question", true⟩, ⟨"Option", true⟩,
    ⟨"Criterion", true⟩, ⟨"Answer", false⟩, ⟨"Previous", false⟩, ⟨"Decision", true⟩, ⟨"Note", false⟩,
    ⟨"Columns", true⟩, ⟨"Column", true⟩, ⟨"Tabs", true⟩, ⟨"Tab", true⟩, ⟨"Callout", true⟩,
    ⟨"Research", true⟩, ⟨"Investigation", true⟩, ⟨"Underline", false⟩]

def lookup (name : Option String) : Option Component :=
  name.bind fun name ↦ COMPONENTS.find? (·.name == name)

/-- What the plan's Markdown, its dialect and its diagrams are, as far as an edit depends on them. -/
structure Dialect where
  parse : String → Except String (List Node)
  serialize : List Node → Except String String
  /-- `assert`, with the bytes of the source when they are given -/
  assert : List Node → Option Nat → Except String Unit
  /-- `validDocumentTitleChange` -/
  validTitle : List Node → List Node → Bool
  assertIntroducedUrls : List Node → List Node → Except String Unit
  /-- `room.validate` -/
  validate : String → Except String Unit
  /-- `FENCE_VALIDATORS` -/
  fence : String → Option (String → Option String)
  /-- The ids that `ulid()` gives while the source of one operation is read. -/
  ulid : Nat → Nat → String
  sha256 : String → String

/-- Components the agent may not author. -/
def RESERVED_COMPONENTS : List String :=
  ["Questionnaire", "Question", "Option", "Answer", "Decision", "Note", "Research", "Investigation"]

/-- Why the agent may not author this node, when it may not. -/
def refused (node : Node) : Option String :=
  if node.kind.component then
    (lookup node.name).bind fun spec ↦
      if spec.name ∈ RESERVED_COMPONENTS then
        some <|
          if spec.name = "Research" then
            "`Research` is created by starting inline research, not by editing the plan."
          else if spec.name = "Investigation" then
            "`Investigation` is created by proposing an investigation, not by editing the plan."
          else if spec.name = "Decision" ∨ spec.name = "Note" then
            "`" ++ spec.name ++ "` is written when the room accepts a comment, not by editing the plan."
          else "`" ++ spec.name ++ "` is created by asking a question, not by editing the plan."
      else none
  else none

/-- Whether a node needs an id and has none. -/
def unidentified (node : Node) : Bool :=
  node.kind.component && (lookup node.name).any (·.id) && !node.attributes.any fun
    | .named name _ => name == "id"
    | .expression => false

mutual

/-- Add an `id` where a component needs one and has none; `next` counts the ids that were given. -/
def stamp (ulid : Nat → String) (next : Nat) : Node → Node × Nat
  | .mk kind name attributes lang value children =>
    if unidentified (.mk kind name attributes lang value children) then
      let (below, last) := stampAll ulid (next + 1) children
      (.mk kind name (attributes ++ [.named "id" (some (ulid next))]) lang value below, last)
    else
      let (below, last) := stampAll ulid next children
      (.mk kind name attributes lang value below, last)

def stampAll (ulid : Nat → String) (next : Nat) : List Node → List Node × Nat
  | [] => ([], next)
  | node :: rest =>
    let (first, middle) := stamp ulid next node
    let (others, last) := stampAll ulid middle rest
    (first :: others, last)

end

/-- Give the agent's components their identity, unless one of them is not the agent's to write. -/
def identify (ulid : Nat → String) (nodes : List Node) : Except String (List Node) :=
  match (walkAll nodes).findSome? refused with
  | some message => .error message
  | none => .ok (stampAll ulid 0 nodes).1

/-- Parse an operation's source as a run of top-level blocks. -/
def fragment (dialect : Dialect) (ulid : Nat → String) (source : String) : Except String (List Node) := do
  let nodes ← dialect.parse source
  if nodes = [] then .error "source produced no blocks."
  let nodes ← identify ulid nodes
  dialect.assert nodes none
  pure nodes

/-! ## Checks on the result -/

/-- One id: the first one that was seen before is found. -/
def claim : List String × Option String → String → List String × Option String
  | (seen, found), id => if id ∈ seen then (seen, some id) else (seen ++ [id], found)

/-- The first id used by two components. -/
def repeated (nodes : List Node) : Option String :=
  ((walkAll nodes).foldl (fun state node ↦ if state.2.isSome then state else node.claimed.foldl claim state)
    ([], none)).2

/-- The fences that have a validator, with their language and source. -/
def fences (dialect : Dialect) (nodes : List Node) : List (String × String) :=
  (walkAll nodes).filterMap fun node ↦ node.lang.bind fun lang ↦
    if node.kind = .markdown "code" ∧ lang ≠ "" ∧ (dialect.fence lang).isSome then
      some (lang, node.value.getD "")
    else none

/-- A retained fence excuses only the same language and body, once. -/
def introducedFence (dialect : Dialect) : List (String × String) × Option String → String × String →
    List (String × String) × Option String
  | (previous, some failure), _ => (previous, some failure)
  | (previous, none), fence =>
    if fence ∈ previous then (previous.erase fence, none)
    else (previous, (dialect.fence fence.1).bind (· fence.2))

/-- Existing human-edited fences remain editable around even if their source is malformed. -/
def introducedFenceError (dialect : Dialect) (base next : List Node) : Option String :=
  ((fences dialect next).foldl (introducedFence dialect) (fences dialect base, none)).2

end Chopin.Editing
