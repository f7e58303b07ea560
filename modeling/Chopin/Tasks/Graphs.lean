import Chopin.Lib.Json
import Chopin.Lib.Text

/-!
# Implementation graphs

The graph of implementation tasks stored beside a plan, and the rules by which it changes
(`tasks/graphs.ts`).  A graph is a list of versions; only the last one may change, and a version
that work has been done on is never edited again — a revision starts a new one.
-/

set_option autoImplicit false
set_option linter.dupNamespace false

open Script

namespace Chopin.Tasks

/-! ## The records -/

structure Task where
  id : String
  title : String
  context : String
  goal : String
  acceptance : List String
  dependsOn : List String
  deriving DecidableEq

structure Definition where
  tasks : List Task
  deriving DecidableEq

inductive State
  | draft
  | approved
  | locked
  | superseded
  deriving DecidableEq

structure Version where
  number : Nat
  /-- Changes whenever a draft definition changes. -/
  revision : Nat
  planRevision : Nat
  state : State
  definition : Definition
  deriving DecidableEq

structure Graph where
  versions : List Version
  deriving DecidableEq

structure Client where
  name : String
  version : String
  deriving DecidableEq

/-- Durable ownership of the external session implementing one locked graph. -/
structure Run where
  id : String
  user : String
  client : Client
  session : String
  planRevision : Nat
  graphVersion : Nat
  graphRevision : Nat
  repository : String
  branch : String
  commit : String
  startedAt : String
  deriving DecidableEq

structure ClaimInput where
  planRevision : Nat
  graphRevision : Nat
  run : Run
  deriving DecidableEq

inductive ClaimResult
  | started (graph : Graph) (run : Run)
  | active (run : Run)
  | refused (reason : String)
  deriving DecidableEq

inductive Operation
  | add (task : Task)
  | replace (id : String) (task : Task)
  | reorder (ids : List String)
  | remove (id : String)
  deriving DecidableEq

structure Revision where
  /-- The plan revision returned by the planner's graph read. -/
  planRevision : Nat
  /-- The current draft revision, or zero before a graph exists. -/
  graphRevision : Nat
  operations : List Operation
  deriving DecidableEq

/-- A value, or the reason there is none. -/
abbrev Result (α : Type) := Except String α

def invalid {α : Type} (reason : String) : Result α := .error reason

/-! ## Validation -/

/-- The checks on each task alone, and that no id is used twice.  `ids` are those seen so far. -/
def validateTasks : List String → List Task → Result (List String)
  | ids, [] => .ok ids
  | ids, task :: rest =>
    if !text task.id || !text task.title || !text task.context || !text task.goal then
      invalid "task"
    else if ids.contains task.id then invalid "duplicate"
    else if task.acceptance.length < 2 || 8 < task.acceptance.length
        || task.acceptance.any (!text ·) then
      invalid "acceptance"
    else validateTasks (task.id :: ids) rest

/-- Every dependency, listed with the task that has it, names another task. -/
def validateReferences (ids : List String) : List (String × String) → Result Unit
  | [] => .ok ()
  | (id, dependency) :: rest =>
    if !ids.contains dependency then invalid "missing"
    else if dependency == id then invalid "self"
    else validateReferences ids rest

/-- The two colours of the search for a cycle. -/
structure Marks where
  visiting : List String
  visited : List String

/-- `some` over a stateful predicate: it stops at the first hit. -/
def someM (f : Marks → String → Bool × Marks) : Marks → List String → Bool × Marks
  | marks, [] => (false, marks)
  | marks, id :: rest =>
    match f marks id with
    | (true, marks) => (true, marks)
    | (false, marks) => someM f marks rest

/-- Whether the search from `id` closes a cycle.  A path of the search visits each task once, so
one more than the number of tasks is fuel enough. -/
def visit (tasks : List Task) : Nat → Marks → String → Bool × Marks
  | 0, marks, _ => (true, marks)
  | fuel + 1, marks, id =>
    if marks.visiting.contains id then (true, marks)
    else if marks.visited.contains id then (false, marks)
    else
      let dependsOn := ((tasks.find? (·.id == id)).map Task.dependsOn).getD []
      let (cycle, after) :=
        someM (visit tasks fuel) { marks with visiting := id :: marks.visiting } dependsOn
      (cycle, { visiting := after.visiting.erase id, visited := id :: after.visited })

/-- Validate references before looking for cycles, for useful refusal reasons. -/
def validate (definition : Definition) : Result Definition := do
  let tasks := definition.tasks
  let ids ← validateTasks [] tasks
  validateReferences ids (tasks.flatMap fun task ↦ task.dependsOn.map (task.id, ·))
  if (someM (visit tasks (tasks.length + 1)) ⟨[], []⟩ (tasks.map Task.id)).1 then invalid "cycle"
  else if tasks.length == 0 || !tasks.any (·.dependsOn.length == 0) then invalid "root"
  else .ok definition

/-! ## Versions and runs -/

def current (graph : Graph) : Option Version := graph.versions.getLast?

def «matches» (run : Run) (version : Version) : Bool :=
  run.graphVersion == version.number && run.graphRevision == version.revision
    && run.planRevision == version.planRevision

/-- Before a draft the last version may still be approved; every other one is superseded. -/
def draftPrior : List Version → Bool
  | [] => true
  | [version] => version.state == .superseded || version.state == .approved
  | version :: rest => version.state == .superseded && draftPrior rest

/-- Plan revisions never go down along the versions. -/
def ordered : List Version → Bool
  | version :: next :: rest => version.planRevision ≤ next.planRevision && ordered (next :: rest)
  | _ => true

def history (versions : List Version) : Bool :=
  match versions.getLast? with
  | none => false
  | some latest =>
    latest.state != .superseded && ordered versions
      && if latest.state == .draft then draftPrior versions.dropLast
        else versions.dropLast.all (·.state == .superseded)

/-- The strings of a run that must say something. -/
def Run.strings (run : Run) : List String :=
  [run.id, run.user, run.session, run.repository, run.branch, run.commit, run.startedAt,
    run.client.name, run.client.version]

/-- What `run` asks of a record of the right shape. -/
def Run.valid (run : Run) : Bool :=
  run.strings.all text && run.planRevision ≤ Json.maxSafe
    && (1 ≤ run.graphVersion && run.graphVersion ≤ Json.maxSafe)
    && (1 ≤ run.graphRevision && run.graphRevision ≤ Json.maxSafe)

/-! ## What is stored, and how it is read back -/

def State.name : State → String
  | .draft => "draft"
  | .approved => "approved"
  | .locked => "locked"
  | .superseded => "superseded"

def Task.toJson (task : Task) : Json :=
  .obj [("id", .str task.id), ("title", .str task.title), ("context", .str task.context),
    ("goal", .str task.goal), ("acceptance", .arr (task.acceptance.map .str)),
    ("dependsOn", .arr (task.dependsOn.map .str))]

def Definition.toJson (definition : Definition) : Json :=
  .obj [("tasks", .arr (definition.tasks.map Task.toJson))]

def Version.toJson (version : Version) : Json :=
  .obj [("number", .num version.number), ("revision", .num version.revision),
    ("planRevision", .num version.planRevision), ("state", .str version.state.name),
    ("definition", version.definition.toJson)]

def Graph.toJson (graph : Graph) : Json :=
  .obj [("versions", .arr (graph.versions.map Version.toJson))]

def Client.toJson (client : Client) : Json :=
  .obj [("name", .str client.name), ("version", .str client.version)]

def Run.toJson (run : Run) : Json :=
  .obj [("id", .str run.id), ("user", .str run.user), ("client", run.client.toJson),
    ("session", .str run.session), ("planRevision", .num run.planRevision),
    ("graphVersion", .num run.graphVersion), ("graphRevision", .num run.graphRevision),
    ("repository", .str run.repository), ("branch", .str run.branch), ("commit", .str run.commit),
    ("startedAt", .str run.startedAt)]

/-- The state a stored string names (`state` of the source). -/
def State.ofName : String → Option State
  | "draft" => some .draft
  | "approved" => some .approved
  | "locked" => some .locked
  | "superseded" => some .superseded
  | _ => none

def task (value : Json) : Option Task := do
  let fields ← value.item ["acceptance", "context", "dependsOn", "goal", "id", "title"]
  let id ← (← fields.lookup "id").string
  let title ← (← fields.lookup "title").string
  let context ← (← fields.lookup "context").string
  let goal ← (← fields.lookup "goal").string
  let acceptance ← (← fields.lookup "acceptance").strings
  let dependsOn ← (← fields.lookup "dependsOn").strings
  pure { id, title, context, goal, acceptance, dependsOn }

def definition (value : Json) : Option Definition := do
  let stored ← value.item ["tasks"]
  let tasks ← (← (← stored.lookup "tasks").array).mapM task
  (validate { tasks }).toOption

def run (value : Json) : Option Run := do
  let stored ← value.item ["branch", "client", "commit", "graphRevision", "graphVersion", "id",
    "planRevision", "repository", "session", "startedAt", "user"]
  let client ← (← stored.lookup "client").item ["name", "version"]
  let restored : Run := {
    id := ← (← stored.lookup "id").string
    user := ← (← stored.lookup "user").string
    client := {
      name := ← (← client.lookup "name").string
      version := ← (← client.lookup "version").string }
    session := ← (← stored.lookup "session").string
    planRevision := ← (← stored.lookup "planRevision").nat
    graphVersion := ← (← stored.lookup "graphVersion").nat
    graphRevision := ← (← stored.lookup "graphRevision").nat
    repository := ← (← stored.lookup "repository").string
    branch := ← (← stored.lookup "branch").string
    commit := ← (← stored.lookup "commit").string
    startedAt := ← (← stored.lookup "startedAt").string }
  if restored.valid then pure restored else none

/-- The revision of a stored version: graphs written before revisions were kept have none. -/
def storedRevision : Option Json → Option Nat
  | none | some .null => some 1
  | some value => value.nat

def restoreVersion (index : Nat) (value : Json) : Option Version := do
  let version ← value.item ["definition", "number", "planRevision", "revision", "state"]
    <|> value.item ["definition", "number", "planRevision", "state"]
  let checked ← definition (← version.lookup "definition")
  let number ← (← version.lookup "number").nat
  let revision ← storedRevision (version.lookup "revision")
  let planRevision ← (← version.lookup "planRevision").nat
  let state ← State.ofName (← (← version.lookup "state").string)
  if number == index + 1 && 1 ≤ revision then
    pure { number, revision, planRevision, state, definition := checked }
  else none

def restoreVersions : Nat → List Json → Option (List Version)
  | _, [] => some []
  | index, value :: rest => do
    let version ← restoreVersion index value
    let versions ← restoreVersions (index + 1) rest
    pure (version :: versions)

/-- Read a graph back from a sidecar without trusting handwritten JSON. -/
def Graphs.restore (value : Json) : Option Graph := do
  let stored ← value.item ["versions"]
  let versions ← restoreVersions 0 (← (← stored.lookup "versions").array)
  if versions.length == 0 then none
  else if history versions then some { versions } else none

/-- Restore a run only when it names this sidecar's locked graph and revision. -/
def restoreRun (value : Json) (graph : Option Graph) (revision : Nat) : Option Run := do
  let restored ← run value
  let version ← graph.bind current
  if version.state != .locked || version.planRevision != revision
      || !«matches» restored version then none
  else some restored

/-- Restore a historical run against the graph version it originally claimed. -/
def restoreRunVersion (value : Json) (graph : Graph) : Option Run := do
  let restored ← run value
  if graph.versions.any («matches» restored) then some restored else none

/-! ## The operations -/

/-- `versions[versions.length - 1] = version`. -/
def setLast (graph : Graph) (version : Version) : Graph :=
  { versions := graph.versions.dropLast ++ [version] }

/-- The version a released run leaves behind may be claimed again. -/
def unlockLast (graph : Graph) : Graph :=
  match current graph with
  | some version => setLast graph { version with state := .approved }
  | none => graph

/-- Lock exactly one approved graph revision and record its owner atomically. -/
def Graphs.claim (graph : Option Graph) (revision : Option Nat) (execution : Option Run)
    (input : ClaimInput) : ClaimResult :=
  match execution with
  | some run => .active run
  | none =>
    if revision != some input.planRevision then .refused "stale-plan"
    else
      match graph, graph.bind current with
      | some graph, some version =>
        if !input.run.valid then .refused "run"
        else if version.revision != input.graphRevision then .refused "stale-graph"
        else if version.state != .approved then .refused "not-approved"
        else if some version.planRevision != revision then .refused "stale-plan"
        else if !«matches» input.run version then .refused "run"
        else .started (setLast graph { version with state := .locked }) input.run
      | _, _ => .refused "missing"

/-- The task a `Map` built from these tasks holds under `id`: the last one listed. -/
def taskNamed (tasks : List Task) (id : String) : Option Task :=
  tasks.reverse.find? (·.id == id)

/-- One operation of a planner's batch. -/
def operate (tasks : List Task) : Operation → Result (List Task)
  | .add task => .ok (tasks ++ [task])
  | .replace id task =>
    if tasks.any (·.id == id) then .ok (tasks.set (tasks.findIdx (·.id == id)) task)
    else invalid "missing"
  | .remove id =>
    if tasks.any (·.id == id) then .ok (tasks.eraseIdx (tasks.findIdx (·.id == id)))
    else invalid "missing"
  | .reorder ids =>
    if ids.length != tasks.length || ids.dedup.length != ids.length then invalid "reorder"
    else
      match ids.mapM (taskNamed tasks) with
      | none => invalid "reorder"
      | some tasks => .ok tasks

/-- Apply a planner's whole graph batch before deciding whether it is valid. -/
def revise (definition : Definition) (operations : List Operation) : Result Definition := do
  let tasks ← operations.foldlM operate definition.tasks
  validate { tasks }

/-- Change a graph by operations from one particular planner read. -/
def Graphs.revise (graph : Option Graph) (revision : Option Nat) (change : Revision) :
    Result Graph :=
  let version := graph.bind current
  match revision with
  | none => .error "stale-plan"
  | some revision =>
    if revision != change.planRevision then .error "stale-plan"
    else if (version.map Version.revision).getD 0 != change.graphRevision then .error "stale-graph"
    else if version.map Version.state == some .locked then .error "locked"
    else if version.map Version.state == some .superseded then .error "superseded"
    else if change.operations.length == 0 then .error "operation"
    else do
      let checked ← Tasks.revise ((version.map Version.definition).getD ⟨[]⟩) change.operations
      match graph, version with
      | some graph, some version =>
        if version.state == .draft then
          pure (setLast graph { version with
            revision := version.revision + 1, planRevision := revision, definition := checked })
        else
          pure { versions := graph.versions ++ [{
            number := version.number + 1, revision := 1, planRevision := revision, state := .draft,
            definition := checked }] }
      | _, _ =>
        pure { versions := [{
          number := 1, revision := 1, planRevision := revision, state := .draft,
          definition := checked }] }

/-- A version that approval of a later one sets aside. -/
def Version.supersede (version : Version) : Version :=
  if version.state == .approved then { version with state := .superseded } else version

def approveGraph (graph : Option Graph) (revision : Option Nat) : Result Graph :=
  match graph, graph.bind current with
  | some graph, some version =>
    if version.state != .draft then .error "not-draft"
    else
      match revision with
      | none => .error "missing-document"
      | some revision =>
        if version.planRevision != revision then .error "stale-plan"
        else do
          let checked ← validate version.definition
          pure (setLast { versions := graph.versions.map Version.supersede }
            { version with state := .approved, definition := checked })
  | _, _ => .error "missing"

end Chopin.Tasks
