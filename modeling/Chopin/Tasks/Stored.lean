import Chopin.Tasks.Lifecycle

/-!
# The stored lifecycle

What a sidecar holds of the event logs, and the reader that takes it back (`restoreLifecycle` of
`tasks/lifecycle.ts`).  The writer, `transition`, never looks at the reader's checks: the two are
separate definitions of what a lifecycle is.
-/

set_option autoImplicit false
set_option linter.dupNamespace false

open Script

namespace Chopin.Tasks

/-! ## What is stored -/

def PullRequestState.name : PullRequestState → String
  | .open => "open"
  | .merged => "merged"
  | .closed => "closed"

def NoChange.toJson (value : NoChange) : Json :=
  .obj [("reason", .str value.reason), ("evidence", .str value.evidence)]

def VerificationEvidence.toJson (entry : VerificationEvidence) : Json :=
  .obj [("taskId", .str entry.taskId), ("evidence", .arr (entry.evidence.map .str))]

def ProgressEvent.toJson (event : ProgressEvent) : Json :=
  let key := ("idempotencyKey", Json.str event.idempotencyKey)
  match event.command with
  | .start taskId => .obj [("kind", .str "start"), ("taskId", .str taskId), key]
  | .block taskId reason =>
    .obj [("kind", .str "block"), ("taskId", .str taskId), ("reason", .str reason), key]
  | .reportPr taskId url state =>
    .obj [("kind", .str "report_pr"), ("taskId", .str taskId), ("url", .str url),
      ("state", .str state.name), key]
  | .complete taskId summary none =>
    .obj [("kind", .str "complete"), ("taskId", .str taskId), ("summary", .str summary), key]
  | .complete taskId summary (some noChange) =>
    .obj [("kind", .str "complete"), ("taskId", .str taskId), ("summary", .str summary),
      ("noChange", noChange.toJson), key]
  | .reportVerification report =>
    .obj [("kind", .str "report_verification"), ("passed", .bool report.passed),
      ("summary", .str report.summary), ("reviewerMethod", .str report.reviewerMethod),
      ("evidence", .arr (report.evidence.map VerificationEvidence.toJson)),
      ("tasksNeedingWork", .arr (report.tasksNeedingWork.map .str)), key]
  | .requestRevision reason =>
    .obj [("kind", .str "request_revision"), ("reason", .str reason), key]

def ArchivedRun.toJson (archived : ArchivedRun) : Json :=
  .obj ([("run", archived.run.toJson), ("events", .arr (archived.events.map ProgressEvent.toJson))]
    ++ if archived.live then [("live", Json.bool true)] else [])

def Lifecycle.toJson (lifecycle : Lifecycle) : Json :=
  .obj ((match lifecycle.events with
      | some events => [("events", Json.arr (events.map ProgressEvent.toJson))]
      | none => [])
    ++ [("history", Json.arr (lifecycle.history.map ArchivedRun.toJson))])

/-! ## How it is read back -/

def PullRequestState.ofName : String → Option PullRequestState
  | "open" => some .open
  | "merged" => some .merged
  | "closed" => some .closed
  | _ => none

/-- A string that says something. -/
def said (value : Option Json) : Option String := (value.bind Json.string).filter text

def noChange (value : Json) : Option NoChange := do
  let item ← value.item ["evidence", "reason"]
  let reason ← said (item.lookup "reason")
  let evidence ← said (item.lookup "evidence")
  pure { reason, evidence }

def evidenceEntry (value : Json) : Option VerificationEvidence := do
  let item ← value.item ["evidence", "taskId"]
  let taskId ← (← item.lookup "taskId").string
  let evidence ← (← item.lookup "evidence").strings
  pure { taskId, evidence }

def evidence (value : Json) : Option (List VerificationEvidence) := do
  (← value.array).mapM evidenceEntry

/-- The command of a stored event with these fields. -/
def storedCommand (value : Json) (item : List (String × Json)) : Option Command := do
  match ← (← item.lookup "kind").string with
  | "request_revision" =>
    let item ← value.item ["idempotencyKey", "kind", "reason"]
    pure (.requestRevision (← said (item.lookup "reason")))
  | "report_verification" =>
    let item ← value.item ["evidence", "idempotencyKey", "kind", "passed", "reviewerMethod",
      "summary", "tasksNeedingWork"]
    pure (.reportVerification {
      passed := ← (← item.lookup "passed").boolean
      summary := ← (← item.lookup "summary").string
      reviewerMethod := ← (← item.lookup "reviewerMethod").string
      evidence := ← evidence (← item.lookup "evidence")
      tasksNeedingWork := ← (← item.lookup "tasksNeedingWork").strings })
  | "start" =>
    let item ← value.item ["idempotencyKey", "kind", "taskId"]
    pure (.start (← said (item.lookup "taskId")))
  | "block" =>
    let item ← value.item ["idempotencyKey", "kind", "reason", "taskId"]
    pure (.block (← said (item.lookup "taskId")) (← said (item.lookup "reason")))
  | "report_pr" =>
    let item ← value.item ["idempotencyKey", "kind", "state", "taskId", "url"]
    let taskId ← said (item.lookup "taskId")
    let url ← said (item.lookup "url")
    pure (.reportPr taskId url (← PullRequestState.ofName (← (← item.lookup "state").string)))
  | "complete" =>
    match item.lookup "noChange" with
    | none =>
      let item ← value.item ["idempotencyKey", "kind", "summary", "taskId"]
      pure (.complete (← said (item.lookup "taskId")) (← said (item.lookup "summary")) none)
    | some stored =>
      let item ← value.item ["idempotencyKey", "kind", "noChange", "summary", "taskId"]
      let taskId ← said (item.lookup "taskId")
      let summary ← said (item.lookup "summary")
      pure (.complete taskId summary (some (← noChange stored)))
  | _ => none

def progressEvent (value : Json) : Option ProgressEvent :=
  match value with
  | .obj item => do
    let idempotencyKey ← said (item.lookup "idempotencyKey")
    pure { command := ← storedCommand value item, idempotencyKey }
  | _ => none

def restoreEvents (value : Json) : Option (List ProgressEvent) := do
  let events ← value.array
  if events.length == 0 then none else events.mapM progressEvent

/-- The flag of an archived run: absent or true. -/
def storedLive : Option Json → Option Bool
  | none => some false
  | some (.bool true) => some true
  | some _ => none

def restoreArchived (graph : Graph) (value : Json) : Option ArchivedRun := do
  let fields ← value.fields
  let item ← value.item
    (if (fields.lookup "live").isNone then ["events", "run"] else ["events", "live", "run"])
  let live ← storedLive (fields.lookup "live")
  let run ← restoreRunVersion (← item.lookup "run") graph
  let events ← restoreEvents (← item.lookup "events")
  pure { run, events, live }

def restoreHistory (stored : Json) (graph : Graph) : Option (List ArchivedRun) := do
  (← stored.array).mapM (restoreArchived graph)

def Outcome.successful : Outcome → Bool
  | .revisionRequested _ => false
  | .implemented | .delivered => true

/-- The run's claim on the latest version holds and its log folds to an active state. -/
def executionRestores (graph : Graph) (projected : List HistoricalRun)
    (events : Option (List ProgressEvent)) (execution : Run) : Bool :=
  match activeVersion graph execution with
  | none => false
  | some version =>
    match foldRun version.definition.tasks execution (events.getD []) false with
    | .error _ => false
    | .ok folded =>
      folded.phase == .active
        && eligibility (projected.map fun item ↦ (item.run, item.outcome.successful)) version
            execution.id == none

/-- The version a run names, as the reader compares successes. -/
def Run.reference (run : Run) : Nat × Nat × Nat :=
  (run.graphVersion, run.graphRevision, run.planRevision)

/-- The events of the run at work, when any are stored. -/
def storedEvents : Option Json → Option (Option (List ProgressEvent))
  | none => some none
  | some value => (restoreEvents value).map some

/-- Restore lifecycle data only when it describes this graph and claim exactly. -/
def restoreLifecycle (value : Json) (graph : Graph) (execution : Option Run) :
    Option Lifecycle := do
  let fields ← value.fields
  let stored ← value.item
    (if (fields.lookup "events").isNone then ["history"] else ["events", "history"])
  let history ← restoreHistory (← stored.lookup "history") graph
  let projected ← projectHistory graph history
  let events ← storedEvents (fields.lookup "events")
  let latest ← current graph
  if (latest.state == .locked) != execution.isSome then none
  else if events.isSome && execution.isNone then none
  else if !(execution.all (executionRestores graph projected events)) then none
  else if !(history.map (·.run.id)).Nodup then none
  else if !((events.getD [] ++ history.flatMap ArchivedRun.events).map
      ProgressEvent.idempotencyKey).Nodup then none
  else if !((projected.filter (·.outcome.successful)).map (·.run.reference)).Nodup then none
  else pure { events, history }

end Chopin.Tasks
