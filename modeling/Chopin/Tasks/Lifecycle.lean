import Chopin.Lib.Entries
import Chopin.Tasks.Graphs

/-!
# The lifecycle of an implementation run

A claimed graph is worked on by one run at a time, which reports its progress as events
(`tasks/lifecycle.ts`).  Nothing derived from the events is stored: the lifecycle is the event log
of the active run and those of the archived ones, and every reader folds a log again through
`reduceEvent`.
-/

set_option autoImplicit false
set_option linter.dupNamespace false

open Script

namespace Chopin.Tasks

/-! ## The records -/

inductive PullRequestState
  | open
  | merged
  | closed
  deriving DecidableEq

structure PullRequest where
  url : String
  state : PullRequestState
  deriving DecidableEq

/-- Why a task needed no code change and what showed it. -/
structure NoChange where
  reason : String
  evidence : String
  deriving DecidableEq

/-- A completed task has a pull request or says why it needed none, never both. -/
inductive Delivery
  | pullRequest (request : PullRequest)
  | noChange (value : NoChange)
  deriving DecidableEq

inductive TaskState
  | queued
  | inProgress (pullRequest : Option PullRequest)
  | blocked (blocker : String) (pullRequest : Option PullRequest)
  | completed (summary : String) (delivery : Delivery)
  deriving DecidableEq

structure TaskProgress where
  id : String
  state : TaskState
  deriving DecidableEq

structure VerificationEvidence where
  taskId : String
  evidence : List String
  deriving DecidableEq

structure VerificationReport where
  passed : Bool
  summary : String
  reviewerMethod : String
  evidence : List VerificationEvidence
  tasksNeedingWork : List String
  deriving DecidableEq

inductive Command
  | start (taskId : String)
  | block (taskId reason : String)
  | reportPr (taskId url : String) (state : PullRequestState)
  | complete (taskId summary : String) (noChange : Option NoChange)
  | reportVerification (report : VerificationReport)
  | requestRevision (reason : String)
  deriving DecidableEq

structure ProgressEvent where
  command : Command
  idempotencyKey : String
  deriving DecidableEq

structure LifecycleInput where
  command : Command
  idempotencyKey : String
  runId : String
  deriving DecidableEq

/-- `live` marks a run released when its last task completed, without verification. -/
structure ArchivedRun where
  run : Run
  events : List ProgressEvent
  live : Bool
  deriving DecidableEq

structure Lifecycle where
  events : Option (List ProgressEvent)
  history : List ArchivedRun
  deriving DecidableEq

structure LifecycleState where
  graph : Graph
  execution : Option Run
  lifecycle : Lifecycle
  deriving DecidableEq

inductive LifecycleResult
  | accepted (state : LifecycleState)
  | replayed (state : LifecycleState)
  | refused (reason : String)
  deriving DecidableEq

inductive Phase
  | active
  | revisionRequested (reason : String)
  | implemented
  | delivered
  deriving DecidableEq

/-- The reducer's state: the tasks of the version the run claimed, the run, and what its events
have come to. -/
structure ReducerState where
  phase : Phase
  tasks : List Task
  run : Run
  progress : List TaskProgress
  verification : Option VerificationReport
  deriving DecidableEq

/-- An accepted state, or the reason for refusing the event. -/
abbrev Reduction := Except String ReducerState

def refused (reason : String) : Reduction := .error reason

/-! ## Small tests -/

def NoChange.valid (value : NoChange) : Bool := text value.reason && text value.evidence

/-- `[1-9]\d*` -/
def pullNumber : List Char → Bool
  | first :: rest => '1' ≤ first && first ≤ '9' && rest.all fun c ↦ '0' ≤ c && c ≤ '9'
  | [] => false

/-- The address is a pull request of exactly this repository, spelled as the repository is. -/
def ownPullRequest (repository url : String) : Bool :=
  match (url.toList.splitOn '/').map String.ofList with
  | "https:" :: "" :: "github.com" :: owner :: name :: "pull" :: number :: tail =>
    owner != "" && name != "" && pullNumber number.toList && (tail == [] || tail == [""])
      && owner ++ "/" ++ name == repository
  | _ => false

def versionFor (graph : Graph) (run : Run) : Option Version :=
  graph.versions.find? («matches» run)

def activeVersion (graph : Graph) (run : Run) : Option Version :=
  (current graph).filter fun version ↦ version.state == .locked && «matches» run version

def initial (tasks : List Task) (run : Run) : ReducerState :=
  { phase := .active, tasks, run
    progress := tasks.map fun task ↦ ⟨task.id, .queued⟩
    verification := none }

def TaskProgress.completed (item : TaskProgress) : Bool :=
  match item.state with
  | .completed _ _ => true
  | _ => false

/-- The pull request a task's progress names, if it names one. -/
def TaskProgress.pullRequest (item : TaskProgress) : Option PullRequest :=
  match item.state with
  | .inProgress request | .blocked _ request => request
  | .completed _ (.pullRequest request) => some request
  | _ => none

/-- `{ ...item, pullRequest }` -/
def TaskProgress.withPullRequest (item : TaskProgress) (request : PullRequest) : TaskProgress :=
  match item.state with
  | .inProgress _ => { item with state := .inProgress (some request) }
  | .blocked blocker _ => { item with state := .blocked blocker (some request) }
  | .completed summary _ => { item with state := .completed summary (.pullRequest request) }
  | .queued => item

/-- The evidence entries are about tasks of the graph, one each, with something to say. -/
def evidenceIds (taskIds : List String) : List String → List VerificationEvidence →
    Option (List String)
  | seen, [] => some seen
  | seen, entry :: rest =>
    if !text entry.taskId || !taskIds.contains entry.taskId || seen.contains entry.taskId
        || entry.evidence.length == 0 || entry.evidence.any (!text ·) then none
    else evidenceIds taskIds (entry.taskId :: seen) rest

def validReport (report : VerificationReport) (tasks : List Task) : Bool :=
  let taskIds := (tasks.map Task.id).dedup
  text report.summary && text report.reviewerMethod
    && match evidenceIds taskIds [] report.evidence with
      | none => false
      | some seen =>
        seen.length == taskIds.length
          && !report.tasksNeedingWork.any (fun id ↦ !text id || !taskIds.contains id)
          && report.tasksNeedingWork.dedup.length == report.tasksNeedingWork.length
          && if report.passed then report.tasksNeedingWork.length == 0
            else report.tasksNeedingWork.length > 0

/-- `deliveryPhase`, with the states of the pull requests seen so far. -/
def deliveryPhaseFrom (requests : List (String × PullRequestState)) : List TaskProgress → Phase
  | [] =>
    -- Tasks that needed no change have nothing to merge; delivery waits on the pull requests there are.
    if requests.length > 0 && requests.all (·.2 == .merged) then .delivered else .implemented
  | item :: rest =>
    match item.state with
    | .completed _ (.pullRequest request) =>
      deliveryPhaseFrom (Entries.set requests request.url request.state) rest
    | .completed _ (.noChange _) => deliveryPhaseFrom requests rest
    | _ => .implemented

def deliveryPhase (tasks : List TaskProgress) : Phase := deliveryPhaseFrom [] tasks

/-! ## The reducer -/

/-- Some task's pull request is at this address and already merged. -/
def mergedAt (tasks : List TaskProgress) (url : String) : Bool :=
  tasks.any fun item ↦ item.pullRequest == some ⟨url, .merged⟩

/-- Every task at this address takes the state just reported. -/
def shareState (tasks : List TaskProgress) (request : PullRequest) : List TaskProgress :=
  tasks.map fun item ↦
    if item.pullRequest.map PullRequest.url == some request.url then item.withPullRequest request
    else item

/-- An event of a run that is implemented or delivered: only the state of a pull request. -/
def reduceFinished (state : ReducerState) (command : Command) : Reduction :=
  match command with
  | .reportPr taskId url reported =>
    match state.progress.find? (·.id == taskId) with
    | none => refused "pull-request"
    | some addressed =>
      if !addressed.completed || addressed.pullRequest.map PullRequest.url != some url then
        refused "pull-request"
      else if !ownPullRequest state.run.repository url then refused "repository"
      else if mergedAt (state.progress.filter TaskProgress.completed) url && reported != .merged then
        refused "pull-request-state"
      else
        let nextTasks := state.progress.map fun item ↦
          if item.completed && item.pullRequest.map PullRequest.url == some url then
            item.withPullRequest ⟨url, reported⟩
          else item
        .ok { state with phase := deliveryPhase nextTasks, progress := nextTasks }
  | _ => refused "terminal"

/-- What a verification demands of each task, in order. -/
def verifiable (repository : String) : List TaskProgress → Option String
  | [] => none
  | item :: rest =>
    match item.state with
    | .completed _ (.noChange _) => verifiable repository rest
    | .completed _ (.pullRequest request) =>
      if request.state != .open && request.state != .merged then some "pull-request"
      else if !ownPullRequest repository request.url then some "repository"
      else verifiable repository rest
    | _ => some "task-state"

/-- A task a failed verification sends back. -/
def TaskProgress.sendBack (item : TaskProgress) : TaskProgress :=
  { item with state := .inProgress item.pullRequest }

def reduceVerification (state : ReducerState) (report : VerificationReport) : Reduction :=
  if !validReport report state.tasks then refused "verification"
  else
    match verifiable state.run.repository state.progress with
    | some reason => refused reason
    | none =>
      if report.passed then
        .ok { state with phase := deliveryPhase state.progress, verification := some report }
      else
        .ok { state with
          progress := state.progress.map fun item ↦
            if report.tasksNeedingWork.contains item.id && item.completed then item.sendBack
            else item
          verification := some report }

/-- The next progress of the task an event addresses. -/
def reduceTask (state : ReducerState) (task : Task) (item : TaskProgress) (command : Command)
    (live : Bool) : Except String TaskProgress :=
  match command with
  | .start _ =>
    match item.state with
    | .queued | .blocked _ _ =>
      if task.dependsOn.any fun id ↦
          (state.progress.find? (·.id == id)).map TaskProgress.completed != some true then
        .error "dependency"
      else .ok { item with state := .inProgress item.pullRequest }
    | _ => .error "task-state"
  | .block _ reason =>
    -- A blocker found before the start implicitly starts the task.  A live run's rebuild may
    -- replace a blocker directly; restarting first would recheck dependencies.
    let takes := match item.state with
      | .inProgress _ | .queued => true
      | .blocked _ _ => live
      | .completed _ _ => false
    if !takes then .error "task-state"
    else if !text reason then .error "reason"
    else .ok { item with state := .blocked reason item.pullRequest }
  | .reportPr _ url reported =>
    match item.state with
    | .queued => .error "task-state"
    | .completed _ (.noChange _) => .error "no-change"
    | _ =>
      if !text url then .error "pull-request"
      else if !ownPullRequest state.run.repository url then .error "repository"
      else if mergedAt state.progress url && reported != .merged then .error "pull-request-state"
      else .ok (item.withPullRequest ⟨url, reported⟩)
  | .complete _ summary noChange =>
    match item.state with
    | .completed _ _ => .error "already-complete"
    | .inProgress request =>
      match noChange with
      | some noChange =>
        -- A task that reported a pull request changed code, so it cannot claim no change.
        if request.isSome then .error "no-change-pull-request"
        else if !noChange.valid then .error "no-change"
        else if !text summary then .error "summary"
        else .ok { item with state := .completed summary (.noChange noChange) }
      | none =>
        match request with
        | none => .error "pull-request"
        | some request =>
          if !text summary then .error "summary"
          else .ok { item with state := .completed summary (.pullRequest request) }
    | _ => .error "task-state"
  | .reportVerification _ | .requestRevision _ => .error "task"

/-- The task an event is about. -/
def Command.taskId : Command → String
  | .start taskId | .block taskId _ | .reportPr taskId _ _ | .complete taskId _ _ => taskId
  | .reportVerification _ | .requestRevision _ => ""

/-- A merged pull request is merged for every task that shares it. -/
def shareMerged (command : Command) (tasks : List TaskProgress) : List TaskProgress :=
  match command with
  | .reportPr _ url .merged => shareState tasks ⟨url, .merged⟩
  | _ => tasks

def reduceActive (state : ReducerState) (command : Command) (live : Bool) : Reduction :=
  match command with
  | .requestRevision reason =>
    if !text reason then refused "reason" else .ok { state with phase := .revisionRequested reason }
  | .reportVerification report => reduceVerification state report
  | _ =>
    let index := state.progress.findIdx (·.id == command.taskId)
    match state.tasks[index]?, state.progress[index]? with
    | some task, some item => do
      let next ← reduceTask state task item command live
      .ok { state with progress := (shareMerged command state.progress).set index next }
    | _, _ => refused "task"

def reduceEvent (state : ReducerState) (stored : ProgressEvent) (live : Bool) : Reduction :=
  match state.phase with
  | .revisionRequested _ => refused "terminal"
  | .implemented | .delivered => reduceFinished state stored.command
  | .active => reduceActive state stored.command live

/-- A live run ends as soon as every task is complete. -/
def settled (state : ReducerState) : ReducerState :=
  if state.phase == .active && state.progress.all TaskProgress.completed then
    { state with phase := deliveryPhase state.progress }
  else state

/-- One step of the fold. -/
def foldEvent (live : Bool) (state : ReducerState) (stored : ProgressEvent) : Reduction := do
  let next ← reduceEvent state stored live
  .ok (if live then settled next else next)

def foldRun (tasks : List Task) (run : Run) (events : List ProgressEvent) (live : Bool) :
    Reduction :=
  events.foldlM (foldEvent live) (initial tasks run)

/-! ## Projections -/

structure Progress where
  tasks : List TaskProgress
  events : List ProgressEvent
  verification : Option VerificationReport
  deriving DecidableEq

inductive Outcome
  | revisionRequested (reason : String)
  | implemented
  | delivered
  deriving DecidableEq

structure HistoricalRun where
  run : Run
  progress : Progress
  outcome : Outcome
  deriving DecidableEq

/-- The outcome of a run that is over. -/
def Phase.outcome : Phase → Option Outcome
  | .active => none
  | .revisionRequested reason => some (.revisionRequested reason)
  | .implemented => some .implemented
  | .delivered => some .delivered

def projectRun (state : ReducerState) (events : List ProgressEvent) : Progress :=
  { tasks := state.progress, events, verification := state.verification }

def projectArchived (graph : Graph) (archived : ArchivedRun) : Option HistoricalRun := do
  let version ← versionFor graph archived.run
  let folded ←
    (foldRun version.definition.tasks archived.run archived.events archived.live).toOption
  let outcome ← folded.phase.outcome
  pure { run := archived.run, progress := projectRun folded archived.events, outcome }

def projectHistory (graph : Graph) (history : List ArchivedRun) : Option (List HistoricalRun) :=
  history.mapM (projectArchived graph)

def historyFor (graph : Graph) (lifecycle : Lifecycle) : List HistoricalRun :=
  (projectHistory graph lifecycle.history).getD []

/-- Project queued work before the first lifecycle event. -/
def progressFor (graph : Graph) (lifecycle : Lifecycle) (execution : Option Run) :
    Option Progress := do
  let run ← execution
  let version ← activeVersion graph run
  let events := lifecycle.events.getD []
  let folded ← (foldRun version.definition.tasks run events false).toOption
  if folded.phase == .active then pure (projectRun folded events) else none

/-! ## Claims -/

/-- Why a run may not own a version. -/
inductive Ineligible
  | alreadyVerified
  | run
  deriving DecidableEq

def Ineligible.reason : Ineligible → String
  | .alreadyVerified => "already-verified"
  | .run => "run"

def Phase.successful : Phase → Bool
  | .implemented | .delivered => true
  | _ => false

/-- `none` is the answer `{ ok: true }`. -/
def eligibility (history : List (Run × Bool)) (version : Version) (runId : String) :
    Option Ineligible :=
  if history.any fun (run, successful) ↦ successful && «matches» run version then
    some .alreadyVerified
  else if history.any fun (run, _) ↦ run.id == runId then some .run
  else none

/-- Whether an archived run of this version reads as a success. -/
def ArchivedRun.successfulFor (version : Version) (archived : ArchivedRun) : Bool :=
  «matches» archived.run version
    && match foldRun version.definition.tasks archived.run archived.events archived.live with
      | .ok folded => folded.phase.successful
      | .error _ => false

/-- Decide whether a run may own this exact graph without reusing lifecycle identity. -/
def claimEligibility (lifecycle : Lifecycle) (version : Version) (runId : String) :
    Option Ineligible :=
  eligibility
    (lifecycle.history.map fun archived ↦ (archived.run, archived.successfulFor version))
    version runId

/-! ## Transitions -/

def event (input : LifecycleInput) : ProgressEvent :=
  { command := input.command, idempotencyKey := input.idempotencyKey }

def sameEvidence : List VerificationEvidence → List VerificationEvidence → Bool
  | [], [] => true
  | entry :: left, other :: right =>
    entry.taskId == other.taskId && entry.evidence == other.evidence && sameEvidence left right
  | _, _ => false

def same (stored : ProgressEvent) (input : LifecycleInput) : Bool :=
  stored.idempotencyKey == input.idempotencyKey
    && match stored.command, input.command with
      | .start taskId, .start taskId' => taskId == taskId'
      | .block taskId reason, .block taskId' reason' => taskId == taskId' && reason == reason'
      | .reportPr taskId url state, .reportPr taskId' url' state' =>
        taskId == taskId' && url == url' && state == state'
      | .complete taskId summary noChange, .complete taskId' summary' noChange' =>
        taskId == taskId' && summary == summary'
          && noChange.map NoChange.reason == noChange'.map NoChange.reason
          && noChange.map NoChange.evidence == noChange'.map NoChange.evidence
      | .reportVerification report, .reportVerification report' =>
        report.passed == report'.passed && report.summary == report'.summary
          && report.reviewerMethod == report'.reviewerMethod
          && sameEvidence report.evidence report'.evidence
          && report.tasksNeedingWork == report'.tasksNeedingWork
      | .requestRevision reason, .requestRevision reason' => reason == reason'
      | _, _ => false

/-- Every recorded event with the run that recorded it, the active run's first. -/
def owned (execution : Option Run) (lifecycle : Lifecycle) : List (String × ProgressEvent) :=
  (match execution with
    | some run => (lifecycle.events.getD []).map (run.id, ·)
    | none => [])
    ++ lifecycle.history.flatMap fun archived ↦ archived.events.map (archived.run.id, ·)

def replay (state : LifecycleState) (input : LifecycleInput) : Option LifecycleResult :=
  match (owned state.execution state.lifecycle).find?
      (·.2.idempotencyKey == input.idempotencyKey) with
  | none => none
  | some (runId, prior) =>
    if runId == input.runId && same prior input then some (.replayed state)
    else some (.refused "idempotency-conflict")

def released (state : LifecycleState) (run : Run) (events : List ProgressEvent) (live : Bool) :
    LifecycleState :=
  { graph := unlockLast state.graph
    execution := none
    lifecycle := { events := none, history := state.lifecycle.history ++ [{ run, events, live }] } }

/-- The event of an archived run: only a late pull-request state. -/
def transitionArchived (state : LifecycleState) (input : LifecycleInput) (index : Nat)
    (archived : ArchivedRun) : LifecycleResult :=
  match input.command, versionFor state.graph archived.run with
  | .reportPr _ _ _, some version =>
    match foldRun version.definition.tasks archived.run archived.events archived.live with
    | .error reason => .refused reason
    | .ok folded =>
      match reduceEvent folded (event input) false with
      | .error reason => .refused reason
      | .ok reduced =>
        if reduced.phase.successful then
          .accepted { state with
            lifecycle := { state.lifecycle with
              history := state.lifecycle.history.set index
                { archived with events := archived.events ++ [event input] } } }
        else .refused "inactive"
  | _, _ => .refused "inactive"

/-- The event of the active run. -/
def transitionActive (state : LifecycleState) (input : LifecycleInput) (live : Bool) :
    LifecycleResult :=
  match state.execution, state.execution.bind (activeVersion state.graph) with
  | some run, some version =>
    if input.runId != run.id then .refused "run"
    else
      let existing := state.lifecycle.events.getD []
      match foldRun version.definition.tasks run existing false with
      | .error _ => .refused "invalid-lifecycle"
      | .ok folded =>
        if folded.phase != .active then .refused "invalid-lifecycle"
        else
          match reduceEvent folded (event input) false with
          | .error reason => .refused reason
          | .ok reduced =>
            let events := existing ++ [event input]
            if reduced.phase != .active then .accepted (released state run events false)
            else if live && (settled reduced).phase != .active then
              .accepted (released state run events true)
            else
              .accepted { state with lifecycle := { state.lifecycle with events := some events } }
  | _, _ => .refused "run"

/-- Apply one lifecycle event without mutating the graph or claim identity.

A `live` transition releases the run as soon as every task is complete. -/
def transition (state : LifecycleState) (input : LifecycleInput) (live : Bool) :
    LifecycleResult :=
  if !text input.runId then .refused "run"
  else if !text input.idempotencyKey then .refused "idempotency-key"
  else
    match replay state input with
    | some prior => prior
    | none =>
      let history := state.lifecycle.history
      let index := history.findIdx (·.run.id == input.runId)
      match history[index]? with
      | some archived => transitionArchived state input index archived
      | none => transitionActive state input live

/-- Every recorded event, the active run's first. -/
def Lifecycle.allEvents (lifecycle : Lifecycle) : List ProgressEvent :=
  lifecycle.events.getD [] ++ lifecycle.history.flatMap ArchivedRun.events

def Command.requestsRevision : Command → Bool
  | .requestRevision _ => true
  | _ => false

theorem requestsRevision_iff {command : Command} :
    command.requestsRevision = true ↔ ∃ reason, command = .requestRevision reason := by
  cases command <;> simp [Command.requestsRevision]

/-- Add task events to a live run that stopped short and was archived by a requested revision.
They go before its revision, which is dropped once every task completes so the run reads as
implemented. -/
def resumeLiveRun (graph : Graph) (lifecycle : Lifecycle) (runId : String)
    (added : List ProgressEvent) : Option Lifecycle := do
  let index := lifecycle.history.findIdx (·.run.id == runId)
  let archived ← lifecycle.history[index]?
  let revision ← archived.events.getLast?
  let version ← versionFor graph archived.run
  let stopped := archived.live && revision.command.requestsRevision
  let keys := lifecycle.allEvents.map ProgressEvent.idempotencyKey
  if !stopped || added.any (fun event ↦ keys.contains event.idempotencyKey) then none
  else
    let events := archived.events.dropLast ++ added
    let folded ← (foldRun version.definition.tasks archived.run events true).toOption
    let resumed (events : List ProgressEvent) : Lifecycle :=
      { lifecycle with history := lifecycle.history.set index { archived with events } }
    match folded.phase with
    | .revisionRequested _ => none
    | .active => some (resumed (events ++ [revision]))
    | .implemented | .delivered => some (resumed events)

end Chopin.Tasks
