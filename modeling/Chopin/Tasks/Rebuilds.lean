import Chopin.Tasks.Builds

/-!
# Landing a rebuild

`reportRebuild` of `tasks/builds.ts`.  A rebuild's report is taken over in one step: what became of
the first build's outstanding tasks goes into that build's archived log (`resumeOutstanding`), the
tasks the rebuild did of its own become a graph version that is complete from the start, and the
living record advances to the target the rebuild was sealed with.
-/

set_option autoImplicit false
set_option linter.dupNamespace false

open Script

namespace Chopin.Tasks

/-! ## The report -/

structure ReportedCommit where
  pullRequest : String
  sha : String
  message : String
  deriving DecidableEq

structure ReportedTask where
  title : String
  goal : String
  pullRequest : String
  deriving DecidableEq

inductive Outstanding
  /-- The pull request is required when the task had none. -/
  | done (pullRequest : Option String)
  | blocked (blocker : String)
  | dropped
  deriving DecidableEq

/-- What became of an outstanding task. -/
structure TaskOutcome where
  taskId : String
  outcome : Outstanding
  deriving DecidableEq

structure RebuildReport where
  summary : String
  commits : List ReportedCommit
  tasks : List ReportedTask
  outstanding : Option (List TaskOutcome)
  deriving DecidableEq

/-- A string a schema trims and bounds, once it was parsed. -/
def trimmed (limit : Nat) (value : String) : Bool := trim value == value && bounded limit value

def Outstanding.valid (platform : Platform) : Outstanding → Bool
  | .done pullRequest => pullRequest.all fun url ↦ platform.address url == some url
  | .blocked blocker => trimmed 2000 blocker
  | .dropped => true

/-- What `rebuildReportSchema` lets through. -/
def RebuildReport.valid (platform : Platform) (report : RebuildReport) : Bool :=
  trimmed 2000 report.summary
    && report.commits.length ≤ 50
    && report.commits.all (fun commit ↦ platform.address commit.pullRequest == some commit.pullRequest
      && anyHex 7 40 commit.sha && trimmed 500 commit.message)
    && report.tasks.length ≤ 20
    && report.tasks.all (fun task ↦ trimmed 200 task.title && trimmed 2000 task.goal
      && platform.address task.pullRequest == some task.pullRequest)
    && report.outstanding.all fun outcomes ↦ outcomes.length ≤ 100
      && outcomes.all fun outcome ↦ bounded 128 outcome.taskId && outcome.outcome.valid platform

def TaskOutcome.pullRequest (outcome : TaskOutcome) : Option String :=
  match outcome.outcome with
  | .done pullRequest => pullRequest
  | _ => none

/-- Every pull request the report names, in order. -/
def RebuildReport.pullRequests (report : RebuildReport) : List String :=
  report.commits.map ReportedCommit.pullRequest ++ report.tasks.map ReportedTask.pullRequest
    ++ (report.outstanding.getD []).filterMap TaskOutcome.pullRequest

/-! ## Outstanding tasks -/

/-- The events that take a task to what the rebuild made of it; `none` where there is nothing to
report. -/
def outcomeEvents (item : TaskProgress) (key summary : String) (outcome : TaskOutcome) :
    Option (List ProgressEvent) :=
  match outcome.outcome with
  | .dropped => none
  | .blocked blocker =>
    -- a live run replaces a blocker directly, so an unfinished dependency cannot refuse it
    some [⟨.block item.id blocker, key ++ ":block"⟩]
  | .done pullRequest =>
    let existing := item.pullRequest.map PullRequest.url
    match pullRequest <|> existing with
    | none => none
    | some url =>
      if url == "" then none
      else
        let start := match item.state with
          | .inProgress _ => []
          | _ => [⟨.start item.id, key ++ ":start"⟩]
        -- the task's own pull request reported again as open would be refused once it merged
        let report := if some url != existing then [⟨.reportPr item.id url .open, key ++ ":pr"⟩]
          else []
        some (start ++ report ++ [⟨.complete item.id summary none, key ++ ":done"⟩])

/-- What resuming the outstanding tasks has come to. -/
structure Resumption where
  lifecycle : Lifecycle
  remaining : List String
  deriving DecidableEq

/-- The version an archived run was about, as `resumeOutstanding` looks it up. -/
def numberedVersion (graph : Graph) (archived : ArchivedRun) : Option Version :=
  graph.versions.find? (·.number == archived.run.graphVersion)

/-- One task of the first build's version. -/
def resumeTask (graph : Graph) (live : LiveBuild) (buildId : String) (report : RebuildReport)
    (index : Nat) (state : Resumption) (task : Task) : Resumption :=
  match (report.outstanding.getD []).find? (·.taskId == task.id) with
  | none => state
  | some outcome =>
    if !state.remaining.contains task.id then state
    else if outcome.outcome == .dropped then
      { state with remaining := state.remaining.filter (· != task.id) }
    else
      let item := (historyFor graph state.lifecycle)[index]?.bind fun run ↦
        run.progress.tasks.find? (·.id == task.id)
      match item.filter (!·.completed) with
      | none => state
      | some item =>
        let added := outcomeEvents item (buildId ++ ":" ++ task.id) report.summary outcome
        match added.bind (resumeLiveRun graph state.lifecycle live.buildId) with
        | none => state
        | some lifecycle =>
          match outcome.outcome with
          | .done _ => { lifecycle, remaining := state.remaining.filter (· != task.id) }
          | _ => { state with lifecycle }

/-- Apply a rebuild's outcomes to the first build's archived run, in graph order. -/
def resumeOutstanding (graph : Graph) (start : Lifecycle) (live : LiveBuild) (buildId : String)
    (report : RebuildReport) : Option Resumption :=
  let index := start.history.findIdx (·.run.id == live.buildId)
  match live.outstanding, start.history[index]?.bind (numberedVersion graph) with
  | some outstanding, some version =>
    if (report.outstanding.getD []).length == 0 then none
    else some (version.definition.tasks.foldl (resumeTask graph live buildId report index)
      { lifecycle := start, remaining := Entries.distinct outstanding })
  | _, _ => none

/-- The tasks a first build left unfinished, with any pull request. -/
def outstandingTasks (plan : Plan) : List (Task × TaskProgress) :=
  match plan.live.bind LiveBuild.outstanding, plan.live, plan.graph with
  | some outstanding, some live, some graph =>
    let index := plan.lifecycle.history.findIdx (·.run.id == live.buildId)
    let tasks := ((plan.lifecycle.history[index]?.bind (numberedVersion graph)).map
      (·.definition.tasks)).getD []
    let progress := ((historyFor graph plan.lifecycle)[index]?.map (·.progress.tasks)).getD []
    outstanding.filterMap fun id ↦
      match tasks.find? (·.id == id), progress.find? (·.id == id) with
      | some task, some item => if item.completed then none else some (task, item)
      | _, _ => none
  | _, _, _ => []

/-! ## The appended version -/

def sameUrl (platform : Platform) (left right : String) : Bool :=
  platform.toLowerCase left == platform.toLowerCase right

/-- GitHub owner and repository names are case-insensitive. -/
def pullPrefix (platform : Platform) (live : LiveBuild) : String :=
  platform.toLowerCase ("https://github.com/" ++ live.checkout.repository ++ "/pull/")

/-- Pull requests the report names that the document does not have yet. -/
def openedRequests (platform : Platform) (live : LiveBuild) (report : RebuildReport) : List String :=
  Entries.distinct (report.pullRequests.filter fun url ↦
    url != "" && !live.pullRequests.any (sameUrl platform · url))

/-- The id of the version's task at an index. -/
def rebuildTaskId (number index : Nat) : String :=
  "rebuild-" ++ toString number ++ "-" ++ toString (index + 1)

def rebuildTask (platform : Platform) (live : LiveBuild) (target : Target) (number index : Nat)
    (task : ReportedTask) : Task :=
  let start := pullPrefix platform live
  let request :=
    if startsWith task.pullRequest start then "#" ++ slice task.pullRequest (units start)
    else task.pullRequest
  { id := rebuildTaskId number index
    title := task.title
    context := "Living-document rebuild of revisions " ++ toString live.baseRevision ++ " to "
      ++ toString target.revision ++ "."
    goal := task.goal
    acceptance := ["Updates pull request " ++ request ++ ".", "Matches the document as edited."]
    dependsOn := [] }

/-- The tasks of a rebuild, as a graph definition. -/
def rebuildDefinition (platform : Platform) (live : LiveBuild) (target : Target) (number : Nat)
    (report : RebuildReport) : Definition :=
  ⟨report.tasks.mapIdx (rebuildTask platform live target number)⟩

/-- The run that did them. -/
def rebuildRun (live : LiveBuild) (target : Target) (build : BuildRequest) (number : Nat) : Run :=
  { id := build.id, user := build.user, client := { name := "chopin-acp", version := "0.1.0" }
    session := build.session.getD build.id, planRevision := target.revision
    graphVersion := number, graphRevision := 1, repository := live.checkout.repository
    branch := "chopin/rebuild-" ++ String.ofList (build.id.toList.take 8)
    commit := build.checkout.commit, startedAt := build.createdAt }

/-- A task that was started, given its pull request and completed. -/
def deliveredEvents (buildId summary taskId url : String) : List ProgressEvent :=
  let key := buildId ++ ":" ++ taskId
  [⟨.start taskId, key ++ ":start"⟩, ⟨.reportPr taskId url .open, key ++ ":pr"⟩,
    ⟨.complete taskId summary none, key ++ ":complete"⟩]

def rebuildEvents (buildId : String) (number : Nat) (report : RebuildReport) : List ProgressEvent :=
  (report.tasks.mapIdx fun index task ↦
    deliveredEvents buildId report.summary (rebuildTaskId number index) task.pullRequest).flatten

/-- The rebuild's own tasks as a completed version of the graph, with the run that did them. -/
def appendRebuild (platform : Platform) (graph : Graph) (lifecycle : Lifecycle) (live : LiveBuild)
    (target : Target) (build : BuildRequest) (report : RebuildReport) :
    Except String (Graph × Lifecycle) :=
  match current graph with
  | some latest =>
    -- a draft the Planner started since the build keeps its place; only the commits are recorded
    if report.tasks.length > 0 && latest.state == .approved then do
      let number := latest.number + 1
      let checked ← validate (rebuildDefinition platform live target number report)
      let versions := (setLast graph { latest with state := .superseded }).versions ++ [{
        number, revision := 1, planRevision := target.revision, state := .approved
        definition := checked }]
      let archived : ArchivedRun := {
        run := rebuildRun live target build number
        events := rebuildEvents build.id number report
        live := true }
      pure (⟨versions⟩, { lifecycle with history := lifecycle.history ++ [archived] })
    else pure (graph, lifecycle)
  | none => pure (graph, lifecycle)

/-! ## The landed record -/

/-- The living record once a rebuild has landed. -/
def LiveBuild.landed (platform : Platform) (live : LiveBuild) (target : Target) (buildId : String)
    (opened outstanding : List String) (report : RebuildReport) (now : String) : LiveBuild :=
  { live with
    target := none
    outstanding := if outstanding.length == 0 then none else some outstanding
    baseRevision := target.revision
    baseSource := target.source
    pullRequests := live.pullRequests ++ opened
    commits := some (lastOf 200 (live.commits.getD [] ++ report.commits.map fun commit ↦
      { pullRequest := commit.pullRequest, sha := platform.toLowerCase commit.sha
        message := commit.message, revision := target.revision, «at» := now }))
    noChange :=
      if report.commits.length == 0 && report.tasks.length == 0
          && !(report.outstanding.getD []).any (·.outcome != .dropped) then
        some (lastOf 50 (live.noChange.getD [] ++ [{
          buildId, revision := target.revision, summary := report.summary, «at» := now }]))
      else live.noChange }

/-- What the rebuild's outcomes come to, where there are any to resume. -/
def resumed (plan : Plan) (live : LiveBuild) (buildId : String) (report : RebuildReport) :
    Option Resumption :=
  plan.graph.bind (resumeOutstanding · plan.lifecycle live buildId report)

/-- `resumed?.lifecycle ?? plan.lifecycle` -/
def resumedLifecycle (plan : Plan) (live : LiveBuild) (buildId : String) (report : RebuildReport) :
    Lifecycle :=
  ((resumed plan live buildId report).map Resumption.lifecycle).getD plan.lifecycle

/-- `resumed?.outstanding ?? live.outstanding ?? []` -/
def resumedOutstanding (plan : Plan) (live : LiveBuild) (buildId : String) (report : RebuildReport) :
    List String :=
  ((resumed plan live buildId report).map Resumption.remaining).getD (live.outstanding.getD [])

/-- The rebuild's version and run, where the document has a graph. -/
def landGraph (platform : Platform) (graph : Option Graph) (lifecycle : Lifecycle) (live : LiveBuild)
    (target : Target) (build : BuildRequest) (report : RebuildReport) :
    Except String (Option Graph × Lifecycle) :=
  match graph with
  | none => .ok (none, lifecycle)
  | some graph =>
    (appendRebuild platform graph lifecycle live target build report).map fun (graph, lifecycle) ↦
      (some graph, lifecycle)

/-- Land a rebuild. -/
def reportRebuild (platform : Platform) (plan : Plan) (buildId : String) (report : RebuildReport)
    (now : String) : Except String Plan :=
  match plan.live, plan.live.bind LiveBuild.target, plan.builds.getLast? with
  | some live, some target, some build =>
    if build.id != buildId || build.rebuild.isNone || build.state != .running
        || target.buildId != buildId then
      .error "build-inactive"
    else
      -- only an outstanding task that had no pull request may bring a new one
      let openings := ((outstandingTasks plan).filter (·.2.pullRequest.isNone)).length
      let opened := openedRequests platform live report
      let start := pullPrefix platform live
      if openings < opened.length
          || opened.any (fun url ↦ !startsWith (platform.toLowerCase url) start
            || !digits (slice url (units start))) then
        .error "pull-request"
      else do
        let (graph, lifecycle) ← landGraph platform plan.graph
          (resumedLifecycle plan live build.id report) live target build report
        let stopped ← { build with state := .stopped, finishedAt := some now }.parse platform
        pure { plan with
          graph, lifecycle
          live := some (live.landed platform target buildId opened
            (resumedOutstanding plan live build.id report) report now)
          builds := plan.builds.dropLast ++ [stopped] }
  | _, _, _ => .error "build-inactive"

end Chopin.Tasks
