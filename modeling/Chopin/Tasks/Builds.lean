import Chopin.Tasks.PlanGraphs

/-!
# Builds and rebuilds

The operations of `tasks/builds.ts` on an open plan: a first build is queued for a paired machine,
picked up, reported on and stopped; once it went live, later edits are queued as rebuilds, and a
rebuild's report lands on the graph, the lifecycle and the living record at once.

What an operation reads of the world is an argument: the identifiers and times it would draw, the
blockers that comments and investigations put in its way, the connections of paired machines.
-/

set_option autoImplicit false
set_option linter.dupNamespace false

open Script

namespace Chopin.Tasks

/-! ## Starting builds -/

structure BuildInput where
  retryOf : Option String
  planRevision : Nat
  graphVersion : Nat
  graphRevision : Nat
  user : String
  machineOwner : Option String
  connectionId : String
  machineId : Option String
  machineService : Bool
  repositoryId : String
  checkout : Checkout
  deriving DecidableEq

/-- What an operation draws when it starts or ends a build. -/
structure Draw where
  /-- `crypto.randomUUID()` -/
  id : String
  /-- `new Date().toISOString()` -/
  now : String
  /-- `Date.now()` -/
  clock : Nat
  deriving DecidableEq

/-- The build a fresh input asks for. -/
def BuildInput.build (input : BuildInput) (draw : Draw) : BuildRequest :=
  { id := draw.id, retryOf := input.retryOf, user := input.user
    machineOwner := input.machineOwner, connectionId := input.connectionId
    machineId := input.machineId, machineService := input.machineService
    repositoryId := input.repositoryId, checkout := input.checkout
    planRevision := input.planRevision, graphVersion := input.graphVersion
    graphRevision := input.graphRevision, createdAt := draw.now, finishedAt := none
    expiresAt := draw.clock + 90000, state := .queued, session := none, error := none
    stoppedAtRevision := none, activity := none, reportKey := none, resumable := false
    rebuild := none }

def BuildInput.sameOwnerAndCheckout (input : BuildInput) (existing : BuildRequest) : Bool :=
  existing.user == input.user && existing.machineOwner == input.machineOwner
    && existing.connectionId == input.connectionId && existing.repositoryId == input.repositoryId
    && existing.checkout == input.checkout

/-- What the last build says of a request for the same graph: it is that build, a retry of it, or
out of order. -/
def reviewExisting (plan : Plan) (input : BuildInput) : Except String (Option BuildRequest) :=
  match plan.builds.getLast? with
  | some existing =>
    if existing.graphVersion == input.graphVersion && existing.graphRevision == input.graphRevision
        && existing.planRevision == input.planRevision then
      if input.sameOwnerAndCheckout existing && existing.retryOf == input.retryOf then
        .ok (some existing)
      else if input.retryOf != some existing.id || existing.state.active then
        .error "review the existing build before retrying"
      else .ok none
    else if input.retryOf.isSome then .error "reviewed build has changed"
    else .ok none
  | none => if input.retryOf.isSome then .error "reviewed build has changed" else .ok none

/-- The graph a build is of: a draft is approved by asking for it. -/
def approvedGraph (plan : Plan) (graph : Graph) (version : Version) : Result Graph :=
  if version.state == .approved then .ok graph else approveGraph plan.graph (some plan.revision)

/-- The plan with a build of its reviewed graph queued, and that build. -/
def queueBuild (platform : Platform) (plan : Plan) (input : BuildInput) (blockers : List String)
    (draw : Draw) : Except String (BuildRequest × Plan) :=
  match plan.graph, plan.graph.bind current with
  | some graph, some version =>
    if input.planRevision != plan.revision || version.planRevision != input.planRevision
        || version.number != input.graphVersion || version.revision != input.graphRevision then
      .error "reviewed graph has changed"
    else do
      match ← reviewExisting plan input with
      | some existing => pure (existing, plan)
      | none =>
        if plan.execution.isSome || plan.builds.any (·.state.active) then
          .error "implementation is already active"
        else if blockers != [] then .error (", ".intercalate blockers)
        else
          match claimEligibility plan.lifecycle version draw.id with
          | some ineligible => .error ineligible.reason
          | none =>
            let approved ← approvedGraph plan graph version
            let build ← (input.build draw).parse platform
            if 100 ≤ plan.builds.length then .error "build history is full"
            else pure (build, { plan with graph := some approved, builds := plan.builds ++ [build] })
  | _, _ => .error "reviewed graph has changed"

/-! ## Connections of paired machines -/

/-- A checkout a connection said it has. -/
structure Source where
  repositoryId : String
  checkout : Checkout
  deriving DecidableEq

structure Connection where
  id : String
  owner : String
  machineId : String
  checkouts : List Source
  anyRepository : Bool
  autoRun : Bool
  shared : Bool
  service : Bool
  deriving DecidableEq

structure RebuildConnections where
  get : String → Option Connection
  list : String → String → List Connection
  assigned : String → Option String
  allows : Option (String → Connection → String → Bool)
  favoriteShared : Option (String → String → String → List Connection)

def serves (connection : Connection) (repositoryId : String) : Bool :=
  connection.anyRepository || connection.checkouts.any (·.repositoryId == repositoryId)

/-- The checkout a connection says it has of a repository, else the fallback. -/
def checkoutFor (connection : Connection) (repositoryId : String) (fallback : Checkout) : Checkout :=
  ((connection.checkouts.find? (·.repositoryId == repositoryId)).map Source.checkout).getD fallback

structure RebuildOptions where
  automatic : Bool
  /-- Who pressed Build. -/
  «by» : Option String
  deriving DecidableEq

/-- Whether a connection may take the rebuild of `owner`. -/
def usable (connections : RebuildConnections) (plan : Plan) (options : RebuildOptions)
    (owner repositoryId : String) (connection : Connection) : Bool :=
  (if connection.owner == owner then
      (connections.allows.map (· plan.id connection owner)).getD true
    else !options.automatic && connection.shared
      && (connections.allows.map (· plan.id connection owner)).getD false)
    && serves connection repositoryId && (!options.automatic || connection.autoRun)
    && (connections.assigned connection.id).all (· == plan.id)

/-- The connection a rebuild goes to: a favourite shared machine, the first build's, any other. -/
def chooseConnection (connections : RebuildConnections) (plan : Plan) (options : RebuildOptions)
    (owner repositoryId : String) (original : Option BuildRequest) : Option Connection :=
  let usable := usable connections plan options owner repositoryId
  let favorite :=
    if options.automatic then none
    else connections.favoriteShared.bind fun shared ↦
      (shared repositoryId owner plan.id).find? usable
  let connection := favorite <|> original.bind fun original ↦ connections.get original.connectionId
  match connection.filter usable with
  | some connection => some connection
  | none => (connections.list repositoryId owner).find? usable

/-- Rebuilds that already ended give way, oldest first, so that one more build fits. -/
def trimBuilds (liveId : String) : Nat → List BuildRequest → List BuildRequest
  | _, [] => []
  | 0, builds => builds
  | excess + 1, build :: rest =>
    if build.rebuild.isNone || build.id == liveId || build.state.active then
      build :: trimBuilds liveId (excess + 1) rest
    else trimBuilds liveId excess rest

inductive RebuildResult
  | queued (build : BuildRequest)
  | busy
  | unchanged
  | unavailable
  | blocked (blockers : List String)
  deriving DecidableEq

/-- The rebuild of a plan's edits by `owner` on a connection. -/
def rebuildOn (plan : Plan) (live : LiveBuild) (original : BuildRequest) (owner : String)
    (connection : Connection) (draw : Draw) : BuildRequest :=
  { id := draw.id, retryOf := none, user := owner
    machineOwner := if connection.owner != owner then some connection.owner else none
    connectionId := connection.id, machineId := some connection.machineId
    machineService := connection.service, repositoryId := live.repositoryId
    checkout := checkoutFor connection live.repositoryId original.checkout
    planRevision := plan.revision, graphVersion := original.graphVersion
    graphRevision := original.graphRevision, createdAt := draw.now, finishedAt := none
    expiresAt := draw.clock + 90000, state := .queued, session := none, error := none
    stoppedAtRevision := none, activity := none, reportKey := none, resumable := false
    rebuild := some { baseRevision := live.baseRevision, targetRevision := plan.revision } }

/-- Queue a rebuild of a built document's edits onto its pull requests. -/
def queueRebuild (platform : Platform) (plan : Plan) (connections : RebuildConnections)
    (options : RebuildOptions) (blockers : List String) (draw : Draw) :
    Except String (RebuildResult × Plan) :=
  match plan.live with
  | none => .ok (.unavailable, plan)
  | some live =>
    if options.automatic && stoppedForRevision plan plan.revision then .ok (.unavailable, plan)
    else if buildActive plan then .ok (.busy, plan)
    else if plan.source == live.baseSource then .ok (.unchanged, plan)
    else if blockers != [] then .ok (.blocked blockers, plan)
    else
      let owner := options.«by».getD live.user
      let original := plan.builds.find? (·.id == live.buildId)
      match original, chooseConnection connections plan options owner live.repositoryId original with
      | some original, some connection =>
        let history := trimBuilds live.buildId (plan.builds.length - 99) plan.builds
        if 100 ≤ history.length then .ok (.unavailable, plan)
        else do
          let build ← (rebuildOn plan live original owner connection draw).parse platform
          pure (.queued build, { plan with
            builds := history ++ [build]
            live := some { live with
              target := some { buildId := build.id, revision := plan.revision, source := plan.source } } })
      | _, _ => .ok (.unavailable, plan)

/-- What a live check found: the delta needs no code. -/
structure Checked where
  baseSource : String
  revision : Nat
  source : String
  summary : String
  deriving DecidableEq

/-- The last fifty of a list (`slice(-50)`), and of another length. -/
def lastOf {α : Type} (limit : Nat) (values : List α) : List α :=
  values.drop (values.length - limit)

/-- Record that an edit needed no code. -/
def settleLive (plan : Plan) (checked : Checked) (draw : Draw) : Bool × Plan :=
  match plan.live with
  | none => (false, plan)
  | some live =>
    if live.baseSource != checked.baseSource || live.outstanding.any (·.length > 0)
        || buildActive plan || plan.revision < checked.revision
        || stoppedForRevision plan checked.revision then
      (false, plan)
    else
      (true, { plan with live := some { live with
        baseRevision := checked.revision
        baseSource := checked.source
        noChange := some (lastOf 50 (live.noChange.getD [] ++ [{
          buildId := draw.id, revision := checked.revision, summary := checked.summary
          «at» := draw.now }])) } })

/-! ## Reports of a build -/

/-- Persist pickup before the companion receives permission to spawn a process. -/
def pickBuild (plan : Plan) (user connectionId : String) (resumable : Bool) (clock : Nat) :
    Option Plan :=
  match plan.builds.getLast? with
  | none => none
  | some build =>
    if runner build != user || build.connectionId != connectionId || build.state != .queued then none
    else some { plan with builds := plan.builds.dropLast ++ [{ build with
      state := .starting, expiresAt := clock + 60000, resumable := resumable || build.resumable }] }

/-- The server's own request when a build stops short. -/
def liveStop (run : Run) : LifecycleInput :=
  { command := .requestRevision
      "The build stopped with outstanding tasks. Later edits resume them."
    idempotencyKey := run.id ++ ":live-stop", runId := run.id }

def TaskProgress.blocked (item : TaskProgress) : Bool :=
  match item.state with
  | .blocked _ _ => true
  | _ => false

/-- The last archived run becomes a live one (`archived.live = true`). -/
def markLive (lifecycle : Lifecycle) (archived : ArchivedRun) : Lifecycle :=
  { lifecycle with history := lifecycle.history.dropLast ++ [{ archived with live := true }] }

/-- A first live build that stops short of its last task still goes live from what it delivered. -/
def liveFromStopped (plan : Plan) (build : BuildRequest) : Plan :=
  match plan.graph, plan.execution with
  | some graph, some run =>
    if !plan.liveBuild || plan.live.isSome || build.rebuild.isSome || run.id != build.id then plan
    else
      match progressFor graph plan.lifecycle (some run) with
      | none => plan
      | some progress =>
        let pullRequests := Entries.distinct (progress.tasks.filterMap fun task ↦
          task.pullRequest.map PullRequest.url)
        let outstanding := (progress.tasks.filter (!·.completed)).map TaskProgress.id
        -- with no pull request yet, only a blocker makes it live
        if outstanding.length == 0
            || pullRequests.length == 0 && !progress.tasks.any TaskProgress.blocked then plan
        else
          match transition ⟨graph, some run, plan.lifecycle⟩ (liveStop run) false with
          | .accepted next =>
            match next.lifecycle.history.getLast? with
            | some archived =>
              if archived.run.id != run.id then plan
              else { plan with
                graph := some next.graph, execution := next.execution
                lifecycle := markLive next.lifecycle archived
                live := some (plan.goLive build pullRequests (some outstanding)) }
            | none => plan
          | _ => plan
  | _, _ => plan

/-- A connector's report; a field it leaves out stays as it is. -/
structure BuildReport where
  state : BuildState
  session : Option String
  error : Option String
  expiresAt : Option Nat
  reportKey : Option String
  /-- The progress line, as `activityText` shows it. -/
  progress : Option String
  stoppedByUser : Bool
  deriving DecidableEq

/-- The build after a report, before it is parsed. -/
def BuildRequest.reported (build : BuildRequest) (report : BuildReport) (revision : Nat)
    (now : String) : BuildRequest :=
  { build with
    state := report.state
    session := report.session <|> build.session
    error := report.error <|> build.error
    expiresAt := report.expiresAt.getD build.expiresAt
    stoppedAtRevision := if report.stoppedByUser then some revision else build.stoppedAtRevision
    finishedAt := if build.state != report.state && !report.state.active then some now
      else build.finishedAt
    activity := match report.progress with
      | some progress =>
        if progress != "" && some progress != build.activity.map Activity.text then
          some { text := progress, «at» := now }
        else build.activity
      | none => build.activity
    -- a key names the report that set the state; any other change of state drops it
    reportKey := if report.state == build.state then report.reportKey <|> build.reportKey
      else report.reportKey }

/-- A report that repeats what a finished build already says. -/
def BuildRequest.repeats (build : BuildRequest) (report : BuildReport) : Bool :=
  report.state == build.state && report.session.all (some · == build.session)
    && report.error.all (some · == build.error) && report.expiresAt.all (· == build.expiresAt)
    && report.reportKey.all (some · == build.reportKey) && report.progress.isNone
    && !report.stoppedByUser

def reportBuild (platform : Platform) (plan : Plan) (user connectionId id : String)
    (report : BuildReport) (draw : Draw) : Except String Plan :=
  match plan.builds.getLast? with
  | none => .error "build is unavailable"
  | some build =>
    if build.id != id || runner build != user || build.connectionId != connectionId then
      .error "build is unavailable"
    else if build.state == .queued && report.state != .failed
        || !build.state.active && !build.repeats report then
      .error "build report is out of order"
    else do
      let next ← (build.reported report plan.revision draw.now).parse platform
      let reported := { plan with builds := plan.builds.dropLast ++ [next] }
      -- only the agent's own stop goes live
      pure (if build.state != next.state && next.state == .stopped then liveFromStopped reported next
        else reported)

end Chopin.Tasks
