import Chopin.Tasks.Plan

/-!
# Claims and reports on an open document

The operations of `tasks/plan-graphs.ts` as they act on an open plan once its queue is theirs.  A
commit that fails puts back what was there, so only the ones that succeed are modelled.
-/

set_option autoImplicit false
set_option linter.dupNamespace false

open Script

namespace Chopin.Tasks

/-- Lock one approved graph for an eligible run. -/
def claimImplementation (plan : Plan) (input : ClaimInput) : ClaimResult × Plan :=
  if plan.execution.isSome then
    (Graphs.claim plan.graph (some plan.revision) plan.execution input, plan)
  else
    match (plan.graph.bind current).bind (claimEligibility plan.lifecycle · input.run.id) with
    | some ineligible => (.refused ineligible.reason, plan)
    | none =>
      match Graphs.claim plan.graph (some plan.revision) plan.execution input with
      | .started graph run =>
        (.started graph run, { plan with graph := some graph, execution := some run })
      | result => (result, plan)

/-- The pull requests of completed tasks, each once. -/
def deliveredRequests (tasks : List TaskProgress) : List String :=
  Entries.distinct ((tasks.filter TaskProgress.completed).filterMap fun task ↦
    task.pullRequest.map PullRequest.url)

/-- The living record of a build that goes live at the plan's present source. -/
def Plan.goLive (plan : Plan) (build : BuildRequest) (pullRequests : List String)
    (outstanding : Option (List String)) : LiveBuild :=
  { buildId := build.id, user := build.user, repositoryId := build.repositoryId
    checkout := build.checkout, baseRevision := plan.revision, baseSource := plan.source
    pullRequests, commits := none, outstanding, noChange := none, target := none }

/-- The build whose run ends live: its last completed task ends it. -/
def Plan.liveRun (plan : Plan) : Option BuildRequest :=
  if plan.liveBuild && plan.live.isNone then
    plan.execution.bind fun run ↦ plan.builds.find? (·.id == run.id)
  else none

/-- Without living builds, the browser build whose run has just ended. -/
def Plan.manualRun (plan : Plan) (next : LifecycleState) : Option BuildRequest :=
  let archived := next.lifecycle.history.getLast?
  if !plan.liveBuild && plan.live.isNone && next.execution.isNone
      && archived.map (·.run.id) == plan.execution.map Run.id then
    archived.bind fun archived ↦
      plan.builds.find? fun build ↦ build.id == archived.run.id && build.rebuild.isNone
  else none

/-- What that build delivered, if it did. -/
def Plan.manualLive (plan : Plan) (next : LifecycleState) : Option LiveBuild := do
  let build ← plan.manualRun next
  let finished ← (historyFor next.graph next.lifecycle).getLast?
  match finished.outcome with
  | .implemented | .delivered =>
    pure (plan.goLive build (deliveredRequests finished.progress.tasks) none)
  | .revisionRequested _ => none

/-- The living record after an accepted report.  There is no answer where the source reads the
projection of a history that has none. -/
def Plan.reportedLive (plan : Plan) (next : LifecycleState) : Option (Option LiveBuild) :=
  let live := plan.manualLive next <|> plan.live
  match plan.liveRun, next.execution, next.lifecycle.history.getLast? with
  | some build, none, some archived =>
    if archived.run.id == build.id && archived.live then
      (historyFor next.graph next.lifecycle).getLast?.map fun delivered ↦
        some (plan.goLive build (deliveredRequests delivered.progress.tasks) none)
    else some live
  | _, _, _ => some live

/-- Take over what a transition of the lifecycle came to. -/
def Plan.withLifecycle (plan : Plan) (next : LifecycleState) : Plan :=
  { plan with graph := some next.graph, execution := next.execution, lifecycle := next.lifecycle }

/-- One lifecycle transition of an open document, and the living record that it may file. -/
def reportImplementationLifecycle (plan : Plan) (input : LifecycleInput) :
    Option (LifecycleResult × Plan) :=
  match plan.graph with
  | none => some (.refused "inactive", plan)
  | some graph =>
    match transition ⟨graph, plan.execution, plan.lifecycle⟩ input plan.liveRun.isSome with
    | .accepted next =>
      (plan.reportedLive next).map fun live ↦
        (.accepted next, { plan.withLifecycle next with live })
    | result => some (result, plan)

end Chopin.Tasks
