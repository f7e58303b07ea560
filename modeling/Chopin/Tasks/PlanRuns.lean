import Chopin.Lib.Runs
import Chopin.Tasks.Rebuilds

/-!
# Runs of a document

Everything that happens to an open document's implementation, as one step function.  A document is
edited; its graph is revised and approved by the Planner; builds are queued, claimed, reported on
and stopped; once one is live, edits are settled or rebuilt, and rebuilds land.  Lifecycle reports
reach a document through its open room, or through its stored record while no room is open.

What the steps draw — identifiers, times — is what the platform says such a thing looks like, and an
identifier that was drawn is in use nowhere else.
-/

set_option autoImplicit false
set_option linter.dupNamespace false

open Script

namespace Chopin.Tasks

/-- The summary a live check settles with. -/
def noCodeSummary : String := "The edit did not change what the software should do."

namespace Plan

inductive Act
  /-- A commit of the document. -/
  | edit (revision : Nat) (source : String)
  | revise (change : Revision)
  | approve
  | queueBuild (input : BuildInput) (blockers : List String) (draw : Draw)
  | claim (input : ClaimInput)
  | report (input : LifecycleInput)
  /-- A report that finds no open room (`lifecycleStored`). -/
  | reportStored (input : LifecycleInput)
  | pick (user connectionId : String) (resumable : Bool) (clock : Nat)
  | reportBuild (user connectionId id : String) (report : BuildReport) (draw : Draw)
  | queueRebuild (connections : RebuildConnections) (options : RebuildOptions)
      (blockers : List String) (draw : Draw)
  /-- A live check found that a delta needs no code. -/
  | settle (baseSource : String) (revision : Nat) (source : String) (draw : Draw)
  | land (buildId : String) (report : RebuildReport) (now : String)

/-- A document as it is opened, before anything was done on its graph. -/
def opened (id source : String) (revision : Nat) (graph : Option Graph) (liveBuild : Bool) : Plan :=
  { id, revision, source, graph, execution := none, lifecycle := ⟨none, []⟩, builds := []
    live := none, claiming := false, liveBuild }

/-- What was drawn is of the right kind, and the identifier is new. -/
def drawn (platform : Platform) (plan : Plan) (draw : Draw) : Bool :=
  platform.uuid draw.id && platform.datetime draw.now && !plan.builds.any (·.id == draw.id)

def withGraph (plan : Plan) (result : Result Graph) : Option Plan :=
  result.toOption.map fun graph ↦ { plan with graph := some graph }

/-- A claim that starts a run; any other answer changes nothing. -/
def claimed (plan : Plan) (input : ClaimInput) : Option Plan :=
  match claimImplementation plan input with
  | (.started _ _, next) => some next
  | _ => none

/-- A report that is accepted; a replay or a refusal changes nothing. -/
def reported (plan : Plan) (input : LifecycleInput) : Option Plan :=
  match reportImplementationLifecycle plan input with
  | some (.accepted _, next) => some next
  | _ => none

/-- The same without a room: no living build is known there, and no living record is filed. -/
def reportedStored (plan : Plan) (input : LifecycleInput) : Option Plan :=
  match plan.graph with
  | none => none
  | some graph =>
    match transition ⟨graph, plan.execution, plan.lifecycle⟩ input false with
    | .accepted next => some (plan.withLifecycle next)
    | _ => none

/-- An operation that is refused, or throws, is no step. -/
def step (platform : Platform) (plan : Plan) : Act → Option Plan
  | .edit revision source =>
    if plan.revision ≤ revision ∧ revision ≤ Json.maxSafe then some { plan with revision, source }
    else none
  | .revise change => plan.withGraph (Graphs.revise plan.graph (some plan.revision) change)
  | .approve => plan.withGraph (approveGraph plan.graph (some plan.revision))
  | .queueBuild input blockers draw =>
    if plan.drawn platform draw then
      (Tasks.queueBuild platform plan input blockers draw).toOption.map Prod.snd
    else none
  | .claim input => plan.claimed input
  | .report input => plan.reported input
  | .reportStored input => plan.reportedStored input
  | .pick user connectionId resumable clock =>
    if clock + 60000 ≤ Json.maxSafe then pickBuild plan user connectionId resumable clock else none
  | .reportBuild user connectionId id report draw =>
    if platform.datetime draw.now then
      (Tasks.reportBuild platform plan user connectionId id report draw).toOption
    else none
  | .queueRebuild connections options blockers draw =>
    if plan.drawn platform draw then
      (Tasks.queueRebuild platform plan connections options blockers draw).toOption.map Prod.snd
    else none
  | .settle baseSource revision source draw =>
    if plan.drawn platform draw then
      some (settleLive plan { baseSource, revision, source, summary := noCodeSummary } draw).2
    else none
  | .land buildId report now =>
    if report.valid platform ∧ platform.datetime now then
      (reportRebuild platform plan buildId report now).toOption
    else none

end Plan

end Chopin.Tasks
