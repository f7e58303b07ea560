import Chopin.Tasks.LifecycleRuns
import Chopin.Tasks.Replays

/-!
# Reports over runs of a document

Every report that was accepted at some point of a run is answered for ever after as a replay, and
every other one under its key is refused — with one exception that the code makes on purpose: the
revision that the server requests itself when a living build stops short is withdrawn once a rebuild
has completed the run.
-/

set_option autoImplicit false
set_option linter.dupNamespace false

open Script

namespace Chopin.Tasks

/-- Nothing but a late pull request is accepted for a run that is archived. -/
theorem archived_revision_refused {state next : LifecycleState} {input : LifecycleInput} {live : Bool}
    {archived : ArchivedRun} (hmem : archived ∈ state.lifecycle.history)
    (hid : archived.run.id = input.runId) (hrequests : input.command.requestsRevision = true) :
    transition state input live ≠ .accepted next := by
  intro h
  obtain ⟨reason, hreason⟩ := requestsRevision_iff.1 hrequests
  unfold transition at h
  split at h; · cases h
  split at h; · cases h
  split at h
  · rename_i hreplay
    exact replay_not_accepted (h ▸ hreplay)
  · dsimp only at h
    split at h
    · simp only [transitionArchived, hreason] at h
      cases h
    · rename_i hnone
      have := List.findIdx_none hnone archived hmem
      simp [hid] at this

namespace Plan

/-- The input that `transition` accepted in a step: one that was reported, or the stop that the
server itself reports of the run at work. -/
inductive Took (plan next : Plan) : Act → LifecycleInput → Prop
  | report (input : LifecycleInput) : Took plan next (.report input) input
  | reportStored (input : LifecycleInput) : Took plan next (.reportStored input) input
  | stopped {user connectionId id : String} {report : BuildReport} {draw : Draw} {run : Run}
      (active : plan.execution = some run) (ended : next.execution = none) :
      Took plan next (.reportBuild user connectionId id report draw) (liveStop run)

/-- The input was accepted in some step of the run from `start`. -/
def AcceptedIn (platform : Platform) (start : Plan) (acts : List Act) (input : LifecycleInput) : Prop :=
  ∃ before act after plan next, acts = before ++ act :: after ∧
    Runs (step platform) start before plan ∧ step platform plan act = some next ∧
    plan.Took next act input

variable {input : LifecycleInput}

/-- An accepted input is told of in the state after. -/
theorem accepted_told {state next : LifecycleState} {live : Bool} (h : Accepted state input live next) :
    (∃ run ∈ next.execution, run.id = input.runId ∧ event input ∈ next.lifecycle.events.getD []) ∨
      ∃ archived ∈ next.lifecycle.history, archived.run.id = input.runId ∧ archived.Tells (event input) := by
  cases h with
  | late hsplit hfirst hid =>
    exact .inr ⟨_, List.mem_append_right _ List.mem_cons_self, hid, .inl (by simp)⟩
  | recorded hexecution hid => exact .inl ⟨_, hexecution, hid.symm, by simp⟩
  | ended hexecution hid =>
    exact .inr ⟨_, List.mem_concat_self, hid.symm, .inl (by simp)⟩

/-- What a step took it tells of. -/
theorem Took.tells {platform : Platform} {plan next : Plan} {act : Act}
    (h : plan.Took next act input) (hstep : step platform plan act = some next) :
    text input.runId = true ∧ text input.idempotencyKey = true ∧ next.Tells input.runId (event input) := by
  cases h with
  | report =>
    rw [step] at hstep
    obtain ⟨graph, state, live, -, htransition, -, rfl⟩ := reported_ok hstep
    obtain ⟨hrun, hkey, -, haccepted⟩ := transition_accepted htransition
    exact ⟨hrun, hkey, accepted_told haccepted⟩
  | reportStored =>
    rw [step] at hstep
    obtain ⟨graph, state, -, htransition, rfl⟩ := reportedStored_ok hstep
    obtain ⟨hrun, hkey, -, haccepted⟩ := transition_accepted htransition
    exact ⟨hrun, hkey, accepted_told haccepted⟩
  | stopped hactive hended =>
    rw [step] at hstep
    split at hstep <;> try cases hstep
    obtain ⟨prior, build, -, -, -, hnext⟩ := reportBuild_ok (Except.toOption_eq_some.1 hstep)
    rcases hnext with rfl | ⟨-, -, hnext⟩
    · simp [hactive] at hended
    · rcases liveFromStopped_cases _ (build.reported _ plan.revision _) with
        hsame | ⟨graph, run, _, _, -, hrun, -, -, -, -, htext, -, -, -, -, -, hstopped⟩
      · rw [hnext, hsame] at hended
        simp [hactive] at hended
      · obtain rfl := Option.mem_unique hactive hrun
        rw [hnext, hstopped]
        exact ⟨htext, text_append _ htext, .inr ⟨_, List.mem_concat_self,
          rfl, .inl (by simp)⟩⟩

/-- The server's request for a revision, withdrawn from a run that a rebuild completed: it is no
replay any more, but it is not accepted again either. -/
def Withdrawn (plan : Plan) (graph : Graph) (input : LifecycleInput) : Prop :=
  ∃ archived ∈ plan.lifecycle.history, archived.Completed ∧ input = liveStop archived.run ∧
    ∀ live next, transition ⟨graph, plan.execution, plan.lifecycle⟩ input live ≠ .accepted next

/-- What is told of is settled, or was withdrawn. -/
theorem Tells.settled {plan : Plan} (h : plan.Keyed) (hrun : text input.runId = true)
    (hkey : text input.idempotencyKey = true) (htells : plan.Tells input.runId (event input)) (graph : Graph) :
    Settled ⟨graph, plan.execution, plan.lifecycle⟩ input ∨ plan.Withdrawn graph input := by
  have hsettled (howned : (input.runId, event input) ∈ owned plan.execution plan.lifecycle) :
      Settled ⟨graph, plan.execution, plan.lifecycle⟩ input :=
    settled_of_owned h.claimed h.keys hrun hkey howned
  rcases htells with ⟨run, hexecution, hid, hmem⟩ | ⟨archived, hmem, hid, hevent | ⟨hdone, hstop⟩⟩
  · refine .inl (hsettled ?_)
    rw [Option.mem_def.1 hexecution]
    unfold owned
    exact List.mem_append_left _ (List.mem_map.2 ⟨_, hmem, by rw [hid]⟩)
  · refine .inl (hsettled ?_)
    unfold owned
    exact List.mem_append_right _ (List.mem_flatMap.2 ⟨archived, hmem,
      List.mem_map.2 ⟨_, hevent, by rw [hid]⟩⟩)
  · have hinput : input = liveStop archived.run := by
      obtain ⟨command, key, runId⟩ := input
      simp only [event, liveStop, ProgressEvent.mk.injEq] at hstop hid
      simp [liveStop, hstop, hid]
    exact .inr ⟨archived, hmem, hdone, hinput, fun live next ↦
      archived_revision_refused hmem hid (by rw [hinput]; rfl)⟩

/-- **Reports are applied at most once.**  In every state that a document reaches no two events share
a key, and each input accepted on the way is settled or is the server's own request, withdrawn. -/
theorem reports_once {platform : Platform} {id source : String} {revision : Nat}
    {graph : Option Graph} {liveBuild : Bool} {acts : List Act} {plan : Plan}
    (run : Guarded LandsFresh (step platform) (opened id source revision graph liveBuild) acts plan) :
    plan.lifecycle.Keyed ∧ ∀ input, AcceptedIn platform (opened id source revision graph liveBuild) acts input →
        ∀ graph, Settled ⟨graph, plan.execution, plan.lifecycle⟩ input ∨ plan.Withdrawn graph input := by
  suffices h : plan.Keyed ∧ (∀ archived ∈ plan.lifecycle.history, archived.Stopped) ∧ ∀ input,
      AcceptedIn platform (opened id source revision graph liveBuild) acts input →
        text input.runId = true ∧ text input.idempotencyKey = true ∧
          plan.Tells input.runId (event input) by
    obtain ⟨hkeyed, -, htells⟩ := h
    refine ⟨hkeyed.keys, fun input haccepted graph ↦ ?_⟩
    obtain ⟨hrun, hkey, htold⟩ := htells input haccepted
    exact htold.settled hkeyed hrun hkey graph
  induction run with
  | nil =>
    refine ⟨⟨by simp [opened], by simp [opened, Lifecycle.Keyed, Lifecycle.allEvents]⟩,
      by simp [opened], ?_⟩
    rintro input ⟨before, act, after, _, _, hacts, -⟩
    cases before <;> cases hacts
  | @snoc plan next acts last run hfresh hstep ih =>
    obtain ⟨hkeyed, hstopped, htells⟩ := ih
    have hmoved := step_moved hfresh hstep
    obtain ⟨hnext, hkept⟩ := hmoved.tells hstopped
    refine ⟨hmoved.keyed hkeyed, hnext, ?_⟩
    rintro input ⟨before, act, after, plan', next', hacts, hbefore, hact, htook⟩
    rcases List.eq_nil_or_concat after with rfl | ⟨after, last', rfl⟩
    · -- accepted just now
      obtain ⟨rfl, hlast⟩ := List.append_inj' hacts rfl
      obtain rfl := List.singleton_inj.1 hlast
      obtain rfl := hbefore.unique run.runs
      obtain rfl := Option.mem_unique hact hstep
      exact htook.tells hact
    · have hacts' : acts = before ++ act :: after := by
        have hconcat : acts ++ [last] = (before ++ act :: after) ++ [last'] := by rw [hacts]; simp
        exact (List.append_inj' hconcat rfl).1
      obtain ⟨hrun, hkey, htold⟩ :=
        htells input ⟨before, act, after, plan', next', hacts', hbefore, hact, htook⟩
      exact ⟨hrun, hkey, hkept _ _ htold⟩

/-! ## A build that stopped short -/

/-- One of ten identifiers. -/
def sampleId (digit : String) : String := "00000000-0000-4000-8000-00000000000" ++ digit

def sampleTime : String := "2026-01-01T00:00:00Z"

def sampleDraw (digit : String) : Draw := ⟨sampleId digit, sampleTime, 0⟩

def sampleCheckout : Checkout := ⟨"o/n", none, "0123456789012345678901234567890123456789"⟩

def sampleInput : BuildInput :=
  { retryOf := none, planRevision := 0, graphVersion := 1, graphRevision := 1, user := "u"
    machineOwner := none, connectionId := "c", machineId := none, machineService := false
    repositoryId := "1", checkout := sampleCheckout }

def sampleConnection : Connection :=
  { id := "c", owner := "u", machineId := "m", checkouts := [], anyRepository := true
    autoRun := true, shared := false, service := false }

/-- One paired machine, which takes any work. -/
def sampleConnections : RebuildConnections :=
  { get := fun _ ↦ some sampleConnection, list := fun _ _ ↦ [], assigned := fun _ ↦ none
    allows := none, favoriteShared := none }

def sampleReport (state : BuildState) : BuildReport :=
  { state, session := none, error := none, expiresAt := none, reportKey := none, progress := none
    stoppedByUser := false }

def sampleRun : Run := { Implementation.oneRun with id := sampleId "1" }

/-- A document with one approved task, on a server of living builds. -/
def sample : Plan := opened "p" "source" 0 (some Implementation.oneGraph) true

/-- The first build is claimed and opens a pull request. -/
def sampleClaim : List Act :=
  [.queueBuild sampleInput [] (sampleDraw "1"), .pick "u" "c" true 0, .claim ⟨0, 1, sampleRun⟩,
    .report ⟨.start "t", "start", sampleRun.id⟩,
    .report ⟨.reportPr "t" "https://github.com/o/n/pull/1" .open, "pr", sampleRun.id⟩]

/-- Then it stops. -/
def sampleStop : Act :=
  .reportBuild "u" "c" (sampleId "1") (sampleReport .stopped) (sampleDraw "0")

/-- The document is edited, and a machine starts to rebuild it. -/
def sampleRebuild : List Act :=
  [.edit 1 "edited", .queueRebuild sampleConnections ⟨false, none⟩ [] (sampleDraw "2"),
    .pick "u" "c" true 0, .reportBuild "u" "c" (sampleId "2") (sampleReport .running) (sampleDraw "0")]

def sampleBuild : BuildRequest :=
  { sampleInput.build (sampleDraw "1") with
    state := .stopped, expiresAt := 60000, finishedAt := some sampleTime, resumable := true }

def sampleEvents : List ProgressEvent :=
  [⟨.start "t", "start"⟩, ⟨.reportPr "t" "https://github.com/o/n/pull/1" .open, "pr"⟩]

/-- The document while its first build is at work. -/
def sampleWorking : Plan :=
  { sample with
    graph := some ⟨[{ number := 1, revision := 1, planRevision := 0, state := .locked
                      definition := ⟨[Implementation.oneTask]⟩ }]⟩
    execution := some sampleRun
    lifecycle := ⟨some sampleEvents, []⟩
    builds := [{ sampleBuild with state := .starting, finishedAt := none }] }

def sampleLive : LiveBuild :=
  { buildId := sampleId "1", user := "u", repositoryId := "1", checkout := sampleCheckout
    baseRevision := 0, baseSource := "source", pullRequests := ["https://github.com/o/n/pull/1"]
    commits := none, outstanding := some ["t"], noChange := none, target := none }

/-- The document once that build stopped. -/
def sampleStopped : Plan :=
  { sample with
    lifecycle := ⟨none, [⟨sampleRun, sampleEvents ++ [event (liveStop sampleRun)], true⟩]⟩
    builds := [sampleBuild], live := some sampleLive }

/-- The document while its rebuild is at work. -/
def sampleRebuilding : Plan :=
  { sampleStopped with
    revision := 1, source := "edited"
    builds := [sampleBuild, {
      rebuildOn { sample with revision := 1 } sampleLive sampleBuild "u" sampleConnection
        (sampleDraw "2") with state := .running, expiresAt := 60000, resumable := true }]
    live := some { sampleLive with target := some ⟨sampleId "2", 1, "edited"⟩ } }

theorem sampleClaim_run : Runs (step .ascii) sample sampleClaim sampleWorking :=
  runs_iff_foldlM.2 (by decide +kernel)

theorem sampleStop_step : step .ascii sampleWorking sampleStop = some sampleStopped := by
  decide +kernel

theorem sampleRebuild_run : Runs (step .ascii) sample (sampleClaim ++ [sampleStop] ++ sampleRebuild) sampleRebuilding :=
  (sampleClaim_run.snoc sampleStop_step).append (runs_iff_foldlM.2 (by decide +kernel))

theorem sampleRebuild_guarded : Guarded LandsFresh (step .ascii) sample
    (sampleClaim ++ [sampleStop] ++ sampleRebuild) sampleRebuilding :=
  sampleRebuild_run.guarded (by simp [sampleClaim, sampleStop, sampleRebuild, LandsFresh])

theorem sampleStop_acceptedIn (after : List Act) :
    AcceptedIn .ascii sample (sampleClaim ++ [sampleStop] ++ after) (liveStop sampleRun) :=
  ⟨sampleClaim, sampleStop, after, sampleWorking, sampleStopped, (List.append_cons ..).symm, sampleClaim_run,
    sampleStop_step, .stopped rfl rfl⟩

/-! ## A rebuild that completes its run -/

/-- The rebuild finishes the task that was left. -/
def sampleCompleted : Act :=
  .land (sampleId "2")
    { summary := "Done.", commits := [], tasks := [], outstanding := some [⟨"t", .done none⟩] } sampleTime

theorem sampleCompleted_step : ∃ plan graph,
    step .ascii sampleRebuilding sampleCompleted = some plan ∧ plan.graph = some graph ∧
      transition ⟨graph, plan.execution, plan.lifecycle⟩ (liveStop sampleRun) false = .refused "inactive" := by
  have h : (step .ascii sampleRebuilding sampleCompleted).any (fun plan ↦ plan.graph.any fun graph ↦
      transition ⟨graph, plan.execution, plan.lifecycle⟩ (liveStop sampleRun) false ==
        .refused "inactive") = true := by decide +kernel
  obtain ⟨plan, hstep, h⟩ := Option.any_eq_true _ _ |>.1 h
  obtain ⟨graph, hgraph, h⟩ := Option.any_eq_true _ _ |>.1 h
  exact ⟨plan, graph, hstep, hgraph, by simpa using h⟩

/-- **The server's own request is no replay once it was withdrawn**, and no conflict when it comes
without a run. -/
theorem liveStop_not_settled :
    (∃ acts plan graph, Runs (step .ascii) sample acts plan ∧
      AcceptedIn .ascii sample acts (liveStop sampleRun) ∧ plan.graph = some graph ∧
      transition ⟨graph, plan.execution, plan.lifecycle⟩ (liveStop sampleRun) false =
        .refused "inactive") ∧
    ∃ acts plan graph, Runs (step .ascii) sample acts plan ∧
      AcceptedIn .ascii sample acts (liveStop sampleRun) ∧ plan.graph = some graph ∧
      transition ⟨graph, plan.execution, plan.lifecycle⟩ { liveStop sampleRun with runId := "" } false =
        .refused "run" := by
  constructor
  · obtain ⟨plan, graph, hstep, hgraph, hrefused⟩ := sampleCompleted_step
    have haccepted := sampleStop_acceptedIn (sampleRebuild ++ [sampleCompleted])
    rw [← List.append_assoc] at haccepted
    exact ⟨_, plan, graph, sampleRebuild_run.snoc hstep, haccepted, hgraph, hrefused⟩
  · have haccepted := sampleStop_acceptedIn []
    rw [List.append_nil] at haccepted
    exact ⟨_, sampleStopped, Implementation.oneGraph, sampleClaim_run.snoc sampleStop_step, haccepted,
      rfl, rfl⟩

theorem reports_once_sample : sampleRebuilding.lifecycle.Keyed ∧ ∀ graph,
    Settled ⟨graph, sampleRebuilding.execution, sampleRebuilding.lifecycle⟩ (liveStop sampleRun) ∨
      sampleRebuilding.Withdrawn graph (liveStop sampleRun) := by
  obtain ⟨hkeyed, hreports⟩ := reports_once sampleRebuild_guarded
  exact ⟨hkeyed, hreports _ (sampleStop_acceptedIn sampleRebuild)⟩

end Plan

end Chopin.Tasks
