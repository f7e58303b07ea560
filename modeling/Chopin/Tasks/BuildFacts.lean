import Chopin.Tasks.PlanRuns
import Chopin.Tasks.Transitions

/-!
# What the build operations do

One inversion lemma for each operation of `tasks/builds.ts` and `tasks/plan-graphs.ts`: what an
answer says of the state it was given in, and how the state it leaves differs.  The proofs about
runs of a document read these, never the operations themselves.
-/

set_option autoImplicit false
set_option linter.dupNamespace false

open Script

namespace Chopin.Tasks

/-! ## Logs that are still active -/

variable {run : Run}

variable {tasks : List Task} {live : Bool} {events : List ProgressEvent}

/-- No event of an active run asked for a revision. -/
theorem foldRun_no_revision : ∀ {state : ReducerState},
    foldRun tasks run events live = .ok state → state.phase = .active →
      ∀ stored ∈ events, ∀ reason, stored.command ≠ .requestRevision reason := by
  induction events using List.reverseRecOn with
  | nil => intro _ _ _ stored hmem; exact nomatch hmem
  | append_singleton events last ih =>
    intro state h hphase stored hmem reason
    obtain ⟨before, next, hbefore, hnext, rfl⟩ := foldRun_snoc_cases h
    have hactive : next.phase = .active := by
      cases live with
      | true => rw [if_pos rfl] at hphase; exact settled_eq_self hphase ▸ hphase
      | false => exact hphase
    have hbeforeActive : before.phase = .active := by
      by_contra hne
      exact Phase.ne_active (reduceEvent_of_ne_active hne hnext).1 hactive
    rcases List.mem_append.1 hmem with hmem | hmem
    · exact ih hbefore hbeforeActive stored hmem reason
    · rw [List.mem_singleton.1 hmem]
      intro hcommand
      simp only [reduceEvent, hbeforeActive, reduceActive, hcommand] at hnext
      split at hnext
      · cases hnext
      · cases hnext; cases hactive

variable {state : ReducerState}

theorem reduceEvent_revision {next : ReducerState} {stored : ProgressEvent}
    {reason : String} (hcommand : stored.command = .requestRevision reason)
    (h : reduceEvent state stored live = .ok next) : next.phase = .revisionRequested reason := by
  by_cases hphase : state.phase = .active
  · simp only [reduceEvent, hphase, reduceActive, hcommand] at h
    split at h <;> cases h
    rfl
  · have hrefused : reduceFinished state stored.command = refused "terminal" := by
      rw [hcommand]; rfl
    unfold reduceEvent at h
    rw [hrefused] at h
    split at h <;> first | cases h | exact absurd ‹_› hphase

/-- The last event of a run that succeeded did not ask for a revision. -/
theorem foldRun_success_last
    (h : foldRun tasks run events live = .ok state) (hsuccess : state.phase.successful = true) :
    ∀ last ∈ events.getLast?, last.command.requestsRevision = false := by
  intro last hlast
  obtain ⟨prior, rfl⟩ := List.getLast?_eq_some_iff.1 hlast
  obtain ⟨before, next, -, hnext, rfl⟩ := foldRun_snoc_cases h
  by_contra hrequests
  obtain ⟨reason, hreason⟩ := requestsRevision_iff.1 (by simpa using hrequests)
  have hphase := reduceEvent_revision hreason hnext
  rw [settled_of_ne_active (by simp [hphase]), ite_self, hphase] at hsuccess
  cases hsuccess

/-! ## Claims and reports -/

variable {next plan : Plan}

theorem claimed_ok {input : ClaimInput} (h : plan.claimed input = some next) :
    ∃ prior latest, plan.graph = some ⟨prior ++ [latest]⟩ ∧ plan.execution = none ∧
      plan.revision = latest.planRevision ∧ latest.state = .approved ∧
      «matches» input.run latest = true ∧ input.run.valid = true ∧
      claimEligibility plan.lifecycle latest input.run.id = none ∧ next = { plan with
        graph := some ⟨prior ++ [{ latest with state := .locked }]⟩, execution := some input.run } := by
  rw [Plan.claimed, claimImplementation] at h
  by_cases hexecution : plan.execution.isSome
  · obtain ⟨run, hrun⟩ := Option.isSome_iff_exists.1 hexecution
    have hactive : Graphs.claim plan.graph (some plan.revision) plan.execution input =
        .active run := by rw [hrun]; rfl
    rw [if_pos hexecution, hactive] at h
    cases h
  · rw [if_neg hexecution] at h
    cases heligible : (plan.graph.bind current).bind
        (claimEligibility plan.lifecycle · input.run.id) with
    | some ineligible => simp [heligible] at h
    | none =>
      rw [heligible] at h
      simp only at h
      split at h
      · rename_i graph run following hanswer
        split at hanswer
        · rename_i started owner hstarted
          obtain ⟨hnone, rfl, hvalid, prior, latest, hgraph, hplan, hstate, hmatch, rfl⟩ :=
            claim_started hstarted
          cases hanswer
          cases h
          rw [hgraph] at heligible
          exact ⟨prior, latest, hgraph, hnone, Option.some.inj hplan, hstate, hmatch, hvalid,
            by simpa using heligible, rfl⟩
        · rename_i hother
          exact absurd (Prod.mk.inj hanswer).1 (hother _ _)
      · cases h

variable {input : LifecycleInput}

theorem reported_ok (h : plan.reported input = some next) : ∃ graph state live, plan.graph = some graph ∧
      transition ⟨graph, plan.execution, plan.lifecycle⟩ input plan.liveRun.isSome = .accepted state ∧
      plan.reportedLive state = some live ∧ next = { plan.withLifecycle state with live } := by
  rw [Plan.reported, reportImplementationLifecycle] at h
  cases hgraph : plan.graph with
  | none => simp [hgraph] at h
  | some graph =>
    rw [hgraph] at h
    simp only at h
    cases htransition : transition ⟨graph, plan.execution, plan.lifecycle⟩ input plan.liveRun.isSome
    all_goals rw [htransition] at h
    case accepted state =>
      simp only at h
      cases hlive : plan.reportedLive state with
      | none => simp [hlive] at h
      | some live =>
        rw [hlive, Option.map_some] at h
        exact ⟨graph, state, live, rfl, htransition, hlive, (Option.some.inj h).symm⟩
    all_goals simp at h

variable {build : BuildRequest}

theorem liveRun_eq_some (h : plan.liveRun = some build) :
    plan.liveBuild = true ∧ plan.live = none ∧ build ∈ plan.builds ∧ ∃ run ∈ plan.execution, build.id = run.id := by
  rw [Plan.liveRun] at h
  split at h
  · rename_i hready
    simp only [Bool.and_eq_true, Option.isNone_iff_eq_none] at hready
    obtain ⟨run, hrun, hfind⟩ := Option.bind_eq_some_iff.1 h
    exact ⟨hready.1, hready.2, List.mem_of_find?_eq_some hfind, run, hrun,
      by simpa using List.find?_some hfind⟩
  · cases h

variable {live : LiveBuild}

theorem manualLive_ok {next : LifecycleState}
    (h : plan.manualLive next = some live) : plan.live = none ∧ ∃ build ∈ plan.builds,
      ∃ finished ∈ (historyFor next.graph next.lifecycle).getLast?,
        live = plan.goLive build (deliveredRequests finished.progress.tasks) none := by
  simp only [Plan.manualLive, Option.then_eq_some] at h
  obtain ⟨build, hbuild, finished, hfinished, h⟩ := h
  simp only [Plan.manualRun] at hbuild
  split at hbuild
  · rename_i hready
    simp only [Bool.and_eq_true, Option.isNone_iff_eq_none] at hready
    obtain ⟨archived, -, hfind⟩ := Option.bind_eq_some_iff.1 hbuild
    refine ⟨hready.1.1.2, build, List.mem_of_find?_eq_some hfind, finished, hfinished, ?_⟩
    split at h <;> cases h <;> rfl
  · cases hbuild

/-- A report leaves the living record alone, or files the first one. -/
theorem reportedLive_ok {next : LifecycleState} {live : Option LiveBuild}
    (h : plan.reportedLive next = some live) : live = plan.live ∨ plan.live = none ∧
      ∃ build ∈ plan.builds, ∃ finished ∈ (historyFor next.graph next.lifecycle).getLast?,
        live = some (plan.goLive build (deliveredRequests finished.progress.tasks) none) := by
  have hmanual : live = (plan.manualLive next <|> plan.live) → live = plan.live ∨ plan.live = none ∧
      ∃ build ∈ plan.builds, ∃ finished ∈ (historyFor next.graph next.lifecycle).getLast?,
        live = some (plan.goLive build (deliveredRequests finished.progress.tasks) none) := by
    rintro rfl
    cases hfiled : plan.manualLive next with
    | none => exact .inl rfl
    | some record =>
      obtain ⟨hnone, build, hmem, finished, hfinished, rfl⟩ := manualLive_ok hfiled
      exact .inr ⟨hnone, build, hmem, finished, hfinished, rfl⟩
  simp only [Plan.reportedLive] at h
  split at h
  · rename_i build archived hbuild _ _
    split at h
    · obtain ⟨delivered, hdelivered, rfl⟩ := Option.map_eq_some_iff.1 h
      obtain ⟨-, hnone, hmem, -⟩ := liveRun_eq_some hbuild
      exact .inr ⟨hnone, build, hmem, delivered, hdelivered, rfl⟩
    · exact hmanual (Option.some.inj h).symm
  · exact hmanual (Option.some.inj h).symm

theorem reportedStored_ok (h : plan.reportedStored input = some next) : ∃ graph state, plan.graph = some graph ∧
      transition ⟨graph, plan.execution, plan.lifecycle⟩ input false = .accepted state ∧
      next = plan.withLifecycle state := by
  rw [Plan.reportedStored] at h
  cases hgraph : plan.graph with
  | none => simp [hgraph] at h
  | some graph =>
    rw [hgraph] at h
    simp only at h
    cases htransition : transition ⟨graph, plan.execution, plan.lifecycle⟩ input false
    all_goals rw [htransition] at h
    case accepted state => exact ⟨graph, state, rfl, htransition, (Option.some.inj h).symm⟩
    all_goals simp at h

/-! ## Queued builds -/

variable {platform : Platform}

theorem parse_ok {parsed : BuildRequest}
    (h : build.parse platform = .ok parsed) : parsed = build ∧ build.valid platform = true := by
  rw [BuildRequest.parse] at h
  split at h <;> cases h
  exact ⟨rfl, ‹_›⟩

variable {draw : Draw}

variable {blockers : List String}

theorem queueBuild_ok {input : BuildInput} (h : queueBuild platform plan input blockers draw = .ok (build, next)) :
    next = plan ∨ ∃ graph version approved, plan.graph = some graph ∧
      current graph = some version ∧ plan.execution = none ∧ (version.state = .approved ∧ approved = graph ∨
        approveGraph (some graph) (some plan.revision) = .ok approved) ∧
      build = input.build draw ∧ build.valid platform = true ∧ plan.builds.length < 100 ∧
      next = { plan with graph := some approved, builds := plan.builds ++ [build] } := by
  rw [queueBuild] at h
  split at h
  · rename_i graph version hgraph hversion
    rw [hgraph, Option.bind_some] at hversion
    split at h; · cases h
    obtain ⟨existing, -, h⟩ := Except.bind_eq_ok.1 h
    split at h
    · cases h; exact .inl rfl
    · split at h; · cases h
      rename_i hidle
      split at h; · cases h
      split at h; · cases h
      obtain ⟨approved, happroved, h⟩ := Except.bind_eq_ok.1 h
      obtain ⟨parsed, hparsed, h⟩ := Except.bind_eq_ok.1 h
      obtain ⟨rfl, hvalid⟩ := parse_ok hparsed
      split at h <;> cases h
      rename_i hlength
      simp only [Bool.or_eq_true, not_or, Bool.not_eq_true, Option.isSome_eq_false_iff,
        Option.isNone_iff_eq_none] at hidle
      refine .inr ⟨graph, version, approved, hgraph, hversion, hidle.1, ?_, rfl, hvalid, by omega, rfl⟩
      rw [approvedGraph] at happroved
      split at happroved
      · rename_i hstate
        exact .inl ⟨by simpa using hstate, (Except.ok.inj happroved).symm⟩
      · rw [hgraph] at happroved
        exact .inr happroved
  · cases h

/-- Trimming drops only rebuilds that ended, never the living build. -/
theorem mem_trimBuilds {liveId : String} {builds : List BuildRequest} : ∀ {excess : Nat},
    (trimBuilds liveId excess builds).Sublist builds ∧
      ∀ build ∈ builds, build.id = liveId → build ∈ trimBuilds liveId excess builds := by
  induction builds with
  | nil => intro excess; cases excess <;> simp [trimBuilds]
  | cons first rest ih =>
    intro excess
    cases excess with
    | zero => exact ⟨List.Sublist.refl _, fun build hmem _ ↦ hmem⟩
    | succ excess =>
      rw [trimBuilds]
      split
      · refine ⟨ih.1.cons_cons first, fun build hmem hid ↦ ?_⟩
        rcases List.mem_cons.1 hmem with rfl | hmem
        · exact List.mem_cons_self
        · exact List.mem_cons_of_mem _ (ih.2 build hmem hid)
      · rename_i hgone
        refine ⟨ih.1.cons first, fun build hmem hid ↦ ?_⟩
        rcases List.mem_cons.1 hmem with rfl | hmem
        · simp [hid] at hgone
        · exact ih.2 build hmem hid

theorem queueRebuild_ok {connections : RebuildConnections} {options : RebuildOptions}
    {result : RebuildResult} (h : queueRebuild platform plan connections options blockers draw = .ok (result, next)) :
    next = plan ∨ ∃ live original owner connection,
      plan.live = some live ∧ buildActive plan = false ∧ original ∈ plan.builds ∧
      original.id = live.buildId ∧
      (rebuildOn plan live original owner connection draw).valid platform = true ∧
      next = { plan with
        builds := trimBuilds live.buildId (plan.builds.length - 99) plan.builds ++
          [rebuildOn plan live original owner connection draw]
        live := some { live with
          target := some { buildId := draw.id, revision := plan.revision, source := plan.source } } } := by
  rw [queueRebuild] at h
  split at h
  · cases h; exact .inl rfl
  · rename_i live hlive
    split at h; · cases h; exact .inl rfl
    split at h; · cases h; exact .inl rfl
    rename_i hidle
    split at h; · cases h; exact .inl rfl
    split at h; · cases h; exact .inl rfl
    simp only at h
    split at h
    · rename_i original connection horiginal hconnection
      split at h; · cases h; exact .inl rfl
      obtain ⟨parsed, hparsed, h⟩ := Except.bind_eq_ok.1 h
      obtain ⟨rfl, hvalid⟩ := parse_ok hparsed
      cases h
      exact .inr ⟨live, original, _, connection, hlive, by simpa using hidle,
        List.mem_of_find?_eq_some horiginal, by simpa using List.find?_some horiginal, hvalid, rfl⟩
    · cases h; exact .inl rfl

theorem settleLive_ok (plan : Plan) (checked : Checked) (draw : Draw) :
    (settleLive plan checked draw).2 = plan ∨ ∃ live, plan.live = some live ∧
      checked.revision ≤ plan.revision ∧ buildActive plan = false ∧
      (live.baseSource = checked.baseSource ∧ live.outstanding.any (·.length > 0) = false ∧
        stoppedForRevision plan checked.revision = false) ∧
      (settleLive plan checked draw).2 = { plan with live := some { live with
        baseRevision := checked.revision
        baseSource := checked.source
        noChange := some (lastOf 50 (live.noChange.getD [] ++ [{
          buildId := draw.id, revision := checked.revision, summary := checked.summary
          «at» := draw.now }])) } } := by
  rw [settleLive]
  split
  · exact .inl rfl
  · rename_i live hlive
    split
    · exact .inl rfl
    · rename_i hready
      simp only [Bool.or_eq_true, decide_eq_true_eq, not_or, Bool.not_eq_true, not_lt, bne_iff_ne,
        ne_eq, not_not] at hready
      exact .inr ⟨live, hlive, hready.1.2, hready.1.1.2, ⟨hready.1.1.1.1, hready.1.1.1.2, hready.2⟩, rfl⟩

variable {connectionId : String}

theorem pickBuild_ok {user : String} {resumable : Bool} {clock : Nat}
    (h : pickBuild plan user connectionId resumable clock = some next) :
    ∃ prior, ∃ build : BuildRequest, plan.builds = prior ++ [build] ∧ build.state = .queued ∧
      next = { plan with builds := prior ++ [{ build with
        state := .starting, expiresAt := clock + 60000, resumable := resumable || build.resumable }] } := by
  rw [pickBuild] at h
  split at h; · cases h
  rename_i build hbuild
  obtain ⟨prior, hprior⟩ := List.getLast?_eq_some_iff.1 hbuild
  split at h; · cases h
  rename_i hqueued
  simp only [Bool.or_eq_true, not_or, bne_iff_ne, ne_eq, not_not] at hqueued
  rw [hprior, List.dropLast_concat] at h
  exact ⟨prior, build, hprior, hqueued.2, (Option.some.inj h).symm⟩

/-! ## Builds that stop -/

variable {lifecycle : Lifecycle}

variable {graph : Graph}

theorem progressFor_eq_some {progress : Progress} (h : progressFor graph lifecycle (some run) = some progress) :
    ∃ version folded, activeVersion graph run = some version ∧
      foldRun version.definition.tasks run (lifecycle.events.getD []) false = .ok folded ∧
      folded.phase = .active ∧ progress.tasks = folded.progress := by
  simp only [progressFor, Option.some_then, Option.then_eq_some,
    Except.toOption_eq_some] at h
  obtain ⟨version, hversion, folded, hfolded, h⟩ := h
  split at h
  · rename_i hphase
    cases h
    exact ⟨version, folded, hversion, hfolded, by simpa using hphase, rfl⟩
  · cases h

/-- The pull requests of a run that stopped short. -/
def startedRequests (tasks : List TaskProgress) : List String :=
  Entries.distinct (tasks.filterMap fun task ↦ task.pullRequest.map PullRequest.url)

/-- The tasks of a run that stopped short. -/
def unfinishedTasks (tasks : List TaskProgress) : List String :=
  (tasks.filter (!·.completed)).map TaskProgress.id

/-- A stop either leaves the document alone or ends the run at work with a requested revision,
archives it live and files the living record. -/
theorem liveFromStopped_cases (plan : Plan) (build : BuildRequest) :
    liveFromStopped plan build = plan ∨ ∃ graph run version folded,
      plan.graph = some graph ∧ plan.execution = some run ∧ plan.liveBuild = true ∧
      plan.live = none ∧ build.rebuild = none ∧ run.id = build.id ∧ text run.id = true ∧
      activeVersion graph run = some version ∧
      foldRun version.definition.tasks run (plan.lifecycle.events.getD []) false = .ok folded ∧
      folded.phase = .active ∧ (unfinishedTasks folded.progress ≠ [] ∧
        (startedRequests folded.progress ≠ [] ∨ folded.progress.any TaskProgress.blocked = true)) ∧
      replay ⟨graph, some run, plan.lifecycle⟩ (liveStop run) = none ∧
      liveFromStopped plan build = { plan with
        graph := some (unlockLast graph), execution := none
        lifecycle := { events := none, history := plan.lifecycle.history ++
          [⟨run, plan.lifecycle.events.getD [] ++ [event (liveStop run)], true⟩] }
        live := some (plan.goLive build (startedRequests folded.progress)
          (some (unfinishedTasks folded.progress))) } := by
  rw [liveFromStopped]
  split
  case h_2 => exact .inl rfl
  rename_i graph run hgraph hrun
  split; · exact .inl rfl
  rename_i hready
  split; · exact .inl rfl
  rename_i progress hprogress
  obtain ⟨version, folded, hversion, hfold, hphase, htasks⟩ := progressFor_eq_some hprogress
  simp only [htasks]
  split; · exact .inl rfl
  rename_i hunfinished
  split
  case h_2 => exact .inl rfl
  rename_i next haccepted
  obtain ⟨htext, -, hreplay, haccepted⟩ := transition_accepted haccepted
  simp only [Bool.or_eq_true, not_or, Bool.not_eq_true, Bool.not_eq_eq_eq_not,
    Option.isSome_eq_false_iff, Option.isNone_iff_eq_none, bne_eq_false_iff_eq] at hready
  obtain ⟨⟨⟨hserved, hlive⟩, hrebuild⟩, hid⟩ := hready
  cases haccepted with
  | late _ _ _ _ _ hreport =>
    obtain ⟨_, _, _, hcommand⟩ := hreport
    cases hcommand
  | recorded hexecution _ hversion' hfold' _ hreduce hgoesOn =>
    rw [reduceEvent_revision rfl hreduce] at hgoesOn
    cases hgoesOn
  | @ended owner _ _ reduced flag hexecution _ _ _ _ hreduce hover =>
    cases flag with
    | true =>
      have hgoesOn := hover.2.1
      rw [reduceEvent_revision rfl hreduce] at hgoesOn
      cases hgoesOn
    | false =>
      cases hexecution
      simp only [released, List.getLast?_concat, bne_self_eq_false, Bool.false_eq_true, if_false]
      refine .inr ⟨graph, run, version, folded, hgraph, hrun, by simpa using hserved, hlive, hrebuild,
        hid, htext, hversion, hfold, hphase, ?_, hreplay, ?_⟩
      · simp only [Bool.or_eq_true, Bool.and_eq_true, not_or, not_and, beq_iff_eq,
          List.length_eq_zero_iff, Bool.not_eq_true', Bool.not_eq_false] at hunfinished
        exact ⟨hunfinished.1, or_iff_not_imp_left.2 fun hnone ↦ hunfinished.2 (not_not.1 hnone)⟩
      · simp only [markLive, List.dropLast_concat, startedRequests, unfinishedTasks]

theorem reportBuild_ok {user id : String} {report : BuildReport}
    (h : reportBuild platform plan user connectionId id report draw = .ok next) :
    ∃ prior, ∃ build : BuildRequest, plan.builds = prior ++ [build] ∧ build.id = id ∧
      (build.reported report plan.revision draw.now).valid platform = true ∧
      (next = { plan with builds := prior ++ [build.reported report plan.revision draw.now] } ∨
        build.state ≠ .stopped ∧ report.state = .stopped ∧ next = liveFromStopped
          { plan with builds := prior ++ [build.reported report plan.revision draw.now] }
          (build.reported report plan.revision draw.now)) := by
  rw [reportBuild] at h
  split at h; · cases h
  rename_i build hbuild
  obtain ⟨prior, hprior⟩ := List.getLast?_eq_some_iff.1 hbuild
  split at h; · cases h
  rename_i hid
  split at h; · cases h
  obtain ⟨parsed, hparsed, h⟩ := Except.bind_eq_ok.1 h
  obtain ⟨rfl, hvalid⟩ := parse_ok hparsed
  simp only [Bool.or_eq_true, not_or, bne_iff_ne, ne_eq, not_not] at hid
  refine ⟨prior, build, hprior, hid.1.1, hvalid, ?_⟩
  rw [hprior, List.dropLast_concat] at h
  simp only [Except.pure_eq_ok, Except.ok.injEq] at h
  split at h
  · rename_i hstopped
    simp only [BuildRequest.reported, Bool.and_eq_true, bne_iff_ne, ne_eq, beq_iff_eq] at hstopped
    exact .inr ⟨hstopped.2 ▸ hstopped.1, hstopped.2, h.symm⟩
  · exact .inl h.symm

/-! ## Rebuilds that land -/

/-- What resuming a live run does: the events go before its requested revision, which is dropped
once the run is complete. -/
theorem resumeLiveRun_ok {next : Lifecycle} {runId : String}
    {added : List ProgressEvent} (h : resumeLiveRun graph lifecycle runId added = some next) :
    ∃ front back archived kept revision reason version folded events,
      lifecycle.history = front ++ archived :: back ∧ (∀ other ∈ front, other.run.id ≠ runId) ∧
      archived.run.id = runId ∧ archived.live = true ∧ archived.events = kept ++ [revision] ∧
      revision.command = .requestRevision reason ∧ versionFor graph archived.run = some version ∧ (∀ event ∈ added,
        event.idempotencyKey ∉ lifecycle.allEvents.map ProgressEvent.idempotencyKey) ∧
      foldRun version.definition.tasks archived.run (kept ++ added) true = .ok folded ∧
      (folded.phase = .active ∧ events = kept ++ added ++ [revision] ∨
        folded.phase.successful = true ∧ events = kept ++ added) ∧
      next = { lifecycle with history := front ++ { archived with events } :: back } := by
  simp only [resumeLiveRun, Option.then_eq_some] at h
  obtain ⟨archived, harchived, revision, hrevision, version, hversion, h⟩ := h
  obtain ⟨front, back, hsplit, hid, hfirst, hset⟩ := List.findIdx_split harchived
  obtain ⟨kept, hkept⟩ := List.getLast?_eq_some_iff.1 hrevision
  split at h; · cases h
  rename_i hready
  simp only [Bool.or_eq_true, not_or, Bool.not_eq_true', Bool.not_eq_false, Bool.not_eq_true,
    List.any_eq_false, List.contains_eq_mem, decide_eq_true_eq, Bool.and_eq_true] at hready
  obtain ⟨⟨hlive, hrequests⟩, hkeys⟩ := hready
  obtain ⟨reason, hreason⟩ := requestsRevision_iff.1 hrequests
  obtain ⟨folded, hfolded, h⟩ := Option.bind_eq_some_iff.1 h
  rw [hkept, List.dropLast_concat] at hfolded h
  rw [Except.toOption_eq_some] at hfolded
  have hshape : ∃ events, (folded.phase = .active ∧ events = kept ++ added ++ [revision] ∨
      folded.phase.successful = true ∧ events = kept ++ added) ∧
      next = { lifecycle with history := front ++ { archived with events } :: back } := by
    split at h
    · cases h
    · rename_i hphase; cases h; exact ⟨_, .inl ⟨hphase, rfl⟩, by rw [hset]⟩
    · rename_i hphase; cases h; exact ⟨_, .inr ⟨by rw [hphase]; rfl, rfl⟩, by rw [hset]⟩
    · rename_i hphase; cases h; exact ⟨_, .inr ⟨by rw [hphase]; rfl, rfl⟩, by rw [hset]⟩
  obtain ⟨events, hevents, hnext⟩ := hshape
  exact ⟨front, back, archived, kept, revision, reason, version, folded, events, hsplit,
    by simpa using hfirst, by simpa using hid, hlive, hkept, hreason, hversion, hkeys, hfolded,
    hevents, hnext⟩

/-- One task's outcome leaves the lifecycle alone or resumes the live run by its events. -/
theorem resumeTask_cases (graph : Graph) (live : LiveBuild) (buildId : String)
    (report : RebuildReport) (index : Nat) (state : Resumption) (task : Task) :
    (resumeTask graph live buildId report index state task).remaining.Sublist state.remaining ∧
      ((resumeTask graph live buildId report index state task).lifecycle = state.lifecycle ∨
        ∃ item outcome added, outcome ∈ report.outstanding.getD [] ∧ outcome.taskId = task.id ∧ item.id = task.id ∧
          outcomeEvents item (buildId ++ ":" ++ task.id) report.summary outcome = some added ∧
          resumeLiveRun graph state.lifecycle live.buildId added =
            some (resumeTask graph live buildId report index state task).lifecycle) := by
  rw [resumeTask]
  split
  · exact ⟨List.Sublist.refl _, .inl rfl⟩
  · rename_i outcome houtcome
    split; · exact ⟨List.Sublist.refl _, .inl rfl⟩
    split; · exact ⟨List.filter_sublist, .inl rfl⟩
    dsimp only
    split; · exact ⟨List.Sublist.refl _, .inl rfl⟩
    rename_i item hitem
    split; · exact ⟨List.Sublist.refl _, .inl rfl⟩
    rename_i lifecycle hresumed
    obtain ⟨added, hadded, hresumed⟩ := Option.bind_eq_some_iff.1 hresumed
    have hid : item.id = task.id := by
      obtain ⟨run, -, hfind⟩ := Option.bind_eq_some_iff.1 (Option.filter_eq_some_iff.1 hitem).1
      simpa using List.find?_some hfind
    have hevents : ∃ item outcome added, outcome ∈ report.outstanding.getD [] ∧
        outcome.taskId = task.id ∧ item.id = task.id ∧
        outcomeEvents item (buildId ++ ":" ++ task.id) report.summary outcome = some added ∧
        resumeLiveRun graph state.lifecycle live.buildId added = some lifecycle :=
      ⟨item, outcome, added, List.mem_of_find?_eq_some houtcome,
        by simpa using List.find?_some houtcome, hid, hadded, hresumed⟩
    split
    · exact ⟨List.filter_sublist, .inr hevents⟩
    · exact ⟨List.Sublist.refl _, .inr hevents⟩

variable {buildId : String}

variable {report : RebuildReport}

/-- What holds of the lifecycle before a rebuild, and after each run resumed, holds after all of
its outcomes. -/
theorem resumeOutstanding_invariant {start : Lifecycle} {resumed : Resumption} {P : Lifecycle → Prop}
    (h : resumeOutstanding graph start live buildId report = some resumed) (hstart : P start)
    (hresume : ∀ lifecycle next item outcome added, P lifecycle →
      outcome ∈ report.outstanding.getD [] → outcome.taskId = item.id →
      outcomeEvents item (buildId ++ ":" ++ item.id) report.summary outcome = some added →
      resumeLiveRun graph lifecycle live.buildId added = some next → P next) : P resumed.lifecycle := by
  rw [resumeOutstanding] at h
  split at h
  · rename_i outstanding version _ _
    split at h; · cases h
    cases h
    suffices hfold : ∀ (tasks : List Task) (state : Resumption), P state.lifecycle →
        P (tasks.foldl (resumeTask graph live buildId report
          (start.history.findIdx (·.run.id == live.buildId))) state).lifecycle from
      hfold _ _ hstart
    intro tasks
    induction tasks with
    | nil => exact fun _ hstate ↦ hstate
    | cons task rest ih =>
      intro state hstate
      refine ih _ ?_
      obtain ⟨-, hsame | ⟨item, outcome, added, hmem, htask, hid, hadded, hresumed⟩⟩ :=
        resumeTask_cases graph live buildId report
          (start.history.findIdx (·.run.id == live.buildId)) state task
      · rw [hsame]; exact hstate
      · exact hresume _ _ item outcome added hstate hmem (htask.trans hid.symm) (hid ▸ hadded)
          hresumed
  · cases h

theorem resumeOutstanding_remaining {start : Lifecycle} {resumed : Resumption}
    (h : resumeOutstanding graph start live buildId report = some resumed) :
    ∃ outstanding, live.outstanding = some outstanding ∧ resumed.remaining.Sublist (Entries.distinct outstanding) := by
  rw [resumeOutstanding] at h
  split at h
  · rename_i outstanding version houtstanding _
    split at h; · cases h
    cases h
    refine ⟨outstanding, houtstanding, ?_⟩
    suffices hfold : ∀ (tasks : List Task) (state : Resumption),
        (tasks.foldl (resumeTask graph live buildId report
          (start.history.findIdx (·.run.id == live.buildId))) state).remaining.Sublist
            state.remaining from hfold _ _
    intro tasks
    induction tasks with
    | nil => exact fun _ ↦ List.Sublist.refl _
    | cons task rest ih =>
      exact fun state ↦ (ih _).trans (resumeTask_cases graph live buildId report _ state task).1
  · cases h

/-- The version a rebuild appends. -/
def rebuildVersion (platform : Platform) (live : LiveBuild) (target : Target) (number : Nat)
    (report : RebuildReport) : Version :=
  { number, revision := 1, planRevision := target.revision, state := .approved
    definition := rebuildDefinition platform live target number report }

/-- The run a rebuild archives. -/
def rebuildArchived (live : LiveBuild) (target : Target) (build : BuildRequest) (number : Nat)
    (report : RebuildReport) : ArchivedRun :=
  { run := rebuildRun live target build number, events := rebuildEvents build.id number report
    live := true }

theorem appendRebuild_ok {next : Graph} {following : Lifecycle} {target : Target}
    (h : appendRebuild platform graph lifecycle live target build report = .ok (next, following)) :
    next = graph ∧ following = lifecycle ∨ ∃ prior, ∃ latest : Version, graph = ⟨prior ++ [latest]⟩ ∧
      report.tasks ≠ [] ∧ latest.state = .approved ∧
      validate (rebuildDefinition platform live target (latest.number + 1) report) =
        .ok (rebuildDefinition platform live target (latest.number + 1) report) ∧
      next = ⟨(prior ++ [{ latest with state := .superseded }]) ++
        [rebuildVersion platform live target (latest.number + 1) report]⟩ ∧
      following = { lifecycle with history := lifecycle.history ++
        [rebuildArchived live target build (latest.number + 1) report] } := by
  rw [appendRebuild] at h
  split at h
  · rename_i latest hlatest
    obtain ⟨prior, rfl⟩ := current_eq_some.1 hlatest
    split at h
    · rename_i hready
      simp only [Bool.and_eq_true, decide_eq_true_eq, beq_iff_eq] at hready
      obtain ⟨checked, hchecked, h⟩ := Except.bind_eq_ok.1 h
      obtain ⟨rfl, -⟩ := validate_ok hchecked
      simp only [setLast_mk_concat, Except.pure_eq_ok, Except.ok.injEq, Prod.mk.injEq] at h
      exact .inr ⟨prior, latest, rfl, List.length_pos_iff.1 hready.1, hready.2, hchecked, h.1.symm,
        h.2.symm⟩
    · cases h; exact .inl ⟨rfl, rfl⟩
  · cases h; exact .inl ⟨rfl, rfl⟩

theorem reportRebuild_ok {now : String} (h : reportRebuild platform plan buildId report now = .ok next) :
    ∃ live target prior build graph lifecycle, plan.live = some live ∧ live.target = some target ∧
      plan.builds = prior ++ [build] ∧ build.id = buildId ∧ build.state = .running ∧
      build.rebuild.isSome ∧ target.buildId = buildId ∧
      (openedRequests platform live report).length ≤
        ((outstandingTasks plan).filter (·.2.pullRequest.isNone)).length ∧
      (plan.graph = none ∧ graph = none ∧ lifecycle = plan.lifecycle ∨
        ∃ before after, plan.graph = some before ∧ graph = some after ∧
          appendRebuild platform before (resumedLifecycle plan live buildId report) live target build
            report = .ok (after, lifecycle)) ∧
      BuildRequest.valid platform { build with state := .stopped, finishedAt := some now } = true ∧
      next = { plan with
        graph, lifecycle
        live := some (live.landed platform target buildId (openedRequests platform live report)
          (resumedOutstanding plan live buildId report) report now)
        builds := prior ++ [{ build with state := .stopped, finishedAt := some now }] } := by
  rw [reportRebuild] at h
  split at h
  · rename_i live target build hlive htarget hbuild
    rw [hlive, Option.bind_some] at htarget
    obtain ⟨prior, hprior⟩ := List.getLast?_eq_some_iff.1 hbuild
    split at h; · cases h
    rename_i hready
    simp only [Bool.or_eq_true, not_or, bne_iff_ne, ne_eq, not_not, Option.isNone_iff_eq_none] at hready
    obtain ⟨⟨⟨rfl, hrebuild⟩, hstate⟩, htargetId⟩ := hready
    simp only at h
    split at h; · cases h
    rename_i hopened
    simp only [Bool.or_eq_true, decide_eq_true_eq, not_or, not_lt] at hopened
    obtain ⟨⟨graph, lifecycle⟩, happend, h⟩ := Except.bind_eq_ok.1 h
    obtain ⟨stopped, hstopped, h⟩ := Except.bind_eq_ok.1 h
    obtain ⟨rfl, hvalid⟩ := parse_ok hstopped
    cases h
    refine ⟨live, target, prior, build, graph, lifecycle, hlive, htarget, hprior, rfl, hstate,
      Option.isSome_iff_ne_none.2 hrebuild, htargetId, hopened.1, ?_, hvalid, ?_⟩
    · unfold landGraph at happend
      split at happend
      · rename_i hgraph
        cases happend
        refine .inl ⟨hgraph, rfl, ?_⟩
        rw [resumedLifecycle, resumed, hgraph]; rfl
      · rename_i before hgraph
        obtain ⟨⟨after, following⟩, hafter, heq⟩ := Except.map_eq_ok.1 happend
        cases heq
        exact .inr ⟨before, after, hgraph, rfl, hafter⟩
    · rw [hprior, List.dropLast_concat]
  · cases h

end Chopin.Tasks
