import Chopin.Tasks.BuildFacts
import Chopin.Tasks.PullRequests

/-!
# What a run delivers

A document's first living record is filed by the report that ends its build's run.  What the record
then says is read off the projected history; here it is put in terms of the log: the run's own
version, the fold of its events, and the pull requests that the fold comes to.
-/

set_option autoImplicit false
set_option linter.dupNamespace false

open Script

namespace Chopin.Tasks

/-! ## Requested revisions -/

variable {state : ReducerState} {live : Bool}

variable {next : ReducerState}

/-- A run ends with a requested revision only by the event that requests it. -/
theorem reduceEvent_requested {stored : ProgressEvent} {reason : String} (h : reduceEvent state stored live = .ok next)
    (hphase : next.phase = .revisionRequested reason) : stored.command.requestsRevision = true := by
  by_cases hactive : state.phase = .active
  · simp only [reduceEvent, hactive] at h
    unfold reduceActive at h
    split at h
    · rename_i hcommand
      rw [hcommand]; rfl
    · unfold reduceVerification at h
      repeat' split at h
      all_goals cases h
      · have hsuccess := deliveryPhase_successful state.progress
        rw [show deliveryPhase state.progress = .revisionRequested reason from hphase] at hsuccess
        cases hsuccess
      · cases hactive.symm.trans hphase
    · simp only at h
      split at h
      · obtain ⟨updated, -, h⟩ := Except.bind_eq_ok.1 h
        cases h
        cases hactive.symm.trans hphase
      · cases h
  · have hsuccess := (reduceEvent_of_ne_active hactive h).1
    rw [hphase] at hsuccess
    cases hsuccess

theorem foldEvent_requested {stored : ProgressEvent} {reason : String} (h : foldEvent live state stored = .ok next)
    (hphase : next.phase = .revisionRequested reason) : stored.command.requestsRevision = true := by
  obtain ⟨reduced, hreduced, h⟩ := Except.bind_eq_ok.1 h
  cases h
  split at hphase
  · rcases settled_phase reduced with hsame | hsuccess
    · exact reduceEvent_requested hreduced (hsame ▸ hphase)
    · rw [hphase] at hsuccess
      cases hsuccess
  · exact reduceEvent_requested hreduced hphase

variable {events : List ProgressEvent}

variable {run : Run}

variable {tasks : List Task}

/-- No event of a run that succeeded asked for a revision. -/
theorem foldRun_success_no_revision : ∀ {state : ReducerState},
    foldRun tasks run events live = .ok state → state.phase.successful = true →
      ∀ stored ∈ events, stored.command.requestsRevision = false := by
  induction events using List.reverseRecOn with
  | nil => intro _ _ _ stored hmem; exact nomatch hmem
  | append_singleton events last ih =>
    intro state h hsuccess stored hmem
    have hlast := foldRun_success_last h hsuccess last (by simp)
    obtain ⟨before, next, hbefore, hnext, -⟩ := foldRun_snoc_cases h
    rcases List.mem_append.1 hmem with hmem | hmem
    · by_cases hactive : before.phase = .active
      · by_contra hrequests
        obtain ⟨reason, hreason⟩ := requestsRevision_iff.1 (by simpa using hrequests)
        exact foldRun_no_revision hbefore hactive stored hmem reason hreason
      · refine ih hbefore ?_ stored hmem
        cases hphase : before.phase with
        | active => exact absurd hphase hactive
        | revisionRequested _ => simp [reduceEvent, hphase, refused] at hnext
        | implemented => rfl
        | delivered => rfl
    · rw [List.mem_singleton.1 hmem]
      exact hlast

/-- A run that is over, and whose events asked for nothing, succeeded. -/
theorem foldRun_successful (h : foldRun tasks run events live = .ok state)
    (hover : state.phase ≠ .active) (hlast : ∀ last ∈ events.getLast?, last.command.requestsRevision = false) :
    state.phase.successful = true := by
  cases hphase : state.phase with
  | active => exact absurd hphase hover
  | implemented => rfl
  | delivered => rfl
  | revisionRequested reason =>
    cases events using List.reverseRecOn with
    | nil => cases h; cases hphase
    | append_singleton prior last =>
      rw [foldRun_snoc] at h
      obtain ⟨before, -, h⟩ := Except.bind_eq_ok.1 h
      have hrequests := foldEvent_requested h hphase
      rw [hlast last (by simp)] at hrequests
      cases hrequests

/-! ## The last archived run -/

variable {graph : Graph}

variable {archived : ArchivedRun} {finished : HistoricalRun}

theorem historyFor_getLast {events : Option (List ProgressEvent)} {prior : List ArchivedRun}
    (h : finished ∈ (historyFor graph ⟨events, prior ++ [archived]⟩).getLast?) :
    projectArchived graph archived = some finished := by
  rw [historyFor, projectHistory, List.mapM_append] at h
  cases hprior : prior.mapM (projectArchived graph) with
  | none => simp [hprior] at h
  | some projected =>
    cases hlast : projectArchived graph archived with
    | none => simp [hprior, hlast] at h
    | some item => simpa [hprior, hlast, eq_comm] using h

/-- The run that has just ended, as its version and its log tell it. -/
theorem ended_finished {latest : Version} {history : List ArchivedRun} {flag : Bool}
    (hcurrent : current graph = some latest)
    (h : finished ∈ (historyFor (unlockLast graph) ⟨none, history ++ [⟨run, events, flag⟩]⟩).getLast?) :
    ∃ version folded, versionFor graph run = some version ∧
      foldRun version.definition.tasks run events flag = .ok folded ∧
      folded.phase.outcome = some finished.outcome ∧ finished.progress.tasks = folded.progress := by
  obtain ⟨prior, rfl⟩ := current_eq_some.1 hcurrent
  obtain ⟨folded, hfolded, houtcome, -, hprogress⟩ := projectArchived_eq_some.1 (historyFor_getLast h)
  simp only [ArchivedRun.folded, Option.then_eq_some,
    Except.toOption_eq_some] at hfolded
  obtain ⟨released, hreleased, hfold⟩ := hfolded
  have hdefinition := versionFor_withState prior latest .approved run
  rw [unlock_mk_concat] at hreleased
  rw [hreleased, Option.map_some] at hdefinition
  obtain ⟨version, hversion, hsame⟩ := Option.map_eq_some_iff.1 hdefinition.symm
  exact ⟨version, folded, hversion, hsame ▸ hfold, houtcome, by rw [hprogress]; rfl⟩

/-! ## The run of a living build -/

/-- A run that the reader takes for the one of a living build. -/
def ArchivedRun.Built (liveBuild : Bool) (archived : ArchivedRun) : Prop :=
  archived.live = true ∨
    liveBuild = false ∧ ∀ stored ∈ archived.events, stored.command.requestsRevision = false

/-- The history has the run of a living build. -/
def Lifecycle.Files (lifecycle : Lifecycle) (liveBuild : Bool) (buildId : String) : Prop :=
  ∃ archived ∈ lifecycle.history, archived.run.id = buildId ∧ archived.Built liveBuild

variable {liveBuild : Bool} {buildId : String}

theorem Lifecycle.Files.append {events next : Option (List ProgressEvent)} {history : List ArchivedRun}
    (h : Files ⟨events, history⟩ liveBuild buildId)
    (more : List ArchivedRun) : Files ⟨next, history ++ more⟩ liveBuild buildId := by
  obtain ⟨archived, hmem, hbuilt⟩ := h
  exact ⟨archived, List.mem_append_left _ hmem, hbuilt⟩

theorem Lifecycle.Files.replace {events : Option (List ProgressEvent)} {front back : List ArchivedRun} {more : List ProgressEvent}
    (h : Files ⟨events, front ++ archived :: back⟩ liveBuild buildId)
    (hmore : archived.live = true ∨ ∀ stored ∈ more, stored ∈ archived.events ∨
      stored.command.requestsRevision = false) :
    Files ⟨events, front ++ { archived with events := more } :: back⟩ liveBuild buildId := by
  obtain ⟨other, hmem, hid, hbuilt⟩ := h
  rcases List.mem_append.1 hmem with hmem | hmem
  · exact ⟨other, List.mem_append_left _ hmem, hid, hbuilt⟩
  rcases List.mem_cons.1 hmem with rfl | hmem
  · refine ⟨_, List.mem_append_right _ List.mem_cons_self, hid, ?_⟩
    rcases hmore with hlive | hmore
    · exact .inl hlive
    · refine hbuilt.imp_right fun ⟨hserved, hevents⟩ ↦ ⟨hserved, fun stored hstored ↦ ?_⟩
      exact (hmore stored hstored).elim (hevents stored) fun h ↦ h
  · exact ⟨other, List.mem_append_right _ (List.mem_cons_of_mem _ hmem), hid, hbuilt⟩

/-- A report keeps it. -/
theorem Accepted.files {state next : LifecycleState} {input : LifecycleInput}
    (haccepted : Accepted state input live next)
    (h : state.lifecycle.Files liveBuild buildId) : next.lifecycle.Files liveBuild buildId := by
  cases haccepted with
  | late hsplit _ _ _ _ hreport =>
    obtain ⟨taskId, url, reported, hcommand⟩ := hreport
    refine Lifecycle.Files.replace (hsplit ▸ h) (.inr fun stored hmem ↦ ?_)
    rcases List.mem_append.1 hmem with hmem | hmem
    · exact .inl hmem
    · rw [List.mem_singleton.1 hmem, event, hcommand]
      exact .inr rfl
  | recorded => exact h
  | ended => exact h.append _

/-- So does a rebuild that resumes the run of a build. -/
theorem Lifecycle.Files.resume {lifecycle next : Lifecycle} {runId : String}
    {added : List ProgressEvent} (h : lifecycle.Files liveBuild buildId)
    (hresume : resumeLiveRun graph lifecycle runId added = some next) : next.Files liveBuild buildId := by
  obtain ⟨front, back, archived, kept, revision, reason, version, folded, events, hsplit, -, -, hlive, -,
    -, -, -, -, -, rfl⟩ := resumeLiveRun_ok hresume
  exact Lifecycle.Files.replace (hsplit ▸ h) (.inl hlive)

/-! ## Pull requests -/

variable {platform : Platform} {repository : String}

theorem requests_address {tasks : List TaskProgress} (h : OwnRequests repository tasks) :
    ∀ url ∈ Entries.distinct (tasks.filterMap fun task ↦ task.pullRequest.map PullRequest.url),
      platform.address url = some url := by
  intro url hmem
  obtain ⟨task, htask, hurl⟩ := List.mem_filterMap.1 (Entries.mem_distinct.1 hmem)
  obtain ⟨request, hrequest, rfl⟩ := Option.map_eq_some_iff.1 hurl
  exact ownPullRequest_address platform (h task htask request hrequest)

theorem deliveredRequests_address {tasks : List TaskProgress} (h : OwnRequests repository tasks) :
    ∀ url ∈ deliveredRequests tasks, platform.address url = some url :=
  requests_address fun task hmem ↦ h task (List.mem_of_mem_filter hmem)

/-! ## The first living record -/

namespace Plan

/-- The tasks of the run at work, where this report delivers it and files the first living record. -/
def delivering (plan : Plan) (input : LifecycleInput) : Option (List TaskProgress) :=
  match plan.graph, plan.execution with
  | some graph, some run =>
    if plan.live.isNone && input.runId == run.id && plan.builds.any (fun build ↦
        build.id == run.id && (plan.liveBuild || build.rebuild.isNone)) then do
      let version ← versionFor graph run
      let folded ← (foldRun version.definition.tasks run
        (plan.lifecycle.events.getD [] ++ [event input]) plan.liveBuild).toOption
      if folded.phase.successful then pure folded.progress else none
    else none
  | _, _ => none

/-- The tasks of the run at work, where this report stops its build and takes it live. -/
def stopping (plan : Plan) (id : String) (report : BuildReport) : Option (List TaskProgress) :=
  match plan.graph, plan.execution, plan.builds.getLast? with
  | some graph, some run, some build =>
    if plan.liveBuild && plan.live.isNone && run.id == id && build.rebuild.isNone
        && build.state != .stopped && report.state == .stopped then
      ((progressFor graph plan.lifecycle (some run)).map Progress.tasks).filter fun tasks ↦
        unfinishedTasks tasks != []
          && (startedRequests tasks != [] || tasks.any TaskProgress.blocked)
    else none
  | _, _, _ => none

/-- A run of this document that a report has just delivered to one of its builds. -/
structure Delivers (plan : Plan) (input : LifecycleInput) (next : LifecycleState)
    (build : BuildRequest) (tasks : List TaskProgress) : Prop where
  mem : build ∈ plan.builds
  first : plan.live = none
  delivering : plan.delivering input = some tasks
  own : ∃ repository, OwnRequests repository tasks
  files : next.lifecycle.Files plan.liveBuild build.id

variable {next : LifecycleState} {input : LifecycleInput}

theorem delivers_ended {plan : Plan} {graph : Graph} {run : Run}
    {build : BuildRequest} {finished : HistoricalRun} (hgraph : plan.graph = some graph)
    (haccepted : Accepted ⟨graph, plan.execution, plan.lifecycle⟩ input plan.liveRun.isSome next)
    (hrun : plan.execution = some run) (hidle : next.execution = none) (hlive : plan.live = none)
    (hbuild : build ∈ plan.builds) (hid : build.id = run.id) (hkind : plan.liveBuild = true ∨ build.rebuild = none)
    (hfinished : finished ∈ (historyFor next.graph next.lifecycle).getLast?)
    (hserved : plan.liveBuild = true → ∃ archived ∈ next.lifecycle.history.getLast?, archived.live = true)
    (hmanual : plan.liveBuild = false → finished.outcome.successful = true) :
    plan.Delivers input next build finished.progress.tasks := by
  cases haccepted with
  | late => cases hidle.symm.trans hrun
  | recorded hexecution => cases hidle.symm.trans hexecution
  | @ended owner version before reduced flag hexecution hinput hversion hfold hactive hreduce hover =>
    obtain rfl := Option.mem_unique hexecution hrun
    have hflag : flag = plan.liveBuild := by
      cases hserves : plan.liveBuild with
      | true =>
        obtain ⟨archived, hmem, harchived⟩ := hserved hserves
        simp only [released, List.getLast?_concat, Option.mem_def, Option.some.injEq] at hmem
        rw [← hmem] at harchived
        exact harchived
      | false =>
        by_contra hne
        have hsome := (if_pos (by simpa using hne) ▸ hover : _ ∧ _).1
        rw [Plan.liveRun, hserves] at hsome
        cases hsome
    obtain ⟨ran, folded, hran, hfolded, houtcome, htasks⟩ :=
      ended_finished (activeVersion_eq_some.1 hversion).1 hfinished
    have hsuccess : folded.phase.successful = true := by
      cases hserves : plan.liveBuild with
      | false => rw [← Phase.outcome_successful houtcome]; exact hmanual hserves
      | true =>
        refine foldRun_successful hfolded (fun hphase ↦ ?_) fun last hlast ↦ ?_
        · rw [Phase.outcome_eq_none.2 hphase] at houtcome
          cases houtcome
        · rw [List.getLast?_concat, Option.mem_def, Option.some.injEq] at hlast
          subst hlast
          by_contra hrequests
          obtain ⟨reason, hreason⟩ := requestsRevision_iff.1 (by simpa using hrequests)
          rw [hflag, hserves, if_pos rfl] at hover
          rw [reduceEvent_revision hreason hreduce] at hover
          cases hover.2.1
    refine ⟨hbuild, hlive, ?_, ⟨owner.repository, htasks ▸ foldRun_own hfolded⟩, ?_⟩
    · have hany : plan.builds.any (fun build ↦
          build.id == owner.id && (plan.liveBuild || build.rebuild.isNone)) = true :=
        List.any_eq_true.2 ⟨build, hbuild, by simpa [hid] using hkind⟩
      rw [delivering, hgraph, hrun]
      simp only [hlive, hinput, hany, Option.isNone_none, beq_self_eq_true, Bool.and_self, if_true]
      simp [hran, ← hflag, hfolded, hsuccess, htasks]
    · refine ⟨_, List.mem_concat_self, hid.symm, ?_⟩
      cases hserves : plan.liveBuild with
      | true => exact .inl (hflag.trans hserves)
      | false => exact .inr ⟨rfl, foldRun_success_no_revision hfolded hsuccess⟩

/-- **What a report files.**  A first living record is of a build whose run the report has just
delivered. -/
theorem reportedLive_filed {plan : Plan} {graph : Graph} {live : Option LiveBuild} (hgraph : plan.graph = some graph)
    (haccepted : Accepted ⟨graph, plan.execution, plan.lifecycle⟩ input plan.liveRun.isSome next)
    (h : plan.reportedLive next = some live) : live = plan.live ∨ ∃ build tasks, plan.Delivers input next build tasks ∧
        live = some (plan.goLive build (deliveredRequests tasks) none) := by
  have hmanual : live = (plan.manualLive next <|> plan.live) → live = plan.live ∨
      ∃ build tasks, plan.Delivers input next build tasks ∧
        live = some (plan.goLive build (deliveredRequests tasks) none) := by
    rintro rfl
    cases hfiled : plan.manualLive next with
    | none => exact .inl rfl
    | some record =>
      simp only [Plan.manualLive, Option.then_eq_some] at hfiled
      obtain ⟨build, hbuild, finished, hfinished, hfiled⟩ := hfiled
      simp only [Plan.manualRun] at hbuild
      split at hbuild
      · rename_i hready
        simp only [Bool.and_eq_true, Bool.not_eq_true', Option.isNone_iff_eq_none, beq_iff_eq]
          at hready
        obtain ⟨⟨⟨hserved, hlive⟩, hidle⟩, hid⟩ := hready
        obtain ⟨archived, harchived, hfind⟩ := Option.bind_eq_some_iff.1 hbuild
        obtain ⟨run, hrun, hrunId⟩ := Option.map_eq_some_iff.1
          (hid.symm.trans (congrArg (Option.map _) harchived))
        have hfound := List.find?_some hfind
        simp only [Bool.and_eq_true, beq_iff_eq, Option.isNone_iff_eq_none] at hfound
        refine .inr ⟨build, finished.progress.tasks, delivers_ended hgraph haccepted hrun hidle hlive
          (List.mem_of_find?_eq_some hfind) (hfound.1.trans hrunId.symm) (.inr hfound.2) hfinished
          (by simp [hserved]) (fun _ ↦ ?_), ?_⟩
        · split at hfiled <;> rename_i houtcome
          · rw [houtcome]; rfl
          · rw [houtcome]; rfl
          · cases hfiled
        · split at hfiled <;> cases hfiled <;> rfl
      · cases hbuild
  simp only [Plan.reportedLive] at h
  split at h
  · rename_i build archived hbuild hidle harchived
    split at h
    · rename_i hlast
      simp only [Bool.and_eq_true, beq_iff_eq] at hlast
      obtain ⟨delivered, hdelivered, rfl⟩ := Option.map_eq_some_iff.1 h
      obtain ⟨hserved, hlive, hmem, run, hrun, hid⟩ := liveRun_eq_some hbuild
      exact .inr ⟨build, _, delivers_ended hgraph haccepted hrun hidle hlive hmem hid (.inl hserved)
        hdelivered (fun _ ↦ ⟨archived, harchived, hlast.2⟩) (by simp [hserved]), rfl⟩
    · exact hmanual (Option.some.inj h).symm
  · exact hmanual (Option.some.inj h).symm

end Plan

end Chopin.Tasks
