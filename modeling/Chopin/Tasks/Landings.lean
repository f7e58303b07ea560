import Chopin.Tasks.EventKeys
import Chopin.Tasks.RebuildFolds

/-!
# Lifecycles a rebuild has landed on

What a rebuild does to a restorable lifecycle: it resumes the first build's archived run, and it files
a version of its own with the run that did it.  Neither goes through `transition`, so every check of
the reader is made anew.

* `Lifecycle.Restores.resume` — a resumed run restores; where it comes to a success, it has to be the
  only one of its version (`Lifecycle.Alone`).
* `Lifecycle.Restores.resumeOutstanding` — all of a report's outcomes: the run comes to a success only
  if each of its tasks was complete or is reported done (`Lifecycle.AllDone`).
* `Graph.Wf.land`, `rebuildArchived_restores` — the appended version and its run.
-/

set_option autoImplicit false
set_option linter.dupNamespace false

open Script

namespace Chopin.Tasks

/-! ## Logs can be stored -/

theorem foldRun_storable {definition : Definition} (hvalid : validate definition = .ok definition)
    {run : Run} {live : Bool} {events : List ProgressEvent} : ∀ {state : ReducerState},
    foldRun definition.tasks run events live = .ok state → ∀ stored ∈ events, stored.command.Storable := by
  induction events using List.reverseRecOn with
  | nil => intro _ _ stored hmem; exact nomatch hmem
  | append_singleton events last ih =>
    intro state h stored hmem
    obtain ⟨before, next, hbefore, hnext, -⟩ := foldRun_snoc_cases h
    rcases List.mem_append.1 hmem with hmem | hmem
    · exact ih hbefore stored hmem
    · rw [List.mem_singleton.1 hmem]
      exact reduceEvent_storable (foldRun_ids_text hvalid hbefore) hnext

/-- A requested revision ends an active log and leaves its progress alone. -/
theorem foldRun_revision {tasks : List Task} {run : Run} {live : Bool} {kept : List ProgressEvent}
    {revision : ProgressEvent} {reason : String} (hreason : revision.command = .requestRevision reason)
    {state : ReducerState} : foldRun tasks run (kept ++ [revision]) live = .ok state ↔
      text reason = true ∧ ∃ before, foldRun tasks run kept live = .ok before ∧
        before.phase = .active ∧ state = { before with phase := .revisionRequested reason } := by
  have hstep : ∀ before : ReducerState, foldEvent live before revision = .ok state ↔
      text reason = true ∧ before.phase = .active ∧
        state = { before with phase := .revisionRequested reason } := by
    intro before
    have hsettled : ∀ before : ReducerState,
        settled { before with phase := .revisionRequested reason } =
          { before with phase := .revisionRequested reason } :=
      fun before ↦ settled_of_ne_active (by simp)
    have hfinished : reduceFinished before (.requestRevision reason) = refused "terminal" := rfl
    cases hphase : before.phase <;> cases htext : text reason <;>
      simp [foldEvent, reduceEvent, hphase, reduceActive, hreason, htext, hfinished, refused, hsettled,
        eq_comm]
  rw [foldRun_snoc, Except.bind_eq_ok]
  constructor
  · rintro ⟨before, hbefore, h⟩
    obtain ⟨htext, hphase, rfl⟩ := (hstep before).1 h
    exact ⟨htext, before, hbefore, hphase, rfl⟩
  · rintro ⟨htext, before, hbefore, hphase, rfl⟩
    exact ⟨before, hbefore, (hstep before).2 ⟨htext, hphase, rfl⟩⟩

/-! ## What a report completes -/

/-- The tasks that are complete. -/
def completedIds (items : List TaskProgress) : List String :=
  (items.filter TaskProgress.completed).map TaskProgress.id

theorem mem_completedIds {items : List TaskProgress} {id : String} :
    id ∈ completedIds items ↔ ∃ item ∈ items, item.id = id ∧ item.completed = true := by
  simp only [completedIds, List.mem_map, List.mem_filter]
  exact ⟨fun ⟨item, ⟨hmem, h⟩, hid⟩ ↦ ⟨item, hmem, hid, h⟩,
    fun ⟨item, hmem, hid, h⟩ ↦ ⟨item, ⟨hmem, h⟩, hid⟩⟩

/-- The report calls the outstanding task done. -/
def RebuildReport.reportsDone (report : RebuildReport) (id : String) : Prop :=
  ∃ outcome ∈ report.outstanding.getD [], outcome.taskId = id ∧
    ∃ pullRequest, outcome.outcome = .done pullRequest

variable {added : List ProgressEvent}

theorem outcomeEvents_done {item : TaskProgress} {key summary : String} {outcome : TaskOutcome}
    (h : outcomeEvents item key summary outcome = some added)
    {stored : ProgressEvent} (hmem : stored ∈ added) {id text : String} {noChange : Option NoChange}
    (hcommand : stored.command = .complete id text noChange) :
    id = item.id ∧ ∃ pullRequest, outcome.outcome = .done pullRequest := by
  rw [outcomeEvents] at h
  split at h
  · cases h
  · cases h
    rw [List.mem_singleton.1 hmem] at hcommand
    cases hcommand
  · rename_i pullRequest houtcome
    simp only at h
    split at h; · cases h
    split at h; · cases h
    cases h
    refine ⟨?_, pullRequest, houtcome⟩
    rcases List.mem_append.1 hmem with hmem | hmem
    · rcases List.mem_append.1 hmem with hmem | hmem
      · split at hmem
        · cases hmem
        · rw [List.mem_singleton.1 hmem] at hcommand
          cases hcommand
      · split at hmem
        · rw [List.mem_singleton.1 hmem] at hcommand
          cases hcommand
        · cases hmem
    · rw [List.mem_singleton.1 hmem] at hcommand
      cases hcommand
      rfl

/-- Each task of the run was complete or is reported done. -/
def Lifecycle.AllDone (lifecycle : Lifecycle) (graph : Graph) (runId : String) (report : RebuildReport) : Prop :=
  ∀ archived ∈ lifecycle.history, archived.run.id = runId → ∀ folded ∈ archived.folded graph,
    ∀ item ∈ folded.progress, item.id ∈ completedIds folded.progress ∨ report.reportsDone item.id

/-- Nobody else has implemented the version that the run names, or is at work on it. -/
def Lifecycle.Alone (lifecycle : Lifecycle) (graph : Graph) (execution : Option Run) (runId : String) :
    Prop :=
  ∀ archived ∈ lifecycle.history, archived.run.id = runId →
    (∀ other ∈ lifecycle.history, other.run.id ≠ runId → other.successful graph = true →
      other.run.reference ≠ archived.run.reference) ∧
    ∀ run ∈ execution, run.reference ≠ archived.run.reference

/-! ## Resuming a run -/

variable {archived : ArchivedRun}

variable {graph : Graph}

/-- A log that folds to an end restores, if its keys say something. -/
theorem ArchivedRun.restores_of_folded (hwf : graph.Wf) {folded : ReducerState}
    (hvalid : archived.run.valid = true) (hfolded : archived.folded graph = some folded)
    (hphase : folded.phase ≠ .active) (hkeys : ∀ stored ∈ archived.events, text stored.idempotencyKey = true) :
    archived.Restores graph := by
  have hfold := hfolded
  rw [ArchivedRun.folded, Option.then_eq_some] at hfold
  obtain ⟨version, hversion, hfold⟩ := hfold
  rw [Except.toOption_eq_some] at hfold
  refine ⟨hvalid, ?_, fun stored hmem ↦ ⟨hkeys stored hmem, ?_⟩, folded, hfolded, hphase⟩
  · intro hnil
    rw [hnil, foldRun_nil] at hfold
    cases hfold
    exact hphase rfl
  · exact foldRun_storable (hwf.versions version (versionFor_mem hversion).1).2 hfold stored hmem

/-- An archived run after it was resumed. -/
structure Resumed (graph : Graph) (added : List ProgressEvent) (archived next : ArchivedRun) : Prop where
  run : next.run = archived.run
  events : ∀ stored ∈ next.events, stored ∈ archived.events ∨ stored ∈ added
  folded : ∃ before after, archived.folded graph = some before ∧ next.folded graph = some after ∧
    after.phase ≠ .active ∧ ∀ id ∈ completedIds after.progress, id ∈ completedIds before.progress ∨
      ∃ stored ∈ added, ∃ summary noChange, stored.command = .complete id summary noChange

variable {lifecycle : Lifecycle} {runId : String}

variable {next : Lifecycle}

/-- Resuming a run changes that run alone. -/
theorem resumeLiveRun_resumed (hover : ∀ archived ∈ lifecycle.history, archived.Restores graph)
    (h : resumeLiveRun graph lifecycle runId added = some next) :
    ∃ front back archived after, lifecycle.history = front ++ archived :: back ∧
      archived.run.id = runId ∧ next = { lifecycle with history := front ++ after :: back } ∧
      Resumed graph added archived after := by
  obtain ⟨front, back, archived, kept, revision, reason, version, folded, events, hsplit, -, hid, hlive,
    hevents, hreason, hversion, -, hfold, hshape, rfl⟩ := resumeLiveRun_ok h
  refine ⟨front, back, archived, { archived with events }, hsplit, hid, rfl, rfl, ?_, ?_⟩
  · intro stored hmem
    rw [hevents]
    rcases hshape with ⟨-, rfl⟩ | ⟨-, rfl⟩ <;> simp at hmem ⊢ <;> grind
  · -- without its revision the log is still active
    obtain ⟨ended, hended, -⟩ := (hover archived (by simp [hsplit])).finished
    have hnames : (versionFor graph archived.run).map Version.definition = some version.definition := by
      rw [hversion]; rfl
    have hendedFold := hended
    rw [ArchivedRun.folded, hversion, Option.some_then, Except.toOption_eq_some,
      hevents, hlive, foldRun_revision hreason] at hendedFold
    obtain ⟨htext, before, hbefore, -, rfl⟩ := hendedFold
    have hcompleted : ∀ id ∈ completedIds folded.progress, id ∈ completedIds before.progress ∨
        ∃ stored ∈ added, ∃ summary noChange, stored.command = .complete id summary noChange := by
      intro id hid
      obtain ⟨item, hmem, rfl, hdone⟩ := mem_completedIds.1 hid
      exact (foldRun_completed hbefore hfold item hmem hdone).imp_left mem_completedIds.2
    rcases hshape with ⟨hphase, rfl⟩ | ⟨hsuccess, rfl⟩
    · refine ⟨_, { folded with phase := .revisionRequested reason }, hended, ?_, by simp, hcompleted⟩
      refine ArchivedRun.folded_eq hnames ?_
      rw [hlive, foldRun_revision hreason]
      exact ⟨htext, folded, hfold, hphase, rfl⟩
    · refine ⟨_, folded, hended, ?_, Phase.ne_active hsuccess, hcompleted⟩
      exact ArchivedRun.folded_eq hnames (by rw [hlive]; exact hfold)

variable {execution : Option Run}

theorem Lifecycle.Alone.resume {active : Option (List ProgressEvent)}
    {front back : List ArchivedRun} {next : ArchivedRun}
    (h : Lifecycle.Alone ⟨active, front ++ archived :: back⟩ graph execution runId) (hid : archived.run.id = runId)
    (hrun : next.run = archived.run) : Lifecycle.Alone ⟨active, front ++ next :: back⟩ graph execution runId := by
  subst hid
  have hmember : ∀ other ∈ front ++ next :: back, other = next ∨ other ∈ front ++ archived :: back := by
    intro other hmem
    exact (List.mem_cons.1 (List.perm_middle.mem_iff.1 hmem)).imp_right fun h ↦
      List.perm_middle.mem_iff.2 (List.mem_cons_of_mem _ h)
  intro named hnamed hid
  obtain ⟨earlier, hearlier, heq⟩ : ∃ earlier ∈ front ++ archived :: back, earlier.run = named.run := by
    rcases hmember named hnamed with rfl | hmem
    · exact ⟨archived, by simp, hrun.symm⟩
    · exact ⟨named, hmem, rfl⟩
  obtain ⟨hothers, hexecution⟩ := h earlier hearlier (by rw [heq]; exact hid)
  rw [heq] at hothers hexecution
  refine ⟨fun other hmem hne ↦ ?_, hexecution⟩
  rcases hmember other hmem with rfl | hmem
  · exact absurd (congrArg Run.id hrun) hne
  · exact hothers other hmem hne

/-- **A resumed run restores**, if it is alone when it comes to a success. -/
theorem Lifecycle.Restores.resume (hwf : graph.Wf)
    (h : lifecycle.Restores graph execution) (hresumed : resumeLiveRun graph lifecycle runId added = some next)
    (hnodup : (added.map ProgressEvent.idempotencyKey).Nodup)
    (hkeys : ∀ stored ∈ added, text stored.idempotencyKey = true)
    (halone : ∀ archived ∈ next.history, archived.run.id = runId → archived.successful graph = true →
      lifecycle.Alone graph execution runId) : next.Restores graph execution := by
  have hkeyed := (Lifecycle.Keyed.resume h.keys hnodup hresumed).1
  obtain ⟨front, back, archived, after, hsplit, hid, rfl, hafter⟩ :=
    resumeLiveRun_resumed h.archived hresumed
  obtain ⟨active, history⟩ := lifecycle
  simp only at hsplit
  subst hsplit hid
  have harchived := h.archived archived (by simp)
  obtain ⟨before, folded, -, hfolded, hphase, -⟩ := hafter.folded
  have hrestores : after.Restores graph :=
    ArchivedRun.restores_of_folded hwf (hafter.run ▸ harchived.valid) hfolded hphase fun stored hmem ↦
      (hafter.events stored hmem).elim (fun hmem ↦ (harchived.storable stored hmem).1) (hkeys stored)
  refine h.replace hwf hafter.run hrestores hkeyed fun hsuccess ↦ ?_
  obtain ⟨hothers, hexecution⟩ := halone after (by simp) (congrArg Run.id hafter.run) hsuccess
    archived (by simp) rfl
  refine ⟨fun other hmem hother ↦ ?_, hexecution⟩
  refine hothers other (List.perm_middle.mem_iff.2 (List.mem_cons_of_mem _ hmem)) ?_ hother
  -- no other archived run has its id
  have hids := h.runs
  rw [(List.perm_middle.map _).nodup_iff, List.map_cons, List.nodup_cons] at hids
  exact fun hsame ↦ hids.1 (hsame ▸ List.mem_map_of_mem hmem)

/-! ## All of a report's outcomes -/

/-- A lifecycle on the way through a report's outcomes. -/
structure Resuming (graph : Graph) (execution : Option Run) (start : Lifecycle) (runId : String)
    (report : RebuildReport) (after : Lifecycle) : Prop where
  restores : after.Restores graph execution
  runs : after.history.map ArchivedRun.run = start.history.map ArchivedRun.run
  events : after.events = start.events
  alone : start.Alone graph execution runId → after.Alone graph execution runId
  completed : ∀ archived ∈ after.history, archived.run.id = runId → ∀ folded ∈ archived.folded graph,
    ∀ id ∈ completedIds folded.progress, report.reportsDone id ∨ ∀ earlier ∈ start.history,
      earlier.run.id = runId → ∀ before ∈ earlier.folded graph, id ∈ completedIds before.progress

/-- The archived run under an id is one. -/
theorem run_unique {history : List ArchivedRun} (h : (history.map (·.run.id)).Nodup) {left right : ArchivedRun}
    (hleft : left ∈ history) (hright : right ∈ history) (hid : left.run.id = right.run.id) : left = right :=
  List.inj_on_of_nodup_map h hleft hright hid

theorem Resuming.start (h : lifecycle.Restores graph execution) (runId : String) (report : RebuildReport) :
    Resuming graph execution lifecycle runId report lifecycle := by
  refine ⟨h, rfl, rfl, id, fun archived hmem hid folded hfolded completed hcompleted ↦ .inr ?_⟩
  intro earlier hearlier hsame before hbefore
  obtain rfl := run_unique h.runs hmem hearlier (hid.trans hsame.symm)
  rwa [← Option.mem_unique hfolded hbefore]

variable {report : RebuildReport}

/-- A run that came to a success on the way had each of its tasks complete or reported done. -/
theorem Resuming.allDone {start after : Lifecycle} (hstart : start.Restores graph execution)
    (hruns : after.history.map ArchivedRun.run = start.history.map ArchivedRun.run)
    (hcompleted : ∀ archived ∈ after.history, archived.run.id = runId →
      ∀ folded ∈ archived.folded graph, ∀ id ∈ completedIds folded.progress, report.reportsDone id ∨
        ∀ earlier ∈ start.history, earlier.run.id = runId →
          ∀ before ∈ earlier.folded graph, id ∈ completedIds before.progress)
    (hmem : archived ∈ after.history) (hid : archived.run.id = runId) (hsuccess : archived.successful graph = true) :
    start.AllDone graph runId report := by
  intro earlier hearlier hsame before hbefore item hitem
  -- the run is the same, so its progress is about the same tasks
  obtain ⟨first, hfirst, hrun⟩ : ∃ first ∈ start.history, first.run = archived.run := by
    have : archived.run ∈ start.history.map ArchivedRun.run := hruns ▸ List.mem_map_of_mem hmem
    exact List.mem_map.1 this
  obtain rfl := run_unique hstart.runs hfirst hearlier (by rw [hrun, hid, hsame])
  rw [ArchivedRun.successful, Option.any_eq_true] at hsuccess
  obtain ⟨folded, hfolded, hphase⟩ := hsuccess
  have hfold := hfolded
  have hbeforeFold := hbefore
  rw [Option.mem_def] at hbeforeFold
  rw [ArchivedRun.folded, Option.then_eq_some] at hfold hbeforeFold
  obtain ⟨version, hversion, hfold⟩ := hfold
  obtain ⟨version', hversion', hbeforeFold⟩ := hbeforeFold
  rw [Except.toOption_eq_some] at hfold hbeforeFold
  rw [hrun] at hversion'
  obtain rfl := Option.mem_unique hversion hversion'
  have hitemId : item.id ∈ folded.progress.map TaskProgress.id := by
    rw [foldRun_ids hfold, ← foldRun_ids hbeforeFold]
    exact List.mem_map_of_mem hitem
  obtain ⟨counterpart, hcounterpart, heq⟩ := List.mem_map.1 hitemId
  have hdone := foldRun_success_completed hfold hphase counterpart hcounterpart
  rcases hcompleted archived hmem hid folded hfolded item.id
    (mem_completedIds.2 ⟨counterpart, hcounterpart, heq, hdone⟩) with hreported | hcomplete
  · exact .inr hreported
  · exact .inl (hcomplete first hfirst hsame before hbefore)

/-- **What a report makes of the first build's run restores.** -/
theorem Lifecycle.Restores.resumeOutstanding {live : LiveBuild} {buildId : String}
    {resumption : Resumption} (hwf : graph.Wf) (h : lifecycle.Restores graph execution) (hbuild : text buildId = true)
    (halone : lifecycle.AllDone graph live.buildId report → lifecycle.Alone graph execution live.buildId)
    (hresumed : Tasks.resumeOutstanding graph lifecycle live buildId report = some resumption) :
    Resuming graph execution lifecycle live.buildId report resumption.lifecycle := by
  refine resumeOutstanding_invariant (P := Resuming graph execution lifecycle live.buildId report)
    hresumed (.start h _ _) ?_
  rintro before after item outcome added hbefore houtcome htask hadded hstep
  obtain ⟨hnodup, hsuffix⟩ := outcomeEvents_keys hadded
  have hkeys : ∀ stored ∈ added, text stored.idempotencyKey = true := by
    intro stored hmem
    obtain ⟨suffix, -, hkey⟩ := hsuffix stored hmem
    rw [hkey, String.append_assoc, String.append_assoc]
    exact text_append _ hbuild
  obtain ⟨front, back, archived, next, hsplit, hid, hafter, hresume⟩ :=
    resumeLiveRun_resumed hbefore.restores.archived hstep
  have hruns : after.history.map ArchivedRun.run = lifecycle.history.map ArchivedRun.run := by
    rw [← hbefore.runs, hafter, hsplit]
    simp [hresume.run]
  have hcompleted : ∀ archived ∈ after.history, archived.run.id = live.buildId →
      ∀ folded ∈ archived.folded graph, ∀ id ∈ completedIds folded.progress, report.reportsDone id ∨
        ∀ earlier ∈ lifecycle.history, earlier.run.id = live.buildId →
          ∀ before ∈ earlier.folded graph, id ∈ completedIds before.progress := by
    intro other hmem hother folded hfolded id hdone
    rw [hafter] at hmem
    rcases List.mem_cons.1 (List.perm_middle.mem_iff.1 hmem) with rfl | hmem
    · obtain ⟨prior, latter, hprior, hlatter, -, htracked⟩ := hresume.folded
      rw [Option.mem_unique hfolded hlatter] at hdone
      rcases htracked id hdone with hdone | ⟨stored, hstored, summary, noChange, hcommand⟩
      · exact hbefore.completed archived (by simp [hsplit]) hid prior hprior id hdone
      · obtain ⟨rfl, hreported⟩ := outcomeEvents_done hadded hstored hcommand
        exact .inl ⟨outcome, houtcome, htask, hreported⟩
    · refine hbefore.completed other ?_ hother folded hfolded id hdone
      rw [hsplit]
      exact List.perm_middle.mem_iff.2 (List.mem_cons_of_mem _ hmem)
  refine ⟨?_, hruns, by rw [hafter]; exact hbefore.events, fun hstart ↦ ?_, hcompleted⟩
  · exact hbefore.restores.resume hwf hstep hnodup hkeys fun other hmem hother hsuccess ↦
      hbefore.alone (halone (Resuming.allDone h hruns hcompleted hmem hother hsuccess))
  · obtain ⟨active, history⟩ := before
    simp only at hsplit
    subst hsplit hafter
    exact (hbefore.alone hstart).resume hid hresume.run

/-! ## The appended version -/

variable {latest : Version}

variable {prior : List Version}

theorem Graph.Wf.land {revision : Nat}
    {definition : Definition} (h : Graph.Wf ⟨prior ++ [latest]⟩) (hstate : latest.state = .approved)
    (hrevision : latest.planRevision ≤ revision) (hvalid : validate definition = .ok definition) :
    Graph.Wf ⟨(prior ++ [{ latest with state := .superseded }]) ++ [{
      number := latest.number + 1, revision := 1, planRevision := revision, state := .approved,
      definition }]⟩ := by
  have hdraft := h.pushDraft hstate hrevision hvalid
  have hprior : ∀ version ∈ prior, version.supersede = version := by
    obtain ⟨-, -, -, -, hpriorOk⟩ := Graph.wf_concat.1 h
    rw [PriorOk, if_neg (by simp [hstate])] at hpriorOk
    intro version hmem
    rw [Version.supersede, hpriorOk version hmem]
    rfl
  have happroved := hdraft.approve rfl
  rw [List.map_append, List.map_congr_left hprior, List.map_id', List.map_singleton, Version.supersede,
    hstate] at happroved
  exact happroved

theorem Graph.Kept.land (more : List Version) :
    Graph.Kept ⟨prior ++ [latest]⟩ ⟨(prior ++ [{ latest with state := .superseded }]) ++ more⟩ :=
  fun run definition hheld ↦ Graph.Kept.push _ _ run definition
    (Graph.Kept.withState (by simp) run definition hheld)

/-- What the version that a rebuild appends, and the run that did it, have to meet. -/
structure Appendable (lifecycle : Lifecycle) (live : LiveBuild) (target : Target) (build : BuildRequest)
    (latest : Version) (report : RebuildReport) : Prop where
  /-- Each pull request is spelled as the repository is. -/
  own : ∀ task ∈ report.tasks, ownPullRequest live.checkout.repository task.pullRequest = true
  user : text build.user = true
  session : ∀ session ∈ build.session, text session = true
  /-- The graph has not moved past the target. -/
  revision : latest.planRevision ≤ target.revision
  number : latest.number < Json.maxSafe
  id : ∀ archived ∈ lifecycle.history, archived.run.id ≠ build.id

theorem Appendable.resumed {resumed : Lifecycle} {live : LiveBuild} {target : Target} {build : BuildRequest}
    (h : Appendable lifecycle live target build latest report)
    (hruns : resumed.history.map ArchivedRun.run = lifecycle.history.map ArchivedRun.run) :
    Appendable resumed live target build latest report := by
  refine ⟨h.own, h.user, h.session, h.revision, h.number, fun archived hmem ↦ ?_⟩
  have hrun : archived.run ∈ lifecycle.history.map ArchivedRun.run := hruns ▸ List.mem_map_of_mem hmem
  obtain ⟨earlier, hearlier, heq⟩ := List.mem_map.1 hrun
  exact heq ▸ h.id earlier hearlier

end Chopin.Tasks
