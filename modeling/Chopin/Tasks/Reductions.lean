import Chopin.Tasks.FoldFacts

/-!
# What one event can do to a run

Everything that is proved about a log goes through the event that was accepted last.  The reducer
reads an event in five ways, and this module says what each does, so that nothing above has to open
the reducer again.
-/

set_option autoImplicit false
set_option linter.dupNamespace false

open Script

namespace Chopin.Tasks

/-- A task that is not at work and not done: it waits, or something is in its way. -/
def TaskState.idle : TaskState → Prop
  | .queued | .blocked _ _ => True
  | _ => False

/-- What `reduceTask` makes of a task, of the progress of `item`, under each command. -/
inductive TaskStep (state : ReducerState) (task : Task) (item : TaskProgress) : Command → TaskProgress → Prop
  | start (taskId : String) (idle : item.state.idle)
      (ready : ∀ id ∈ task.dependsOn, ∃ other, state.progress.find? (·.id == id) = some other ∧ other.completed = true) :
      TaskStep state task item (.start taskId) { item with state := .inProgress item.pullRequest }
  | block (taskId reason : String) (working : item.completed = false) :
      TaskStep state task item (.block taskId reason) { item with state := .blocked reason item.pullRequest }
  | reportPr (taskId url : String) (reported : PullRequestState) (started : item.state ≠ .queued)
      (kept : mergedAt state.progress url = true → reported = .merged) :
      TaskStep state task item (.reportPr taskId url reported) (item.withPullRequest ⟨url, reported⟩)
  | complete (taskId summary : String) (noChange : Option NoChange) (request : Option PullRequest)
      (delivery : Delivery) (working : item.state = .inProgress request)
      (same : TaskProgress.pullRequest ⟨item.id, .completed summary delivery⟩ = request) :
      TaskStep state task item (.complete taskId summary noChange) { item with state := .completed summary delivery }

variable {state : ReducerState} {command : Command} {live : Bool}

theorem reduceTask_cases {task : Task} {item next : TaskProgress}
    (h : reduceTask state task item command live = .ok next) : TaskStep state task item command next := by
  cases command with
  | start taskId =>
    have hstarts (hidle : item.state.idle) (h : (if task.dependsOn.any fun id ↦
          (state.progress.find? (·.id == id)).map TaskProgress.completed != some true then
        Except.error "dependency" else .ok { item with state := .inProgress item.pullRequest }) = .ok next) :
        TaskStep state task item (.start taskId) next := by
      split at h
      · cases h
      · rename_i hready
        cases h
        refine .start taskId hidle fun id hid ↦ ?_
        have hfound := List.any_eq_false.1 (Bool.not_eq_true _ ▸ hready) id hid
        simpa using hfound
    simp only [reduceTask] at h
    split at h
    · rename_i hstate
      exact hstarts (by rw [hstate]; trivial) h
    · rename_i hstate
      exact hstarts (by rw [hstate]; trivial) h
    · cases h
  | block taskId reason =>
    have hblocks (hworking : item.completed = false) (h : (if !text reason then Except.error "reason"
        else .ok { item with state := .blocked reason item.pullRequest }) = .ok next) :
        TaskStep state task item (.block taskId reason) next := by
      split at h
      · cases h
      · cases h
        exact .block taskId reason hworking
    obtain ⟨id, taskState⟩ := item
    cases taskState with
    | blocked blocker request =>
      cases live with
      | true =>
        simp only [reduceTask, Bool.not_true, Bool.false_eq_true, if_false] at h
        exact hblocks rfl h
      | false => cases h
    | completed summary delivery => cases h
    | _ =>
      simp only [reduceTask, Bool.not_true, Bool.false_eq_true, if_false] at h
      exact hblocks rfl h
  | reportPr taskId url reported =>
    have htakes (hstarted : item.state ≠ .queued) (h : (if !text url then Except.error "pull-request"
        else if !ownPullRequest state.run.repository url then .error "repository"
        else if mergedAt state.progress url && reported != .merged then .error "pull-request-state"
        else .ok (item.withPullRequest ⟨url, reported⟩)) = .ok next) :
        TaskStep state task item (.reportPr taskId url reported) next := by
      split at h; · cases h
      split at h; · cases h
      split at h; · cases h
      rename_i hguard
      cases h
      refine .reportPr taskId url reported hstarted fun hmerged ↦ ?_
      simpa [hmerged] using hguard
    simp only [reduceTask] at h
    split at h
    · cases h
    · cases h
    · rename_i hqueued _
      exact htakes hqueued h
  | complete taskId summary noChange =>
    simp only [reduceTask] at h
    split at h
    · cases h
    · rename_i request hstate
      split at h
      · split at h; · cases h
        split at h; · cases h
        split at h; · cases h
        rename_i hnone _ _
        cases h
        refine .complete taskId summary _ request _ hstate ?_
        cases request with
        | none => rfl
        | some request => exact absurd rfl hnone
      · split at h
        · cases h
        · split at h; · cases h
          cases h
          exact .complete taskId summary none _ _ hstate rfl
    · cases h
  | reportVerification report => cases h
  | requestRevision reason => cases h

/-- What the reducer makes of a run under an event. -/
inductive Reduces (state : ReducerState) : Command → ReducerState → Prop
  | late (taskId url : String) (reported : PullRequestState) (addressed : TaskProgress)
      (finished : state.phase.successful = true) (listed : addressed ∈ state.progress)
      (holds : addressed.completed = true ∧ addressed.pullRequest.map PullRequest.url = some url)
      (kept : mergedAt (state.progress.filter TaskProgress.completed) url = true → reported = .merged) :
      Reduces state (.reportPr taskId url reported)
        (let progress := state.progress.map fun item ↦
          if item.completed && item.pullRequest.map PullRequest.url == some url then
            item.withPullRequest ⟨url, reported⟩
          else item
        { state with phase := deliveryPhase progress, progress })
  | revision (reason : String) (active : state.phase = .active) :
      Reduces state (.requestRevision reason) { state with phase := .revisionRequested reason }
  | passed (report : VerificationReport) (active : state.phase = .active) (passes : report.passed = true)
      (done : verifiable state.run.repository state.progress = none) :
      Reduces state (.reportVerification report)
        { state with phase := deliveryPhase state.progress, verification := some report }
  | sentBack (report : VerificationReport) (active : state.phase = .active) (fails : report.passed = false) :
      Reduces state (.reportVerification report)
        { state with
          progress := state.progress.map fun item ↦
            if report.tasksNeedingWork.contains item.id && item.completed then item.sendBack else item
          verification := some report }
  | task (command : Command) (index : Nat) (task : Task) (item next : TaskProgress) (active : state.phase = .active)
      (addressed : item.id = command.taskId) (listed : state.tasks[index]? = some task)
      (found : state.progress[index]? = some item) (steps : TaskStep state task item command next) :
      Reduces state command { state with progress := (shareMerged command state.progress).set index next }

variable {next : ReducerState}

theorem reduceFinished_cases (hphase : state.phase.successful = true)
    (h : reduceFinished state command = .ok next) : Reduces state command next := by
  unfold reduceFinished at h
  split at h
  · rename_i taskId url reported
    split at h
    · cases h
    · rename_i addressed hfind
      split at h; · cases h
      rename_i hholds
      split at h; · cases h
      split at h; · cases h
      rename_i hguard
      cases h
      refine .late taskId url reported addressed hphase (List.mem_of_find?_eq_some hfind) ?_ fun hmerged ↦ ?_
      · simpa using hholds
      · simpa [hmerged] using hguard
  · cases h

theorem reduceActive_cases
    (hphase : state.phase = .active) (h : reduceActive state command live = .ok next) : Reduces state command next := by
  unfold reduceActive at h
  split at h
  · split at h
    · cases h
    · cases h
      exact .revision _ hphase
  · rename_i report
    unfold reduceVerification at h
    split at h; · cases h
    split at h; · cases h
    rename_i hverifiable
    split at h
    · rename_i hpassed
      cases h
      exact .passed report hphase hpassed hverifiable
    · rename_i hfailed
      cases h
      exact .sentBack report hphase (Bool.not_eq_true _ ▸ hfailed)
  · dsimp only at h
    split at h
    · rename_i task item htask hitem
      obtain ⟨updated, hupdated, h⟩ := Except.bind_eq_ok.1 h
      cases h
      refine .task command _ task item updated hphase ?_ htask hitem (reduceTask_cases hupdated)
      obtain ⟨hlt, hget⟩ := List.getElem?_eq_some_iff.1 hitem
      have hid := List.findIdx_getElem (w := hlt)
      simpa [hget] using hid
    · cases h

/-- **What an event does to a run**, live or not. -/
theorem reduceEvent_cases {stored : ProgressEvent}
    (h : reduceEvent state stored live = .ok next) : Reduces state stored.command next := by
  unfold reduceEvent at h
  split at h
  · cases h
  · rename_i hphase
    exact reduceFinished_cases (by rw [hphase]; rfl) h
  · rename_i hphase
    exact reduceFinished_cases (by rw [hphase]; rfl) h
  · rename_i hphase
    exact reduceActive_cases hphase h

theorem ite_settled_progress (live : Bool) (state : ReducerState) :
    (if live then settled state else state).progress = state.progress := by
  split
  · exact settled_progress state
  · rfl

end Chopin.Tasks
