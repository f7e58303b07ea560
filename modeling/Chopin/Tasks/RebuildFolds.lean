import Chopin.Tasks.BuildFacts
import Chopin.Tasks.Reductions

/-!
# Folding what a rebuild files

A rebuild writes into the archived logs itself.  The events of its own version come to a success
whenever every pull request is the repository's (`foldRun_rebuildEvents`).  What it adds to the first
build's log only ever completes the tasks that it reports done, and a log comes to a success only
once every task is complete (`foldRun_completed`, `foldRun_success_completed`).
-/

set_option autoImplicit false
set_option linter.dupNamespace false

open Script

namespace Chopin.Tasks

/-! ## Events of one task -/

variable {state : ReducerState} {next : TaskProgress} {command : Command} {live : Bool}

variable {item : TaskProgress} {task : Task}

/-- An event of an active run changes the progress of the task it is about. -/
theorem reduceActive_middle {front back : List TaskProgress}
    (hprogress : state.progress = front ++ item :: back) (hid : item.id = command.taskId)
    (hfirst : ∀ other ∈ front, other.id ≠ command.taskId) (htask : state.tasks[front.length]? = some task)
    (hshare : shareMerged command state.progress = state.progress)
    (hnext : reduceTask state task item command live = .ok next) :
    reduceActive state command live = .ok { state with progress := front ++ next :: back } := by
  have hindex : state.progress.findIdx (·.id == command.taskId) = front.length := by
    have hnone : front.findIdx (·.id == command.taskId) = front.length :=
      List.findIdx_eq_length.2 (by simpa using hfirst)
    rw [hprogress, List.findIdx_append, hnone, if_neg (Nat.lt_irrefl _), List.findIdx_cons]
    simp [hid]
  have hitem : state.progress[front.length]? = some item := by simp [hprogress]
  have hset : state.progress.set front.length next = front ++ next :: back := by
    rw [hprogress]; simp
  cases command with
  | reportVerification report => cases hnext
  | requestRevision reason => cases hnext
  | _ =>
    simp only [reduceActive, hindex, htask, hitem, hnext, Except.ok_bind, hshare, hset]

theorem settled_of_incomplete (hmem : item ∈ state.progress) (h : item.completed = false) : settled state = state := by
  rw [settled, if_neg]
  simp only [Bool.and_eq_true, List.all_eq_true, not_and, not_forall]
  exact fun _ ↦ ⟨item, hmem, by simp [h]⟩

/-! ## A rebuild's own events -/

/-- A task with its pull request, completed. -/
def delivered (summary : String) (done : String × String) : TaskProgress :=
  ⟨done.1, .completed summary (.pullRequest ⟨done.2, .open⟩)⟩

/-- The run of a rebuild when it has delivered some of its tasks. -/
def deliveredState (tasks : List Task) (run : Run) (summary : String)
    (done rest : List (String × String)) : ReducerState :=
  { phase := .active, tasks, run
    progress := done.map (delivered summary) ++ rest.map fun pair ↦ ⟨pair.1, .queued⟩
    verification := none }

variable {tasks : List Task}

variable {run : Run}

theorem deliveredState_unsettled {summary : String} {done rest : List (String × String)} (h : rest ≠ []) :
    settled (deliveredState tasks run summary done rest) = deliveredState tasks run summary done rest := by
  obtain ⟨pair, hpair⟩ := List.exists_mem_of_ne_nil rest h
  exact settled_of_incomplete (List.mem_append_right _ (List.mem_map_of_mem hpair)) rfl

/-- The same while one more is under way. -/
def workingState (tasks : List Task) (run : Run) (summary : String) (done : List (String × String))
    (item : TaskProgress) (rest : List (String × String)) : ReducerState :=
  { phase := .active, tasks, run
    progress := done.map (delivered summary) ++ item :: rest.map fun pair ↦ ⟨pair.1, .queued⟩
    verification := none }

section Delivered

variable {tasks : List Task} {run : Run} {buildId summary : String}
  {done rest : List (String × String)} {pair : String × String}

theorem workingState_unsettled {item : TaskProgress} (h : item.completed = false) :
    settled (workingState tasks run summary done item rest) = workingState tasks run summary done item rest :=
  settled_of_incomplete (List.mem_append_right _ List.mem_cons_self) h

theorem workingState_unmerged (tasks : List Task) (run : Run) (summary : String) (done rest : List (String × String))
    {item : TaskProgress} {url : String} (h : item.pullRequest ≠ some ⟨url, .merged⟩) :
    mergedAt (workingState tasks run summary done item rest).progress url = false := by
  simp only [mergedAt, workingState, List.any_append, List.any_cons, List.any_map,
    Bool.or_eq_false_iff, List.any_eq_false, Function.comp_apply, beq_iff_eq, beq_eq_false_iff_ne,
    ne_eq]
  exact ⟨fun other _ ↦ by simp [delivered, TaskProgress.pullRequest], h,
    fun other _ ↦ by simp [TaskProgress.pullRequest]⟩

theorem workingState_step (item next : TaskProgress) (command : Command) (key : String) {task : Task}
    (htask : tasks[done.length]? = some task) (hfirst : ∀ earlier ∈ done, earlier.1 ≠ command.taskId)
    (hid : item.id = command.taskId)
    (hshare : shareMerged command (workingState tasks run summary done item rest).progress =
      (workingState tasks run summary done item rest).progress)
    (hnext : reduceTask (workingState tasks run summary done item rest) task item command true = .ok next) :
    foldEvent true (workingState tasks run summary done item rest) ⟨command, key⟩ =
      .ok (settled (workingState tasks run summary done next rest)) := by
  have hreduce : reduceEvent (workingState tasks run summary done item rest) ⟨command, key⟩ true =
      .ok (workingState tasks run summary done next rest) := by
    refine reduceActive_middle rfl hid ?_ (by simpa [workingState] using htask) hshare hnext
    intro other hmem
    obtain ⟨earlier, hearlier, rfl⟩ := List.mem_map.1 hmem
    exact hfirst earlier hearlier
  rw [foldEvent, hreduce]; rfl

/-- The three events of one task deliver it. -/
theorem deliveredEvents_fold (hids : tasks.map Task.id = (done ++ pair :: rest).map Prod.fst)
    (hnodup : (tasks.map Task.id).Nodup) (hfree : ∀ task ∈ tasks, task.dependsOn = [])
    (hsummary : text summary = true) (hown : ownPullRequest run.repository pair.2 = true) :
    (deliveredEvents buildId summary pair.1 pair.2).foldlM (foldEvent true)
        (deliveredState tasks run summary done (pair :: rest)) =
      .ok (settled (deliveredState tasks run summary (done ++ [pair]) rest)) := by
  obtain ⟨task, htask⟩ : ∃ task, tasks[done.length]? = some task := by
    have hlength := congrArg List.length hids
    simp only [List.length_map, List.length_append, List.length_cons] at hlength
    exact ⟨_, List.getElem?_eq_getElem (by omega)⟩
  have hdepends : task.dependsOn = [] := hfree task (List.mem_of_getElem? htask)
  have hfirst : ∀ earlier ∈ done, earlier.1 ≠ pair.1 := by
    rw [hids, List.map_append, List.nodup_append] at hnodup
    exact fun earlier hmem ↦ hnodup.2.2 _ (List.mem_map_of_mem hmem) pair.1 (by simp)
  have hstart : foldEvent true (workingState tasks run summary done ⟨pair.1, .queued⟩ rest)
      ⟨.start pair.1, buildId ++ ":" ++ pair.1 ++ ":start"⟩ =
        .ok (workingState tasks run summary done ⟨pair.1, .inProgress none⟩ rest) := by
    rw [workingState_step _ ⟨pair.1, .inProgress none⟩ (.start _) _ htask hfirst rfl rfl,
      workingState_unsettled rfl]
    simp [reduceTask, hdepends, TaskProgress.pullRequest]
  have hpr : foldEvent true (workingState tasks run summary done ⟨pair.1, .inProgress none⟩ rest)
      ⟨.reportPr pair.1 pair.2 .open, buildId ++ ":" ++ pair.1 ++ ":pr"⟩ =
        .ok (workingState tasks run summary done ⟨pair.1, .inProgress (some ⟨pair.2, .open⟩)⟩ rest) := by
    rw [workingState_step _ ⟨pair.1, .inProgress (some ⟨pair.2, .open⟩)⟩ (.reportPr ..) _ htask hfirst
      rfl rfl, workingState_unsettled rfl]
    have hrun : (workingState tasks run summary done ⟨pair.1, .inProgress none⟩ rest).run = run := rfl
    have hmerged : mergedAt (workingState tasks run summary done ⟨pair.1, .inProgress none⟩ rest).progress
        pair.2 = false := workingState_unmerged _ _ _ _ _ (by simp [TaskProgress.pullRequest])
    simp [reduceTask, ownPullRequest_text hown, hown, hmerged, hrun, TaskProgress.withPullRequest]
  have hcomplete : foldEvent true
      (workingState tasks run summary done ⟨pair.1, .inProgress (some ⟨pair.2, .open⟩)⟩ rest)
      ⟨.complete pair.1 summary none, buildId ++ ":" ++ pair.1 ++ ":complete"⟩ =
        .ok (settled (workingState tasks run summary done (delivered summary pair) rest)) := by
    refine workingState_step _ _ (.complete ..) _ htask hfirst rfl rfl ?_
    simp [reduceTask, hsummary, delivered]
  have hend : workingState tasks run summary done (delivered summary pair) rest =
      deliveredState tasks run summary (done ++ [pair]) rest := by
    simp [workingState, deliveredState]
  have hbegin : deliveredState tasks run summary done (pair :: rest) =
      workingState tasks run summary done ⟨pair.1, .queued⟩ rest := rfl
  simp only [deliveredEvents, List.foldlM_cons, List.foldlM_nil, hbegin, hstart, hpr, hcomplete, hend,
    Except.ok_bind, Except.pure_eq_ok]

/-- One after the other they deliver them all. -/
theorem deliveredEvents_foldAll : ∀ {done : List (String × String)},
    rest ≠ [] → tasks.map Task.id = (done ++ rest).map Prod.fst → (tasks.map Task.id).Nodup →
    (∀ task ∈ tasks, task.dependsOn = []) → text summary = true →
    (∀ pair ∈ rest, ownPullRequest run.repository pair.2 = true) →
      (rest.flatMap fun pair ↦ deliveredEvents buildId summary pair.1 pair.2).foldlM (foldEvent true)
          (deliveredState tasks run summary done rest) =
        .ok (settled (deliveredState tasks run summary (done ++ rest) [])) := by
  induction rest with
  | nil => intro _ h; exact absurd rfl h
  | cons pair rest ih =>
    intro done _ hids hnodup hfree hsummary hown
    rw [List.flatMap_cons, List.foldlM_append, deliveredEvents_fold hids hnodup hfree hsummary
      (hown pair List.mem_cons_self), Except.ok_bind]
    by_cases hrest : rest = []
    · subst hrest; rfl
    · have hshift : done ++ pair :: rest = (done ++ [pair]) ++ rest := by simp
      rw [deliveredState_unsettled hrest, ih hrest (by rw [hids, hshift]) hnodup hfree hsummary
        fun other hmem ↦ hown other (List.mem_cons_of_mem _ hmem), hshift]

end Delivered

/-- **A rebuild's own log comes to a success** when its pull requests are the repository's. -/
theorem foldRun_rebuildEvents {platform : Platform} {live : LiveBuild} {target : Target}
    {number : Nat} {report : RebuildReport} (run : Run) (buildId : String)
    (hids : ((rebuildDefinition platform live target number report).tasks.map Task.id).Nodup)
    (htasks : report.tasks ≠ []) (hsummary : text report.summary = true)
    (hown : ∀ task ∈ report.tasks, ownPullRequest run.repository task.pullRequest = true) :
    ∃ folded, foldRun (rebuildDefinition platform live target number report).tasks run
      (rebuildEvents buildId number report) true = .ok folded ∧ folded.phase.successful = true := by
  let pairs := report.tasks.mapIdx fun index task ↦ (rebuildTaskId number index, task.pullRequest)
  let tasks := (rebuildDefinition platform live target number report).tasks
  have htaskIds : tasks.map Task.id = ([] ++ pairs).map Prod.fst := by
    refine List.ext_getElem (by simp [tasks, pairs, rebuildDefinition]) fun index _ _ ↦ ?_
    simp [tasks, pairs, rebuildDefinition, rebuildTask]
  have hevents : rebuildEvents buildId number report =
      pairs.flatMap fun pair ↦ deliveredEvents buildId report.summary pair.1 pair.2 := by
    rw [rebuildEvents, List.flatMap_def]
    congr 1
    refine List.ext_getElem (by simp [pairs]) fun index _ _ ↦ ?_
    simp [pairs]
  have hinitial : initial tasks run = deliveredState tasks run report.summary [] pairs := by
    have hprogress : tasks.map (fun task ↦ TaskProgress.mk task.id .queued) =
        pairs.map fun pair ↦ ⟨pair.1, .queued⟩ := by
      have := congrArg (List.map fun id ↦ TaskProgress.mk id .queued) htaskIds
      simpa [List.map_map, Function.comp_def] using this
    simp [initial, deliveredState, hprogress]
  have hpairs : pairs ≠ [] := by simpa [pairs] using htasks
  refine ⟨settled (deliveredState tasks run report.summary ([] ++ pairs) []), ?_, ?_⟩
  · rw [foldRun, hevents, hinitial]
    refine deliveredEvents_foldAll hpairs htaskIds hids ?_ hsummary ?_
    · intro task hmem
      obtain ⟨index, _, rfl⟩ := List.mem_mapIdx.1 hmem
      rfl
    · intro pair hmem
      obtain ⟨index, hindex, rfl⟩ := List.mem_mapIdx.1 hmem
      exact hown _ (List.getElem_mem _)
  · rw [settled, if_pos]
    · exact deliveryPhase_successful _
    · simp [deliveredState, delivered, TaskProgress.completed]

/-! ## Completed tasks -/

@[simp] theorem withPullRequest_completed (item : TaskProgress) (request : PullRequest) :
    (item.withPullRequest request).completed = item.completed := by
  obtain ⟨id, state⟩ := item
  cases state <;> rfl

/-- Whatever is completed in `items` was completed before. -/
def CompletedIn (before items : List TaskProgress) : Prop :=
  ∀ item ∈ items, item.completed = true → ∃ earlier ∈ before, earlier.id = item.id ∧
    earlier.completed = true

theorem CompletedIn.refl (items : List TaskProgress) : CompletedIn items items :=
  fun item hmem h ↦ ⟨item, hmem, rfl, h⟩

theorem CompletedIn.map {f : TaskProgress → TaskProgress} (items : List TaskProgress)
    (h : ∀ item, (f item).id = item.id ∧ ((f item).completed = true → item.completed = true)) :
    CompletedIn items (items.map f) := by
  intro item hmem hcompleted
  obtain ⟨earlier, hearlier, rfl⟩ := List.mem_map.1 hmem
  exact ⟨earlier, hearlier, (h earlier).1.symm, (h earlier).2 hcompleted⟩

theorem shareMerged_completedIn (command : Command) (items : List TaskProgress) :
    CompletedIn items (shareMerged command items) := by
  unfold shareMerged
  split
  · exact .map _ fun item ↦ by split <;> simp [withPullRequest_id]
  · exact .refl _

/-- Only the completion of a task completes it. -/
theorem TaskStep.completed (h : TaskStep state task item command next) (hcompleted : next.completed = true) :
    item.completed = true ∨ ∃ summary noChange, command = .complete command.taskId summary noChange := by
  cases h with
  | start taskId hidle hready => cases hcompleted
  | block taskId reason hworking => cases hcompleted
  | reportPr taskId url reported hstarted hkept => exact .inl (by simpa using hcompleted)
  | complete taskId summary noChange request delivery hworking hsame => exact .inr ⟨summary, noChange, rfl⟩

theorem TaskStep.same_id (h : TaskStep state task item command next) : next.id = item.id := by
  cases h with
  | reportPr taskId url reported hstarted hkept => exact withPullRequest_id _ _
  | _ => rfl

/-- What is completed under an event was completed before, or the event completes it. -/
theorem Reduces.completed {next : ReducerState} (h : Reduces state command next) :
    ∀ item ∈ next.progress, item.completed = true →
      (∃ earlier ∈ state.progress, earlier.id = item.id ∧ earlier.completed = true) ∨
        ∃ summary noChange, command = .complete item.id summary noChange := by
  have hkept : CompletedIn state.progress next.progress → ∀ item ∈ next.progress, item.completed = true →
      (∃ earlier ∈ state.progress, earlier.id = item.id ∧ earlier.completed = true) ∨
        ∃ summary noChange, command = .complete item.id summary noChange :=
    fun h item hmem hcompleted ↦ .inl (h item hmem hcompleted)
  cases h with
  | late taskId url reported addressed =>
    exact hkept (.map _ fun item ↦ by split <;> simp [withPullRequest_id])
  | revision reason active => exact hkept (.refl _)
  | passed report active passes done => exact hkept (.refl _)
  | sentBack report active fails =>
    exact hkept (.map _ fun item ↦ by split <;> simp [TaskProgress.sendBack, TaskProgress.completed])
  | task command index task addressed updated active hid listed found hstep =>
    intro item hitem hcompleted
    obtain hitem | rfl := List.mem_or_eq_of_mem_set hitem
    · exact .inl (shareMerged_completedIn _ _ item hitem hcompleted)
    · obtain hbefore | ⟨summary, noChange, hcommand⟩ := hstep.completed hcompleted
      · exact .inl ⟨addressed, List.mem_of_getElem? found, hstep.same_id.symm, hbefore⟩
      · exact .inr ⟨summary, noChange, by rw [hstep.same_id, hid]; exact hcommand⟩

theorem reduceEvent_completed {next : ReducerState} {stored : ProgressEvent}
    (h : reduceEvent state stored live = .ok next) : ∀ item ∈ next.progress, item.completed = true →
      (∃ earlier ∈ state.progress, earlier.id = item.id ∧ earlier.completed = true) ∨
        ∃ summary noChange, stored.command = .complete item.id summary noChange :=
  (reduceEvent_cases h).completed

/-- **A log completes only the tasks it says it completes.** -/
theorem foldRun_completed {before : ReducerState}
    {kept added : List ProgressEvent} (hbefore : foldRun tasks run kept live = .ok before) :
    ∀ {after : ReducerState}, foldRun tasks run (kept ++ added) live = .ok after →
      ∀ item ∈ after.progress, item.completed = true →
        (∃ earlier ∈ before.progress, earlier.id = item.id ∧ earlier.completed = true) ∨
          ∃ stored ∈ added, ∃ summary noChange, stored.command = .complete item.id summary noChange := by
  induction added using List.reverseRecOn with
  | nil =>
    intro after h
    rw [List.append_nil, hbefore] at h
    cases h
    exact fun item hmem h ↦ .inl ⟨item, hmem, rfl, h⟩
  | append_singleton added last ih =>
    intro after h item hmem hcompleted
    rw [← List.append_assoc] at h
    obtain ⟨state, next, hstate, hnext, rfl⟩ := foldRun_snoc_cases h
    rw [ite_settled_progress] at hmem
    rcases reduceEvent_completed hnext item hmem hcompleted with ⟨earlier, hearlier, hid, hdone⟩ | hlast
    · rcases ih hstate earlier hearlier hdone with ⟨first, hfirst, hsame, h⟩ | ⟨stored, hstored, h⟩
      · exact .inl ⟨first, hfirst, hsame.trans hid, h⟩
      · exact .inr ⟨stored, List.mem_append_left _ hstored, hid ▸ h⟩
    · exact .inr ⟨last, List.mem_concat_self, hlast⟩

/-- A verification passes only when every task is complete. -/
theorem verifiable_completed {repository : String} {items : List TaskProgress}
    (h : verifiable repository items = none) : ∀ item ∈ items, item.completed = true := by
  induction items with
  | nil => simp
  | cons item rest ih =>
    rw [verifiable] at h
    have hrest : verifiable repository rest = none ∧ item.completed = true := by
      rw [TaskProgress.completed]
      split at h
      · rename_i hstate; rw [hstate]; exact ⟨h, rfl⟩
      · rename_i hstate
        split at h; · cases h
        split at h; · cases h
        rw [hstate]; exact ⟨h, rfl⟩
      · cases h
    exact List.forall_mem_cons.2 ⟨hrest.2, ih hrest.1⟩

/-- An event that makes a run a success leaves every task complete. -/
theorem Reduces.success {next : ReducerState} (h : Reduces state command next)
    (hbefore : state.phase.successful = true → ∀ item ∈ state.progress, item.completed = true)
    (hsuccess : next.phase.successful = true) : ∀ item ∈ next.progress, item.completed = true := by
  cases h with
  | late taskId url reported addressed finished =>
    intro item hmem
    obtain ⟨earlier, hearlier, rfl⟩ := List.mem_map.1 hmem
    have hdone := hbefore finished earlier hearlier
    split <;> simpa using hdone
  | revision reason active => cases hsuccess
  | passed report active passes done => exact verifiable_completed done
  | sentBack report active fails => simp [active, Phase.successful] at hsuccess
  | task command index task addressed updated active => simp [active, Phase.successful] at hsuccess

/-- **A run is a success only once every task is complete.** -/
theorem foldRun_success_completed {events : List ProgressEvent} : ∀ {state : ReducerState},
    foldRun tasks run events live = .ok state → state.phase.successful = true →
      ∀ item ∈ state.progress, item.completed = true := by
  induction events using List.reverseRecOn with
  | nil => intro state h hsuccess; cases h; cases hsuccess
  | append_singleton events last ih =>
    intro state h hsuccess
    obtain ⟨before, next, hbefore, hnext, rfl⟩ := foldRun_snoc_cases h
    by_cases hended : next.phase.successful = true
    · have hstate : (if live then settled next else next) = next := by
        split
        · exact settled_of_ne_active (Phase.ne_active hended)
        · rfl
      rw [hstate]
      exact (reduceEvent_cases hnext).success (ih hbefore) hended
    · -- the live fold ended the run, so every task was complete
      cases live with
      | false => exact absurd hsuccess hended
      | true =>
        simp only [if_true, settled] at hsuccess ⊢
        split at hsuccess
        · rename_i hready
          simp only [Bool.and_eq_true, List.all_eq_true] at hready
          rw [if_pos (by simpa using hready)]
          exact hready.2
        · exact absurd hsuccess hended

end Chopin.Tasks
