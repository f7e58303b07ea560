import Chopin.Tasks.Landings
import Chopin.Tasks.Validation
import Mathlib.Data.Nat.Find
import Mathlib.Logic.Relation

/-!
# Work in the order of the graph

A task starts when all it depends on is complete, and that is all the reducer checks: the tasks those
depend on are not looked at, and a failed verification may send any of them back.  Still no task is
worked on before everything it depends on, through others too, has been complete at some earlier point
of the log, and the tasks are completed for the first time in an order of the graph.
-/

set_option autoImplicit false
set_option linter.dupNamespace false

open Script

namespace Chopin.Tasks

variable {tasks : List Task} {run : Run} {live : Bool} {events : List ProgressEvent} {state next : ReducerState}
  {command : Command}

/-! ## One event -/

/-- The task names the other among those it depends on. -/
def Depends (tasks : List Task) (id dependency : String) : Prop :=
  ∃ task ∈ tasks, task.id = id ∧ dependency ∈ task.dependsOn

/-- In progress or completed. -/
def TaskProgress.atWork (item : TaskProgress) : Bool :=
  match item.state with
  | .inProgress _ | .completed _ _ => true
  | _ => false

theorem atWork_of_completed {item : TaskProgress} (h : item.completed = true) : item.atWork = true := by
  obtain ⟨id, taskState⟩ := item
  cases taskState with
  | completed summary delivery => rfl
  | _ => cases h

@[simp] theorem withPullRequest_atWork (item : TaskProgress) (request : PullRequest) :
    (item.withPullRequest request).atWork = item.atWork := by
  obtain ⟨id, taskState⟩ := item
  cases taskState with
  | _ => rfl

/-- This task is at work among these. -/
def AtWork (items : List TaskProgress) (id : String) : Prop := ∃ item ∈ items, item.id = id ∧ item.atWork = true

/-- This task is complete among these. -/
def Done (items : List TaskProgress) (id : String) : Prop := ∃ item ∈ items, item.id = id ∧ item.completed = true

variable {items : List TaskProgress} {id : String}

theorem Done.atWork (h : Done items id) : AtWork items id := by
  obtain ⟨item, hitem, hid, hdone⟩ := h
  exact ⟨item, hitem, hid, atWork_of_completed hdone⟩

/-- A change that leaves each task at its work. -/
theorem AtWork.of_map {f : TaskProgress → TaskProgress}
    (hf : ∀ item, (f item).id = item.id ∧ ((f item).atWork = true → item.atWork = true))
    (h : AtWork (items.map f) id) : AtWork items id := by
  obtain ⟨after, hafter, rfl, hwork⟩ := h
  obtain ⟨item, hitem, rfl⟩ := List.mem_map.1 hafter
  exact ⟨item, hitem, ((hf item).1).symm, (hf item).2 hwork⟩

theorem AtWork.of_shareMerged (h : AtWork (shareMerged command items) id) : AtWork items id := by
  unfold shareMerged at h
  split at h
  · refine AtWork.of_map (fun item ↦ ?_) h
    split
    · exact ⟨withPullRequest_id _ _, fun hwork ↦ withPullRequest_atWork item _ ▸ hwork⟩
    · exact ⟨rfl, fun hwork ↦ hwork⟩
  · exact h

/-- **An event puts a task to work only over what it names**: a task at work was so before, or starts
when all it depends on is complete. -/
theorem Reduces.atWork (h : Reduces state command next)
    (hids : state.progress.map TaskProgress.id = state.tasks.map Task.id) (hwork : AtWork next.progress id) :
    AtWork state.progress id ∨
      ∃ task ∈ state.tasks, task.id = id ∧ ∀ dependency ∈ task.dependsOn, Done state.progress dependency := by
  cases h with
  | late taskId url reported =>
    refine .inl (AtWork.of_map (fun item ↦ ?_) hwork)
    split
    · exact ⟨withPullRequest_id _ _, fun hwork ↦ withPullRequest_atWork item _ ▸ hwork⟩
    · exact ⟨rfl, fun hwork ↦ hwork⟩
  | revision reason active => exact .inl hwork
  | passed report active passes done => exact .inl hwork
  | sentBack report active fails =>
    refine .inl (AtWork.of_map (fun item ↦ ?_) hwork)
    split
    · rename_i hsent
      rw [Bool.and_eq_true] at hsent
      exact ⟨rfl, fun _ ↦ atWork_of_completed hsent.2⟩
    · exact ⟨rfl, fun hwork ↦ hwork⟩
  | task _ index task item after active addressed listed found steps =>
    obtain ⟨changed, hchanged, rfl, hchangedWork⟩ := hwork
    obtain hchanged | rfl := List.mem_or_eq_of_mem_set hchanged
    · exact .inl (AtWork.of_shareMerged ⟨changed, hchanged, rfl, hchangedWork⟩)
    · have hitem : AtWork state.progress item.id ∨ item.atWork = false := by
        by_cases hwork : item.atWork = true
        · exact .inl ⟨item, List.mem_of_getElem? found, rfl, hwork⟩
        · exact .inr (Bool.not_eq_true _ ▸ hwork)
      cases steps with
      | start taskId idle ready =>
        have hid : task.id = item.id := by
          have hsame := congrArg (·[index]?) hids
          simp only [List.getElem?_map, found, listed, Option.map_some, Option.some.injEq] at hsame
          exact hsame.symm
        refine .inr ⟨task, List.mem_of_getElem? listed, hid, fun dependency hdependency ↦ ?_⟩
        obtain ⟨other, hother, hdone⟩ := ready dependency hdependency
        exact ⟨other, List.mem_of_find?_eq_some hother, by simpa using List.find?_some hother, hdone⟩
      | block taskId reason working => cases hchangedWork
      | reportPr taskId url reported started kept =>
        rw [withPullRequest_atWork] at hchangedWork
        exact .inl ⟨item, List.mem_of_getElem? found, (withPullRequest_id _ _).symm, hchangedWork⟩
      | complete taskId summary noChange request delivery working same =>
        refine .inl ⟨item, List.mem_of_getElem? found, rfl, ?_⟩
        rw [TaskProgress.atWork, working]

/-! ## The prefixes of a log -/

/-- After these events the run holds the task as complete. -/
def CompletedAfter (tasks : List Task) (run : Run) (live : Bool) (events : List ProgressEvent) (id : String) : Prop :=
  ∃ state, foldRun tasks run events live = .ok state ∧ Done state.progress id

/-- The task is complete after `n` of the events, and not before. -/
def FirstDone (tasks : List Task) (run : Run) (live : Bool) (events : List ProgressEvent) (n : Nat) (id : String) :
    Prop :=
  n ≤ events.length ∧ CompletedAfter tasks run live (events.take n) id ∧
    ∀ m < n, ¬CompletedAfter tasks run live (events.take m) id

/-- The work of a log respects the graph. -/
structure Respects (tasks : List Task) (run : Run) (live : Bool) (events : List ProgressEvent) : Prop where
  /-- What is at work at some point depends only on what was complete earlier. -/
  work : ∀ n ≤ events.length, ∀ state, foldRun tasks run (events.take n) live = .ok state →
    ∀ id, AtWork state.progress id → ∀ dependency, Relation.TransGen (Depends tasks) id dependency →
      ∃ m < n, CompletedAfter tasks run live (events.take m) dependency
  /-- No two tasks are completed for the first time at once. -/
  single : ∀ n id other, FirstDone tasks run live events n id → FirstDone tasks run live events n other → id = other
  /-- The first completions come in an order of the graph. -/
  ordered : ∀ n id, FirstDone tasks run live events n id →
    ∀ dependency, Relation.TransGen (Depends tasks) id dependency →
      ∃ m < n, FirstDone tasks run live events m dependency

theorem not_atWork_initial : ¬AtWork (initial tasks run).progress id := by
  rintro ⟨item, hitem, -, hwork⟩
  obtain ⟨task, -, rfl⟩ := List.mem_map.1 hitem
  cases hwork

variable {dependency : String}

/-- Direct dependencies: by induction on the log, since only a start puts a task to work that was not. -/
theorem atWork_direct (hnodup : (tasks.map Task.id).Nodup)
    (h : foldRun tasks run events live = .ok state) (hwork : AtWork state.progress id)
    (hdepends : Depends tasks id dependency) :
    ∃ m < events.length, CompletedAfter tasks run live (events.take m) dependency := by
  induction events using List.reverseRecOn generalizing state with
  | nil =>
    cases h
    exact absurd hwork not_atWork_initial
  | append_singleton events stored ih =>
    obtain ⟨before, after, hbefore, hafter, rfl⟩ := foldRun_snoc_cases h
    rw [ite_settled_progress] at hwork
    have hframe := foldRun_frame hbefore
    have hids : before.progress.map TaskProgress.id = before.tasks.map Task.id := by
      rw [foldRun_ids hbefore, hframe.tasks, initial]
    obtain hearlier | ⟨task, htask, rfl, hready⟩ := (reduceEvent_cases hafter).atWork hids hwork
    · obtain ⟨m, hm, hcompleted⟩ := ih hbefore hearlier
      refine ⟨m, by rw [List.length_append]; omega, ?_⟩
      rwa [List.take_append_of_le_length (by omega)]
    · refine ⟨events.length, by simp, before, ?_, ?_⟩
      · rwa [List.take_left']
        rfl
      · obtain ⟨named, hnamed, hid, hdependency⟩ := hdepends
        rw [hframe.tasks] at htask
        have hsame : named = task := List.inj_on_of_nodup_map hnodup hnamed htask hid
        exact hready dependency (hsame ▸ hdependency)

/-- Through others too: along the chain, each point of the log is earlier than the one before it. -/
theorem atWork_trans (hnodup : (tasks.map Task.id).Nodup)
    (hdepends : Relation.TransGen (Depends tasks) id dependency) (h : foldRun tasks run events live = .ok state)
    (hwork : AtWork state.progress id) :
    ∃ m < events.length, CompletedAfter tasks run live (events.take m) dependency := by
  induction hdepends using Relation.TransGen.head_induction_on generalizing events state with
  | single hdirect => exact atWork_direct hnodup h hwork hdirect
  | head hdirect hrest ih =>
    obtain ⟨m, hm, middle, hmiddle, hdone⟩ := atWork_direct hnodup h hwork hdirect
    obtain ⟨n, hn, hcompleted⟩ := ih hmiddle hdone.atWork
    rw [List.length_take] at hn
    rw [List.take_take, min_eq_left (by omega)] at hcompleted
    exact ⟨n, by omega, hcompleted⟩

/-- What was ever complete was so for a first time. -/
theorem CompletedAfter.first {n : Nat} (hn : n ≤ events.length)
    (h : CompletedAfter tasks run live (events.take n) id) : ∃ m ≤ n, FirstDone tasks run live events m id := by
  classical
  have hever : ∃ m, CompletedAfter tasks run live (events.take m) id := ⟨n, h⟩
  have hle := Nat.find_min' hever h
  exact ⟨Nat.find hever, hle, hle.trans hn, Nat.find_spec hever, fun m hm ↦ Nat.find_min hever hm⟩

/-- A first completion is that of the last event. -/
theorem FirstDone.completes {n : Nat} (h : FirstDone tasks run live events n id) :
    ∃ k, ∃ hk : k < events.length, n = k + 1 ∧
      ∃ summary noChange, events[k].command = .complete id summary noChange := by
  obtain ⟨hn, ⟨state, hstate, hdone⟩, hfirst⟩ := h
  cases n with
  | zero =>
    cases hstate
    exact absurd hdone.atWork not_atWork_initial
  | succ k =>
    refine ⟨k, hn, rfl, ?_⟩
    rw [List.take_succ_eq_append_getElem hn] at hstate
    obtain ⟨before, after, hbefore, hafter, rfl⟩ := foldRun_snoc_cases hstate
    rw [ite_settled_progress] at hdone
    obtain ⟨item, hitem, rfl, hcompleted⟩ := hdone
    obtain ⟨earlier, hearlier, hid, hwas⟩ | hcompletes := reduceEvent_completed hafter item hitem hcompleted
    · exact absurd ⟨before, hbefore, earlier, hearlier, hid, hwas⟩ (hfirst k (Nat.lt_succ_self k))
    · exact hcompletes

theorem respects (hnodup : (tasks.map Task.id).Nodup) : Respects tasks run live events := by
  have hwork : ∀ n ≤ events.length, ∀ state, foldRun tasks run (events.take n) live = .ok state →
      ∀ id, AtWork state.progress id → ∀ dependency, Relation.TransGen (Depends tasks) id dependency →
        ∃ m < n, CompletedAfter tasks run live (events.take m) dependency := by
    intro n hn state hstate id hatWork dependency hdepends
    obtain ⟨m, hm, hcompleted⟩ := atWork_trans hnodup hdepends hstate hatWork
    rw [List.length_take] at hm
    rw [List.take_take, min_eq_left (by omega)] at hcompleted
    exact ⟨m, by omega, hcompleted⟩
  refine ⟨hwork, ?_, ?_⟩
  · intro n id other hfirst hother
    obtain ⟨k, hk, rfl, summary, noChange, hcommand⟩ := hfirst.completes
    obtain ⟨l, hl, heq, summary', noChange', hcommand'⟩ := hother.completes
    obtain rfl : k = l := Nat.succ.inj heq
    rw [hcommand] at hcommand'
    exact (Command.complete.inj hcommand').1
  · intro n id hfirst dependency hdepends
    obtain ⟨hn, ⟨state, hstate, hdone⟩, -⟩ := hfirst
    obtain ⟨m, hm, hcompleted⟩ := hwork n hn state hstate id hdone.atWork dependency hdepends
    obtain ⟨first, hle, hfirst⟩ := hcompleted.first (by omega)
    exact ⟨first, by omega, hfirst⟩

/-- An archived log that its version accepts. -/
def ArchivedRun.Accepted (graph : Graph) (archived : ArchivedRun) : Prop :=
  ∃ version state, versionFor graph archived.run = some version ∧ validate version.definition = .ok version.definition ∧
    foldRun version.definition.tasks archived.run archived.events archived.live = .ok state

/-- A resumed log is accepted again. -/
theorem ArchivedRun.Accepted.resume {graph : Graph} {lifecycle after : Lifecycle} {runId : String}
    {added : List ProgressEvent} (haccepted : ∀ archived ∈ lifecycle.history, archived.Accepted graph)
    (h : resumeLiveRun graph lifecycle runId added = some after) :
    ∀ archived ∈ after.history, archived.Accepted graph := by
  obtain ⟨front, back, archived, kept, revision, reason, version, folded, events, hsplit, -, -, hlive,
    hevents, hreason, hversion, -, hfold, hshape, rfl⟩ := resumeLiveRun_ok h
  intro other hother
  obtain hfront | hrest := List.mem_append.1 hother
  · exact haccepted other (by rw [hsplit]; exact List.mem_append_left _ hfront)
  obtain rfl | hback := List.mem_cons.1 hrest
  · obtain ⟨version', ended, hversion', hvalid, hended⟩ := haccepted archived (by simp [hsplit])
    obtain rfl : version = version' := Option.mem_unique hversion hversion'
    rw [hevents, hlive, foldRun_revision hreason] at hended
    obtain ⟨htext, -⟩ := hended
    obtain ⟨hphase, rfl⟩ | ⟨-, rfl⟩ := hshape
    · refine ⟨version, { folded with phase := .revisionRequested reason }, hversion, hvalid, ?_⟩
      rw [hlive]
      exact (foldRun_revision hreason).2 ⟨htext, folded, hfold, hphase, rfl⟩
    · exact ⟨version, folded, hversion, hvalid, by rw [hlive]; exact hfold⟩
  · exact haccepted other (by rw [hsplit]; exact List.mem_append_right _ (List.mem_cons_of_mem _ hback))

/-- **Task work respects the graph**, in every log that a valid version accepts, and in the archived
logs of such versions after a live run was resumed, each of which is accepted again. -/
theorem work_respects :
    (∀ tasks, validate ⟨tasks⟩ = .ok ⟨tasks⟩ → ∀ run live events state, foldRun tasks run events live = .ok state →
      Respects tasks run live events) ∧
    ∀ graph lifecycle runId added after, resumeLiveRun graph lifecycle runId added = some after →
      (∀ archived ∈ lifecycle.history, archived.Accepted graph) →
        ∀ archived ∈ after.history, ∀ version, versionFor graph archived.run = some version →
          archived.Accepted graph ∧ Respects version.definition.tasks archived.run archived.live archived.events := by
  constructor
  · intro tasks hvalid run live events state hstate
    exact respects (validate_ids hvalid)
  · intro graph lifecycle runId added after hresume haccepted archived harchived version hversion
    have hagain := ArchivedRun.Accepted.resume haccepted hresume archived harchived
    obtain ⟨version', -, hversion', hvalid, -⟩ := id hagain
    obtain rfl : version = version' := Option.mem_unique hversion hversion'
    exact ⟨hagain, respects (validate_ids hvalid)⟩

/-- The first task of the diamond is done, and one of those after it starts. -/
def diamondEvents : List ProgressEvent :=
  [⟨.start "a", "1"⟩, ⟨.reportPr "a" "https://github.com/o/r/pull/1" .open, "2"⟩, ⟨.complete "a" "Done" none, "3"⟩,
    ⟨.start "b", "4"⟩]

def diamondRun : Run :=
  { id := "run", user := "user", client := ⟨"client", "1"⟩, session := "session", planRevision := 1, graphVersion := 1,
    graphRevision := 1, repository := "o/r", branch := "main", commit := "c", startedAt := "now" }

theorem work_respects_diamond : ∃ m < 4, CompletedAfter diamond diamondRun false (diamondEvents.take m) "a" :=
  (work_respects.1 diamond (by rfl) diamondRun false diamondEvents _ rfl).work 4 (Nat.le_refl 4) _ rfl "b"
    ⟨⟨"b", .inProgress none⟩, by decide, rfl, rfl⟩ "a" (.single ⟨diamond[1], by decide, rfl, by decide⟩)

end Chopin.Tasks
