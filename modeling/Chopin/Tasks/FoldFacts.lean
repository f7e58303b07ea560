import Chopin.Lib.Except
import Chopin.Tasks.Lifecycle

/-!
# Folding event logs

What one accepted event can do to the reducer's state, and from it what a whole log comes to.

* An event never changes the tasks, the run or the ids of the progress (`reduceEvent_frame`), and
  it is well formed enough to be stored (`reduceEvent_stored`).
* A finished run stays finished, and only while it is active does a run see the difference between
  the live fold and the other: what the ordinary reducer accepts the live one accepts too
  (`reduceEvent_live`), so the two folds agree until every task is complete (`foldRun_live_snoc`).
-/

set_option autoImplicit false
set_option linter.dupNamespace false

open Script

namespace Chopin.Tasks

/-! ## Addresses -/

/-- An accepted address says something. -/
theorem ownPullRequest_text {repository url : String} (h : ownPullRequest repository url = true) : text url = true := by
  rw [ownPullRequest] at h
  split at h
  · rename_i owner name number tail hsplit
    obtain ⟨first, rest, hchars, hfirst, -⟩ := List.map_eq_cons_iff.1 hsplit
    have hmem : 'h' ∈ first := by
      rw [← String.toList_ofList (l := first), hfirst]
      decide
    have hjoin : ['/'].intercalate (url.toList.splitOn '/') = url.toList :=
      List.intercalate_splitOn '/'
    have hurl : 'h' ∈ url.toList := by
      rw [← hjoin, hchars, List.intercalate]
      exact List.mem_flatten.2 ⟨first, by cases rest <;> simp [List.intersperse], hmem⟩
    exact (text_iff _).2 ⟨'h', hurl, by decide⟩
  · cases h

/-! ## Phases -/

theorem deliveryPhaseFrom_successful (requests : List (String × PullRequestState))
    (tasks : List TaskProgress) : (deliveryPhaseFrom requests tasks).successful = true := by
  induction tasks generalizing requests with
  | nil => rw [deliveryPhaseFrom]; split <;> rfl
  | cons item rest ih =>
    rw [deliveryPhaseFrom]
    split
    · exact ih _
    · exact ih _
    · rfl

theorem deliveryPhase_successful (tasks : List TaskProgress) :
    (deliveryPhase tasks).successful = true := deliveryPhaseFrom_successful [] tasks

theorem Phase.ne_active {phase : Phase} (h : phase.successful = true) : phase ≠ .active := by
  rintro rfl; cases h

variable {state : ReducerState}

theorem settled_of_ne_active (h : state.phase ≠ .active) : settled state = state := by
  rw [settled, if_neg]
  simp [h]

/-- Settling either changes nothing or ends the run in success. -/
theorem settled_phase (state : ReducerState) : settled state = state ∨ (settled state).phase.successful = true := by
  rw [settled]
  split
  · exact .inr (deliveryPhase_successful _)
  · exact .inl rfl

theorem settled_eq_self (h : (settled state).phase = .active) : settled state = state :=
  (settled_phase state).resolve_right fun hs ↦ Phase.ne_active hs h

@[simp] theorem settled_progress (state : ReducerState) : (settled state).progress = state.progress := by
  rw [settled]; split <;> rfl

/-! ## One event -/

theorem withPullRequest_id (item : TaskProgress) (request : PullRequest) :
    (item.withPullRequest request).id = item.id := by
  rw [TaskProgress.withPullRequest]; split <;> rfl

variable {command : Command} {live : Bool}

theorem reduceTask_id {task : Task} {item next : TaskProgress} (h : reduceTask state task item command live = .ok next) :
    next.id = item.id := by
  cases command <;> simp only [reduceTask] at h <;> repeat' split at h
  all_goals first
    | cases h; first | rfl | exact withPullRequest_id _ _
    | cases h

/-- What an event leaves alone: the tasks, the run, and which tasks the progress is about. -/
structure SameFrame (state next : ReducerState) : Prop where
  tasks : next.tasks = state.tasks
  run : next.run = state.run
  ids : next.progress.map TaskProgress.id = state.progress.map TaskProgress.id

theorem ids_map {f : TaskProgress → TaskProgress} (hf : ∀ item, (f item).id = item.id) (items : List TaskProgress) :
    (items.map f).map TaskProgress.id = items.map TaskProgress.id := by
  rw [List.map_map]
  exact List.map_congr_left fun item _ ↦ hf item

theorem shareMerged_ids (command : Command) (items : List TaskProgress) :
    (shareMerged command items).map TaskProgress.id = items.map TaskProgress.id := by
  unfold shareMerged
  split
  · exact ids_map (fun item ↦ by split <;> simp [withPullRequest_id]) _
  · rfl

variable {next : ReducerState}

theorem reduceFinished_frame (h : reduceFinished state command = .ok next) :
    SameFrame state next ∧ next.phase.successful = true := by
  unfold reduceFinished at h
  repeat' split at h
  all_goals cases h
  exact ⟨⟨rfl, rfl, ids_map (fun item ↦ by split <;> simp [withPullRequest_id]) _⟩,
    deliveryPhase_successful _⟩

theorem reduceVerification_frame {report : VerificationReport}
    (h : reduceVerification state report = .ok next) : SameFrame state next := by
  unfold reduceVerification at h
  repeat' split at h
  all_goals cases h
  · exact ⟨rfl, rfl, rfl⟩
  · exact ⟨rfl, rfl, ids_map (fun item ↦ by split <;> rfl) _⟩

theorem reduceActive_frame (h : reduceActive state command live = .ok next) : SameFrame state next := by
  unfold reduceActive at h
  split at h
  · split at h
    · cases h
    · cases h; exact ⟨rfl, rfl, rfl⟩
  · exact reduceVerification_frame h
  · simp only at h
    split at h
    · rename_i task item _ hitem
      obtain ⟨updated, hupdated, h⟩ := Except.bind_eq_ok.1 h
      cases h
      refine ⟨rfl, rfl, ?_⟩
      simp only [List.map_set, shareMerged_ids, reduceTask_id hupdated]
      refine List.ext_getElem? fun i ↦ ?_
      rw [List.getElem?_set]
      split
      · rename_i heq
        subst heq
        obtain ⟨hlt, hget⟩ := List.getElem?_eq_some_iff.1 hitem
        rw [if_pos (by simpa using hlt), List.getElem?_map, hitem, Option.map_some]
      · rfl
    · cases h

variable {stored : ProgressEvent}

theorem reduceEvent_frame (h : reduceEvent state stored live = .ok next) : SameFrame state next := by
  unfold reduceEvent at h
  split at h
  · cases h
  · exact (reduceFinished_frame h).1
  · exact (reduceFinished_frame h).1
  · exact reduceActive_frame h

/-- A run that is over changes only within success, live or not. -/
theorem reduceEvent_of_ne_active (hphase : state.phase ≠ .active) (h : reduceEvent state stored live = .ok next) :
    next.phase.successful = true ∧ ∀ live', reduceEvent state stored live' = .ok next := by
  unfold reduceEvent at h
  split at h
  · cases h
  · rename_i hp
    exact ⟨(reduceFinished_frame h).2, fun _ ↦ by rw [reduceEvent]; simp only [hp, h]⟩
  · rename_i hp
    exact ⟨(reduceFinished_frame h).2, fun _ ↦ by rw [reduceEvent]; simp only [hp, h]⟩
  · rename_i hp; exact absurd hp hphase

/-- An event that is accepted outside a live fold is accepted in one, with the same result. -/
theorem reduceEvent_live
    (h : reduceEvent state stored false = .ok next) : reduceEvent state stored true = .ok next := by
  by_cases hphase : state.phase = .active
  · simp only [reduceEvent, hphase] at h ⊢
    unfold reduceActive at h ⊢
    split at h <;> try exact h
    simp only at h ⊢
    split at h
    · rename_i task item htask hitem
      obtain ⟨updated, hupdated, h⟩ := Except.bind_eq_ok.1 h
      refine Except.bind_eq_ok.2 ⟨updated, ?_, h⟩
      unfold reduceTask at hupdated ⊢
      split at hupdated <;> try exact hupdated
      -- only a block reads the flag, and only at a task that is already blocked
      cases hstate : item.state <;> simp_all
    · cases h
  · exact (reduceEvent_of_ne_active hphase h).2 true

/-! ## Logs -/

theorem foldRun_nil (tasks : List Task) (run : Run) (live : Bool) :
    foldRun tasks run [] live = .ok (initial tasks run) := rfl

theorem foldRun_append (tasks : List Task) (run : Run) (events more : List ProgressEvent)
    (live : Bool) : foldRun tasks run (events ++ more) live =
      foldRun tasks run events live >>= fun state ↦ more.foldlM (foldEvent live) state := by
  rw [foldRun, List.foldlM_append]; rfl

theorem foldRun_snoc (tasks : List Task) (run : Run) (events : List ProgressEvent)
    (stored : ProgressEvent) (live : Bool) : foldRun tasks run (events ++ [stored]) live =
      foldRun tasks run events live >>= fun state ↦ foldEvent live state stored := by
  rw [foldRun_append]
  congr 1
  funext state
  rw [List.foldlM_cons]
  cases foldEvent live state stored <;> rfl

variable {tasks : List Task} {events : List ProgressEvent}

variable {run : Run}

/-- What the last event of an accepted log did. -/
theorem foldRun_snoc_cases (h : foldRun tasks run (events ++ [stored]) live = .ok next) :
    ∃ before after, foldRun tasks run events live = .ok before ∧ reduceEvent before stored live = .ok after ∧
      next = if live then settled after else after := by
  rw [foldRun_snoc] at h
  obtain ⟨before, hbefore, h⟩ := Except.bind_eq_ok.1 h
  obtain ⟨after, hafter, h⟩ := Except.bind_eq_ok.1 h
  exact ⟨before, after, hbefore, hafter, (Except.ok.inj h).symm⟩

/-- One more event of an ordinary run. -/
theorem foldRun_snoc_ok (h : foldRun tasks run events false = .ok state)
    (hnext : reduceEvent state stored false = .ok next) : foldRun tasks run (events ++ [stored]) false = .ok next := by
  rw [foldRun_snoc, h, Except.ok_bind, foldEvent, hnext]; rfl

/-- One more event of a run whose log also folds live. -/
theorem foldRun_live_snoc (h : foldRun tasks run events true = .ok state)
    (hnext : reduceEvent state stored false = .ok next) :
    foldRun tasks run (events ++ [stored]) true = .ok (settled next) := by
  rw [foldRun_snoc, h, Except.ok_bind, foldEvent, reduceEvent_live hnext]; rfl

/-- One more event of a run that is over. -/
theorem foldRun_finished_snoc (h : foldRun tasks run events live = .ok state)
    (hphase : state.phase ≠ .active) (hnext : reduceEvent state stored false = .ok next) :
    foldRun tasks run (events ++ [stored]) live = .ok next := by
  obtain ⟨hsuccess, hany⟩ := reduceEvent_of_ne_active hphase hnext
  rw [foldRun_snoc, h, Except.ok_bind, foldEvent, hany live, Except.ok_bind,
    settled_of_ne_active (Phase.ne_active hsuccess), ite_self]

/-- A log leaves the frame of its run alone. -/
theorem foldRun_frame : ∀ {state : ReducerState},
    foldRun tasks run events live = .ok state → SameFrame (initial tasks run) state := by
  induction events using List.reverseRecOn with
  | nil => intro state h; cases h; exact ⟨rfl, rfl, rfl⟩
  | append_singleton events stored ih =>
    intro state h
    rw [foldRun_snoc] at h
    obtain ⟨before, hbefore, h⟩ := Except.bind_eq_ok.1 h
    obtain ⟨htasks, hrun, hids⟩ := ih hbefore
    obtain ⟨next, hnext, h⟩ := Except.bind_eq_ok.1 h
    obtain ⟨htasks', hrun', hids'⟩ := reduceEvent_frame hnext
    have hsame : SameFrame next state := by
      cases h
      split
      · rw [settled]; split <;> exact ⟨rfl, rfl, rfl⟩
      · exact ⟨rfl, rfl, rfl⟩
    exact ⟨hsame.tasks.trans (htasks'.trans htasks), hsame.run.trans (hrun'.trans hrun),
      hsame.ids.trans (hids'.trans hids)⟩

theorem foldRun_ids (h : foldRun tasks run events live = .ok state) :
    state.progress.map TaskProgress.id = tasks.map Task.id := by
  rw [(foldRun_frame h).ids, initial, List.map_map]
  rfl

end Chopin.Tasks
