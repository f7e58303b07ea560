import Chopin.Tasks.EventKeys

/-!
# Reports are applied at most once

An input that `transition` accepted is recorded under its key, and stays recorded whatever happens
to its run: the run goes on, ends, is archived, is resumed by a rebuild.  As long as it is recorded
and no other event has its key, the same input is answered as a replay and any other under its key
is refused.

One recorded event does disappear.  When a living build stops short, the server itself requests a
revision of its run (`liveStop`), and once a rebuild has completed the run that request is dropped
so that the run reads as implemented (`Completed`).
-/

set_option autoImplicit false
set_option linter.dupNamespace false

open Script

namespace Chopin.Tasks

/-! ## What replay detection compares -/

theorem sameEvidence_iff {left right : List VerificationEvidence} : sameEvidence left right = true ↔ left = right := by
  induction left generalizing right with
  | nil => cases right <;> simp [sameEvidence]
  | cons entry rest ih =>
    cases right with
    | nil => simp [sameEvidence]
    | cons other more =>
      obtain ⟨taskId, evidence⟩ := entry
      obtain ⟨taskId', evidence'⟩ := other
      simp [sameEvidence, ih, and_assoc]

theorem noChange_ext {left right : Option NoChange} : left.map NoChange.reason = right.map NoChange.reason →
      left.map NoChange.evidence = right.map NoChange.evidence → left = right := by
  rcases left with _ | ⟨reason, evidence⟩ <;> rcases right with _ | ⟨reason', evidence'⟩ <;>
    simp +contextual

variable {input : LifecycleInput}

/-- The comparison is of the whole content. -/
theorem same_iff {stored : ProgressEvent} : same stored input = true ↔ stored = event input := by
  obtain ⟨command, key⟩ := stored
  obtain ⟨command', key', runId⟩ := input
  rw [same, event, Bool.and_eq_true, beq_iff_eq, ProgressEvent.mk.injEq, and_comm]
  refine and_congr_left fun _ ↦ ?_
  cases command with
  | complete taskId summary noChange =>
    cases command' with
    | complete taskId' summary' noChange' =>
      simp only [Bool.and_eq_true, beq_iff_eq, Command.complete.injEq]
      constructor
      · rintro ⟨⟨⟨rfl, rfl⟩, hreason⟩, hevidence⟩
        exact ⟨rfl, rfl, noChange_ext hreason hevidence⟩
      · rintro ⟨rfl, rfl, rfl⟩
        exact ⟨⟨⟨rfl, rfl⟩, rfl⟩, rfl⟩
    | _ => simp
  | reportVerification report =>
    cases command' with
    | reportVerification report' =>
      obtain ⟨passed, summary, method, evidence, needing⟩ := report
      obtain ⟨passed', summary', method', evidence', needing'⟩ := report'
      simp [sameEvidence_iff, and_assoc]
    | _ => simp
  | _ => cases command' <;> simp [and_assoc]

/-! ## Answers under a recorded key -/

/-- An input is answered as a replay that changes nothing, and every other input under its key with
a run to name is refused. -/
structure Settled (state : LifecycleState) (input : LifecycleInput) : Prop where
  replayed : ∀ live, transition state input live = .replayed state
  conflict : ∀ (other : LifecycleInput) (live : Bool), text other.runId = true →
    other.idempotencyKey = input.idempotencyKey → other ≠ input →
      transition state other live = .refused "idempotency-conflict"

/-- **A recorded input is settled.** -/
theorem settled_of_owned {state : LifecycleState}
    (hclaimed : ∀ events ∈ state.lifecycle.events, state.execution.isSome) (hkeys : state.lifecycle.Keyed)
    (hrun : text input.runId = true) (hkey : text input.idempotencyKey = true)
    (howned : (input.runId, event input) ∈ owned state.execution state.lifecycle) : Settled state input := by
  have hnodup : ((owned state.execution state.lifecycle).map (·.2.idempotencyKey)).Nodup := by
    have h := owned_events hclaimed
    rw [Lifecycle.Keyed, ← h, List.map_map] at hkeys
    exact hkeys
  -- under the key there is only the input's own event
  have hfind : ∀ other : LifecycleInput, other.idempotencyKey = input.idempotencyKey →
      (owned state.execution state.lifecycle).find? (·.2.idempotencyKey == other.idempotencyKey) =
        some (input.runId, event input) := by
    intro other hsame
    cases hfound : (owned state.execution state.lifecycle).find?
        (·.2.idempotencyKey == other.idempotencyKey) with
    | none =>
      have := List.find?_eq_none.1 hfound _ howned
      exact absurd hsame.symm (by simpa [event] using this)
    | some found =>
      have hfoundKey : found.2.idempotencyKey = other.idempotencyKey := by
        simpa using List.find?_some hfound
      exact congrArg some (List.inj_on_of_nodup_map hnodup (List.mem_of_find?_eq_some hfound) howned
        (hfoundKey.trans hsame))
  constructor
  · intro live
    have hreplay : replay state input = some (.replayed state) := by
      rw [replay, hfind input rfl]
      simp [same_iff]
    rw [transition, if_neg (by simp [hrun]), if_neg (by simp [hkey]), hreplay]
  · intro other live hother hsame hne
    have hreplay : replay state other = some (.refused "idempotency-conflict") := by
      rw [replay, hfind other hsame]
      simp only [Bool.and_eq_true, beq_iff_eq, same_iff]
      rw [if_neg]
      rintro ⟨hid, hevent⟩
      obtain ⟨command, key, runId⟩ := input
      obtain ⟨command', key', runId'⟩ := other
      simp_all [event]
    rw [transition, if_neg (by simp [hother]), if_neg (by simp [hsame, hkey]), hreplay]

/-! ## What a step does to the logs -/

namespace Plan

/-- The logs after a step, in terms of those before. -/
inductive Moved (plan next : Plan) : Prop
  | still (execution : next.execution = plan.execution) (lifecycle : next.lifecycle = plan.lifecycle)
  | claimed {run : Run} (idle : plan.execution = none) (execution : next.execution = some run)
      (lifecycle : next.lifecycle = plan.lifecycle)
  | reported {graph : Graph} {state : LifecycleState} {input : LifecycleInput} {live : Bool}
      (accepted : transition ⟨graph, plan.execution, plan.lifecycle⟩ input live = .accepted state)
      (execution : next.execution = state.execution) (lifecycle : next.lifecycle = state.lifecycle)
  | stopped {graph : Graph} {run : Run} (active : plan.execution = some run)
      (fresh : replay ⟨graph, some run, plan.lifecycle⟩ (liveStop run) = none)
      (execution : next.execution = none)
      (lifecycle : next.lifecycle = { events := none, history := plan.lifecycle.history ++
        [⟨run, plan.lifecycle.events.getD [] ++ [event (liveStop run)], true⟩] })
  /-- A rebuild resumes the first build's run and may file one of its own. -/
  | landed {live : LiveBuild} {buildId : String} {report : RebuildReport} {resumed : Lifecycle}
      (resume : resumed = plan.lifecycle ∨ ∃ graph resumption,
        resumeOutstanding graph plan.lifecycle live buildId report = some resumption ∧
          resumed = resumption.lifecycle)
      (execution : next.execution = plan.execution)
      (lifecycle : next.lifecycle = resumed ∨ ∃ target build number,
        next.lifecycle = { resumed with
          history := resumed.history ++ [rebuildArchived live target build number report] } ∧
        build.id = buildId ∧ report.tasks ≠ [] ∧
        (report.tasks.mapIdx fun index _ ↦ rebuildTaskId number index).Nodup ∧
        (∀ event ∈ rebuildEvents buildId number report,
          event.idempotencyKey ∉ plan.lifecycle.allEvents.map ProgressEvent.idempotencyKey) ∧
        ∀ outcome ∈ report.outstanding.getD [], ∀ index < report.tasks.length,
          outcome.taskId ≠ rebuildTaskId number index)

variable {plan next : Plan}

theorem withGraph_ok {result : Result Graph} (h : plan.withGraph result = some next) :
    ∃ graph, result = .ok graph ∧ next = { plan with graph := some graph } := by
  obtain ⟨graph, hgraph, rfl⟩ := Option.map_eq_some_iff.1 h
  exact ⟨graph, Except.toOption_eq_some.1 hgraph, rfl⟩

theorem stopped_moved {builds : List BuildRequest} {build : BuildRequest}
    (h : next = liveFromStopped { plan with builds } build) : plan.Moved next := by
  rcases liveFromStopped_cases { plan with builds } build with
    hsame | ⟨graph, run, _, _, -, hrun, -, -, -, -, -, -, -, -, -, hreplay, hnext⟩
  · rw [h, hsame]; exact .still rfl rfl
  · rw [h, hnext]; exact .stopped hrun hreplay rfl rfl

/-- **Every step moves the logs in one of these ways.** -/
theorem step_moved {platform : Platform} {act : Act}
    (hfresh : plan.LandsFresh act) (h : step platform plan act = some next) : plan.Moved next := by
  cases act with
  | edit revision source =>
    rw [step] at h
    split at h <;> cases h
    exact .still rfl rfl
  | revise change => obtain ⟨graph, -, rfl⟩ := withGraph_ok h; exact .still rfl rfl
  | approve => obtain ⟨graph, -, rfl⟩ := withGraph_ok h; exact .still rfl rfl
  | queueBuild input blockers draw =>
    rw [step] at h
    split at h <;> try cases h
    obtain ⟨⟨build, next⟩, hqueued, rfl⟩ := Option.map_eq_some_iff.1 h
    rcases queueBuild_ok (Except.toOption_eq_some.1 hqueued) with
      rfl | ⟨_, _, _, -, -, -, -, -, -, -, rfl⟩ <;> exact .still rfl rfl
  | claim input =>
    obtain ⟨prior, latest, -, hidle, -, -, -, -, -, rfl⟩ := claimed_ok h
    exact .claimed hidle rfl rfl
  | report input =>
    rw [step] at h
    obtain ⟨graph, state, live, -, haccepted, -, rfl⟩ := reported_ok h
    exact .reported haccepted rfl rfl
  | reportStored input =>
    rw [step] at h
    obtain ⟨graph, state, -, haccepted, rfl⟩ := reportedStored_ok h
    exact .reported haccepted rfl rfl
  | pick user connectionId resumable clock =>
    rw [step] at h
    split at h <;> try cases h
    obtain ⟨prior, build, -, -, rfl⟩ := pickBuild_ok h
    exact .still rfl rfl
  | reportBuild user connectionId id report draw =>
    rw [step] at h
    split at h <;> try cases h
    obtain ⟨prior, build, -, -, -, hnext⟩ := reportBuild_ok (Except.toOption_eq_some.1 h)
    rcases hnext with rfl | ⟨-, -, hnext⟩
    · exact .still rfl rfl
    · exact stopped_moved hnext
  | queueRebuild connections options blockers draw =>
    rw [step] at h
    split at h <;> try cases h
    obtain ⟨⟨result, next⟩, hqueued, rfl⟩ := Option.map_eq_some_iff.1 h
    rcases queueRebuild_ok (Except.toOption_eq_some.1 hqueued) with
      rfl | ⟨_, _, _, _, -, -, -, -, -, rfl⟩ <;> exact .still rfl rfl
  | settle baseSource revision source draw =>
    rw [step] at h
    split at h <;> try cases h
    rcases settleLive_ok plan ⟨baseSource, revision, source, noCodeSummary⟩ draw with
      heq | ⟨_, -, -, -, -, heq⟩ <;> rw [heq] <;> exact .still rfl rfl
  | land buildId report now =>
    rw [step] at h
    split at h <;> try cases h
    obtain ⟨live, target, prior, build, graph, lifecycle, -, -, -, rfl, -, -, -, -, happend, -, rfl⟩ :=
      reportRebuild_ok (Except.toOption_eq_some.1 h)
    rcases happend with ⟨-, rfl, rfl⟩ | ⟨before, after, hgraph, rfl, happend⟩
    · exact .still rfl rfl
    · have hresume : resumedLifecycle plan live build.id report = plan.lifecycle ∨
          ∃ graph resumption,
            resumeOutstanding graph plan.lifecycle live build.id report = some resumption ∧
              resumedLifecycle plan live build.id report = resumption.lifecycle := by
        rw [resumedLifecycle, resumed, hgraph, Option.bind_some]
        cases hresumed : resumeOutstanding before plan.lifecycle live build.id report with
        | none => exact .inl rfl
        | some resumption => exact .inr ⟨before, resumption, hresumed, rfl⟩
      refine .landed hresume rfl ?_
      rcases appendRebuild_ok happend with ⟨rfl, rfl⟩ | ⟨versions, latest, rfl, htasks, hstate, hvalid,
        rfl, rfl⟩
      · exact .inl rfl
      · rw [LandsFresh, FreshKeys, hgraph] at hfresh
        obtain ⟨hkeys, htaskIds⟩ := hfresh latest (by simp) hstate
        exact .inr ⟨target, build, latest.number + 1, rfl, rfl, htasks,
          rebuildDefinition_ids ▸ validate_ids hvalid, hkeys, htaskIds⟩

/-! ## No two events share a key -/

theorem Moved.keyed (h : plan.Keyed) (hmoved : plan.Moved next) : next.Keyed := by
  have hactive : plan.execution = none → plan.lifecycle.events = none := fun hidle ↦
    Option.eq_none_iff_forall_not_mem.2 fun events hmem ↦ by simpa [hidle] using h.claimed events hmem
  cases hmoved with
  | still hexecution hlifecycle => exact ⟨by rw [hexecution, hlifecycle]; exact h.claimed, hlifecycle ▸ h.keys⟩
  | claimed hidle hexecution hlifecycle =>
    exact ⟨by rw [hexecution, hlifecycle, hactive hidle]; simp, hlifecycle ▸ h.keys⟩
  | @reported graph state input live htransition hexecution hlifecycle =>
    obtain ⟨-, -, hreplay, haccepted⟩ := transition_accepted htransition
    have hfresh : input.idempotencyKey ∉
        plan.lifecycle.allEvents.map ProgressEvent.idempotencyKey := by
      rw [← owned_events h.claimed]
      simpa [List.map_map] using replay_eq_none.1 hreplay
    refine ⟨?_, ?_⟩
    · rw [hexecution, hlifecycle]
      cases haccepted with
      | late => exact h.claimed
      | recorded hrun => simp only at hrun; simp [hrun]
      | ended => simp [released]
    · rw [hlifecycle]
      exact haccepted.keys h.keys hfresh
  | @stopped graph run hrun hreplay hexecution hlifecycle =>
    have hfresh : (liveStop run).idempotencyKey ∉
        plan.lifecycle.allEvents.map ProgressEvent.idempotencyKey := by
      rw [← owned_events (hrun ▸ h.claimed)]
      simpa [List.map_map] using replay_eq_none.1 hreplay
    refine ⟨by simp [hlifecycle], ?_⟩
    have hperm : next.lifecycle.allEvents.Perm
        (event (liveStop run) :: plan.lifecycle.allEvents) := by
      rw [hlifecycle]
      refine List.perm_iff_count.2 fun stored ↦ ?_
      simp only [Lifecycle.allEvents, Option.getD_none, List.nil_append, List.flatMap_append,
        List.flatMap_cons, List.flatMap_nil, List.append_nil, List.count_append, List.count_cons,
        List.count_nil]
      omega
    rw [Lifecycle.Keyed, (hperm.map _).nodup_iff, List.map_cons]
    exact List.nodup_cons.2 ⟨hfresh, h.keys⟩
  | @landed live buildId report resumed hresume hexecution hlifecycle =>
    have hresumed : resumed.Keyed ∧ resumed.events = plan.lifecycle.events ∧
        ∀ event ∈ resumed.allEvents, event ∈ plan.lifecycle.allEvents ∨
          ∃ outcome ∈ report.outstanding.getD [], ∃ suffix ∈ keySuffixes,
            event.idempotencyKey = buildId ++ ":" ++ outcome.taskId ++ suffix := by
      rcases hresume with rfl | ⟨graph, resumption, hresumption, rfl⟩
      · exact ⟨h.keys, rfl, fun event hmem ↦ .inl hmem⟩
      · exact h.keys.resumeOutstanding hresumption
    obtain ⟨hkeyed, hevents, hold⟩ := hresumed
    rcases hlifecycle with hlifecycle | ⟨target, build, number, hlifecycle, rfl, -, hids, hfresh, htasks⟩
    · exact ⟨by rw [hlifecycle, hevents, hexecution]; exact h.claimed, hlifecycle ▸ hkeyed⟩
    · refine ⟨by rw [hlifecycle, hexecution]; simpa [hevents] using h.claimed, ?_⟩
      have hall : next.lifecycle.allEvents =
          resumed.allEvents ++ rebuildEvents build.id number report := by
        simp [hlifecycle, Lifecycle.allEvents, rebuildArchived]
      rw [Lifecycle.Keyed, hall, List.map_append, List.nodup_append]
      refine ⟨hkeyed, rebuildEvents_nodup hids, fun key hkey other hother heq ↦ ?_⟩
      obtain ⟨stored, hstored, rfl⟩ := List.mem_map.1 hkey
      obtain ⟨filed, hfiled, rfl⟩ := List.mem_map.1 hother
      rcases hold stored hstored with hrecorded | ⟨outcome, houtcome, suffix, hsuffix, hkey⟩
      · exact hfresh filed hfiled (heq ▸ List.mem_map_of_mem hrecorded)
      · -- the two keys end alike, so they are about one task
        obtain ⟨index, hindex, suffix', hsuffix', hkey'⟩ := rebuildEvents_mem hfiled
        rw [hkey, hkey'] at heq
        exact htasks outcome houtcome index hindex
          (append_left_inj (keySuffix_inj hsuffix hsuffix' heq).1)

/-! ## What was recorded stays recorded -/

end Plan

/-- A live archived run that needs no further work: its requested revision is gone. -/
def ArchivedRun.Completed (archived : ArchivedRun) : Prop :=
  archived.live = true ∧ ∀ last ∈ archived.events.getLast?, last.command.requestsRevision = false

/-- Only the server's own stop ends a live log with a requested revision. -/
def ArchivedRun.Stopped (archived : ArchivedRun) : Prop :=
  archived.live = true → ∀ last ∈ archived.events.getLast?, last.command.requestsRevision = true →
    last = event (liveStop archived.run)

/-- An archived run still tells of an event: it has it, or completing the run dropped it. -/
def ArchivedRun.Tells (archived : ArchivedRun) (stored : ProgressEvent) : Prop :=
  stored ∈ archived.events ∨ archived.Completed ∧ stored = event (liveStop archived.run)

/-- A late report of a pull request ends a log with no requested revision. -/
theorem ArchivedRun.late {archived : ArchivedRun} {stored : ProgressEvent}
    (hstored : stored.command.requestsRevision = false) :
    ArchivedRun.Stopped { archived with events := archived.events ++ [stored] } ∧
      ∀ told, archived.Tells told →
        ArchivedRun.Tells { archived with events := archived.events ++ [stored] } told := by
  have hlast : ∀ last ∈ (archived.events ++ [stored]).getLast?,
      last.command.requestsRevision = false := by
    intro last hlast
    rw [List.getLast?_concat] at hlast
    exact Option.some.inj hlast ▸ hstored
  refine ⟨fun _ last hmem hrequests ↦ ?_, fun told htold ↦ ?_⟩
  · rw [hlast last hmem] at hrequests
    cases hrequests
  · rcases htold with hmem | ⟨⟨hlive, -⟩, htold⟩
    · exact .inl (List.mem_append_left _ hmem)
    · exact .inr ⟨⟨hlive, hlast⟩, htold⟩

/-- A resumed run tells of all it told of: only its stop may go, and that completes it. -/
theorem resumeLiveRun_tells {graph : Graph} {lifecycle next : Lifecycle} {runId : String}
    {added : List ProgressEvent} (hstopped : ∀ archived ∈ lifecycle.history, archived.Stopped)
    (h : resumeLiveRun graph lifecycle runId added = some next) :
    (∀ archived ∈ next.history, archived.Stopped) ∧ ∀ id told,
      (∃ archived ∈ lifecycle.history, archived.run.id = id ∧ archived.Tells told) →
        ∃ archived ∈ next.history, archived.run.id = id ∧ archived.Tells told := by
  obtain ⟨front, back, archived, kept, revision, reason, version, folded, events, hsplit, -, -, hlive,
    hevents, hreason, -, -, hfold, hshape, rfl⟩ := resumeLiveRun_ok h
  have hrequests : revision.command.requestsRevision = true := requestsRevision_iff.2 ⟨reason, hreason⟩
  have hrevision : revision = event (liveStop archived.run) :=
    hstopped archived (by simp [hsplit]) hlive revision (by simp [hevents]) hrequests
  have hothers : ∀ other ∈ lifecycle.history, other = archived ∨ other ∈ front ++ back := by
    intro other hmem
    rw [hsplit] at hmem
    exact List.mem_cons.1 (List.perm_middle.mem_iff.1 hmem)
  refine ⟨fun other hmem ↦ ?_, ?_⟩
  · rcases List.mem_cons.1 (List.perm_middle.mem_iff.1 hmem) with rfl | hmem
    · intro _ last hlast hlastRequests
      rcases hshape with ⟨-, rfl⟩ | ⟨hsuccess, rfl⟩
      · rw [List.getLast?_concat] at hlast
        exact (Option.some.inj hlast).symm.trans hrevision
      · rw [foldRun_success_last hfold hsuccess last hlast] at hlastRequests
        cases hlastRequests
    · exact hstopped other (hsplit ▸ List.perm_middle.mem_iff.2 (List.mem_cons_of_mem _ hmem))
  · rintro id told ⟨other, hother, hid, htold⟩
    rcases hothers other hother with rfl | hmem
    · refine ⟨{ other with events }, by simp, hid, ?_⟩
      rcases htold with hmem | ⟨⟨-, hlast⟩, -⟩
      · rw [hevents, List.mem_append, List.mem_singleton] at hmem
        rcases hshape with ⟨-, rfl⟩ | ⟨hsuccess, rfl⟩
        · exact .inl (by rcases hmem with hmem | rfl <;> simp [*])
        · rcases hmem with hmem | rfl
          · exact .inl (List.mem_append_left _ hmem)
          · exact .inr ⟨⟨hlive, foldRun_success_last hfold hsuccess⟩, hrevision⟩
      · rw [hlast revision (by simp [hevents])] at hrequests
        cases hrequests
    · exact ⟨other, List.perm_middle.mem_iff.2 (List.mem_cons_of_mem _ hmem), hid, htold⟩

namespace Plan

/-- An event recorded for a run is still told of. -/
def Tells (plan : Plan) (runId : String) (told : ProgressEvent) : Prop :=
  (∃ run ∈ plan.execution, run.id = runId ∧ told ∈ plan.lifecycle.events.getD []) ∨
    ∃ archived ∈ plan.lifecycle.history, archived.run.id = runId ∧ archived.Tells told

/-- What the logs of an accepted transition keep. -/
theorem accepted_tells {state next : LifecycleState} {input : LifecycleInput} {live : Bool}
    (hstopped : ∀ archived ∈ state.lifecycle.history, archived.Stopped) (h : Accepted state input live next) :
    (∀ archived ∈ next.lifecycle.history, archived.Stopped) ∧ (next.execution = state.execution ∧
          (∀ told ∈ state.lifecycle.events.getD [], told ∈ next.lifecycle.events.getD []) ∨
        ∃ run archived, state.execution = some run ∧ archived ∈ next.lifecycle.history ∧
          archived.run = run ∧ ∀ told ∈ state.lifecycle.events.getD [], told ∈ archived.events) ∧
      ∀ id told, (∃ archived ∈ state.lifecycle.history, archived.run.id = id ∧ archived.Tells told) →
        ∃ archived ∈ next.lifecycle.history, archived.run.id = id ∧ archived.Tells told := by
  cases h with
  | @late front back archived _ _ _ hsplit _ _ _ _ hreport =>
    obtain ⟨taskId, url, reported, hcommand⟩ := hreport
    obtain ⟨hlate, htells⟩ := @ArchivedRun.late archived (event input) (by simp [event, hcommand,
      Command.requestsRevision])
    refine ⟨fun other hmem ↦ ?_, .inl ⟨rfl, fun _ h ↦ h⟩, ?_⟩
    · rcases List.mem_cons.1 (List.perm_middle.mem_iff.1 hmem) with rfl | hmem
      · exact hlate
      · exact hstopped other (hsplit ▸ List.perm_middle.mem_iff.2 (List.mem_cons_of_mem _ hmem))
    · rintro id told ⟨other, hother, hid, htold⟩
      rw [hsplit] at hother
      rcases List.mem_cons.1 (List.perm_middle.mem_iff.1 hother) with rfl | hmem
      · exact ⟨{ other with events := other.events ++ [event input] }, by simp, hid, htells told htold⟩
      · exact ⟨other, List.perm_middle.mem_iff.2 (List.mem_cons_of_mem _ hmem), hid, htold⟩
  | recorded =>
    exact ⟨hstopped, .inl ⟨rfl, fun told h ↦ by simp [h]⟩, fun _ _ h ↦ h⟩
  | @ended run version folded reduced flag hexecution _ _ _ _ hreduce hover =>
    refine ⟨fun other hmem ↦ ?_, .inr ⟨run, _, hexecution, List.mem_append_right _
      (List.mem_singleton_self _), rfl, fun told h ↦ List.mem_append_left _ h⟩, ?_⟩
    · rcases List.mem_append.1 hmem with hmem | hmem
      · exact hstopped other hmem
      · rw [List.mem_singleton.1 hmem]
        rintro rfl last hlast hrequests
        rw [List.getLast?_concat] at hlast
        obtain ⟨reason, hreason⟩ := requestsRevision_iff.1 (Option.some.inj hlast ▸ hrequests)
        have hactive := hover.2.1
        rw [reduceEvent_revision hreason hreduce] at hactive
        cases hactive
    · rintro id told ⟨other, hother, h⟩
      exact ⟨other, List.mem_append_left _ hother, h⟩

/-- No event of a rebuild's own run asks for a revision. -/
theorem rebuildArchived_stopped (live : LiveBuild) (target : Target) (build : BuildRequest)
    (number : Nat) (report : RebuildReport) : (rebuildArchived live target build number report).Stopped := by
  intro _ last hlast hrequests
  have hmem := List.mem_of_getLast? hlast
  rw [rebuildArchived, rebuildEvents, List.mem_flatten] at hmem
  obtain ⟨events, hevents, hmem⟩ := hmem
  obtain ⟨index, hindex, rfl⟩ := List.mem_mapIdx.1 hevents
  simp only [deliveredEvents, List.mem_cons, List.not_mem_nil, or_false] at hmem
  rcases hmem with rfl | rfl | rfl <;> cases hrequests

/-- **What was recorded stays recorded.** -/
theorem Moved.tells {plan next : Plan}
    (hstopped : ∀ archived ∈ plan.lifecycle.history, archived.Stopped) (hmoved : plan.Moved next) :
    (∀ archived ∈ next.lifecycle.history, archived.Stopped) ∧ ∀ id told, plan.Tells id told → next.Tells id told := by
  cases hmoved with
  | still hexecution hlifecycle =>
    rw [hlifecycle]
    exact ⟨hstopped, fun id told h ↦ by rwa [Tells, hexecution, hlifecycle]⟩
  | claimed hidle hexecution hlifecycle =>
    rw [hlifecycle]
    refine ⟨hstopped, fun id told h ↦ .inr ?_⟩
    rw [hlifecycle]
    rcases h with ⟨run, hrun, -⟩ | h
    · rw [hidle] at hrun; cases hrun
    · exact h
  | @reported graph state input live htransition hexecution hlifecycle =>
    obtain ⟨-, -, -, haccepted⟩ := transition_accepted htransition
    obtain ⟨hnext, hactive, harchived⟩ := accepted_tells hstopped haccepted
    rw [hlifecycle]
    refine ⟨hnext, fun id told h ↦ ?_⟩
    rw [Tells, hexecution, hlifecycle]
    rcases h with ⟨run, hrun, hid, hmem⟩ | h
    · rcases hactive with ⟨heq, hkept⟩ | ⟨run', archived, hrun', hmem', hsame, hkept⟩
      · exact .inl ⟨run, heq ▸ hrun, hid, hkept told hmem⟩
      · simp only at hrun'
        obtain rfl := Option.mem_unique hrun' hrun
        exact .inr ⟨archived, hmem', hsame ▸ hid, .inl (hkept told hmem)⟩
    · exact .inr (harchived id told h)
  | @stopped graph run hrun _ hexecution hlifecycle =>
    rw [hlifecycle]
    refine ⟨fun other hmem ↦ ?_, fun id told h ↦ .inr ?_⟩
    · rcases List.mem_append.1 hmem with hmem | hmem
      · exact hstopped other hmem
      · rw [List.mem_singleton.1 hmem]
        intro _ last hlast _
        rw [List.getLast?_concat] at hlast
        exact (Option.some.inj hlast).symm
    · rw [hlifecycle]
      rcases h with ⟨run', hrun', hid, hmem⟩ | ⟨archived, hmem, h⟩
      · obtain rfl := Option.mem_unique hrun hrun'
        exact ⟨_, List.mem_concat_self, hid,
          .inl (List.mem_append_left _ hmem)⟩
      · exact ⟨archived, List.mem_append_left _ hmem, h⟩
  | @landed live buildId report resumed hresume hexecution hlifecycle =>
    have hresumed : (∀ archived ∈ resumed.history, archived.Stopped) ∧
        resumed.events = plan.lifecycle.events ∧ ∀ id told,
        (∃ archived ∈ plan.lifecycle.history, archived.run.id = id ∧ archived.Tells told) →
          ∃ archived ∈ resumed.history, archived.run.id = id ∧ archived.Tells told := by
      rcases hresume with rfl | ⟨graph, resumption, hresumption, rfl⟩
      · exact ⟨hstopped, rfl, fun _ _ h ↦ h⟩
      · refine resumeOutstanding_invariant (P := fun after ↦
          (∀ archived ∈ after.history, archived.Stopped) ∧ after.events = plan.lifecycle.events ∧
          ∀ id told,
            (∃ archived ∈ plan.lifecycle.history, archived.run.id = id ∧ archived.Tells told) →
              ∃ archived ∈ after.history, archived.run.id = id ∧ archived.Tells told)
          hresumption ⟨hstopped, rfl, fun _ _ h ↦ h⟩ ?_
        rintro before after item outcome added ⟨hbefore, hevents, htold⟩ - - - hstep
        obtain ⟨hafter, htells⟩ := resumeLiveRun_tells hbefore hstep
        obtain ⟨_, _, _, _, _, _, _, _, _, _, _, _, _, _, _, _, _, _, _, rfl⟩ := resumeLiveRun_ok hstep
        exact ⟨hafter, hevents, fun id told h ↦ htells id told (htold id told h)⟩
    obtain ⟨hafter, hevents, htells⟩ := hresumed
    rcases hlifecycle with hlifecycle | ⟨target, build, number, hlifecycle, -⟩
    · rw [hlifecycle]
      refine ⟨hafter, fun id told h ↦ ?_⟩
      rw [Tells, hexecution, hlifecycle, hevents]
      exact h.imp_right (htells id told)
    · rw [hlifecycle]
      refine ⟨fun other hmem ↦ ?_, fun id told h ↦ ?_⟩
      · rcases List.mem_append.1 hmem with hmem | hmem
        · exact hafter other hmem
        · rw [List.mem_singleton.1 hmem]
          exact rebuildArchived_stopped live target build number report
      · rw [Tells, hexecution, hlifecycle]
        refine h.imp (fun h ↦ by simpa only [hevents] using h) fun h ↦ ?_
        obtain ⟨archived, hmem, h⟩ := htells id told h
        exact ⟨archived, List.mem_append_left _ hmem, h⟩

end Plan

end Chopin.Tasks
