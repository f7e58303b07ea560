import Chopin.Tasks.BuildFacts

/-!
# Keys of recorded events

Every recorded event carries the key it was reported under, and replay detection stands on no two
events sharing one.  `transition` sees to it for what is reported; a rebuild names the keys of the
events it files itself, from its own identifier and the tasks they are about.

`Plan.FreshKeys` is what a rebuild's report has to meet for its keys to be new, and `Plan.Keyed` the
invariant of runs whose rebuilds all meet it.
-/

set_option autoImplicit false
set_option linter.dupNamespace false

open Script

namespace Chopin.Tasks

/-! ## Keys a rebuild makes up -/

/-- How the keys of the events end that a rebuild files. -/
def keySuffixes : List String := [":block", ":start", ":pr", ":done", ":complete"]

theorem append_reverse_start {x y s t : List Char} (h : x ++ s = y ++ t) :
    s.reverse.isPrefixOf t.reverse = true ∨ t.reverse.isPrefixOf s.reverse = true := by
  have h := congrArg List.reverse h
  rw [List.reverse_append, List.reverse_append] at h
  rcases List.append_eq_append_iff.1 h with ⟨more, hmore, -⟩ | ⟨more, hmore, -⟩
  · exact .inl (by simp [hmore])
  · exact .inr (by simp [hmore])

/-- No suffix ends another, so a key has one reading. -/
theorem keySuffix_inj {x y s t : String} (hs : s ∈ keySuffixes) (ht : t ∈ keySuffixes)
    (h : x ++ s = y ++ t) : x = y ∧ s = t := by
  have hlist : x.toList ++ s.toList = y.toList ++ t.toList := by
    rw [← String.toList_append, h, String.toList_append]
  have hone : ∀ a ∈ keySuffixes, ∀ b ∈ keySuffixes,
      (a.toList.reverse.isPrefixOf b.toList.reverse = true ∨
        b.toList.reverse.isPrefixOf a.toList.reverse = true) → a = b := by decide
  obtain rfl := hone s hs t ht (append_reverse_start hlist)
  exact ⟨String.toList_inj.1 (List.append_cancel_right hlist), rfl⟩

theorem append_left_inj {x y z : String} (h : x ++ y = x ++ z) : y = z := by
  have hlist : x.toList ++ y.toList = x.toList ++ z.toList := by
    rw [← String.toList_append, h, String.toList_append]
  exact String.toList_inj.1 (List.append_cancel_left hlist)

variable {summary : String} {added : List ProgressEvent}

theorem outcomeEvents_keys {item : TaskProgress} {key : String} {outcome : TaskOutcome} (h : outcomeEvents item key summary outcome = some added) :
    (added.map ProgressEvent.idempotencyKey).Nodup ∧
      ∀ event ∈ added, ∃ suffix ∈ keySuffixes, event.idempotencyKey = key ++ suffix := by
  have hdistinct : ∀ {s t : String}, s ∈ keySuffixes → t ∈ keySuffixes → s ≠ t →
      key ++ s ≠ key ++ t := fun hs ht hne heq ↦ hne (keySuffix_inj hs ht heq).2
  rw [outcomeEvents] at h
  split at h
  · cases h
  · cases h
    exact ⟨by simp, by simp [keySuffixes]⟩
  · simp only at h
    split at h; · cases h
    split at h; · cases h
    cases h
    have hsp := @hdistinct ":start" ":pr" (by decide) (by decide) (by decide)
    have hsd := @hdistinct ":start" ":done" (by decide) (by decide) (by decide)
    have hpd := @hdistinct ":pr" ":done" (by decide) (by decide) (by decide)
    rename_i url _ _
    cases item.state <;>
      by_cases hurl : some url = item.pullRequest.map PullRequest.url <;>
        simp [hurl, hsp, hsd, hpd, keySuffixes]

variable {buildId : String}

theorem deliveredEvents_keys {taskId url : String} :
    ((deliveredEvents buildId summary taskId url).map ProgressEvent.idempotencyKey).Nodup ∧
      ∀ event ∈ deliveredEvents buildId summary taskId url, ∃ suffix ∈ keySuffixes,
        event.idempotencyKey = buildId ++ ":" ++ taskId ++ suffix := by
  have hdistinct : ∀ {s t : String}, s ∈ keySuffixes → t ∈ keySuffixes → s ≠ t →
      buildId ++ ":" ++ taskId ++ s ≠ buildId ++ ":" ++ taskId ++ t :=
    fun hs ht hne heq ↦ hne (keySuffix_inj hs ht heq).2
  have hsp := @hdistinct ":start" ":pr" (by decide) (by decide) (by decide)
  have hsc := @hdistinct ":start" ":complete" (by decide) (by decide) (by decide)
  have hpc := @hdistinct ":pr" ":complete" (by decide) (by decide) (by decide)
  simp [deliveredEvents, hsp, hsc, hpc, keySuffixes]

variable {number : Nat}

variable {report : RebuildReport}

theorem rebuildEvents_mem {event : ProgressEvent} (h : event ∈ rebuildEvents buildId number report) :
    ∃ index < report.tasks.length, ∃ suffix ∈ keySuffixes,
      event.idempotencyKey = buildId ++ ":" ++ rebuildTaskId number index ++ suffix := by
  rw [rebuildEvents, List.mem_flatten] at h
  obtain ⟨events, hevents, hmem⟩ := h
  obtain ⟨index, hindex, rfl⟩ := List.mem_mapIdx.1 hevents
  exact ⟨index, hindex, deliveredEvents_keys.2 event hmem⟩

variable {live : LiveBuild}

/-- The ids of the version's tasks. -/
theorem rebuildDefinition_ids {platform : Platform} {target : Target} :
    (rebuildDefinition platform live target number report).tasks.map Task.id =
      report.tasks.mapIdx fun index _ ↦ rebuildTaskId number index := by
  refine List.ext_getElem (by simp [rebuildDefinition]) fun index _ _ ↦ ?_
  simp [rebuildDefinition, rebuildTask]

theorem rebuildEvents_nodup (hids : (report.tasks.mapIdx fun index _ ↦ rebuildTaskId number index).Nodup) :
    ((rebuildEvents buildId number report).map ProgressEvent.idempotencyKey).Nodup := by
  rw [rebuildEvents, List.map_flatten, List.nodup_flatten]
  constructor
  · intro keys hkeys
    obtain ⟨events, hevents, rfl⟩ := List.mem_map.1 hkeys
    obtain ⟨index, hindex, rfl⟩ := List.mem_mapIdx.1 hevents
    exact deliveredEvents_keys.1
  · rw [List.pairwise_iff_getElem]
    intro i j hi hj hlt key hkey hkey'
    simp only [List.getElem_map, List.getElem_mapIdx, List.mem_map] at hkey hkey'
    obtain ⟨event, hevent, rfl⟩ := hkey
    obtain ⟨event', hevent', heq⟩ := hkey'
    obtain ⟨s, hs, hkey⟩ := deliveredEvents_keys.2 event hevent
    obtain ⟨t, ht, hkey'⟩ := deliveredEvents_keys.2 event' hevent'
    rw [hkey, hkey'] at heq
    have hid := append_left_inj (keySuffix_inj ht hs heq).1
    simp only [List.length_map, List.length_mapIdx] at hi hj
    have hne := List.pairwise_iff_getElem.1 hids i j (by simpa using hi) (by simpa using hj) hlt
    simp only [List.getElem_mapIdx] at hne
    exact hne hid.symm

/-! ## Keyed documents -/

namespace Plan

/-- The events of a run at work are a run's at work, and no key is used twice. -/
structure Keyed (plan : Plan) : Prop where
  claimed : ∀ events ∈ plan.lifecycle.events, plan.execution.isSome
  keys : plan.lifecycle.Keyed

/-- The keys a rebuild's version is filed under are recorded nowhere, and none of the outstanding
tasks it reports on goes by the name of one of its own. -/
def FreshKeys (plan : Plan) (buildId : String) (report : RebuildReport) : Prop :=
  ∀ latest ∈ plan.graph.bind current, latest.state = .approved →
    (∀ event ∈ rebuildEvents buildId (latest.number + 1) report,
      event.idempotencyKey ∉ plan.lifecycle.allEvents.map ProgressEvent.idempotencyKey) ∧
    ∀ outcome ∈ report.outstanding.getD [], ∀ index < report.tasks.length,
      outcome.taskId ≠ rebuildTaskId (latest.number + 1) index

/-- Only rebuilds bring keys that nobody else has checked. -/
def LandsFresh (plan : Plan) : Act → Prop
  | .land buildId report _ => plan.FreshKeys buildId report
  | _ => True

end Plan

variable {lifecycle : Lifecycle}

/-- Resuming a run adds the events' keys and may drop its requested revision's. -/
theorem Lifecycle.Keyed.resume {graph : Graph} {next : Lifecycle} {runId : String} (h : lifecycle.Keyed) (hadded : (added.map ProgressEvent.idempotencyKey).Nodup)
    (hresumed : resumeLiveRun graph lifecycle runId added = some next) :
    next.Keyed ∧ ∀ event ∈ next.allEvents, event ∈ lifecycle.allEvents ∨ event ∈ added := by
  obtain ⟨front, back, archived, kept, revision, reason, version, folded, events, hsplit, -, -, -,
    hevents, -, -, hnew, -, hshape, rfl⟩ := resumeLiveRun_ok hresumed
  obtain ⟨active, history⟩ := lifecycle
  simp only at hsplit
  subst hsplit
  -- whichever way it ends, the new log is the old one with the added events, less the dropped
  obtain ⟨dropped, hperm⟩ : ∃ dropped, (dropped ++
      (Lifecycle.mk active (front ++ { archived with events } :: back)).allEvents).Perm
        (added ++ (Lifecycle.mk active (front ++ archived :: back)).allEvents) := by
    refine ⟨if folded.phase = .active then [] else [revision], List.perm_iff_count.2 fun event ↦ ?_⟩
    simp only [Lifecycle.allEvents, List.flatMap_append, List.flatMap_cons, List.count_append, hevents]
    rcases hshape with ⟨hphase, rfl⟩ | ⟨hphase, rfl⟩
    · rw [if_pos hphase]
      simp only [List.count_append, List.count_nil]
      omega
    · rw [if_neg (Phase.ne_active hphase)]
      simp only [List.count_append]
      omega
  refine ⟨?_, fun event hmem ↦ ?_⟩
  · have hall : ((added ++ (Lifecycle.mk active (front ++ archived :: back)).allEvents).map
        ProgressEvent.idempotencyKey).Nodup := by
      rw [List.map_append, List.nodup_append]
      refine ⟨hadded, h, fun key hkey other hother heq ↦ ?_⟩
      obtain ⟨event, hevent, rfl⟩ := List.mem_map.1 hkey
      exact hnew event hevent (heq ▸ hother)
    rw [← (hperm.map _).nodup_iff, List.map_append, List.nodup_append] at hall
    exact hall.2.1
  · exact (List.mem_append.1 (hperm.subset (List.mem_append_right _ hmem))).symm

/-- Outcomes bring keys that name the task they are about. -/
theorem Lifecycle.Keyed.resumeOutstanding {graph : Graph} {resumption : Resumption} (h : lifecycle.Keyed)
    (hresumed : Tasks.resumeOutstanding graph lifecycle live buildId report = some resumption) :
    resumption.lifecycle.Keyed ∧ resumption.lifecycle.events = lifecycle.events ∧
      ∀ event ∈ resumption.lifecycle.allEvents, event ∈ lifecycle.allEvents ∨
        ∃ outcome ∈ report.outstanding.getD [], ∃ suffix ∈ keySuffixes,
          event.idempotencyKey = buildId ++ ":" ++ outcome.taskId ++ suffix := by
  refine resumeOutstanding_invariant (P := fun after ↦ after.Keyed ∧ after.events = lifecycle.events ∧
    ∀ event ∈ after.allEvents, event ∈ lifecycle.allEvents ∨
      ∃ outcome ∈ report.outstanding.getD [], ∃ suffix ∈ keySuffixes,
        event.idempotencyKey = buildId ++ ":" ++ outcome.taskId ++ suffix)
    hresumed ⟨h, rfl, fun event hmem ↦ .inl hmem⟩ ?_
  rintro before after item outcome added ⟨hkeyed, hevents, hold⟩ houtcome htask hadded hresume
  obtain ⟨hnodup, hsuffix⟩ := outcomeEvents_keys hadded
  obtain ⟨hkeyed, hmem⟩ := hkeyed.resume hnodup hresume
  obtain ⟨_, _, _, _, _, _, _, _, _, _, _, _, _, _, _, _, _, _, _, rfl⟩ := resumeLiveRun_ok hresume
  refine ⟨hkeyed, hevents, fun event hevent ↦ ?_⟩
  rcases hmem event hevent with hmem | hmem
  · exact hold event hmem
  · obtain ⟨suffix, hsuffix, hkey⟩ := hsuffix event hmem
    exact .inr ⟨outcome, houtcome, suffix, hsuffix, htask ▸ hkey⟩

end Chopin.Tasks
