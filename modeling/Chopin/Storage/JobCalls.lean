import Chopin.Storage.JobFacts

/-!
# The calls of the job store

Each call is refused and changes nothing, or is an `Accepted` one.  A call tests the lease, its
arguments and its fence before it writes anything, and then writes once.
-/

set_option autoImplicit false

open Script (Call Instant text trim units)
open Script.Call (answer refuseIf Ensures ensures_get ensures_answer ensures_refuseIf ensures_throw)

namespace Chopin.Storage

variable {Lease : Type} {options : Options Lease} {s : Store}

/-! ## A member's controls -/

/-- Past the lease. -/
theorem ensures_lease {α : Type} {lease : Lease} {call : Method α} {P : α → Store → Prop}
    (h : Ensures call s P) : Ensures (do answer (options.assertLease lease); call) s P :=
  Ensures.seq (ensures_answer _ _) fun _ _ ↦ h

/-- The job that a member's control moves, at the revision that the member saw. -/
theorem ensures_control (h : Fenced s) {channelId jobId : String} {expected : Option Nat}
    {allowed : List BackgroundJobState} (hallowed : ∀ state ∈ allowed, state.active = true)
    {state : BackgroundJobState} (hrun : state ≠ .running) (now : Instant) (reason : Option String)
    (availableAt : BackgroundJob → Instant) :
    Ensures (do
      let found ← controlled channelId jobId expected allowed
      controlTransition found state now reason (availableAt found)) s fun saved t ↦
        ∃ found, found.id = jobId ∧ (∀ revision, expected = some revision → found.revision = revision) ∧
          Transitioned s t found saved state 0 := by
  have hcontrolled : Ensures (controlled channelId jobId expected allowed) s fun found t ↦ t = s ∧
      (found ∈ s.jobs ∧ found.state ∈ allowed) ∧ found.id = jobId ∧
        ∀ revision, expected = some revision → found.revision = revision := by
    refine Ensures.seq (ensures_require channelId jobId s) ?_
    rintro found ⟨hmem, hid, -⟩
    refine Ensures.seq (ensures_get s) ?_
    rintro _ rfl
    refine Ensures.seq (ensures_refuseIf _ _ _) fun _ hallowed ↦ ?_
    simp only [Bool.or_eq_false_iff, Bool.not_eq_false', List.contains_iff_mem] at hallowed
    refine ⟨rfl, ⟨hmem, hallowed.1.2⟩, hid, fun revision hrevision ↦ ?_⟩
    have hsame := hallowed.1.1
    rw [hrevision, Option.any_some, bne_eq_false_iff_eq] at hsame
    exact hsame
  refine Ensures.seq hcontrolled ?_
  rintro found ⟨⟨hmem, hstate⟩, hid, hrevision⟩
  refine (ensures_transitioned h hmem (hallowed _ hstate) hrun now reason _ ?_).mono
    fun _ _ htransitioned ↦ ⟨found, hid, hrevision, htransitioned⟩
  exact fun hcount ↦ nomatch hcount

theorem ensures_paused (h : Fenced s) (input : PauseBackgroundJob Lease) :
    Ensures (pause options input) s fun saved t ↦ ∃ found, found.id = input.jobId ∧
      (∀ revision, some input.expectedRevision = some revision → found.revision = revision) ∧
        Transitioned s t found saved .paused 0 :=
  ensures_lease (ensures_control h (by decide) (by decide) input.now _ (·.availableAt))

theorem ensures_resumed (h : Fenced s) (input : ResumeBackgroundJob Lease) :
    Ensures (resume options input) s fun saved t ↦ ∃ found, found.id = input.jobId ∧
      (∀ revision, some input.expectedRevision = some revision → found.revision = revision) ∧
        Transitioned s t found saved .pending 0 :=
  ensures_lease (ensures_control h (by decide) (by decide) input.now _ fun _ ↦ input.availableAt)

theorem ensures_cancelled (h : Fenced s) (input : CancelBackgroundJob Lease) :
    Ensures (cancel options input) s fun saved t ↦ ∃ found, found.id = input.jobId ∧
      (∀ revision, none = some revision → found.revision = revision) ∧ Transitioned s t found saved .cancelled 0 :=
  ensures_lease (Ensures.seq (ensures_refuseIf _ _ _) fun _ _ ↦
    ensures_control h (by decide) (by decide) input.now _ (·.availableAt))

theorem ensures_superseded (h : Fenced s) (input : SupersedeBackgroundJob Lease) :
    Ensures (supersede options input) s fun saved t ↦ ∃ found, found.id = input.jobId ∧
      (∀ revision, some input.expectedRevision = some revision → found.revision = revision) ∧
        Transitioned s t found saved .superseded 0 :=
  ensures_lease (ensures_control h (by decide) (by decide) input.now _ (·.availableAt))

theorem ensures_pause (h : Fenced s) (input : PauseBackgroundJob Lease) :
    Ensures (pause options input) s fun _ ↦ Moves s :=
  (ensures_paused h input).mono fun _ _ ⟨_, _, _, htransitioned⟩ ↦ htransitioned.moves h (by decide)

theorem ensures_resume (h : Fenced s) (input : ResumeBackgroundJob Lease) :
    Ensures (resume options input) s fun _ ↦ Moves s :=
  (ensures_resumed h input).mono fun _ _ ⟨_, _, _, htransitioned⟩ ↦ htransitioned.moves h (by decide)

theorem ensures_cancel (h : Fenced s) (input : CancelBackgroundJob Lease) :
    Ensures (cancel options input) s fun _ ↦ Moves s :=
  (ensures_cancelled h input).mono fun _ _ ⟨_, _, _, htransitioned⟩ ↦ htransitioned.moves h (by decide)

theorem ensures_supersede (h : Fenced s) (input : SupersedeBackgroundJob Lease) :
    Ensures (supersede options input) s fun _ ↦ Moves s :=
  (ensures_superseded h input).mono fun _ _ ⟨_, _, _, htransitioned⟩ ↦ htransitioned.moves h (by decide)

/-! ## A worker's reports -/

variable {input : ClaimedBackgroundJob Lease} {found : BackgroundJob}

theorem Held.running (h : Held s input found) : found.state = .running :=
  BackgroundJob.running_of_heldBy h.held

theorem Held.active (h : Held s input found) : found.state.active = true := by
  rw [h.running]; rfl

theorem ensures_requeued (h : Fenced s) (input : RequeueBackgroundJob Lease) :
    Ensures (requeue options input) s fun saved t ↦ ∃ found, Held s input.toClaimedBackgroundJob found ∧
      Transitioned s t found saved .pending (if input.countFailure then 1 else 0) := by
  refine ensures_lease (Ensures.seq (ensures_claimed _ s) fun found hheld ↦ ?_)
  exact (ensures_transitioned h hheld.mem hheld.active (by decide) _ _ _ fun _ ↦ hheld.running).mono
    fun _ _ htransitioned ↦ ⟨found, hheld, htransitioned⟩

theorem ensures_failed (h : Fenced s) (input : FailBackgroundJob Lease) :
    Ensures (fail options input) s fun saved t ↦ ∃ found, Held s input.toClaimedBackgroundJob found ∧
      Transitioned s t found saved .failed 1 := by
  refine ensures_lease (Ensures.seq (ensures_claimed _ s) fun found hheld ↦ ?_)
  exact (ensures_transitioned h hheld.mem hheld.active (by decide) _ _ _ fun _ ↦ hheld.running).mono
    fun _ _ htransitioned ↦ ⟨found, hheld, htransitioned⟩

theorem ensures_requeue (h : Fenced s) (input : RequeueBackgroundJob Lease) :
    Ensures (requeue options input) s fun _ ↦ Moves s :=
  (ensures_requeued h input).mono fun _ _ ⟨_, _, htransitioned⟩ ↦ htransitioned.moves h (by decide)

theorem ensures_fail (h : Fenced s) (input : FailBackgroundJob Lease) :
    Ensures (fail options input) s fun _ ↦ Moves s :=
  (ensures_failed h input).mono fun _ _ ⟨_, _, htransitioned⟩ ↦ htransitioned.moves h (by decide)

theorem ensures_renewed (h : Fenced s) (input : RenewBackgroundJob Lease) :
    Ensures (renew options input) s fun saved t ↦ ∃ found, Held s input.toClaimedBackgroundJob found ∧
      Reported s t found saved := by
  refine ensures_lease (Ensures.seq (ensures_refuseIf _ _ _) fun _ _ ↦
    Ensures.seq (ensures_claimed _ s) fun found hheld ↦ Ensures.seq (ensures_refuseIf _ _ _) fun _ _ ↦ ?_)
  have hfound := h.sound found hheld.mem
  obtain ⟨howner, -, hfailures⟩ := hfound.running hheld.running
  let saved := { found with
    revision := s.revision found.channelId + 1, claimBinding := input.claimBinding
    claimExpiresAt := some (Instant.plus input.now input.ttlMs), updatedAt := input.now }
  have hsound : saved.Sound :=
    ⟨fun _ ↦ ⟨howner, rfl, hfailures⟩, fun hidle ↦ absurd hheld.running hidle, hfound.failures,
      hfound.length, hfound.progress⟩
  refine Ensures.of_run (a := saved) (t := (s.bumped found.channelId).saved saved) ?_ ?_
  · rw [Call.run_bind_of_ok (run_bump _ _)]
    exact run_save hsound _
  · exact ⟨found, hheld, changed_saved hheld.mem hheld.active hsound rfl rfl rfl rfl rfl, ⟨rfl, rfl, rfl, rfl⟩,
      rfl, rfl, rfl, rfl⟩

theorem ensures_renew (h : Fenced s) (input : RenewBackgroundJob Lease) :
    Ensures (renew options input) s fun _ ↦ Moves s :=
  (ensures_renewed h input).mono fun _ _ ⟨_, hheld, hreported⟩ ↦ hreported.moves h hheld.running

/-- A new entry can be read again. -/
theorem AppendBackgroundJobProgress.entry_valid {input : AppendBackgroundJobProgress Lease}
    {revision attempt : Nat} (hvalid : input.invalid = false) (htime : input.now.isSome = true)
    (hrevision : 1 ≤ revision) (hattempt : 1 ≤ attempt) : (input.entry revision attempt).valid = true := by
  simp only [AppendBackgroundJobProgress.invalid, Bool.or_eq_false_iff, Bool.not_eq_false',
    decide_eq_false_iff_not, Nat.not_lt, beq_eq_false_iff_ne] at hvalid
  obtain ⟨⟨⟨⟨hstage, hlabel⟩, hlength⟩, hreason⟩, hslug⟩ := hvalid
  have htext : text (trim input.label) = true := Script.text_trim (bne_iff_ne.2 hlabel)
  have hgiven : (if input.state == .interrupted then (input.reason.filter (· != "")).any slug
      else (input.reason.filter (· != "")).isNone) = true := by
    cases hcase : input.reason with
    | none => simp_all
    | some reason =>
      rw [hcase] at hreason hslug
      by_cases hempty : reason = "" <;> simp_all
  simp only [BackgroundJobProgress.valid, AppendBackgroundJobProgress.entry, Bool.and_eq_true]
  exact ⟨⟨⟨⟨⟨⟨decide_eq_true hrevision, decide_eq_true hattempt⟩, hstage⟩, htext⟩,
    decide_eq_true hlength⟩, hgiven⟩, htime⟩

theorem appendEntry_ok {current added : List BackgroundJobProgress} {input : AppendBackgroundJobProgress Lease}
    {revision attempt : Nat} (h : appendEntry current input revision attempt = .ok added)
    (hrevision : 1 ≤ revision) (hattempt : 1 ≤ attempt) (hcurrent : ∀ value ∈ current, value.valid = true) :
    added.length ≤ BACKGROUND_JOB_PROGRESS_LIMIT ∧ ∀ value ∈ added, value.valid = true := by
  rw [appendEntry] at h
  split at h; · cases h
  rename_i hvalid
  split at h <;> cases h
  rename_i htime
  refine ⟨by rw [List.length_drop]; omega, fun value hmem ↦ ?_⟩
  rcases List.mem_append.1 (List.mem_of_mem_drop hmem) with hold | hnew
  · exact hcurrent value hold
  · obtain rfl := List.mem_singleton.1 hnew
    exact AppendBackgroundJobProgress.entry_valid (by simpa using hvalid)
      (by simpa [Option.isSome_iff_ne_none] using htime) hrevision hattempt

theorem ensures_appended (h : Fenced s) (input : AppendBackgroundJobProgress Lease) :
    Ensures (appendProgress options input) s fun saved t ↦ ∃ found, Held s input.toClaimedBackgroundJob found ∧
      Reported s t found saved := by
  refine ensures_lease (Ensures.seq (ensures_claimed _ s) fun found hheld ↦
    Ensures.seq (ensures_refuseIf _ _ _) fun _ _ ↦ Ensures.seq (ensures_get s) ?_)
  rintro store rfl
  refine Ensures.seq (ensures_answer _ _) fun added hadded ↦ ?_
  have hfound := h.sound found hheld.mem
  obtain ⟨howner, hexpires, hfailures⟩ := hfound.running hheld.running
  obtain ⟨hlength, hprogress⟩ := appendEntry_ok hadded (Nat.le_add_left _ _) (by omega) hfound.progress
  let saved := { found with
    revision := store.revision found.channelId + 1, progress := added, updatedAt := input.now }
  have hsound : saved.Sound :=
    ⟨fun _ ↦ ⟨howner, hexpires, hfailures⟩, fun hidle ↦ absurd hheld.running hidle, hfound.failures,
      hlength, hprogress⟩
  refine Ensures.of_run (a := saved) (t := (store.bumped found.channelId).saved saved) ?_ ?_
  · exact run_save hsound (store.bumped found.channelId)
  · exact ⟨found, hheld, changed_saved hheld.mem hheld.active hsound rfl rfl rfl rfl rfl, ⟨rfl, rfl, rfl, rfl⟩,
      rfl, rfl, rfl, rfl⟩

theorem ensures_appendProgress (h : Fenced s) (input : AppendBackgroundJobProgress Lease) :
    Ensures (appendProgress options input) s fun _ ↦ Moves s :=
  (ensures_appended h input).mono fun _ _ ⟨_, hheld, hreported⟩ ↦ hreported.moves h hheld.running

/-- An artifact is written by the worker that holds the job's claim, and by no other call. -/
def Settles (s : Store) (input : SettleBackgroundJob Lease) (t : Store) : Prop :=
  ∃ found, Held s input.toClaimedBackgroundJob found ∧ ∀ artifact ∈ t.artifacts,
    artifact ∈ s.artifacts ∨ artifact.jobId = found.id ∧ artifact.value = input.artifact

/-- The settled job leaves its claim, and its artifact is written. -/
theorem ensures_settled (h : Fenced s) (input : SettleBackgroundJob Lease) :
    Ensures (settle options input) s fun _ t ↦ (Accepted s t [] ∧ Settles s input t) ∧
      ∃ found saved, Held s input.toClaimedBackgroundJob found ∧ Changed s t found saved ∧ Alike found saved ∧
        saved.state = .completed ∧ saved.failures = found.failures := by
  refine ensures_lease (Ensures.seq (ensures_claimed _ s) fun found hheld ↦ Ensures.seq (ensures_get s) ?_)
  rintro store rfl
  refine Ensures.seq (ensures_refuseIf _ _ _) fun _ hnone ↦ ?_
  have hfound := h.sound found hheld.mem
  let saved := BackgroundJob.clearClaim { found with
    state := .completed, revision := store.revision found.channelId + 1, reason := none
    updatedAt := input.now }
  have hsound : saved.Sound :=
    ⟨fun hrunning ↦ (by cases hrunning), fun _ ↦ ⟨rfl, rfl, rfl⟩, hfound.failures, hfound.length,
      hfound.progress⟩
  let written : BackgroundJobArtifact :=
    { jobId := found.id, revision := store.revision found.channelId + 1, value := input.artifact
      createdAt := input.now }
  let left : Store := { (store.bumped found.channelId).saved saved with
    artifacts := Entries.put BackgroundJobArtifact.jobId store.artifacts written }
  have hput : left.artifacts = store.artifacts ++ [written] := by
    show Entries.put BackgroundJobArtifact.jobId store.artifacts written = _
    rw [Entries.put, if_neg (by rw [Bool.not_eq_true]; exact hnone)]
  have hchanged : Changed store left found saved := by
    obtain ⟨hmem, hlater, hfollows, hjobs⟩ :=
      changed_saved hheld.mem hheld.active hsound rfl rfl rfl rfl rfl
    exact ⟨hmem, ⟨hlater.revision, hlater.generation⟩,
      ⟨hfollows.id, hfollows.channelId, hfollows.targetKey, hfollows.targetGeneration, hfollows.active,
        hfollows.later, hfollows.revision, hfollows.sound⟩, hjobs⟩
  have hfenced : Fenced left := by
    refine h.mapped hchanged.jobs hchanged.later (hchanged.mapped h) (fun id ↦ ?_) ?_ <;> rw [hput]
    rotate_left
    · rw [List.map_append, List.nodup_append]
      refine ⟨h.once, List.nodup_singleton _, ?_⟩
      rintro id hid other hother rfl
      obtain ⟨artifact, hmem, rfl⟩ := List.mem_map.1 hid
      rw [List.any_eq_false] at hnone
      exact hnone artifact hmem (beq_iff_eq.2 (List.mem_singleton.1 hother))
    constructor
    · rintro ⟨artifact, hmem, rfl⟩
      rcases List.mem_append.1 hmem with hmem | hmem
      · exact .inl ⟨artifact, hmem, rfl⟩
      · rw [List.mem_singleton.1 hmem]
        refine .inr ⟨found, hheld.mem, rfl, by rw [hheld.running]; decide, ?_⟩
        rw [if_pos (show found.id = saved.id from rfl)]
        rfl
    · rintro (⟨artifact, hmem, rfl⟩ | ⟨old, hold, rfl, hbefore, hafter⟩)
      · exact ⟨artifact, List.mem_append_left _ hmem, rfl⟩
      · split at hafter
        · rename_i hid
          exact ⟨written, List.mem_append_right _ List.mem_cons_self, hid.symm⟩
        · exact absurd hafter hbefore
  obtain ⟨target, htarget, -⟩ := Option.map_eq_some_iff.1 hheld.generation
  have hdetail : Call.run (detail saved) left = (.ok {
      revision := left.revision saved.channelId, target, job := saved
      artifact := left.artifacts.find? (·.jobId == saved.id) }, left) := by
    rw [detail, Call.run_bind_of_ok (Call.run_get left)]
    have hlookup : left.targets.lookup (key saved.channelId saved.targetKey) = some target := htarget
    simp only [hlookup]
    rw [Call.run_bind_of_ok (a := saved) (t := left) (by rw [Call.run_answer, hsound.job])]
    rfl
  refine Ensures.of_run (t := left) hdetail ⟨⟨hchanged.accepted h hfenced rfl fun artifact hmem ↦ ?_,
    found, hheld, fun artifact hmem ↦ ?_⟩, found, saved, hheld, hchanged, ⟨rfl, rfl, rfl, rfl⟩, rfl, rfl⟩
  · rw [hput]; exact List.mem_append_left _ hmem
  · rw [hput] at hmem
    rcases List.mem_append.1 hmem with hmem | hmem
    · exact .inl hmem
    · rw [List.mem_singleton.1 hmem]; exact .inr ⟨rfl, rfl⟩

theorem ensures_settle (h : Fenced s) (input : SettleBackgroundJob Lease) :
    Ensures (settle options input) s fun _ t ↦ Accepted s t [] ∧ Settles s input t :=
  (ensures_settled h input).mono fun _ _ hsettled ↦ hsettled.1

end Chopin.Storage
