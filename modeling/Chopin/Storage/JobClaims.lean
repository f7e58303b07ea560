import Chopin.Storage.JobCalls

/-!
# Enqueueing and claiming jobs

The two calls that change several jobs at once.  An enqueued job supersedes the older jobs of its
target from outside their own transitions; a claim takes the due jobs of one or of every channel,
under one new revision for each channel.
-/

set_option autoImplicit false

open Script (Call Instant)
open Script.Call (answer refuseIf Ensures ensures_get ensures_answer ensures_refuseIf ensures_throw)

namespace Chopin.Storage

variable {Lease : Type} {options : Options Lease} {s : Store}

/-! ## Enqueueing -/

/-- The store in which the older jobs of a target are superseded. -/
def Store.superseded (store : Store) (input : EnqueueBackgroundJob Lease) : Store :=
  let generation := (store.generation input.channelId input.targetKey).getD 0 + 1
  { store.bumped input.channelId with
    targets := Entries.set store.targets (key input.channelId input.targetKey)
      { channelId := input.channelId, targetKey := input.targetKey, generation }
    jobs := store.jobs.map (·.supersededBy input generation (store.revision input.channelId + 1)) }

theorem Store.generation_superseded (store : Store) (input : EnqueueBackgroundJob Lease)
    (channelId targetKey : String) : (store.superseded input).generation channelId targetKey =
      if key channelId targetKey = key input.channelId input.targetKey then
        some ((store.generation input.channelId input.targetKey).getD 0 + 1)
      else store.generation channelId targetKey := by
  rw [Store.generation, Store.superseded, Entries.lookup_set]
  split <;> rfl

theorem Store.later_superseded (store : Store) (input : EnqueueBackgroundJob Lease) :
    Later store (store.superseded input) where
  revision := (store.later_bumped input.channelId).revision
  generation channelId targetKey generation h := by
    rw [Store.generation_superseded]
    split
    · rename_i hkey
      refine ⟨_, rfl, ?_⟩
      have hsame : store.generation input.channelId input.targetKey = some generation := by
        rw [Store.generation, ← hkey]; exact h
      rw [hsame]
      exact Nat.le_succ _
    · exact ⟨generation, h, le_refl _⟩

/-- An older job is as it was, or superseded. -/
theorem supersededBy_follows (h : Fenced s) (input : EnqueueBackgroundJob Lease) (generation : Nat)
    {old : BackgroundJob} (hold : old ∈ s.jobs) :
    let new := old.supersededBy input generation (s.revision input.channelId + 1)
    (new = old ∨ Follows s (s.superseded input) old new ∧ new.state = .superseded) ∧
      new.id = old.id ∧ new.attempts = old.attempts := by
  intro new
  by_cases hcond : (old.channelId == input.channelId && old.targetKey == input.targetKey
      && old.targetGeneration < generation && old.state.active) = true
  · have hnew : new = { old with
        state := .superseded, revision := s.revision input.channelId + 1, claimOwner := none
        claimBinding := none, claimExpiresAt := none, reason := none, updatedAt := input.now } :=
      if_pos hcond
    have hfound := h.sound old hold
    simp only [Bool.and_eq_true, beq_iff_eq] at hcond
    obtain ⟨⟨⟨hchannel, -⟩, -⟩, hactive⟩ := hcond
    rw [hnew]
    refine ⟨.inr ⟨?_, rfl⟩, rfl, rfl⟩
    have hrevision : (s.superseded input).revision old.channelId = s.revision old.channelId + 1 := by
      rw [hchannel]; exact s.revision_bumped_self input.channelId
    exact {
      id := rfl, channelId := rfl, targetKey := rfl, targetGeneration := rfl, active := hactive
      later := by rw [hrevision]; exact Nat.lt_succ_self _
      revision := by rw [hrevision, hchannel]
      sound := ⟨fun hrunning ↦ (by cases hrunning), fun _ ↦ ⟨rfl, rfl, rfl⟩, hfound.failures,
        hfound.length, hfound.progress⟩ }
  · have hnew : new = old := if_neg hcond
    rw [hnew]
    exact ⟨.inl rfl, rfl, rfl⟩

theorem Fenced.superseded (h : Fenced s) (input : EnqueueBackgroundJob Lease) : Fenced (s.superseded input) := by
  refine h.mapped rfl (s.later_superseded input) (fun old hold ↦ ?_) (fun id ↦ ?_) h.once
  · exact (supersededBy_follows h input _ hold).1.imp_right And.left
  · refine ⟨.inl, fun hor ↦ hor.resolve_right ?_⟩
    rintro ⟨old, hold, -, hbefore, hafter⟩
    rcases (supersededBy_follows h input _ hold).1 with heq | ⟨-, hstate⟩
    · rw [heq] at hafter; exact hbefore hafter
    · rw [hstate] at hafter; cases hafter

/-- Every older job leaves room for the new one. -/
theorem superseded_ordered (h : Fenced s) (input : EnqueueBackgroundJob Lease)
    (hnew : ∀ old ∈ s.jobs, old.id ≠ input.id) {job : BackgroundJob} (hmem : job ∈ (s.superseded input).jobs) :
    Ordered job (input.job ((s.generation input.channelId input.targetKey).getD 0 + 1)
      (s.revision input.channelId + 1)) := by
  obtain ⟨old, hold, rfl⟩ := List.mem_map.1 hmem
  obtain ⟨hor, hid, -⟩ := supersededBy_follows h input
    ((s.generation input.channelId input.targetKey).getD 0 + 1) hold
  refine ⟨hid ▸ hnew old hold, fun hchannel hkey ↦ ?_⟩
  obtain ⟨generation, hgeneration, hle⟩ := h.generation old hold
  rcases hor with heq | ⟨hfollows, hstate⟩
  · rw [heq] at hchannel hkey ⊢
    have hless : old.targetGeneration < (s.generation input.channelId input.targetKey).getD 0 + 1 := by
      rw [show input.channelId = old.channelId from hchannel.symm,
        show input.targetKey = old.targetKey from hkey.symm, hgeneration]
      exact Nat.lt_succ_of_le hle
    refine ⟨hless, ?_⟩
    by_contra hactive
    -- an active older job of the target would have been superseded
    have hsuperseded : (old.supersededBy input ((s.generation input.channelId input.targetKey).getD 0 + 1)
        (s.revision input.channelId + 1)).state = .superseded := by
      rw [BackgroundJob.supersededBy, if_pos]
      have hc : old.channelId = input.channelId := hchannel
      have hk : old.targetKey = input.targetKey := hkey
      simp [hc, hk, hless, Bool.not_eq_false _ ▸ hactive]
    rw [heq] at hsuperseded
    rw [hsuperseded] at hactive
    exact hactive rfl
  · have hless : old.targetGeneration < (s.generation input.channelId input.targetKey).getD 0 + 1 := by
      rw [show input.channelId = old.channelId from hchannel.symm.trans hfollows.channelId,
        show input.targetKey = old.targetKey from hkey.symm.trans hfollows.targetKey, hgeneration]
      exact Nat.lt_succ_of_le hle
    exact ⟨hfollows.targetGeneration ▸ hless, by rw [hstate]; rfl⟩

theorem EnqueueBackgroundJob.job_sound (input : EnqueueBackgroundJob Lease) (generation revision : Nat) :
    (input.job generation revision).Sound :=
  ⟨fun hrunning ↦ (by cases hrunning), fun _ ↦ ⟨rfl, rfl, rfl⟩, le_refl _, Nat.zero_le _,
    fun _ hmem ↦ nomatch hmem⟩

/-- A repeated request adds nothing; a new one supersedes the older jobs of its target. -/
def Enqueues (s : Store) (input : EnqueueBackgroundJob Lease) (t : Store) : Prop :=
  t.jobs = s.jobs ∨ ∃ generation revision, t.jobs = (s.superseded input).jobs ++ [input.job generation revision]

theorem ensures_addJob (h : Fenced s) (input : EnqueueBackgroundJob Lease) (hnew : ∀ old ∈ s.jobs, old.id ≠ input.id) :
    Ensures (addJob input) s fun _ t ↦ Moves s t ∧ Enqueues s input t := by
  let generation := (s.generation input.channelId input.targetKey).getD 0 + 1
  let saved := input.job generation (s.revision input.channelId + 1)
  have hsound : saved.Sound := input.job_sound _ _
  let left : Store := { (s.superseded input).saved saved with
    idempotency := Entries.set s.idempotency (key input.channelId input.idempotencyKey) saved.id }
  have hfresh : ∀ job ∈ (s.superseded input).jobs, job.id ≠ input.id := by
    intro job hmem
    obtain ⟨old, hold, rfl⟩ := List.mem_map.1 hmem
    rw [(supersededBy_follows h input _ hold).2.1]
    exact hnew old hold
  have hjobs : left.jobs = (s.superseded input).jobs ++ [saved] := by
    show Entries.put BackgroundJob.id (s.superseded input).jobs saved = _
    rw [Entries.put, if_neg]
    rw [List.any_eq_true]
    rintro ⟨job, hmem, hid⟩
    exact hfresh job hmem (beq_iff_eq.1 hid)
  have hrevision : (s.superseded input).revision input.channelId = s.revision input.channelId + 1 :=
    s.revision_bumped_self input.channelId
  have hfenced : Fenced left := by
    refine (h.superseded input).appended hjobs rfl rfl rfl hsound rfl (le_of_eq hrevision.symm) ?_
      fun job hmem ↦ superseded_ordered h input hnew hmem
    rw [Store.generation_superseded]
    exact if_pos rfl
  have hrun : Call.run (addJob input) s = (.ok (saved, false), left) := by
    have hanswer : Call.run (answer (job saved) : Method BackgroundJob) left = (.ok saved, left) := by
      rw [Call.run_answer, hsound.job]
    rw [addJob, Call.run_bind_of_ok (Call.run_get s), Call.run_bind_of_ok (run_bump _ _)]
    exact Call.run_bind_of_ok (f := fun given ↦ pure (given, false)) hanswer
  refine Ensures.of_run hrun ⟨⟨⟨hfenced, fun old hold ↦ ?_, fun new hmem ↦ ?_, fun _ hmem ↦ hmem,
    fun _ hmem ↦ by cases hmem⟩, rfl⟩, .inr ⟨_, _, hjobs⟩⟩
  · obtain ⟨hor, hid, hattempts⟩ := supersededBy_follows h input generation hold
    refine ⟨_, hjobs ▸ List.mem_append_left _ (List.mem_map_of_mem hold), hattempts, hid, ?_⟩
    refine hor.imp_right fun hboth ↦ ?_
    obtain ⟨hfollows, -⟩ := hboth
    exact ⟨hfollows.id, hfollows.channelId, hfollows.targetKey, hfollows.targetGeneration, hfollows.active,
      hfollows.later, hfollows.revision, hfollows.sound⟩
  · rw [hjobs] at hmem
    rcases List.mem_append.1 hmem with hmem | hmem
    · obtain ⟨old, hold, rfl⟩ := List.mem_map.1 hmem
      exact .inl ⟨old, hold, (supersededBy_follows h input generation hold).2.1.symm⟩
    · rw [List.mem_singleton.1 hmem]
      exact .inr ⟨rfl, Nat.lt_succ_self _, hrevision.symm⟩

theorem ensures_repeated (h : Fenced s) (input : EnqueueBackgroundJob Lease) (repeatedId : String) :
    Ensures (repeated input repeatedId) s fun _ t ↦ Moves s t ∧ Enqueues s input t := by
  refine Ensures.seq (ensures_get s) ?_
  rintro store rfl
  split
  · exact ensures_throw _
  · refine Ensures.seq (ensures_refuseIf _ _ _) fun _ _ ↦ Ensures.seq (ensures_answer _ _) fun _ _ ↦ ?_
    exact Ensures.of_run (Call.run_pure _ _) ⟨⟨Accepted.still h, rfl⟩, .inl rfl⟩

theorem ensures_enqueued (h : Fenced s) (input : EnqueueBackgroundJob Lease) :
    Ensures (enqueue options input) s fun _ t ↦ Moves s t ∧ Enqueues s input t := by
  have hwrite : Ensures (write options input.channelId input.lease) s fun _ t ↦ t = s ∧ True :=
    ensures_lease ((ensures_refuseIf _ _ _).mono fun _ _ hsame ↦ ⟨hsame.1, trivial⟩)
  refine Ensures.seq hwrite fun _ _ ↦ Ensures.seq (ensures_get s) ?_
  rintro store rfl
  split
  · exact ensures_repeated h input _
  · refine Ensures.seq (ensures_refuseIf _ _ _) fun _ _ ↦ Ensures.seq (ensures_get _) ?_
    rintro _ rfl
    refine Ensures.seq (ensures_refuseIf _ _ _) fun _ hnone ↦
      Ensures.seq (ensures_refuseIf _ _ _) fun _ _ ↦ ensures_addJob h input fun old hold hid ↦ ?_
    rw [List.any_eq_false] at hnone
    exact hnone old hold (beq_iff_eq.2 hid)

theorem ensures_enqueue (h : Fenced s) (input : EnqueueBackgroundJob Lease) :
    Ensures (enqueue options input) s fun _ ↦ Moves s :=
  (ensures_enqueued h input).mono fun _ _ ↦ And.left

/-! ## Claiming -/

/-- The revisions given out so far: one more than before for each channel, which stands at it. -/
structure Given (s t : Store) (revisions : List (String × Nat)) : Prop where
  jobs : t.jobs = s.jobs
  targets : t.targets = s.targets
  artifacts : t.artifacts = s.artifacts
  given : ∀ channelId revision, revisions.lookup channelId = some revision →
    revision = t.revision channelId ∧ s.revision channelId < revision
  others : ∀ channelId, revisions.lookup channelId = none → t.revision channelId = s.revision channelId

theorem Given.revision {t : Store} {revisions : List (String × Nat)} (h : Given s t revisions)
    (value : BackgroundJob) : ∃ more u, Call.run (claimRevision revisions value) t = (.ok more, u) ∧
      Given s u more ∧ (∀ channelId, (revisions.lookup channelId).isSome = true →
        (more.lookup channelId).isSome = true) ∧ (more.lookup value.channelId).isSome = true := by
  have hkept (revision : Nat) (channelId : String) (hsome : (revisions.lookup channelId).isSome = true) :
      ((Entries.set revisions value.channelId revision).lookup channelId).isSome = true := by
    rw [Entries.lookup_set]
    split
    · rfl
    · exact hsome
  rw [claimRevision]
  cases hfound : revisions.lookup value.channelId with
  | some revision =>
    have hsame (channelId : String) : (Entries.set revisions value.channelId revision).lookup channelId =
        revisions.lookup channelId := by
      rw [Entries.lookup_set]
      split
      · rename_i hchannel; rw [hchannel, hfound]
      · rfl
    refine ⟨_, t, rfl, ⟨h.jobs, h.targets, h.artifacts, ?_, ?_⟩, hkept revision, ?_⟩
    · intro channelId given hgiven
      exact h.given channelId given (hsame channelId ▸ hgiven)
    · intro channelId hnone
      exact h.others channelId (hsame channelId ▸ hnone)
    · rw [hsame, hfound]; rfl
  | none =>
    have hbefore := h.others _ hfound
    refine ⟨_, t.bumped value.channelId, rfl, ⟨h.jobs, h.targets, h.artifacts, ?_, ?_⟩, hkept _, ?_⟩
    · intro channelId given hgiven
      rw [Entries.lookup_set] at hgiven
      rw [Store.revision_bumped]
      split at hgiven
      · rename_i hchannel
        cases hgiven
        rw [if_pos hchannel, hchannel, hbefore]
        exact ⟨rfl, Nat.lt_succ_self _⟩
      · rename_i hchannel
        rw [if_neg hchannel]
        exact h.given channelId given hgiven
    · intro channelId hnone
      rw [Entries.lookup_set] at hnone
      rw [Store.revision_bumped]
      split at hnone
      · cases hnone
      · rename_i hchannel
        rw [if_neg hchannel]
        exact h.others channelId hnone
    · rw [Entries.lookup_set, if_pos rfl]; rfl

/-- Every job's channel is given a revision. -/
theorem Given.revisions : ∀ (eligible : List BackgroundJob) {t : Store} {revisions : List (String × Nat)},
    Given s t revisions → ∃ more u,
      Call.run (eligible.foldlM claimRevision revisions) t = (.ok more, u) ∧ Given s u more ∧
        (∀ channelId, (revisions.lookup channelId).isSome = true →
          (more.lookup channelId).isSome = true) ∧
        ∀ value ∈ eligible, (more.lookup value.channelId).isSome = true
  | [], t, revisions, h => ⟨revisions, t, rfl, h, fun _ h ↦ h, fun _ hmem ↦ nomatch hmem⟩
  | value :: rest, t, revisions, h => by
    obtain ⟨more, u, hrun, hgiven, hkept, hsome⟩ := h.revision value
    obtain ⟨all, v, hrest, hall, hkept', hsome'⟩ := Given.revisions rest hgiven
    refine ⟨all, v, ?_, hall, fun channelId h ↦ hkept' channelId (hkept channelId h), fun other hmem ↦ ?_⟩
    · rw [List.foldlM_cons, Call.run_bind_of_ok hrun, hrest]
    · rcases List.mem_cons.1 hmem with rfl | hmem
      · exact hkept' _ hsome
      · exact hsome' other hmem

/-- Saving changed jobs one after the other sets each where it stands. -/
theorem run_saveAll {g : BackgroundJob → BackgroundJob} (hid : ∀ value, (g value).id = value.id) :
    ∀ (values : List BackgroundJob) (t : Store), (values.map BackgroundJob.id).Nodup →
      (∀ value ∈ values, value ∈ t.jobs ∧ (g value).Sound) →
      (∀ value ∈ values, ∀ job ∈ t.jobs, job.id = value.id → job = value) →
      Call.run (values.mapM fun value ↦ (do saveJob (g value); answer (job (g value)) :
        Method BackgroundJob)) t = (.ok (values.map g), { t with
          jobs := t.jobs.map fun job ↦ if values.any (·.id == job.id) then g job else job })
  | [], t, _, _, _ => by simp
  | value :: rest, t, hnodup, hmem, hsame => by
    rw [List.map_cons, List.nodup_cons] at hnodup
    obtain ⟨hvalue, hsound⟩ := hmem value List.mem_cons_self
    have hput : (t.saved (g value)).jobs = t.jobs.map fun job ↦ if job.id = value.id then g value else job := by
      rw [← hid value]; exact put_found hvalue (hid value)
    have hapart : ∀ other ∈ rest, other.id ≠ value.id := fun other hother heq ↦
      hnodup.1 (heq ▸ List.mem_map_of_mem hother)
    have ih := run_saveAll hid rest (t.saved (g value)) hnodup.2 (fun other hother ↦ ?_)
      fun other hother job hjob heq ↦ ?_
    · rw [List.mapM_cons, Call.run_bind_of_ok (run_save hsound t), Call.run_bind_of_ok ih, Call.run_pure,
        List.map_cons]
      have hjobs : ((t.saved (g value)).jobs.map fun job ↦
          if rest.any (·.id == job.id) then g job else job) =
          t.jobs.map fun job ↦ if (value :: rest).any (·.id == job.id) then g job else job := by
        rw [hput, List.map_map]
        refine List.map_congr_left fun job hjob ↦ ?_
        by_cases hjobid : job.id = value.id
        · obtain rfl := hsame value List.mem_cons_self job hjob hjobid
          have hnone : rest.any (·.id == (g job).id) = false := by
            rw [List.any_eq_false, hid]
            exact fun other hother ↦ by simpa using hapart other hother
          simp only [Function.comp_apply, if_pos, hnone, List.any_cons, beq_self_eq_true, Bool.true_or,
            Bool.false_eq_true, if_false]
        · have hne : (value.id == job.id) = false := beq_eq_false_iff_ne.2 (Ne.symm hjobid)
          simp only [Function.comp_apply, if_neg hjobid, List.any_cons, hne, Bool.false_or]
      rw [hjobs]
      rfl
    · obtain ⟨hold, hother'⟩ := hmem other (List.mem_cons_of_mem _ hother)
      refine ⟨?_, hother'⟩
      rw [hput]
      exact List.mem_map.2 ⟨other, hold, if_neg (hapart other hother)⟩
    · rw [hput] at hjob
      obtain ⟨old, hold, rfl⟩ := List.mem_map.1 hjob
      by_cases hold' : old.id = value.id
      · rw [if_pos hold', hid] at heq
        exact absurd heq.symm (hapart other hother)
      · rw [if_neg hold'] at heq ⊢
        exact hsame other (List.mem_cons_of_mem _ hother) old hold heq

variable {value : BackgroundJob}

variable {input : ClaimBackgroundJobs Lease}

/-- A claimable job counts. -/
theorem claimable_active (h : s.claimable input value = true) : value.state.active = true := by
  simp only [Store.claimable, Bool.and_eq_true, Bool.or_eq_true, beq_iff_eq] at h
  rcases h.2 with ⟨hstate, -⟩ | ⟨hstate, -⟩ <;> rw [hstate] <;> rfl

theorem mem_eligible (h : value ∈ s.eligible input) : value ∈ s.jobs ∧ s.claimable input value = true :=
  List.mem_filter.1 ((List.mergeSort_perm _ _).subset (List.mem_of_mem_take h))

theorem nodup_eligible (h : Fenced s) (input : ClaimBackgroundJobs Lease) :
    ((s.eligible input).map BackgroundJob.id).Nodup := by
  have hnodup : (s.jobs.map BackgroundJob.id).Nodup := List.pairwise_map.2 (h.ordered.imp Ordered.id)
  have hfilter : ((s.jobs.filter (s.claimable input)).map BackgroundJob.id).Nodup :=
    hnodup.sublist (List.filter_sublist.map BackgroundJob.id)
  have hsort := ((List.mergeSort_perm (s.jobs.filter (s.claimable input)) BackgroundJob.before).map
    BackgroundJob.id).nodup_iff.2 hfilter
  exact hsort.sublist ((List.take_sublist _ _).map _)

/-- A claimed job runs, as one more attempt. -/
theorem BackgroundJob.Sound.claimedBy (h : value.Sound)
    (input : ClaimBackgroundJobs Lease) (revision : Nat) : (value.claimedBy input revision).Sound :=
  ⟨fun _ ↦ ⟨rfl, rfl, Nat.lt_succ_of_le h.failures⟩, fun hidle ↦ absurd rfl hidle,
    Nat.le_succ_of_le h.failures, h.length, h.progress⟩

/-- The jobs that a claim answers with, and what becomes of the jobs. -/
structure Claims (s : Store) (input : ClaimBackgroundJobs Lease) (claimed : List BackgroundJob) (t : Store) : Prop where
  length : claimed.length ≤ input.count.toNat
  nodup : (claimed.map BackgroundJob.id).Nodup
  mem : ∀ job ∈ claimed, job ∈ t.jobs ∧ ∃ old ∈ s.jobs, ∃ revision, job = old.claimedBy input revision
  kept : ∀ old ∈ s.jobs, old ∈ t.jobs ∨
    s.claimable input old = true ∧ ∃ revision, old.claimedBy input revision ∈ t.jobs
  known : ∀ new ∈ t.jobs, ∃ old ∈ s.jobs, old.id = new.id

theorem ensures_claims (h : Fenced s) (input : ClaimBackgroundJobs Lease) :
    Ensures (claim options input) s fun claimed t ↦
      (Accepted s t (claimed.map BackgroundJob.id) ∧ t.artifacts = s.artifacts) ∧ Claims s input claimed t := by
  refine ensures_lease (Ensures.seq (ensures_refuseIf _ _ _) fun _ _ ↦
    Ensures.seq (ensures_refuseIf _ _ _) fun _ _ ↦ Ensures.seq (ensures_refuseIf _ _ _) fun _ _ ↦
      Ensures.seq (ensures_refuseIf _ _ _) fun _ _ ↦ Ensures.seq (ensures_get s) ?_)
  rintro store rfl
  obtain ⟨revisions, u, hrun, hgiven, -, hsome⟩ := Given.revisions (store.eligible input)
    (show Given store store [] from ⟨rfl, rfl, rfl, fun _ _ hnone ↦ (by cases hnone), fun _ _ ↦ rfl⟩)
  let g (value : BackgroundJob) : BackgroundJob :=
    value.claimedBy input ((revisions.lookup value.channelId).getD 0)
  let left : Store := { u with
    jobs := u.jobs.map fun job ↦ if (store.eligible input).any (·.id == job.id) then g job else job }
  have hmem : ∀ value ∈ store.eligible input, value ∈ store.jobs := fun value hvalue ↦ (mem_eligible hvalue).1
  have hsaved : Call.run ((store.eligible input).mapM fun value ↦ (do
      saveJob (g value); answer (job (g value)) : Method BackgroundJob)) u =
        (.ok ((store.eligible input).map g), left) := by
    refine run_saveAll (g := g) (fun _ ↦ rfl) _ u (nodup_eligible h input) (fun value hvalue ↦ ⟨?_, ?_⟩)
      fun value hvalue job hjob heq ↦ ?_
    · rw [hgiven.jobs]; exact hmem value hvalue
    · exact (h.sound value (hmem value hvalue)).claimedBy input _
    · rw [hgiven.jobs] at hjob
      exact h.eq_of_id hjob (hmem value hvalue) heq
  have hlater : Later store left := by
    refine ⟨fun channelId ↦ ?_, fun channelId targetKey generation hgeneration ↦ ⟨generation, ?_, le_refl _⟩⟩
    · show store.revision channelId ≤ u.revision channelId
      cases hfound : revisions.lookup channelId with
      | none => rw [hgiven.others _ hfound]
      | some revision =>
        obtain ⟨rfl, hless⟩ := hgiven.given _ _ hfound
        exact hless.le
    · rw [Store.generation, show left.targets = store.targets from hgiven.targets]
      exact hgeneration
  have hany (old : BackgroundJob) (hold : old ∈ store.jobs) :
      (store.eligible input).any (·.id == old.id) = true ↔ old ∈ store.eligible input := by
    rw [List.any_eq_true]
    constructor
    · rintro ⟨value, hvalue, hid⟩
      rwa [← h.eq_of_id (hmem value hvalue) hold (beq_iff_eq.1 hid)]
    · exact fun hvalue ↦ ⟨old, hvalue, beq_self_eq_true _⟩
  have hfollows (old : BackgroundJob) (hold : old ∈ store.eligible input) : Follows store left old (g old) := by
    obtain ⟨revision, hrevision⟩ := Option.isSome_iff_exists.1 (hsome old hold)
    obtain ⟨hthen, hless⟩ := hgiven.given _ _ hrevision
    exact {
      id := rfl, channelId := rfl, targetKey := rfl, targetGeneration := rfl
      active := claimable_active (mem_eligible hold).2
      later := hthen ▸ hless
      revision := by
        show (revisions.lookup old.channelId).getD 0 = u.revision old.channelId
        rw [hrevision]; exact hthen
      sound := (h.sound old (hmem old hold)).claimedBy input _ }
  have hmapped (old : BackgroundJob) (hold : old ∈ store.jobs) :
      (if (store.eligible input).any (·.id == old.id) then g old else old) = old ∨
        Follows store left old (if (store.eligible input).any (·.id == old.id) then g old else old) := by
    by_cases hclaimed : old ∈ store.eligible input
    · rw [if_pos ((hany old hold).2 hclaimed)]
      exact .inr (hfollows old hclaimed)
    · rw [if_neg (mt (hany old hold).1 hclaimed)]
      exact .inl rfl
  have hjobs : left.jobs = store.jobs.map fun job ↦
      if (store.eligible input).any (·.id == job.id) then g job else job := by
    show u.jobs.map _ = _
    rw [hgiven.jobs]
  have hids : ((store.eligible input).map g).map BackgroundJob.id =
      (store.eligible input).map BackgroundJob.id := by
    rw [List.map_map]; rfl
  have hfenced : Fenced left := by
    refine h.mapped hjobs hlater hmapped (fun id ↦ ?_) (hgiven.artifacts.symm ▸ h.once)
    rw [show left.artifacts = store.artifacts from hgiven.artifacts]
    refine ⟨.inl, fun hor ↦ hor.resolve_right ?_⟩
    rintro ⟨old, -, -, hbefore, hafter⟩
    split at hafter
    · cases hafter
    · exact hbefore hafter
  have hsame (old : BackgroundJob) (hold : old ∈ store.eligible input) :
      (if (store.eligible input).any (·.id == old.id) then g old else old) = g old :=
    if_pos ((hany old (hmem old hold)).2 hold)
  have hclaims : Claims store input ((store.eligible input).map g) left := by
    refine ⟨?_, hids ▸ nodup_eligible h input, fun job hjob ↦ ?_, fun old hold ↦ ?_, fun new hnew ↦ ?_⟩
    · rw [List.length_map, Store.eligible, List.length_take]
      omega
    · obtain ⟨old, hold, rfl⟩ := List.mem_map.1 hjob
      refine ⟨?_, old, hmem old hold, _, rfl⟩
      rw [hjobs]
      exact List.mem_map.2 ⟨old, hmem old hold, hsame old hold⟩
    · by_cases hclaimed : old ∈ store.eligible input
      · refine .inr ⟨(mem_eligible hclaimed).2, (revisions.lookup old.channelId).getD 0, ?_⟩
        rw [hjobs]
        exact List.mem_map.2 ⟨old, hold, hsame old hclaimed⟩
      · refine .inl ?_
        rw [hjobs]
        exact List.mem_map.2 ⟨old, hold, if_neg (mt (hany old hold).1 hclaimed)⟩
    · rw [hjobs] at hnew
      obtain ⟨old, hold, rfl⟩ := List.mem_map.1 hnew
      refine ⟨old, hold, ?_⟩
      split <;> rfl
  refine Ensures.of_run (t := left) ((Call.run_bind_of_ok hrun).trans hsaved) ⟨⟨⟨hfenced, ?_, ?_, ?_, ?_⟩,
    hgiven.artifacts⟩, hclaims⟩
  · intro old hold
    refine ⟨_, hjobs ▸ List.mem_map_of_mem hold, ?_, ?_, hmapped old hold⟩
    · rw [hids]
      by_cases hclaimed : old ∈ store.eligible input
      · rw [if_pos ((hany old hold).2 hclaimed), List.count_eq_one_of_mem (nodup_eligible h input)
          (List.mem_map_of_mem hclaimed)]
        rfl
      · have hcount : old.id ∉ (store.eligible input).map BackgroundJob.id := by
          intro hid
          obtain ⟨value, hvalue, hid⟩ := List.mem_map.1 hid
          exact hclaimed (h.eq_of_id (hmem value hvalue) hold hid ▸ hvalue)
        rw [if_neg (mt (hany old hold).1 hclaimed), List.count_eq_zero_of_not_mem hcount, Nat.add_zero]
    · split <;> rfl
  · intro new hnew
    rw [hjobs] at hnew
    obtain ⟨old, hold, rfl⟩ := List.mem_map.1 hnew
    refine .inl ⟨old, hold, ?_⟩
    split <;> rfl
  · exact fun artifact hartifact ↦ hgiven.artifacts.symm ▸ hartifact
  · intro id hid
    rw [hids] at hid
    obtain ⟨value, hvalue, rfl⟩ := List.mem_map.1 hid
    exact ⟨value, hmem value hvalue, rfl⟩

theorem ensures_claim (h : Fenced s) (input : ClaimBackgroundJobs Lease) :
    Ensures (claim options input) s fun claimed t ↦
      Accepted s t (claimed.map BackgroundJob.id) ∧ t.artifacts = s.artifacts :=
  (ensures_claims h input).mono fun _ _ ↦ And.left

end Chopin.Storage
