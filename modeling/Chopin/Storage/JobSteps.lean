import Chopin.Storage.JobRuns

/-!
# What one call does to each job

The fences say which calls are accepted; here is what an accepted call makes of each job, which is what a
worker relies on while others use the store too.  A claim that was lost does not come back: while a job's claim
generation stays, it runs only if it ran before, with the failures it had.
-/

set_option autoImplicit false

open Script (Call Instant)
open Script.Call (Ensures)

namespace Chopin.Storage

variable {Lease : Type} {options : Options Lease} {s t : Store} {request : Request Lease}
variable {old new found saved : BackgroundJob}

/-- What a call makes of one job. -/
structure Steps (request : Request Lease) (old new : BackgroundJob) : Prop where
  id : new.id = old.id
  channelId : new.channelId = old.channelId
  type : new.type = old.type
  version : new.version = old.version
  claimGeneration : old.claimGeneration ≤ new.claimGeneration
  /-- A claim that was lost does not come back. -/
  claim : new.claimGeneration = old.claimGeneration → new.state = .running →
    old.state = .running ∧ new.claimOwner = old.claimOwner ∧ new.failures = old.failures
  /-- Only a job that fails for good, or that its worker gives back as failed, counts a failure. -/
  failures : new.failures = old.failures ∨ new.state = .failed ∨
    ∃ input, request = .requeue input ∧ input.countFailure = true ∧ old.id = input.jobId ∧
      old.heldBy input.toClaimedBackgroundJob = true ∧ new.failures = old.failures + 1

theorem Steps.refl (request : Request Lease) (job : BackgroundJob) : Steps request job job :=
  ⟨rfl, rfl, rfl, rfl, Nat.le_refl _, fun _ hrunning ↦ ⟨hrunning, rfl, rfl⟩, .inl rfl⟩

/-- What a call makes of the store. -/
structure Stepped (request : Request Lease) (s t : Store) : Prop where
  fenced : Fenced t
  steps : ∀ old ∈ s.jobs, ∃ new ∈ t.jobs, Steps request old new ∧
    (new = old ∨ old.state.active = true ∧ old.revision < new.revision)
  known : ∀ new ∈ t.jobs, (∃ old ∈ s.jobs, old.id = new.id) ∨ new.failures = 0

/-- A call is accepted, and steps each job. -/
theorem Accepted.stepped {claims : List String} (h : Accepted s t claims) (hfenced : Fenced s)
    (hsteps : ∀ old ∈ s.jobs, ∃ new ∈ t.jobs, Steps request old new) : Stepped request s t where
  fenced := h.fenced
  steps old hold := by
    obtain ⟨new, hnew, hstep⟩ := hsteps old hold
    obtain ⟨kept, hkept, _, hid, hchange⟩ := h.kept old hold
    obtain rfl := h.fenced.eq_of_id hkept hnew (hid.trans hstep.id.symm)
    refine ⟨kept, hnew, hstep, hchange.imp_right fun hfollows ↦ ⟨hfollows.active, ?_⟩⟩
    rw [hfollows.revision]
    exact Nat.lt_of_le_of_lt (hfenced.revision old hold) hfollows.later
  known new hnew := by
    refine (h.added new hnew).imp_right fun hadded ↦ ?_
    have hfailures := (h.fenced.sound new hnew).failures
    rw [hadded.1] at hfailures
    exact Nat.le_zero.1 hfailures

/-- A call that changes one job. -/
theorem Changed.steps (h : Changed s t found saved) (hfenced : Fenced s) (hstep : Steps request found saved) :
    ∀ old ∈ s.jobs, ∃ new ∈ t.jobs, Steps request old new := by
  intro old hold
  by_cases hid : old.id = found.id
  · obtain rfl := hfenced.eq_of_id hold h.mem hid
    exact ⟨saved, h.mem_after, hstep⟩
  · exact ⟨old, h.mem_iff.2 (.inr ⟨hold, hid⟩), .refl request old⟩

/-- A job that leaves its claim. -/
theorem Alike.left (h : Alike found saved) (hid : saved.id = found.id) (hchannel : saved.channelId = found.channelId)
    (hstate : saved.state ≠ .running) (hfailures : saved.failures = found.failures ∨ saved.state = .failed ∨
      ∃ input, request = .requeue input ∧ input.countFailure = true ∧ found.id = input.jobId ∧
        found.heldBy input.toClaimedBackgroundJob = true ∧ saved.failures = found.failures + 1) :
    Steps request found saved :=
  ⟨hid, hchannel, h.type, h.version, Nat.le_of_eq h.claimGeneration.symm, fun _ hrunning ↦ absurd hrunning hstate,
    hfailures⟩

theorem Transitioned.steps {state : BackgroundJobState} (h : Transitioned s t found saved state 0)
    (hstate : state ≠ .running) (hfenced : Fenced s) : ∀ old ∈ s.jobs, ∃ new ∈ t.jobs, Steps request old new :=
  h.changed.steps hfenced (h.alike.left h.changed.follows.id h.changed.follows.channelId
    (fun hrunning ↦ hstate (h.state.symm.trans hrunning)) (.inl h.failures))

theorem Reported.steps (h : Reported s t found saved) (hfenced : Fenced s) :
    ∀ old ∈ s.jobs, ∃ new ∈ t.jobs, Steps request old new :=
  h.changed.steps hfenced ⟨h.changed.follows.id, h.changed.follows.channelId, h.alike.type, h.alike.version,
    Nat.le_of_eq h.alike.claimGeneration.symm, fun _ hrunning ↦ ⟨h.state.symm.trans hrunning, h.claimOwner, h.failures⟩,
    .inl h.failures⟩

theorem Enqueues.steps {input : EnqueueBackgroundJob Lease} (h : Enqueues s input t) :
    ∀ old ∈ s.jobs, ∃ new ∈ t.jobs, Steps request old new := by
  intro old hold
  obtain hjobs | ⟨generation, revision, hjobs⟩ := h
  · exact ⟨old, hjobs ▸ hold, .refl request old⟩
  · refine ⟨_, hjobs ▸ List.mem_append_left _ (List.mem_map_of_mem hold), ?_⟩
    rw [BackgroundJob.supersededBy]
    split
    · exact ⟨rfl, rfl, rfl, rfl, Nat.le_refl _, fun _ hrunning ↦ (by cases hrunning), .inl rfl⟩
    · exact .refl request old

theorem Claims.steps {input : ClaimBackgroundJobs Lease} {claimed : List BackgroundJob} (h : Claims s input claimed t) :
    ∀ old ∈ s.jobs, ∃ new ∈ t.jobs, Steps request old new := by
  intro old hold
  obtain hkept | ⟨_, revision, hclaimed⟩ := h.kept old hold
  · exact ⟨old, hkept, .refl request old⟩
  · exact ⟨_, hclaimed, rfl, rfl, rfl, rfl, Nat.le_succ _, fun heq _ ↦ absurd heq (Nat.succ_ne_self _), .inl rfl⟩

/-- What the rule of one call says of the requests that make it. -/
theorem ensures_request {α : Type} {call : Method α} {Q : Store → Prop} (h : Ensures call s fun _ t ↦ Q t) :
    Ensures (do let _ ← call; pure ([] : List String)) s fun _ t ↦ Q t :=
  Ensures.map (g := fun _ ↦ []) h

theorem ensures_steps (options : Options Lease) (h : Fenced s) (request : Request Lease) :
    Ensures (invoke options request) s fun _ t ↦ ∀ old ∈ s.jobs, ∃ new ∈ t.jobs, Steps request old new := by
  cases request with
  | enqueue input => exact ensures_request ((ensures_enqueued h input).mono fun _ _ henqueued ↦ henqueued.2.steps)
  | claim input =>
    exact Ensures.map (g := List.map BackgroundJob.id) ((ensures_claims h input).mono fun _ _ hclaims ↦ hclaims.2.steps)
  | renew input =>
    exact ensures_request ((ensures_renewed h input).mono fun _ _ ⟨_, _, hreported⟩ ↦ hreported.steps h)
  | requeue input =>
    refine ensures_request ((ensures_requeued h input).mono fun _ _ ⟨found, hheld, hleft⟩ ↦ ?_)
    refine hleft.changed.steps h (hleft.alike.left hleft.changed.follows.id hleft.changed.follows.channelId
      (fun hrunning ↦ nomatch hleft.state.symm.trans hrunning) ?_)
    have hfailures := hleft.failures
    split at hfailures
    · rename_i hcount
      exact .inr (.inr ⟨input, rfl, hcount, hheld.id, hheld.held, hfailures⟩)
    · exact .inl hfailures
  | appendProgress input =>
    exact ensures_request ((ensures_appended h input).mono fun _ _ ⟨_, _, hreported⟩ ↦ hreported.steps h)
  | settle input =>
    refine ensures_request ((ensures_settled h input).mono fun _ _ ⟨_, found, saved, _, hchanged, halike, hstate, hfailures⟩ ↦ ?_)
    exact hchanged.steps h (halike.left hchanged.follows.id hchanged.follows.channelId
      (fun hrunning ↦ nomatch hstate.symm.trans hrunning) (.inl hfailures))
  | pause input =>
    exact ensures_request ((ensures_paused h input).mono fun _ _ ⟨_, _, _, hleft⟩ ↦ hleft.steps (by decide) h)
  | resume input =>
    exact ensures_request ((ensures_resumed h input).mono fun _ _ ⟨_, _, _, hleft⟩ ↦ hleft.steps (by decide) h)
  | fail input =>
    refine ensures_request ((ensures_failed h input).mono fun _ _ ⟨found, _, hleft⟩ ↦ ?_)
    exact hleft.changed.steps h (hleft.alike.left hleft.changed.follows.id hleft.changed.follows.channelId
      (fun hrunning ↦ nomatch hleft.state.symm.trans hrunning) (.inr (.inl hleft.state)))
  | cancel input =>
    exact ensures_request ((ensures_cancelled h input).mono fun _ _ ⟨_, _, _, hleft⟩ ↦ hleft.steps (by decide) h)
  | supersede input =>
    exact ensures_request ((ensures_superseded h input).mono fun _ _ ⟨_, _, _, hleft⟩ ↦ hleft.steps (by decide) h)

/-- **Every call steps the store.** -/
theorem ensures_stepped (options : Options Lease) (h : Fenced s) (request : Request Lease) :
    Ensures (invoke options request) s fun _ t ↦ Stepped request s t :=
  ((ensures_invoke options h request).and (ensures_steps options h request)).mono
    fun _ _ ⟨⟨haccepted, _⟩, hsteps⟩ ↦ haccepted.stepped h hsteps

end Chopin.Storage
