import Chopin.Storage.Jobs
import Chopin.Lib.Except
import Chopin.Lib.Lists

/-!
# What the job store keeps

The maps of the store agree with each other: a job is fenced by its target's generation and its
channel's revision, and artifacts belong to the completed jobs.  An accepted call changes jobs that
still counted, and gives each the new revision of its channel.
-/

set_option autoImplicit false

open Script (Call Instant text trim units)
open Script.Call (answer refuseIf Ensures)

namespace Chopin.Storage

/-! ## The invariant -/

/-- One job: its claim is there while it runs, each failure was an attempt, and its progress is
readable. -/
structure BackgroundJob.Sound (job : BackgroundJob) : Prop where
  running : job.state = .running →
    job.claimOwner.isSome = true ∧ job.claimExpiresAt.isSome = true ∧ job.failures < job.attempts
  idle : job.state ≠ .running →
    job.claimOwner = none ∧ job.claimBinding = none ∧ job.claimExpiresAt = none
  failures : job.failures ≤ job.attempts
  length : job.progress.length ≤ BACKGROUND_JOB_PROGRESS_LIMIT
  progress : ∀ value ∈ job.progress, value.valid = true

/-- Two jobs, the earlier one first: their ids differ, and a later job of the target is of a later
generation and has superseded the earlier one. -/
structure Ordered (earlier later : BackgroundJob) : Prop where
  id : earlier.id ≠ later.id
  target : earlier.channelId = later.channelId → earlier.targetKey = later.targetKey →
    earlier.targetGeneration < later.targetGeneration ∧ earlier.state.active = false

structure Fenced (store : Store) : Prop where
  ordered : store.jobs.Pairwise Ordered
  sound : ∀ job ∈ store.jobs, job.Sound
  revision : ∀ job ∈ store.jobs, job.revision ≤ store.revision job.channelId
  generation : ∀ job ∈ store.jobs, ∃ generation,
    store.generation job.channelId job.targetKey = some generation ∧ job.targetGeneration ≤ generation
  artifacts : ∀ id, (∃ artifact ∈ store.artifacts, artifact.jobId = id) ↔
    ∃ job ∈ store.jobs, job.id = id ∧ job.state = .completed
  once : (store.artifacts.map BackgroundJobArtifact.jobId).Nodup

/-- What a job is after a call that changed it. -/
structure Follows (s t : Store) (old new : BackgroundJob) : Prop where
  id : new.id = old.id
  channelId : new.channelId = old.channelId
  targetKey : new.targetKey = old.targetKey
  targetGeneration : new.targetGeneration = old.targetGeneration
  active : old.state.active = true
  later : s.revision old.channelId < t.revision old.channelId
  revision : new.revision = t.revision old.channelId
  sound : new.Sound

/-- The clocks of the store only advance. -/
structure Later (s t : Store) : Prop where
  revision : ∀ channelId, s.revision channelId ≤ t.revision channelId
  generation : ∀ channelId targetKey generation, s.generation channelId targetKey = some generation →
    ∃ later, t.generation channelId targetKey = some later ∧ generation ≤ later

theorem Fenced.eq_of_id {store : Store} (h : Fenced store) {left right : BackgroundJob}
    (hleft : left ∈ store.jobs) (hright : right ∈ store.jobs) (hid : left.id = right.id) : left = right := by
  have hnodup : (store.jobs.map BackgroundJob.id).Nodup :=
    List.pairwise_map.2 (h.ordered.imp Ordered.id)
  exact List.inj_on_of_nodup_map hnodup hleft hright hid

variable {s t : Store}

/-- The invariant is kept while jobs that still counted change. -/
theorem Fenced.mapped {f : BackgroundJob → BackgroundJob} (h : Fenced s) (hjobs : t.jobs = s.jobs.map f)
    (hlater : Later s t) (hf : ∀ old ∈ s.jobs, f old = old ∨ Follows s t old (f old))
    (hartifacts : ∀ id, (∃ artifact ∈ t.artifacts, artifact.jobId = id) ↔
      (∃ artifact ∈ s.artifacts, artifact.jobId = id) ∨
        ∃ old ∈ s.jobs, old.id = id ∧ old.state ≠ .completed ∧ (f old).state = .completed)
    (honce : (t.artifacts.map BackgroundJobArtifact.jobId).Nodup) : Fenced t := by
  have hsame : ∀ old ∈ s.jobs, (f old).id = old.id ∧ (f old).channelId = old.channelId ∧
      (f old).targetKey = old.targetKey ∧ (f old).targetGeneration = old.targetGeneration := by
    intro old hmem
    rcases hf old hmem with heq | hfollows
    · rw [heq]; exact ⟨rfl, rfl, rfl, rfl⟩
    · exact ⟨hfollows.id, hfollows.channelId, hfollows.targetKey, hfollows.targetGeneration⟩
  refine ⟨?_, ?_, ?_, ?_, fun id ↦ ?_, honce⟩
  · rw [hjobs, List.pairwise_map]
    refine h.ordered.imp_of_mem fun hearlier hlater horder ↦ ?_
    obtain ⟨hid, hchannel, hkey, hgeneration⟩ := hsame _ hearlier
    obtain ⟨hid', hchannel', hkey', hgeneration'⟩ := hsame _ hlater
    refine ⟨by rw [hid, hid']; exact horder.id, fun hchannels hkeys ↦ ?_⟩
    rw [hchannel, hchannel'] at hchannels
    rw [hkey, hkey'] at hkeys
    obtain ⟨hless, hinactive⟩ := horder.target hchannels hkeys
    refine ⟨by rw [hgeneration, hgeneration']; exact hless, ?_⟩
    rcases hf _ hearlier with heq | hfollows
    · rw [heq]; exact hinactive
    · rw [hfollows.active] at hinactive; cases hinactive
  all_goals
    try
      intro job hmem
      rw [hjobs] at hmem
      obtain ⟨old, hold, rfl⟩ := List.mem_map.1 hmem
  · rcases hf old hold with heq | hfollows
    · rw [heq]; exact h.sound old hold
    · exact hfollows.sound
  · rcases hf old hold with heq | hfollows
    · rw [heq]; exact (h.revision old hold).trans (hlater.revision _)
    · rw [hfollows.revision, hfollows.channelId]
  · obtain ⟨-, hchannel, hkey, hgeneration⟩ := hsame old hold
    obtain ⟨generation, hfound, hle⟩ := h.generation old hold
    obtain ⟨later, hthen, hless⟩ := hlater.generation _ _ _ hfound
    rw [hchannel, hkey, hgeneration]
    exact ⟨later, hthen, hle.trans hless⟩
  · rw [hartifacts, h.artifacts, hjobs]
    constructor
    · rintro (⟨old, hold, rfl, hcompleted⟩ | ⟨old, hold, rfl, -, hcompleted⟩)
      · refine ⟨f old, List.mem_map_of_mem hold, (hsame old hold).1, ?_⟩
        rcases hf old hold with heq | hfollows
        · rw [heq]; exact hcompleted
        · have hactive := hfollows.active
          rw [hcompleted] at hactive; cases hactive
      · exact ⟨f old, List.mem_map_of_mem hold, (hsame old hold).1, hcompleted⟩
    · rintro ⟨new, hnew, rfl, hcompleted⟩
      obtain ⟨old, hold, rfl⟩ := List.mem_map.1 hnew
      by_cases hbefore : old.state = .completed
      · exact .inl ⟨old, hold, (hsame old hold).1.symm, hbefore⟩
      · exact .inr ⟨old, hold, (hsame old hold).1.symm, hbefore, hcompleted⟩

/-- The invariant is kept when a job of its target's newest generation is added. -/
theorem Fenced.appended {new : BackgroundJob} (h : Fenced s) (hjobs : t.jobs = s.jobs ++ [new])
    (hrevisions : t.revisions = s.revisions) (htargets : t.targets = s.targets)
    (hartifacts : t.artifacts = s.artifacts) (hsound : new.Sound) (hpending : new.state = .pending)
    (hrevision : new.revision ≤ s.revision new.channelId)
    (hgeneration : s.generation new.channelId new.targetKey = some new.targetGeneration)
    (hordered : ∀ job ∈ s.jobs, Ordered job new) : Fenced t := by
  have hrevision' : t.revision = s.revision := by
    funext channelId; rw [Store.revision, Store.revision, hrevisions]
  have hgeneration' : t.generation = s.generation := by
    funext channelId targetKey; rw [Store.generation, Store.generation, htargets]
  have hmem : ∀ job ∈ t.jobs, job ∈ s.jobs ∨ job = new := by
    intro job hmem
    rw [hjobs, List.mem_append, List.mem_singleton] at hmem
    exact hmem
  refine ⟨?_, fun job hjob ↦ ?_, fun job hjob ↦ ?_, fun job hjob ↦ ?_, fun id ↦ ?_,
    hartifacts ▸ h.once⟩
  · rw [hjobs]
    exact List.pairwise_append.2 ⟨h.ordered, List.pairwise_singleton _ _, fun job hmem added hadded ↦ by
      rw [List.mem_singleton.1 hadded]; exact hordered job hmem⟩
  · rcases hmem job hjob with hold | rfl
    · exact h.sound job hold
    · exact hsound
  · rw [hrevision']
    rcases hmem job hjob with hold | rfl
    · exact h.revision job hold
    · exact hrevision
  · rw [hgeneration']
    rcases hmem job hjob with hold | rfl
    · exact h.generation job hold
    · exact ⟨_, hgeneration, le_refl _⟩
  · rw [hartifacts, h.artifacts, hjobs]
    constructor
    · rintro ⟨job, hmem, hid, hcompleted⟩
      exact ⟨job, List.mem_append_left _ hmem, hid, hcompleted⟩
    · rintro ⟨job, hmem, hid, hcompleted⟩
      rcases List.mem_append.1 hmem with hmem | hmem
      · exact ⟨job, hmem, hid, hcompleted⟩
      · rw [List.mem_singleton.1 hmem, hpending] at hcompleted; cases hcompleted

/-! ## Counting revisions -/

def Store.bumped (store : Store) (channelId : String) : Store :=
  { store with revisions := Entries.set store.revisions channelId (store.revision channelId + 1) }

theorem run_bump (channelId : String) (store : Store) :
    Call.run (bump channelId) store = (.ok (store.revision channelId + 1), store.bumped channelId) := rfl

theorem Store.revision_bumped (store : Store) (channelId other : String) :
    (store.bumped channelId).revision other =
      if other = channelId then store.revision channelId + 1 else store.revision other := by
  rw [Store.revision, Store.bumped, Entries.lookup_set]
  split <;> rfl

theorem Store.revision_bumped_self (store : Store) (channelId : String) :
    (store.bumped channelId).revision channelId = store.revision channelId + 1 := by
  rw [Store.revision_bumped, if_pos rfl]

theorem Store.later_bumped (store : Store) (channelId : String) : Later store (store.bumped channelId) where
  revision other := by
    rw [Store.revision_bumped]
    split
    · rename_i hsame; rw [hsame]; exact Nat.le_succ _
    · exact le_refl _
  generation _ _ generation h := ⟨generation, h, le_refl _⟩

/-! ## One job changes -/

/-- The effect of a call that changes one job. -/
structure Changed (s t : Store) (found saved : BackgroundJob) : Prop where
  mem : found ∈ s.jobs
  later : Later s t
  follows : Follows s t found saved
  jobs : t.jobs = s.jobs.map fun job ↦ if job.id = saved.id then saved else job

variable {found : BackgroundJob}

/-- Saving a job sets it where it stands. -/
theorem put_found {jobs : List BackgroundJob} {saved : BackgroundJob} (h : found ∈ jobs)
    (hid : saved.id = found.id) : Entries.put BackgroundJob.id jobs saved =
      jobs.map fun job ↦ if job.id = saved.id then saved else job := by
  rw [Entries.put, if_pos]
  exact List.any_eq_true.2 ⟨found, h, by simp [hid]⟩

theorem Changed.mapped {saved : BackgroundJob} (hchanged : Changed s t found saved)
    (h : Fenced s) : ∀ old ∈ s.jobs, (if old.id = saved.id then saved else old) = old ∨
      Follows s t old (if old.id = saved.id then saved else old) := by
  intro old hold
  split
  · rename_i hid
    rw [h.eq_of_id hold hchanged.mem (hid.trans hchanged.follows.id)]
    exact .inr hchanged.follows
  · exact .inl rfl

/-- A change that completes no job keeps the invariant. -/
theorem Changed.fenced {saved : BackgroundJob} (hchanged : Changed s t found saved)
    (h : Fenced s) (hstate : saved.state ≠ .completed) (hartifacts : t.artifacts = s.artifacts) : Fenced t := by
  refine h.mapped hchanged.jobs hchanged.later (hchanged.mapped h) (fun id ↦ ?_) (hartifacts ▸ h.once)
  rw [hartifacts]
  refine ⟨.inl, fun hor ↦ hor.resolve_right ?_⟩
  rintro ⟨old, -, -, hbefore, hafter⟩
  split at hafter
  · exact hstate hafter
  · exact hbefore hafter

/-- A job's progress is read as it is. -/
theorem BackgroundJob.Sound.job {value : BackgroundJob} (h : value.Sound) : Storage.job value = .ok value := by
  have hread : value.progress.mapM (entry value.id) = .ok value.progress :=
    Except.mapM_self fun value hmem ↦ by rw [entry, if_pos (h.progress value hmem)]
  rw [Storage.job, Storage.progress, if_neg (Nat.not_lt.2 h.length), hread]
  rfl

def Store.saved (store : Store) (saved : BackgroundJob) : Store :=
  { store with jobs := Entries.put BackgroundJob.id store.jobs saved }

/-- A job is saved and given back. -/
theorem run_save {saved : BackgroundJob} (h : saved.Sound) (store : Store) :
    Call.run (do saveJob saved; answer (job saved)) store = (.ok saved, store.saved saved) := by
  have hrun : Call.run (saveJob saved) store = (.ok ⟨⟩, store.saved saved) := rfl
  rw [Call.run_bind_of_ok hrun, Call.run_answer, h.job]

/-- Saving a job under the next revision of its channel changes that job. -/
theorem changed_saved {saved : BackgroundJob} (hmem : found ∈ s.jobs) (hactive : found.state.active = true)
    (hsound : saved.Sound) (hid : saved.id = found.id) (hchannel : saved.channelId = found.channelId)
    (hkey : saved.targetKey = found.targetKey) (hgeneration : saved.targetGeneration = found.targetGeneration)
    (hrevision : saved.revision = s.revision found.channelId + 1) :
    Changed s ((s.bumped found.channelId).saved saved) found saved where
  mem := hmem
  later := ⟨(s.later_bumped found.channelId).revision, (s.later_bumped found.channelId).generation⟩
  follows := {
    id := hid, channelId := hchannel, targetKey := hkey, targetGeneration := hgeneration
    active := hactive, sound := hsound
    later := (Nat.lt_succ_self _).trans_eq (s.revision_bumped_self found.channelId).symm
    revision := hrevision.trans (s.revision_bumped_self found.channelId).symm }
  jobs := put_found hmem hid

/-! ## The fences -/

theorem ensures_require (channelId jobId : String) (s : Store) : Ensures (require channelId jobId) s fun found t ↦
      t = s ∧ found ∈ s.jobs ∧ found.id = jobId ∧ found.channelId = channelId := by
  refine Ensures.seq (Script.Call.ensures_get s) ?_
  rintro _ rfl
  split
  · rename_i found hfound
    obtain ⟨hfound, hchannel⟩ := Option.filter_eq_some_iff.1 hfound
    exact ⟨rfl, List.mem_of_find?_eq_some hfound, by simpa using List.find?_some hfound,
      by simpa using hchannel⟩
  · exact Script.Call.ensures_throw _

/-- What a worker's report rests on: the job runs, and the worker holds its unexpired claim. -/
structure Held {Lease : Type} (s : Store) (input : ClaimedBackgroundJob Lease) (found : BackgroundJob) :
    Prop where
  mem : found ∈ s.jobs
  id : found.id = input.jobId
  channelId : found.channelId = input.channelId
  held : found.heldBy input = true
  generation : s.generation found.channelId found.targetKey = some found.targetGeneration

variable {Lease : Type}

theorem ensures_claimed (input : ClaimedBackgroundJob Lease) (s : Store) :
    Ensures (claimed input) s fun found t ↦ t = s ∧ Held s input found := by
  refine Ensures.seq (ensures_require input.channelId input.jobId s) ?_
  rintro found ⟨hmem, hid, hchannel⟩
  refine Ensures.seq (Script.Call.ensures_get s) ?_
  rintro _ rfl
  refine Ensures.seq (Script.Call.ensures_refuseIf _ _ _) fun _ hheld ↦ ?_
  simp only [Bool.or_eq_false_iff, Bool.not_eq_false', bne_eq_false_iff_eq] at hheld
  exact ⟨rfl, hmem, hid, hchannel, hheld.1, hheld.2⟩

theorem BackgroundJob.running_of_heldBy {input : ClaimedBackgroundJob Lease}
    (h : found.heldBy input = true) : found.state = .running := by
  simp only [BackgroundJob.heldBy, Bool.and_eq_true, beq_iff_eq] at h
  exact h.1.1.1

/-! ## What an accepted call does -/

/-- What an accepted call leaves of a store, in which it claimed jobs. -/
structure Accepted (s t : Store) (claims : List String) : Prop where
  fenced : Fenced t
  kept : ∀ old ∈ s.jobs, ∃ new ∈ t.jobs,
    new.attempts = old.attempts + claims.count old.id ∧ new.id = old.id ∧ (new = old ∨ Follows s t old new)
  added : ∀ new ∈ t.jobs, (∃ old ∈ s.jobs, old.id = new.id) ∨
    new.attempts = 0 ∧ s.revision new.channelId < new.revision ∧ new.revision = t.revision new.channelId
  artifacts : ∀ artifact ∈ s.artifacts, artifact ∈ t.artifacts
  claims : ∀ id ∈ claims, ∃ old ∈ s.jobs, old.id = id

theorem Accepted.still (h : Fenced s) : Accepted s s [] where
  fenced := h
  kept old hold := ⟨old, hold, rfl, rfl, .inl rfl⟩
  added new hnew := .inl ⟨new, hnew, rfl⟩
  artifacts _ hmem := hmem
  claims _ hmem := nomatch hmem

theorem Changed.accepted {saved : BackgroundJob} (hchanged : Changed s t found saved)
    (h : Fenced s) (ht : Fenced t) (hattempts : saved.attempts = found.attempts)
    (hartifacts : ∀ artifact ∈ s.artifacts, artifact ∈ t.artifacts) : Accepted s t [] where
  fenced := ht
  kept old hold := by
    refine ⟨_, hchanged.jobs ▸ List.mem_map_of_mem hold, ?_, ?_, hchanged.mapped h old hold⟩
    · split
      · rename_i hid
        rw [h.eq_of_id hold hchanged.mem (hid.trans hchanged.follows.id)]
        exact hattempts
      · rfl
    · split
      · exact (‹old.id = saved.id›).symm
      · rfl
  added new hnew := by
    rw [hchanged.jobs] at hnew
    obtain ⟨old, hold, rfl⟩ := List.mem_map.1 hnew
    refine .inl ⟨old, hold, ?_⟩
    split
    · assumption
    · rfl
  artifacts := hartifacts
  claims _ hmem := nomatch hmem

/-- An accepted call that claims nothing and completes nothing. -/
def Moves (s t : Store) : Prop := Accepted s t [] ∧ t.artifacts = s.artifacts

theorem Changed.moves {saved : BackgroundJob} (hchanged : Changed s t found saved)
    (h : Fenced s) (hstate : saved.state ≠ .completed) (hattempts : saved.attempts = found.attempts)
    (hartifacts : t.artifacts = s.artifacts) : Moves s t :=
  ⟨hchanged.accepted h (hchanged.fenced h hstate hartifacts) hattempts fun _ hmem ↦ hartifacts ▸ hmem,
    hartifacts⟩

/-! ## Transitions -/

/-- What every call but a claim keeps of a job that it changes. -/
structure Alike (found saved : BackgroundJob) : Prop where
  type : saved.type = found.type
  version : saved.version = found.version
  claimGeneration : saved.claimGeneration = found.claimGeneration
  attempts : saved.attempts = found.attempts

/-- A call that takes a job out of its claim, counting so many failures. -/
structure Transitioned (s t : Store) (found saved : BackgroundJob) (state : BackgroundJobState) (count : Nat) :
    Prop where
  changed : Changed s t found saved
  alike : Alike found saved
  state : saved.state = state
  failures : saved.failures = found.failures + count
  artifacts : t.artifacts = s.artifacts

/-- A call that leaves a job in its claim. -/
structure Reported (s t : Store) (found saved : BackgroundJob) : Prop where
  changed : Changed s t found saved
  alike : Alike found saved
  state : saved.state = found.state
  claimOwner : saved.claimOwner = found.claimOwner
  failures : saved.failures = found.failures
  artifacts : t.artifacts = s.artifacts

/-- The changed job is in the store, and every other is as it was. -/
theorem Changed.mem_after {saved : BackgroundJob} (h : Changed s t found saved) : saved ∈ t.jobs := by
  rw [h.jobs]
  exact List.mem_map.2 ⟨found, h.mem, if_pos h.follows.id.symm⟩

theorem Changed.mem_iff {saved : BackgroundJob} (h : Changed s t found saved) {job : BackgroundJob} :
    job ∈ t.jobs ↔ job = saved ∨ job ∈ s.jobs ∧ job.id ≠ found.id := by
  rw [h.jobs, List.mem_map]
  constructor
  · rintro ⟨old, hold, rfl⟩
    split
    · exact .inl rfl
    · rename_i hid
      exact .inr ⟨hold, fun heq ↦ hid (heq.trans h.follows.id.symm)⟩
  · rintro (rfl | ⟨hold, hid⟩)
    · exact ⟨found, h.mem, if_pos h.follows.id.symm⟩
    · exact ⟨job, hold, if_neg fun heq ↦ hid (heq.trans h.follows.id)⟩

variable {state : BackgroundJobState}

/-- A job leaves its claim, and completes nothing. -/
theorem Transitioned.moves {saved : BackgroundJob} {count : Nat}
    (h : Transitioned s t found saved state count) (hfenced : Fenced s) (hcompleted : state ≠ .completed) : Moves s t :=
  h.changed.moves hfenced (fun hstate ↦ hcompleted (h.state.symm.trans hstate)) h.alike.attempts h.artifacts

theorem Reported.moves {saved : BackgroundJob} (h : Reported s t found saved) (hfenced : Fenced s)
    (hrunning : found.state = .running) : Moves s t := by
  refine h.changed.moves hfenced (fun hstate ↦ ?_) h.alike.attempts h.artifacts
  exact nomatch (h.state.trans hrunning).symm.trans hstate

/-- A running job's attempt may have failed; any other job's has not. -/
theorem ensures_transitioned (h : Fenced s) (hmem : found ∈ s.jobs) (hactive : found.state.active = true) (hrun : state ≠ .running) (now : Instant) (reason : Option String)
    (availableAt : Instant) {countFailure : Bool} (hcount : countFailure = true → found.state = .running) :
    Ensures (claimTransition found state now reason availableAt countFailure) s fun saved t ↦
      Transitioned s t found saved state (if countFailure then 1 else 0) := by
  have hfound := h.sound found hmem
  let saved := BackgroundJob.clearClaim { found with
    state, revision := s.revision found.channelId + 1, availableAt
    failures := found.failures + (if countFailure then 1 else 0), reason, updatedAt := now }
  have hsound : saved.Sound := by
    refine ⟨fun hstate ↦ absurd hstate hrun, fun _ ↦ ⟨rfl, rfl, rfl⟩, ?_, hfound.length, hfound.progress⟩
    show found.failures + _ ≤ found.attempts
    split
    · exact (hfound.running (hcount ‹_›)).2.2
    · exact hfound.failures
  refine Ensures.of_run (a := saved) (t := (s.bumped found.channelId).saved saved) ?_ ?_
  · rw [claimTransition, Call.run_bind_of_ok (run_bump _ _)]
    exact run_save hsound _
  · exact ⟨changed_saved hmem hactive hsound rfl rfl rfl rfl rfl, ⟨rfl, rfl, rfl, rfl⟩, rfl, rfl, rfl⟩

end Chopin.Storage
