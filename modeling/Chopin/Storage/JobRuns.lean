import Chopin.Storage.JobClaims
import Chopin.Lib.Runs
import Mathlib.Data.List.Pairwise

/-!
# Runs of the job store

Any number of workers and members call the store in any order, with any clock, and some of their
calls are refused.  A `Ledger` is the store beside the claims that were answered so far; the theorem
`store_fenced` says what holds of it after every call, and what one more call may do.
-/

set_option autoImplicit false

open Script (Call Instant)
open Script.Call (Ensures)

namespace Chopin.Storage

variable {Lease : Type}

/-! ## Requests -/

inductive Request (Lease : Type)
  | enqueue (input : EnqueueBackgroundJob Lease)
  | claim (input : ClaimBackgroundJobs Lease)
  | renew (input : RenewBackgroundJob Lease)
  | requeue (input : RequeueBackgroundJob Lease)
  | appendProgress (input : AppendBackgroundJobProgress Lease)
  | settle (input : SettleBackgroundJob Lease)
  | pause (input : PauseBackgroundJob Lease)
  | resume (input : ResumeBackgroundJob Lease)
  | fail (input : FailBackgroundJob Lease)
  | cancel (input : CancelBackgroundJob Lease)
  | supersede (input : SupersedeBackgroundJob Lease)

/-- The ids of the jobs that a request claims. -/
def invoke (options : Options Lease) : Request Lease → Method (List String)
  | .enqueue input => do let _ ← enqueue options input; pure []
  | .claim input => do let claimed ← claim options input; pure (claimed.map BackgroundJob.id)
  | .renew input => do let _ ← renew options input; pure []
  | .requeue input => do let _ ← requeue options input; pure []
  | .appendProgress input => do let _ ← appendProgress options input; pure []
  | .settle input => do let _ ← settle options input; pure []
  | .pause input => do let _ ← pause options input; pure []
  | .resume input => do let _ ← resume options input; pure []
  | .fail input => do let _ ← fail options input; pure []
  | .cancel input => do let _ ← cancel options input; pure []
  | .supersede input => do let _ ← supersede options input; pure []

/-- What an accepted request may have written besides: only a settlement writes an artifact. -/
def Writes (s : Store) (t : Store) : Request Lease → Prop
  | .settle input => Settles s input t
  | _ => t.artifacts = s.artifacts

variable {s : Store}

variable {request : Request Lease}

/-- A request that claims nothing, and moves jobs as it is said of its call. -/
theorem ensures_moves {α : Type} {call : Method α}
    (hwrites : ∀ t, t.artifacts = s.artifacts → Writes s t request) (h : Ensures call s fun _ ↦ Moves s) :
    Ensures (do let _ ← call; pure []) s fun claims t ↦ Accepted s t claims ∧ Writes s t request :=
  Ensures.map (g := fun _ ↦ []) (h.mono fun _ t hmoves ↦ ⟨hmoves.1, hwrites t hmoves.2⟩)

/-- **Every request is refused and changes nothing, or is accepted.** -/
theorem ensures_invoke (options : Options Lease) (h : Fenced s) (request : Request Lease) :
    Ensures (invoke options request) s fun claims t ↦ Accepted s t claims ∧ Writes s t request := by
  cases request with
  | enqueue input => exact ensures_moves (fun _ h ↦ h) (ensures_enqueue h input)
  | claim input => exact Ensures.map (g := List.map BackgroundJob.id) (ensures_claim h input)
  | renew input => exact ensures_moves (fun _ h ↦ h) (ensures_renew h input)
  | requeue input => exact ensures_moves (fun _ h ↦ h) (ensures_requeue h input)
  | appendProgress input => exact ensures_moves (fun _ h ↦ h) (ensures_appendProgress h input)
  | settle input => exact Ensures.map (g := fun _ ↦ []) (ensures_settle h input)
  | pause input => exact ensures_moves (fun _ h ↦ h) (ensures_pause h input)
  | resume input => exact ensures_moves (fun _ h ↦ h) (ensures_resume h input)
  | fail input => exact ensures_moves (fun _ h ↦ h) (ensures_fail h input)
  | cancel input => exact ensures_moves (fun _ h ↦ h) (ensures_cancel h input)
  | supersede input => exact ensures_moves (fun _ h ↦ h) (ensures_supersede h input)

/-! ## The ledger -/

/-- A store, and the ids of the jobs claimed from it, once for each claim. -/
structure Ledger where
  store : Store
  claims : List String

def Ledger.empty : Ledger :=
  { store := { revisions := [], targets := [], jobs := [], idempotency := [], artifacts := [] }, claims := [] }

/-- A request, with what the adapter says of channels and leases at that time. -/
def Ledger.step (ledger : Ledger) (call : Options Lease × Request Lease) : Option Ledger :=
  match (invoke call.1 call.2).run ledger.store with
  | (.ok claims, store) => some { store, claims := ledger.claims ++ claims }
  | (.error _, store) => some { ledger with store }

/-- The store is fenced, and each job was attempted as often as it was claimed. -/
structure Counted (ledger : Ledger) : Prop where
  fenced : Fenced ledger.store
  attempts : ∀ job ∈ ledger.store.jobs, job.attempts = ledger.claims.count job.id
  known : ∀ id ∈ ledger.claims, ∃ job ∈ ledger.store.jobs, job.id = id

theorem Counted.empty : Counted Ledger.empty where
  fenced := ⟨.nil, by simp [Ledger.empty], by simp [Ledger.empty], by simp [Ledger.empty],
    by simp [Ledger.empty], by simp [Ledger.empty]⟩
  attempts := by simp [Ledger.empty]
  known := by simp [Ledger.empty]

variable {ledger : Ledger}

variable {claims : List String}

theorem Accepted.counted {store : Store} (h : Counted ledger)
    (haccepted : Accepted ledger.store store claims) :
    Counted { store, claims := ledger.claims ++ claims } where
  fenced := haccepted.fenced
  attempts new hnew := by
    rw [List.count_append]
    by_cases hbefore : ∃ old ∈ ledger.store.jobs, old.id = new.id
    · obtain ⟨old, hold, hid⟩ := hbefore
      obtain ⟨kept, hkept, hattempts, hkid, -⟩ := haccepted.kept old hold
      obtain rfl := haccepted.fenced.eq_of_id hkept hnew (hkid.trans hid)
      rw [hattempts, h.attempts old hold, hid]
    · obtain ⟨hattempts, -⟩ := (haccepted.added new hnew).resolve_left hbefore
      rw [hattempts, List.count_eq_zero_of_not_mem fun hid ↦ hbefore (h.known _ hid),
        List.count_eq_zero_of_not_mem fun hid ↦ hbefore (haccepted.claims _ hid)]
  known id hid := by
    have hold : ∃ old ∈ ledger.store.jobs, old.id = id := by
      rcases List.mem_append.1 hid with hid | hid
      · exact h.known id hid
      · exact haccepted.claims id hid
    obtain ⟨old, hold, rfl⟩ := hold
    obtain ⟨new, hnew, -, hnewid, -⟩ := haccepted.kept old hold
    exact ⟨new, hnew, hnewid⟩

theorem Counted.step {next : Ledger} {call : Options Lease × Request Lease} (h : Counted ledger)
    (hstep : ledger.step call = some next) : Counted next := by
  have hensures := ensures_invoke call.1 h.fenced call.2
  rw [Ledger.step] at hstep
  split at hstep <;> cases hstep
  · exact Accepted.counted h (hensures.answered ‹_›).1
  · rename_i hrun
    rw [hensures.refused hrun]
    exact h

/-! ## Every run -/

/-- What is said of a store after any run. -/
structure Kept (ledger : Ledger) : Prop where
  /-- Of each target one job counts at most, and it is the newest. -/
  newest : ∀ job ∈ ledger.store.jobs, ∀ other ∈ ledger.store.jobs, job.channelId = other.channelId →
    job.targetKey = other.targetKey → job.state.active = true →
      other = job ∨ other.targetGeneration < job.targetGeneration ∧ other.state.active = false
  /-- Jobs and their artifacts are kept under one id each. -/
  unique : ∀ job ∈ ledger.store.jobs, ∀ other ∈ ledger.store.jobs, job.id = other.id → job = other
  /-- The artifacts are those of the completed jobs. -/
  artifacts : ∀ id, (∃ artifact ∈ ledger.store.artifacts, artifact.jobId = id) ↔
    ∃ job ∈ ledger.store.jobs, job.id = id ∧ job.state = .completed
  /-- No job's artifact was written twice. -/
  once : (ledger.store.artifacts.map BackgroundJobArtifact.jobId).Nodup
  /-- A running job has its claim, and no other has. -/
  claim : ∀ job ∈ ledger.store.jobs,
    (job.state = .running ↔ job.claimOwner.isSome = true) ∧
      (job.state = .running ↔ job.claimExpiresAt.isSome = true) ∧
        (job.claimBinding.isSome = true → job.state = .running)
  attempts : ∀ job ∈ ledger.store.jobs, job.attempts = ledger.claims.count job.id
  failures : ∀ job ∈ ledger.store.jobs, job.failures ≤ job.attempts

/-- Of two jobs, one came first. -/
theorem Fenced.ordered_or {store : Store} (h : Fenced store) {left right : BackgroundJob}
    (hleft : left ∈ store.jobs) (hright : right ∈ store.jobs) (hne : left ≠ right) :
    Ordered left right ∨ Ordered right left := by
  have hsymm : Std.Symm fun left right ↦ Ordered left right ∨ Ordered right left := ⟨fun _ _ ↦ Or.symm⟩
  exact (h.ordered.imp Or.inl : store.jobs.Pairwise fun left right ↦
    Ordered left right ∨ Ordered right left).forall hleft hright hne

theorem Counted.kept (h : Counted ledger) : Kept ledger where
  newest job hjob other hother hchannel hkey hactive := by
    by_cases heq : other = job
    · exact .inl heq
    · rcases h.fenced.ordered_or hjob hother (Ne.symm heq) with hbefore | hafter
      · rw [(hbefore.target hchannel hkey).2] at hactive; cases hactive
      · exact .inr (hafter.target hchannel.symm hkey.symm)
  unique job hjob other hother hid := h.fenced.eq_of_id hjob hother hid
  artifacts := h.fenced.artifacts
  once := h.fenced.once
  claim job hjob := by
    have hsound := h.fenced.sound job hjob
    by_cases hrunning : job.state = .running
    · obtain ⟨howner, hexpires, -⟩ := hsound.running hrunning
      exact ⟨iff_of_true hrunning howner, iff_of_true hrunning hexpires, fun _ ↦ hrunning⟩
    · obtain ⟨howner, hbinding, hexpires⟩ := hsound.idle hrunning
      rw [howner, hbinding, hexpires]
      exact ⟨iff_of_false hrunning (by simp), iff_of_false hrunning (by simp), by simp⟩
  attempts := h.attempts
  failures job hjob := (h.fenced.sound job hjob).failures

/-- What one more request does to a store: refused, it changes nothing. -/
structure Advances (s : Store) (request : Request Lease) (t : Store) : Prop where
  /-- A job that does not count any more never changes. -/
  final : ∀ job ∈ s.jobs, job.state.active = false → job ∈ t.jobs
  /-- Every change carries a new, larger revision of its channel. -/
  revision : ∀ job ∈ t.jobs, job ∈ s.jobs ∨
    s.revision job.channelId < job.revision ∧ job.revision = t.revision job.channelId
  /-- No job is forgotten. -/
  jobs : ∀ job ∈ s.jobs, ∃ next ∈ t.jobs, next.id = job.id
  /-- An artifact stays as it was written. -/
  written : ∀ artifact ∈ s.artifacts, artifact ∈ t.artifacts
  /-- It is written by the worker that held the job's unexpired claim. -/
  writer : ∀ artifact ∈ t.artifacts, artifact ∈ s.artifacts ∨
    ∃ input found, request = .settle input ∧ Held s input.toClaimedBackgroundJob found ∧
      artifact.jobId = found.id ∧ artifact.value = input.artifact

theorem Accepted.advances {t : Store}
    (h : Accepted s t claims) (hwrites : Writes s t request) : Advances s request t where
  final job hjob hfinal := by
    obtain ⟨new, hnew, -, -, heq | hfollows⟩ := h.kept job hjob
    · exact heq ▸ hnew
    · rw [hfollows.active] at hfinal; cases hfinal
  revision job hjob := by
    rcases h.added job hjob with ⟨old, hold, hid⟩ | ⟨-, hless, hrevision⟩
    · obtain ⟨new, hnew, -, hnewid, hor⟩ := h.kept old hold
      obtain rfl := h.fenced.eq_of_id hnew hjob (hnewid.trans hid)
      rcases hor with heq | hfollows
      · exact .inl (heq ▸ hold)
      · refine .inr ?_
        rw [hfollows.channelId, hfollows.revision]
        exact ⟨hfollows.later, rfl⟩
    · exact .inr ⟨hless, hrevision⟩
  jobs job hjob := by
    obtain ⟨new, hnew, -, hid, -⟩ := h.kept job hjob
    exact ⟨new, hnew, hid⟩
  written := h.artifacts
  writer artifact hmem := by
    cases request with
    | settle input =>
      obtain ⟨found, hheld, hartifacts⟩ := hwrites
      exact (hartifacts artifact hmem).imp_right fun hwritten ↦ ⟨input, found, rfl, hheld, hwritten⟩
    | _ => exact .inl (hwrites ▸ hmem)

/-- **The durable job store is a fenced state machine.**  After every run of requests, by any number
of workers and with any clocks, the store is as `Kept` says; and of one more request, it is refused
and changes nothing, or it only `Advances` the store. -/
theorem store_fenced {calls : List (Options Lease × Request Lease)} {ledger : Ledger}
    (run : Runs Ledger.step .empty calls ledger) : Kept ledger ∧ ∀ (options : Options Lease) (request : Request Lease),
      (∀ e t, (invoke options request).run ledger.store = (.error e, t) → t = ledger.store) ∧
      ∀ claims t, (invoke options request).run ledger.store = (.ok claims, t) → Advances ledger.store request t := by
  have hcounted : Counted ledger := run.invariant Counted.empty fun _ _ _ h hstep ↦ h.step hstep
  refine ⟨hcounted.kept, fun options request ↦ ?_⟩
  have hensures := ensures_invoke options hcounted.fenced request
  refine ⟨fun e t hrun ↦ hensures.refused hrun, fun claims t hrun ↦ ?_⟩
  obtain ⟨haccepted, hwrites⟩ := hensures.answered hrun
  exact haccepted.advances hwrites

/-! ## A job's life -/

/-- A worker claims a job and settles it; one channel exists, and leases are not asked for. -/
def lifetime : List (Options Unit × Request Unit) :=
  let options : Options Unit :=
    { channelExists := (· == "c1"), channelActive := (· == "c1"), assertLease := fun _ ↦ .ok () }
  [(options, .enqueue {
      id := "j1", channelId := "c1", type := "research", version := 1, origin := .user, targetKey := "t1"
      idempotencyKey := "k1", fingerprint := "f1", input := .null, availableAt := some 0, now := some 0
      lease := () }),
    (options, .claim {
      channelId := none, claimOwner := "w1", count := 1, ttlMs := 1000, now := some 10, lease := () }),
    (options, .settle {
      channelId := "c1", jobId := "j1", claimOwner := "w1", claimGeneration := 1, now := some 20, lease := ()
      artifact := .str "done" })]

theorem store_fenced_sample : ∃ ledger, Runs Ledger.step .empty lifetime ledger ∧ Kept ledger ∧
    ledger.store.artifacts.any (·.jobId == "j1") = true := by
  have hrun : (lifetime.foldlM Ledger.step .empty).any
      (·.store.artifacts.any (·.jobId == "j1")) = true := by
    decide +kernel
  obtain ⟨ledger, hledger, hartifact⟩ := (Option.any_eq_true _ _).1 hrun
  have run := runs_iff_foldlM.2 hledger
  exact ⟨ledger, run, (store_fenced run).1, hartifact⟩

end Chopin.Storage
