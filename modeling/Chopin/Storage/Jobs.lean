import Chopin.Lib.Calls
import Chopin.Lib.Entries
import Chopin.Lib.Json
import Chopin.Lib.Text
import Chopin.Lib.Time

/-!
# The durable job store

The provider-independent state machine of background jobs (`storage/memory/jobs.ts`), with the
progress entries of `storage/progress.ts`.  Workers claim jobs for a time, and what they report is
fenced by the claim; a channel's members pause, resume and cancel by the job's revision; a newer job
of a target supersedes the older ones.

A method is a `Call` on the store: it may write before it throws.  Numbers that only count are
natural numbers, and dates are `Instant`s, invalid ones included.
-/

set_option autoImplicit false

open Script (Call Instant text trim units codeUnits)
open Script.Call (answer refuseIf)

namespace Chopin.Storage

/-! ## Failures -/

inductive StorageFailure
  | conflict
  | corrupt
  | missing
  | unavailable
  deriving DecidableEq

structure StorageError where
  failure : StorageFailure
  message : String
  deriving DecidableEq

def conflict (message : String) : StorageError := { failure := .conflict, message }
def corrupt (message : String) : StorageError := { failure := .corrupt, message }
def missing (message : String) : StorageError := { failure := .missing, message }

/-! ## Progress -/

def BACKGROUND_JOB_PROGRESS_LIMIT : Nat := 32
def BACKGROUND_JOB_PROGRESS_LABEL_LIMIT : Nat := 160

inductive BackgroundJobProgressState
  | started
  | completed
  | interrupted
  deriving DecidableEq

structure BackgroundJobProgress where
  revision : Nat
  attempt : Nat
  stage : String
  label : String
  state : BackgroundJobProgressState
  reason : Option String
  createdAt : Instant
  deriving DecidableEq

/-- `/^[a-z][a-z0-9-]{0,63}$/`, of stages and of reasons. -/
def slug (value : String) : Bool :=
  let lower (c : Char) : Bool := 'a' ≤ c && c ≤ 'z'
  match value.toList with
  | first :: rest =>
    lower first && rest.length ≤ 63 && rest.all fun c ↦ lower c || ('0' ≤ c && c ≤ '9') || c == '-'
  | [] => false

/-- The values of an entry that is read. -/
def BackgroundJobProgress.valid (value : BackgroundJobProgress) : Bool :=
  1 ≤ value.revision && 1 ≤ value.attempt && slug value.stage && text value.label
    && units value.label ≤ BACKGROUND_JOB_PROGRESS_LABEL_LIMIT
    && (if value.state == .interrupted then value.reason.any slug else value.reason.isNone)
    && value.createdAt.isSome

def entry (jobId : String) (value : BackgroundJobProgress) : Except StorageError BackgroundJobProgress :=
  if value.valid then .ok value
  else .error (corrupt ("background job " ++ jobId ++ " has invalid progress values"))

def progress (value : List BackgroundJobProgress) (jobId : String) :
    Except StorageError (List BackgroundJobProgress) :=
  if BACKGROUND_JOB_PROGRESS_LIMIT < value.length then
    .error (corrupt ("background job " ++ jobId ++ " has invalid progress length"))
  else value.mapM (entry jobId)

/-! ## The records -/

inductive BackgroundJobOrigin
  | scheduler
  | planner
  | user
  deriving DecidableEq

inductive BackgroundJobState
  | pending
  | paused
  | running
  | completed
  | failed
  | cancelled
  | superseded
  deriving DecidableEq

structure BackgroundJob where
  id : String
  channelId : String
  type : String
  version : Int
  origin : BackgroundJobOrigin
  targetKey : String
  targetGeneration : Nat
  idempotencyKey : String
  fingerprint : String
  input : Json
  state : BackgroundJobState
  revision : Nat
  attempts : Nat
  failures : Nat
  claimGeneration : Nat
  claimOwner : Option String
  claimBinding : Option Json
  claimExpiresAt : Option Instant
  availableAt : Instant
  reason : Option String
  progress : List BackgroundJobProgress
  createdAt : Instant
  updatedAt : Instant

structure BackgroundJobTarget where
  channelId : String
  targetKey : String
  generation : Nat

structure BackgroundJobArtifact where
  jobId : String
  revision : Nat
  value : Json
  createdAt : Instant

structure BackgroundJobDetail where
  revision : Nat
  target : BackgroundJobTarget
  job : BackgroundJob
  artifact : Option BackgroundJobArtifact

/-- The maps; jobs and artifacts are kept under the job's id, in insertion order. -/
structure Store where
  revisions : List (String × Nat)
  targets : List (String × BackgroundJobTarget)
  jobs : List BackgroundJob
  idempotency : List (String × String)
  artifacts : List BackgroundJobArtifact

/-- What the adapter around the store decides: which channels there are, and who holds the lease. -/
structure Options (Lease : Type) where
  channelExists : String → Bool
  channelActive : String → Bool
  assertLease : Lease → Except StorageError Unit

/-- The copy of a job that a caller is given, whose progress is read again. -/
def job (value : BackgroundJob) : Except StorageError BackgroundJob := do
  let progress ← progress value.progress value.id
  pure { value with progress }

def BackgroundJobState.active (state : BackgroundJobState) : Bool :=
  state == .pending || state == .paused || state == .running

def key (channelId value : String) : String := channelId ++ "\u0000" ++ value

def Store.revision (store : Store) (channelId : String) : Nat :=
  (store.revisions.lookup channelId).getD 0

/-- The generation of a job's target. -/
def Store.generation (store : Store) (channelId targetKey : String) : Option Nat :=
  (store.targets.lookup (key channelId targetKey)).map (·.generation)

/-- A method of the store. -/
abbrev Method (α : Type) := Call Store StorageError α

variable {Lease : Type}

/-! ## The fences -/

def bump (channelId : String) : Method Nat := do
  let revision := (← get).revision channelId + 1
  modify fun store ↦ { store with revisions := Entries.set store.revisions channelId revision }
  pure revision

def saveJob (saved : BackgroundJob) : Method Unit :=
  modify fun store ↦ { store with jobs := Entries.put BackgroundJob.id store.jobs saved }

def require (channelId jobId : String) : Method BackgroundJob := do
  match ((← get).jobs.find? (·.id == jobId)).filter (·.channelId == channelId) with
  | some found => pure found
  | none => throw (missing ("background job " ++ jobId ++ " does not exist"))

structure ClaimedBackgroundJob (Lease : Type) where
  channelId : String
  jobId : String
  claimOwner : String
  claimGeneration : Nat
  now : Instant
  lease : Lease

/-- The worker holds the job's claim, which has not expired. -/
def BackgroundJob.heldBy (found : BackgroundJob) (input : ClaimedBackgroundJob Lease) : Bool :=
  found.state == .running && found.claimOwner == some input.claimOwner
    && found.claimGeneration == input.claimGeneration
    && found.claimExpiresAt.any fun expiresAt ↦ !Instant.le expiresAt input.now

def claimed (input : ClaimedBackgroundJob Lease) : Method BackgroundJob := do
  let found ← require input.channelId input.jobId
  let target := (← get).generation found.channelId found.targetKey
  refuseIf (!found.heldBy input || target != some found.targetGeneration)
    (conflict ("background job " ++ found.id ++ " claim is no longer active"))
  pure found

def controlled (channelId jobId : String) (expectedRevision : Option Nat)
    (allowed : List BackgroundJobState) : Method BackgroundJob := do
  let found ← require channelId jobId
  let target := (← get).generation found.channelId found.targetKey
  refuseIf (expectedRevision.any (found.revision != ·) || !allowed.contains found.state
      || target != some found.targetGeneration)
    (conflict ("background job " ++ found.id ++ " changed"))
  pure found

def BackgroundJob.clearClaim (value : BackgroundJob) : BackgroundJob :=
  { value with claimOwner := none, claimBinding := none, claimExpiresAt := none }

def claimTransition (found : BackgroundJob) (state : BackgroundJobState) (now : Instant)
    (reason : Option String) (availableAt : Instant) (countFailure : Bool) : Method BackgroundJob := do
  let revision ← bump found.channelId
  let saved := BackgroundJob.clearClaim { found with
    state, revision, availableAt, failures := found.failures + (if countFailure then 1 else 0), reason
    updatedAt := now }
  saveJob saved
  answer (job saved)

def controlTransition (found : BackgroundJob) (state : BackgroundJobState) (now : Instant)
    (reason : Option String) (availableAt : Instant) : Method BackgroundJob :=
  claimTransition found state now reason availableAt false

/-! ## Enqueueing -/

structure EnqueueBackgroundJob (Lease : Type) where
  id : String
  channelId : String
  type : String
  version : Int
  origin : BackgroundJobOrigin
  targetKey : String
  idempotencyKey : String
  fingerprint : String
  input : Json
  availableAt : Instant
  now : Instant
  lease : Lease

def write (options : Options Lease) (channelId : String) (held : Lease) : Method Unit := do
  answer (options.assertLease held)
  refuseIf (!options.channelExists channelId) (missing ("channel " ++ channelId ++ " does not exist"))

/-- An older job of the target that still counted. -/
def BackgroundJob.supersededBy (previous : BackgroundJob) (input : EnqueueBackgroundJob Lease)
    (targetGeneration revision : Nat) : BackgroundJob :=
  if previous.channelId == input.channelId && previous.targetKey == input.targetKey
      && previous.targetGeneration < targetGeneration && previous.state.active then
    { previous with
      state := .superseded, revision, claimOwner := none, claimBinding := none, claimExpiresAt := none
      reason := none, updatedAt := input.now }
  else previous

def EnqueueBackgroundJob.job (input : EnqueueBackgroundJob Lease) (targetGeneration revision : Nat) :
    BackgroundJob :=
  { id := input.id, channelId := input.channelId, type := input.type, version := input.version
    origin := input.origin, targetKey := input.targetKey, targetGeneration
    idempotencyKey := input.idempotencyKey, fingerprint := input.fingerprint, input := input.input
    state := .pending, revision, attempts := 0, failures := 0, claimGeneration := 0, claimOwner := none
    claimBinding := none, claimExpiresAt := none, availableAt := input.availableAt, reason := none
    progress := [], createdAt := input.now, updatedAt := input.now }

/-- An idempotency key that was used before answers with its job. -/
def repeated (input : EnqueueBackgroundJob Lease) (repeatedId : String) :
    Method (BackgroundJob × Bool) := do
  match (← get).jobs.find? (·.id == repeatedId) with
  | none => throw (corrupt "TypeError")
  | some repeated =>
    refuseIf (repeated.fingerprint != input.fingerprint)
      (conflict ("background job idempotency key " ++ input.idempotencyKey ++ " was reused"))
    return (← answer (job repeated), true)

/-- The target's next generation, in which every older job is superseded. -/
def addJob (input : EnqueueBackgroundJob Lease) : Method (BackgroundJob × Bool) := do
  let previousTarget := (← get).generation input.channelId input.targetKey
  let targetGeneration := previousTarget.getD 0 + 1
  let revision ← bump input.channelId
  modify fun store ↦ { store with
    targets := Entries.set store.targets (key input.channelId input.targetKey)
      { channelId := input.channelId, targetKey := input.targetKey, generation := targetGeneration }
    jobs := store.jobs.map (·.supersededBy input targetGeneration revision) }
  let saved := input.job targetGeneration revision
  saveJob saved
  modify fun store ↦ { store with
    idempotency := Entries.set store.idempotency (key input.channelId input.idempotencyKey) saved.id }
  return (← answer (job saved), false)

def enqueue (options : Options Lease) (input : EnqueueBackgroundJob Lease) :
    Method (BackgroundJob × Bool) := do
  write options input.channelId input.lease
  match (← get).idempotency.lookup (key input.channelId input.idempotencyKey) with
  | some repeatedId => repeated input repeatedId
  | none =>
    refuseIf (input.id == "" || input.type == "" || input.targetKey == "" || input.idempotencyKey == ""
        || input.fingerprint == "")
      (conflict "background job durable identifiers must not be empty")
    refuseIf ((← get).jobs.any (·.id == input.id))
      (conflict ("background job " ++ input.id ++ " already exists"))
    refuseIf (input.version < 1 || Json.maxSafe < input.version)
      (conflict "background job version must be a positive integer")
    addJob input

/-! ## Claiming -/

structure ClaimBackgroundJobs (Lease : Type) where
  channelId : Option String
  claimOwner : String
  count : Int
  ttlMs : Int
  now : Instant
  lease : Lease

/-- `!Number.isSafeInteger(value) || value < 1` -/
def notPositive (value : Int) : Bool := value < 1 || Json.maxSafe < value

/-- The job can be claimed: it is its target's newest, and due. -/
def Store.claimable (store : Store) (input : ClaimBackgroundJobs Lease) (value : BackgroundJob) : Bool :=
  input.channelId.all (value.channelId == ·)
    && store.generation value.channelId value.targetKey == some value.targetGeneration
    && (value.state == .pending && Instant.le value.availableAt input.now
      || value.state == .running && value.claimExpiresAt.any (Instant.le · input.now))

def BackgroundJob.due (value : BackgroundJob) : Instant :=
  if value.state == .pending then value.availableAt else value.claimExpiresAt.getD none

/-- By the time they are due, then created, then by id. -/
def BackgroundJob.before (left right : BackgroundJob) : Bool :=
  ((Instant.order left.due right.due).then (Instant.order left.createdAt right.createdAt)).then
    (compare (codeUnits left.id) (codeUnits right.id)) != .gt

def Store.eligible (store : Store) (input : ClaimBackgroundJobs Lease) : List BackgroundJob :=
  ((store.jobs.filter (store.claimable input)).mergeSort BackgroundJob.before).take
    (min 100 input.count.toNat)

/-- The revision of a job's channel: given before, or a new one. -/
def claimRevision (revisions : List (String × Nat)) (value : BackgroundJob) :
    Method (List (String × Nat)) := do
  match revisions.lookup value.channelId with
  | some revision => pure (Entries.set revisions value.channelId revision)
  | none => return Entries.set revisions value.channelId (← bump value.channelId)

def BackgroundJob.claimedBy (value : BackgroundJob) (input : ClaimBackgroundJobs Lease) (revision : Nat) :
    BackgroundJob :=
  { value with
    state := .running, revision, attempts := value.attempts + 1
    claimGeneration := value.claimGeneration + 1, claimOwner := some input.claimOwner
    claimBinding := none, claimExpiresAt := some (Instant.plus input.now input.ttlMs), reason := none
    updatedAt := input.now }

def claim (options : Options Lease) (input : ClaimBackgroundJobs Lease) : Method (List BackgroundJob) := do
  answer (options.assertLease input.lease)
  refuseIf (input.channelId == some "") (conflict "background job claim channel must not be empty")
  refuseIf (input.claimOwner == "") (conflict "background job claim owner must not be empty")
  refuseIf (notPositive input.count) (conflict "background job claim count must be a positive integer")
  refuseIf (notPositive input.ttlMs) (conflict "background job claim ttl must be a positive integer")
  let eligible := (← get).eligible input
  let revisions ← eligible.foldlM claimRevision []
  eligible.mapM fun value ↦ do
    let saved := value.claimedBy input ((revisions.lookup value.channelId).getD 0)
    saveJob saved
    answer (job saved)

/-! ## A worker's reports -/

structure RenewBackgroundJob (Lease : Type) extends ClaimedBackgroundJob Lease where
  expectedRevision : Nat
  ttlMs : Int
  claimBinding : Option Json

def renew (options : Options Lease) (input : RenewBackgroundJob Lease) : Method BackgroundJob := do
  answer (options.assertLease input.lease)
  refuseIf (notPositive input.ttlMs) (conflict "background job claim ttl must be a positive integer")
  let found ← claimed input.toClaimedBackgroundJob
  let expiresAt := Instant.plus input.now input.ttlMs
  refuseIf (found.revision != input.expectedRevision || Instant.lt input.now found.updatedAt
      || found.claimExpiresAt.any (Instant.le expiresAt ·))
    (conflict ("background job " ++ found.id ++ " changed before its claim renewal"))
  let saved := { found with
    revision := ← bump found.channelId, claimBinding := input.claimBinding
    claimExpiresAt := some expiresAt, updatedAt := input.now }
  saveJob saved
  answer (job saved)

structure RequeueBackgroundJob (Lease : Type) extends ClaimedBackgroundJob Lease where
  availableAt : Instant
  reason : String
  countFailure : Bool

def requeue (options : Options Lease) (input : RequeueBackgroundJob Lease) : Method BackgroundJob := do
  answer (options.assertLease input.lease)
  let found ← claimed input.toClaimedBackgroundJob
  claimTransition found .pending input.now (some input.reason) input.availableAt input.countFailure

structure AppendBackgroundJobProgress (Lease : Type) extends ClaimedBackgroundJob Lease where
  stage : String
  label : String
  state : BackgroundJobProgressState
  reason : Option String

/-- A new entry's stage, label, state and reason do not go together. -/
def AppendBackgroundJobProgress.invalid (input : AppendBackgroundJobProgress Lease) : Bool :=
  !slug input.stage || trim input.label == ""
    || BACKGROUND_JOB_PROGRESS_LABEL_LIMIT < units (trim input.label)
    || (if input.state == .interrupted then input.reason.all (· == "") else input.reason.isSome)
    || input.reason.any (!slug ·)

def AppendBackgroundJobProgress.entry (input : AppendBackgroundJobProgress Lease) (revision attempt : Nat) :
    BackgroundJobProgress :=
  { revision, attempt, stage := input.stage, label := trim input.label, state := input.state
    reason := input.reason.filter (· != ""), createdAt := input.now }

/-- `appendProgress` of a job's entries: the new one is last, and only so many are kept. -/
def appendEntry (current : List BackgroundJobProgress) (input : AppendBackgroundJobProgress Lease)
    (revision attempt : Nat) : Except StorageError (List BackgroundJobProgress) :=
  if input.invalid then .error (conflict "background job progress is invalid")
  else if input.now.isNone then .error (conflict "background job progress time is invalid")
  else
    let added := current ++ [input.entry revision attempt]
    .ok (added.drop (added.length - BACKGROUND_JOB_PROGRESS_LIMIT))

def appendProgress (options : Options Lease) (input : AppendBackgroundJobProgress Lease) :
    Method BackgroundJob := do
  answer (options.assertLease input.lease)
  let found ← claimed input.toClaimedBackgroundJob
  refuseIf (Instant.lt input.now found.updatedAt)
    (conflict ("background job " ++ found.id ++ " changed before its progress update"))
  let revision := (← get).revision found.channelId + 1
  let nextProgress ← answer (appendEntry found.progress input revision found.attempts)
  modify fun store ↦ { store with revisions := Entries.set store.revisions found.channelId revision }
  let saved := { found with revision, progress := nextProgress, updatedAt := input.now }
  saveJob saved
  answer (job saved)

structure SettleBackgroundJob (Lease : Type) extends ClaimedBackgroundJob Lease where
  artifact : Json

/-- What a caller is given of a settled job. -/
def detail (value : BackgroundJob) : Method BackgroundJobDetail := do
  let store ← get
  match store.targets.lookup (key value.channelId value.targetKey) with
  | none => throw (corrupt "TypeError")
  | some target =>
    return {
      revision := store.revision value.channelId, target, job := ← answer (job value)
      artifact := store.artifacts.find? (·.jobId == value.id) }

def settle (options : Options Lease) (input : SettleBackgroundJob Lease) : Method BackgroundJobDetail := do
  answer (options.assertLease input.lease)
  let found ← claimed input.toClaimedBackgroundJob
  refuseIf ((← get).artifacts.any (·.jobId == found.id))
    (conflict ("background job " ++ found.id ++ " already settled"))
  let revision ← bump found.channelId
  let saved := BackgroundJob.clearClaim { found with
    state := .completed, revision, reason := none, updatedAt := input.now }
  let savedArtifact : BackgroundJobArtifact :=
    { jobId := found.id, revision, value := input.artifact, createdAt := input.now }
  saveJob saved
  modify fun store ↦ { store with
    artifacts := Entries.put BackgroundJobArtifact.jobId store.artifacts savedArtifact }
  detail saved

structure FailBackgroundJob (Lease : Type) extends ClaimedBackgroundJob Lease where
  reason : String

def fail (options : Options Lease) (input : FailBackgroundJob Lease) : Method BackgroundJob := do
  answer (options.assertLease input.lease)
  let found ← claimed input.toClaimedBackgroundJob
  claimTransition found .failed input.now (some input.reason) found.availableAt true

/-! ## A member's controls -/

structure ControlBackgroundJob (Lease : Type) where
  channelId : String
  jobId : String
  expectedRevision : Nat
  now : Instant
  lease : Lease

structure PauseBackgroundJob (Lease : Type) extends ControlBackgroundJob Lease where
  reason : String

def pause (options : Options Lease) (input : PauseBackgroundJob Lease) : Method BackgroundJob := do
  answer (options.assertLease input.lease)
  let found ← controlled input.channelId input.jobId (some input.expectedRevision) [.pending, .running]
  controlTransition found .paused input.now (some input.reason) found.availableAt

structure ResumeBackgroundJob (Lease : Type) extends ControlBackgroundJob Lease where
  availableAt : Instant

def resume (options : Options Lease) (input : ResumeBackgroundJob Lease) : Method BackgroundJob := do
  answer (options.assertLease input.lease)
  let found ← controlled input.channelId input.jobId (some input.expectedRevision) [.paused]
  controlTransition found .pending input.now none input.availableAt

structure CancelBackgroundJob (Lease : Type) where
  channelId : String
  jobId : String
  now : Instant
  lease : Lease
  allowArchived : Bool

def cancel (options : Options Lease) (input : CancelBackgroundJob Lease) : Method BackgroundJob := do
  answer (options.assertLease input.lease)
  refuseIf (!input.allowArchived && !options.channelActive input.channelId)
    (conflict ("channel " ++ input.channelId ++ " is archived"))
  let found ← controlled input.channelId input.jobId none [.pending, .paused, .running]
  controlTransition found .cancelled input.now none found.availableAt

structure SupersedeBackgroundJob (Lease : Type) extends ControlBackgroundJob Lease where
  reason : Option String

def supersede (options : Options Lease) (input : SupersedeBackgroundJob Lease) : Method BackgroundJob := do
  answer (options.assertLease input.lease)
  let found ← controlled input.channelId input.jobId (some input.expectedRevision)
    [.pending, .paused, .running]
  controlTransition found .superseded input.now input.reason found.availableAt

end Chopin.Storage
