import Chopin.Storage.JobRuns

/-!
# The background job runner

The runner claims jobs from the durable store and executes what is registered for them
(`apps/server/src/jobs/runner.ts`).  An attempt is one claim, from the start of its execution until nothing of
it is awaited any more; it is in the runner's sets meanwhile.  Between two awaits anything else may happen: its
claim is lost, its owner is revoked, a member cancels the job, the server shuts down.

The store is the one of `Chopin.Storage.Jobs`, which members and other workers use too.  A call on it happens at
a `Moment`, which says what the adapter decides then; its answer may be lost after it was applied.  What a
registered definition does, and what is said of its owner, is any outcome it may have.  The calls of one attempt
go out one after another; a heartbeat that is waiting for its turn does not hold the attempt's end up here.
-/

set_option autoImplicit false
set_option linter.dupNamespace false

open Script (Call Instant)
open Chopin.Storage

namespace Chopin.Jobs

/-! ## What is registered -/

inductive JobCredential
  | none
  | activePlanner
  deriving DecidableEq

/-- What the runner reads of a `JobDefinition`. -/
structure Definition where
  credential : JobCredential
  maxAttempts : Nat
  /-- `input.parse` does not throw. -/
  parses : Json → Bool
  progress : String → Option String
  positive : 1 ≤ maxAttempts

structure Config where
  claimOwner : String
  globalConcurrency : Nat
  ownerConcurrency : Nat
  claimTtlMs : Nat
  heartbeatMs : Nat
  retryBaseMs : Nat
  retryMaxMs : Nat
  registry : String → Int → Option Definition
  owners : 1 ≤ ownerConcurrency ∧ ownerConcurrency ≤ globalConcurrency
  heartbeat : heartbeatMs * 2 < claimTtlMs

def Config.definition (config : Config) (job : BackgroundJob) : Option Definition := config.registry job.type job.version

def retryDelay (attempt base maximum : Nat) : Nat := min maximum (base * 2 ^ min (attempt - 1) 18)

/-! ## Attempts -/

inductive Failure
  | storage (failure : StorageFailure)
  /-- `"attempt-timeout"` -/
  | timeout
  /-- An execution's own reason, or `"attempt-error"`. -/
  | execution (reason : String)
  deriving DecidableEq

def Failure.expected : Failure → Bool
  | .storage .conflict => true
  | .storage .missing => true
  | _ => false

structure ResolvedJobCredential where
  kind : JobCredential
  ownerKey : Option String
  binding : Option Json

/-- What takes an attempt out of its claim. -/
inductive Exit
  | pause (reason : String)
  | fail (reason : String)
  | retry (reason : String) (countFailure : Bool)
  | timeout
  | heartbeatLost
  | shutdown
  deriving DecidableEq

/-- Why a stage that was started is interrupted, of the exits that report it. -/
def Exit.interrupts : Exit → Option String
  | .pause reason => some reason
  | .fail _ => none
  | .retry reason _ => some reason
  | .timeout => some "attempt-timeout"
  | .heartbeatLost => some "heartbeat-lost"
  | .shutdown => none

/-- What `#execute` waits for. -/
inductive Phase
  /-- The credential of the active Planner. -/
  | resolving
  /-- The renewal under the credential. -/
  | renewing
  | renewed
  /-- The owner's slot is taken. -/
  | reserved
  | executing
  /-- Whether the credential is still active. -/
  | revalidating (artifact : Json)
  /-- The service validates and publishes the artifact; the guard is not passed. -/
  | settling (artifact : Json)
  | committing (artifact : Json)
  /-- Whether the credential was active, once the attempt failed. -/
  | failing (reason : String)
  /-- The attempt's own exit. -/
  | leaving
  | returned

/-- The definition's `execute` was called. -/
def Phase.running : Phase → Bool
  | .executing | .revalidating _ | .settling _ | .committing _ => true
  | _ => false

/-- An exit on its way, and whether the stage that was started is reported yet. -/
structure Leaving where
  exit : Exit
  interrupted : Bool

structure Attempt where
  job : BackgroundJob
  accepting : Bool
  phase : Phase
  credential : Option ResolvedJobCredential
  /-- The owner whose slot the attempt holds. -/
  slot : Option String
  leaving : Option Leaving
  /-- A heartbeat fired and waits for its renewal. -/
  beating : Bool
  /-- In the runner's `#attempts` and `#active`. -/
  listed : Bool
  /-- How often the store moved the job out of its claim for this attempt. -/
  transitions : Nat

namespace Attempt

/-- What takes the attempt out of its claim, when nothing did before. -/
def exitBy (attempt : Attempt) (exit : Exit) : Attempt :=
  if attempt.accepting then
    { attempt with accepting := false, leaving := some { exit, interrupted := exit.interrupts.isNone } }
  else attempt

/-- The attempt's own exit, which `#execute` waits for. -/
def leaveBy (attempt : Attempt) (exit : Exit) : Attempt :=
  { attempt.exitBy exit with phase := if attempt.accepting then .leaving else .returned }

def detach (attempt : Attempt) : Attempt := { attempt with accepting := false }

/-- The `catch` of `#execute`. -/
def caught (attempt : Attempt) (failure : Failure) : Attempt :=
  if !attempt.accepting then { attempt with phase := .returned }
  else if failure = .storage .unavailable || failure.expected then { attempt.detach with phase := .returned }
  else if failure = .timeout && attempt.phase.running then attempt.leaveBy .timeout
  else
    let reason := match failure with
      | .timeout => "attempt-timeout"
      | .execution reason => reason
      | .storage _ => "attempt-error"
    if attempt.credential.isSome then { attempt with phase := .failing reason }
    else attempt.leaveBy (.retry reason true)

/-- What an attempt hears, other than from the store. -/
inductive Event
  /-- The credential, whether it was revoked by then, or a failure. -/
  | resolved (credential : Except Failure (Option (ResolvedJobCredential × Bool)))
  | launched
  | executed (result : Except Failure Json)
  | revalidated (active : Except Failure Bool)
  /-- The settlement reached its guard, which asked for the credential, or failed before. -/
  | guarded (active : Except Failure Bool)
  | failed (active : Bool)
  | beat
  /-- Its owner's login ended, or its channel was given another owner. -/
  | revoked
  | rotated

/-- An attempt goes on; `stopped` is whether the runner is shutting down. -/
def move (attempt : Attempt) (stopped : Bool) : Event → Option Attempt
  | .resolved credential =>
    match attempt.phase with
    | .resolving => some <|
      match credential with
      | .error failure => attempt.caught failure
      | .ok none => if attempt.accepting then attempt.leaveBy (.pause "owner-unavailable") else { attempt with phase := .returned }
      | .ok (some (credential, aborted)) =>
        if !attempt.accepting then { attempt with phase := .returned }
        else
          let attempt := { attempt with credential := some credential, phase := .renewing }
          if aborted then attempt.leaveBy (.pause "owner-unavailable") else attempt
    | _ => none
  | .launched =>
    match attempt.phase with
    | .reserved => some { attempt with phase := if attempt.accepting && !stopped then .executing else .returned }
    | _ => none
  | .executed result =>
    match attempt.phase with
    | .executing => some <|
      match result with
      | .error failure => attempt.caught failure
      | .ok artifact => { attempt with phase := if attempt.accepting && !stopped then .revalidating artifact else .returned }
    | _ => none
  | .revalidated active =>
    match attempt.phase with
    | .revalidating artifact => some <|
      match active with
      | .error failure => attempt.caught failure
      | .ok false => attempt.leaveBy (.pause "owner-unavailable")
      | .ok true => { attempt with phase := if attempt.accepting && !stopped then .settling artifact else .returned }
    | _ => none
  | .guarded active =>
    match attempt.phase with
    | .settling artifact => some <|
      match active with
      | .error failure => attempt.caught failure
      | .ok active =>
        if active && attempt.accepting && !stopped then { attempt with phase := .committing artifact }
        -- The service refuses the settlement.
        else attempt.caught (.execution "attempt-error")
    | _ => none
  | .failed active =>
    match attempt.phase with
    | .failing reason => some (attempt.leaveBy (if active then .retry reason true else .pause "owner-unavailable"))
    | _ => none
  | .beat => if attempt.accepting && !stopped && !attempt.beating then some { attempt with beating := true } else none
  | .revoked => if attempt.credential.isSome then some (attempt.exitBy (.pause "owner-unavailable")) else none
  | .rotated => if attempt.credential.isSome then some (attempt.exitBy (.retry "credential-rotated" false)) else none

end Attempt

/-! ## Calls on the store -/

/-- When a call reaches the store: what the adapter decides, and whether the answer is lost. -/
structure Moment (Lease : Type) where
  options : Options Lease
  lease : Lease
  now : Instant
  lost : Bool

variable {Lease : Type}

/-- A request, which answers with the job that it changed. -/
def answered (options : Options Lease) : Request Lease → Method (Option BackgroundJob)
  | .renew input => do let job ← renew options input; pure (some job)
  | .requeue input => do let job ← requeue options input; pure (some job)
  | .appendProgress input => do let job ← appendProgress options input; pure (some job)
  | .pause input => do let job ← pause options input; pure (some job)
  | .fail input => do let job ← fail options input; pure (some job)
  | request => do let _ ← invoke options request; pure none

/-- What an attempt tells the store. -/
inductive Report
  /-- The renewal under its credential, before it executes. -/
  | renewal
  /-- A heartbeat's renewal, and what is then heard of the credential: nothing when that fails. -/
  | heartbeat (active : Option Bool)
  | progress (stage : String) (state : BackgroundJobProgressState)
  | interrupt
  /-- The settlement, and what its publication fails with afterwards. -/
  | commit (after : Option Failure)
  /-- What takes it out of its claim; `settled` is whether its execution ended in time. -/
  | leave (settled : Bool)

/-- The stage that was started last and is not completed, of this attempt. -/
def activeStage (job : BackgroundJob) : Option BackgroundJobProgress :=
  let latest := (job.progress.filter (·.attempt == job.attempts)).foldl
    (fun latest entry ↦ Entries.set latest entry.stage entry) ([] : List (String × BackgroundJobProgress))
  (latest.map (·.2)).reverse.find? (·.state == .started)

namespace Attempt

def claimed (attempt : Attempt) (config : Config) (moment : Moment Lease) : ClaimedBackgroundJob Lease :=
  { channelId := attempt.job.channelId, jobId := attempt.job.id, claimOwner := config.claimOwner
    claimGeneration := attempt.job.claimGeneration, now := moment.now, lease := moment.lease }

def renewRequest (attempt : Attempt) (config : Config) (moment : Moment Lease) : Request Lease :=
  .renew { attempt.claimed config moment with
    expectedRevision := attempt.job.revision, claimBinding := attempt.credential.bind (·.binding)
    ttlMs := config.claimTtlMs + config.heartbeatMs + 1 }

/-- The attempt fails for good, or is given back to be claimed again after `delay`. -/
def endRequest (attempt : Attempt) (config : Config) (moment : Moment Lease) (exhausted : Bool) (reason : String)
    (delay : Nat) (countFailure : Bool) : Request Lease :=
  if exhausted then .fail { attempt.claimed config moment with reason := "attempts-exhausted:" ++ reason }
  else .requeue { attempt.claimed config moment with availableAt := Instant.plus moment.now delay, reason, countFailure }

/-- What an exit asks of the store. -/
def exitRequest (attempt : Attempt) (config : Config) (moment : Moment Lease) (settled : Bool) : Exit → Request Lease
  | .pause reason => .pause {
      channelId := attempt.job.channelId, jobId := attempt.job.id, expectedRevision := attempt.job.revision
      reason, now := moment.now, lease := moment.lease }
  | .fail reason => .fail { attempt.claimed config moment with reason }
  | .retry reason countFailure =>
    let failures := attempt.job.failures + (if countFailure then 1 else 0)
    attempt.endRequest config moment
      (countFailure && (config.definition attempt.job).any fun definition ↦ definition.maxAttempts ≤ failures) reason
      (if countFailure then retryDelay failures config.retryBaseMs config.retryMaxMs else config.retryBaseMs) countFailure
  | .timeout =>
    attempt.endRequest config moment
      ((config.definition attempt.job).any fun definition ↦ definition.maxAttempts ≤ attempt.job.failures + 1)
      "attempt-timeout" config.retryBaseMs true
  | .heartbeatLost =>
    attempt.endRequest config moment
      (!settled || (config.definition attempt.job).all fun definition ↦ definition.maxAttempts ≤ attempt.job.failures + 1)
      "heartbeat-lost" config.retryBaseMs true
  | .shutdown => attempt.endRequest config moment false "runner-shutdown" config.retryBaseMs false

/-- What a report asks of the store, when it may be made; none when there is nothing to ask. -/
def request (attempt : Attempt) (config : Config) (moment : Moment Lease) : Report → Option (Option (Request Lease))
  | .renewal =>
    match attempt.phase with
    | .renewing => some (some (attempt.renewRequest config moment))
    | _ => none
  | .heartbeat _ => if attempt.beating then some (some (attempt.renewRequest config moment)) else none
  | .progress stage state =>
    if attempt.accepting && state != .interrupted then
      ((config.definition attempt.job).bind (·.progress stage)).map fun label ↦
        some (.appendProgress { attempt.claimed config moment with stage, label, state, reason := none })
    else none
  | .interrupt =>
    match attempt.leaving with
    | some { exit, interrupted := false } =>
      some ((activeStage attempt.job).map fun active ↦ .appendProgress { attempt.claimed config moment with
        stage := active.stage, label := active.label, state := .interrupted, reason := exit.interrupts })
    | _ => none
  | .commit _ =>
    match attempt.phase with
    | .committing artifact => some (some (.settle { attempt.claimed config moment with artifact }))
    | _ => none
  | .leave settled =>
    match attempt.leaving with
    | some { exit, interrupted := true } => some (some (attempt.exitRequest config moment settled exit))
    | _ => none

/-- `attempt.job = …` -/
def record (attempt : Attempt) : Except Failure (Option BackgroundJob) → Attempt
  | .ok (some job) => { attempt with job }
  | _ => attempt

/-- The attempt once its report is answered; `applied` is whether the store made the change. -/
def hear (attempt : Attempt) (answer : Except Failure (Option BackgroundJob)) (applied : Bool) : Report → Attempt
  | .renewal =>
    match answer with
    | .ok _ => { attempt.record answer with phase := .renewed }
    | .error failure => attempt.caught failure
  | .heartbeat active =>
    let attempt := { attempt.record answer with beating := false }
    match answer with
    | .error _ => attempt.exitBy .heartbeatLost
    | .ok _ =>
      if attempt.credential.isNone then attempt
      else match active with
        | some true => attempt
        | some false => attempt.exitBy (.pause "owner-unavailable")
        | none => attempt.exitBy .heartbeatLost
  | .progress _ _ => attempt.record answer
  | .interrupt =>
    { attempt.record answer with leaving := attempt.leaving.map fun leaving ↦ { leaving with interrupted := true } }
  | .commit after =>
    let attempt := { attempt with transitions := attempt.transitions + (if applied then 1 else 0) }
    match answer, after with
    | .ok _, none => { attempt.detach with phase := .returned }
    | .ok _, some failure => attempt.caught failure
    | .error failure, _ => attempt.caught failure
  | .leave _ =>
    { attempt.record answer with
      leaving := none, transitions := attempt.transitions + (if applied then 1 else 0)
      phase := match attempt.phase with | .leaving => .returned | phase => phase }

end Attempt

/-! ## The runner -/

/-- A claimed job that is not started. -/
structure Duplicate where
  job : BackgroundJob
  /-- It is given back for this reason, or cancelled as its channel is blocked. -/
  reason : Option String

inductive Pump
  | idle
  | claiming (count : Nat)
  | claimed (jobs : List BackgroundJob)
  | waiting (duplicates : List Duplicate)

structure JobRunner where
  store : Store
  attempts : List Attempt
  owners : List (String × Nat)
  pump : Pump
  blockedChannels : List String
  started : Bool
  stopped : Bool
  dirty : Bool

inductive Act (Lease : Type)
  | start
  | wake
  | drain
  | claim (moment : Moment Lease)
  | begin
  | giveBack (index : Nat) (moment : Moment Lease)
  | move (index : Nat) (event : Attempt.Event)
  | reserve (index : Nat)
  | report (index : Nat) (report : Report) (moment : Moment Lease)
  | finish (index : Nat)
  | notify (job : BackgroundJob)
  | cancelChannel (channelId : String)
  | unblockChannel (channelId : String)
  | shutdown
  /-- A member, or another worker. -/
  | others (options : Options Lease) (request : Request Lease)

namespace JobRunner

def new : JobRunner :=
  { store := Ledger.empty.store, attempts := [], owners := [], pump := .idle, blockedChannels := [], started := false
    stopped := false, dirty := false }

/-- `#attempts` -/
def running (runner : JobRunner) : List Attempt := runner.attempts.filter (·.listed)

def woken (runner : JobRunner) : JobRunner :=
  if runner.started && !runner.stopped then { runner with dirty := true } else runner

def setAttempt (runner : JobRunner) (index : Nat) (attempt : Attempt) : JobRunner :=
  { runner with attempts := runner.attempts.set index attempt }

/-- The store is asked, and answers unless the answer is lost. -/
def ask (runner : JobRunner) (moment : Moment Lease) (request : Request Lease) :
    Except Failure (Option BackgroundJob) × Bool × JobRunner :=
  match (answered moment.options request).run runner.store with
  | (.ok job, store) => (if moment.lost then .error (.storage .unavailable) else .ok job, true, { runner with store })
  | (.error e, store) => (.error (.storage e.failure), false, { runner with store })

/-! ### Starting -/

/-- The attempt at a claimed job, up to its first await. -/
def attempt (config : Config) (job : BackgroundJob) : Attempt :=
  let attempt : Attempt :=
    { job, accepting := true, phase := .resolving, credential := none, slot := none, leaving := none, beating := false
      listed := true, transitions := 0 }
  match config.definition job with
  | none => attempt.leaveBy (.pause "unregistered-type")
  | some definition =>
    if !definition.parses job.input then attempt.leaveBy (.fail "invalid-persisted-input")
    else match definition.credential with
      | .activePlanner => attempt
      | .none => { attempt with phase := .renewing, credential := some { kind := .none, ownerKey := none, binding := none } }

/-- `#start`, with the duplicates there are so far. -/
def begin (config : Config) (started : JobRunner × List Duplicate) (job : BackgroundJob) : JobRunner × List Duplicate :=
  let (runner, duplicates) := started
  if runner.blockedChannels.contains job.channelId then (runner, duplicates ++ [{ job, reason := none }])
  else if runner.running.any (·.job.id == job.id) then
    ({ runner with attempts := runner.attempts.map fun previous ↦
        if previous.listed && previous.job.id == job.id then previous.detach else previous },
      duplicates ++ [{ job, reason := some "claim-reclaimed" }])
  else ({ runner with attempts := runner.attempts ++ [attempt config job] }, duplicates)

def giveBack (config : Config) (runner : JobRunner) (moment : Moment Lease) (duplicate : Duplicate) : JobRunner :=
  (runner.ask moment <|
    match duplicate.reason with
    | none => .cancel {
        channelId := duplicate.job.channelId, jobId := duplicate.job.id, now := moment.now, lease := moment.lease
        allowArchived := true }
    | some reason => .requeue {
        channelId := duplicate.job.channelId, jobId := duplicate.job.id, claimOwner := config.claimOwner
        claimGeneration := duplicate.job.claimGeneration, now := moment.now, lease := moment.lease
        availableAt := Instant.plus moment.now config.retryBaseMs, reason, countFailure := false }).2.2

/-! ### Owners -/

/-- `#owner` and what follows it: the slot of the attempt's owner, if there is one left. -/
def reserve (config : Config) (runner : JobRunner) (index : Nat) (attempt : Attempt) : JobRunner :=
  if !attempt.accepting || runner.stopped then runner.setAttempt index { attempt with phase := .returned }
  else match (attempt.credential.bind (·.ownerKey)).filter (· != "") with
    | none => runner.setAttempt index { attempt with phase := .reserved }
    | some key =>
      let active := (runner.owners.lookup key).getD 0
      if config.ownerConcurrency ≤ active then
        runner.setAttempt index (attempt.leaveBy (.retry "owner-capacity" false))
      else
        { runner.setAttempt index { attempt with phase := .reserved, slot := some key } with
          owners := Entries.set runner.owners key (active + 1) }

/-- `#releaseOwner` -/
def releaseOwner (owners : List (String × Nat)) (key : String) : List (String × Nat) :=
  let active := (owners.lookup key).getD 1 - 1
  if active = 0 then Entries.delete owners key else Entries.set owners key active

/-- Nothing of the attempt is awaited any more. -/
def finish (runner : JobRunner) (index : Nat) (attempt : Attempt) : JobRunner :=
  woken { runner.setAttempt index { attempt with listed := false } with
    owners := (attempt.slot.map (releaseOwner runner.owners)).getD runner.owners }

/-! ### Every step -/

/-- What the others ask: they claim under names of their own, and workers count failures as this one does. -/
def fair (config : Config) (runner : JobRunner) : Request Lease → Bool
  | .claim input => input.claimOwner != config.claimOwner
  | .renew input => input.claimOwner != config.claimOwner
  | .appendProgress input => input.claimOwner != config.claimOwner
  | .settle input => input.claimOwner != config.claimOwner
  | .fail input => input.claimOwner != config.claimOwner
  | .requeue input => input.claimOwner != config.claimOwner && (!input.countFailure || runner.store.jobs.all fun job ↦
      job.id != input.jobId || (config.definition job).all fun definition ↦ job.failures + 1 < definition.maxAttempts)
  | .enqueue _ | .pause _ | .resume _ | .cancel _ | .supersede _ => true

/-- A job changed: an attempt at it, or at an older request for its target, is over. -/
def notified (job : BackgroundJob) (attempt : Attempt) : Attempt :=
  let same := attempt.job.id == job.id
  let superseded := attempt.job.channelId == job.channelId && attempt.job.targetKey == job.targetKey
    && attempt.job.targetGeneration < job.targetGeneration
  if attempt.listed && (same && job.state != .running || superseded) then attempt.detach else attempt

def step (config : Config) (runner : JobRunner) : Act Lease → Option JobRunner
  | .start => if runner.started || runner.stopped then none else some (woken { runner with started := true })
  | .wake => some runner.woken
  | .drain =>
    match runner.pump with
    | .idle =>
      if !runner.dirty || runner.stopped then none
      else
        let capacity := config.globalConcurrency - runner.running.length
        some { runner with dirty := false, pump := if capacity < 1 then .idle else .claiming capacity }
    | _ => none
  | .claim moment =>
    match runner.pump with
    | .claiming count => some <|
      match (Storage.claim moment.options {
          channelId := none, claimOwner := config.claimOwner, count, ttlMs := config.claimTtlMs, now := moment.now
          lease := moment.lease }).run runner.store with
      | (.ok jobs, store) => { runner with store, pump := if moment.lost then .idle else .claimed jobs }
      | (.error _, store) => { runner with store, pump := .idle }
    | _ => none
  | .begin =>
    match runner.pump with
    | .claimed jobs =>
      if runner.stopped then
        some { runner with pump := .waiting (jobs.map fun job ↦ { job, reason := some "runner-shutdown" }) }
      else
        let (runner, duplicates) := jobs.foldl (begin config) (runner, [])
        some { runner with pump := .waiting duplicates }
    | _ => none
  | .giveBack index moment =>
    match runner.pump with
    | .waiting duplicates =>
      match duplicates[index]? with
      | none => if duplicates.isEmpty then some { runner with pump := .idle } else none
      | some duplicate =>
        some { runner.giveBack config moment duplicate with pump := .waiting (duplicates.eraseIdx index) }
    | _ => none
  | .move index event =>
    runner.attempts[index]?.bind fun attempt ↦ (attempt.move runner.stopped event).map (runner.setAttempt index)
  | .reserve index =>
    runner.attempts[index]?.bind fun attempt ↦
      match attempt.phase with
      | .renewed => some (runner.reserve config index attempt)
      | _ => none
  | .report index report moment =>
    runner.attempts[index]?.bind fun attempt ↦ (attempt.request config moment report).map fun
      | none => runner.setAttempt index (attempt.hear (.ok none) false report)
      | some request =>
        let (answer, applied, runner) := runner.ask moment request
        runner.setAttempt index (attempt.hear answer applied report)
  | .finish index =>
    runner.attempts[index]?.bind fun attempt ↦
      match attempt.phase, attempt.leaving with
      -- A recovery of the heartbeat is waited for.
      | .returned, some { exit := .heartbeatLost, .. } => none
      | .returned, _ => if attempt.listed then some (runner.finish index attempt) else none
      | _, _ => none
  | .notify job =>
    let runner := if job.state == .pending then runner.woken else runner
    some { runner with attempts := runner.attempts.map (notified job) }
  | .cancelChannel channelId =>
    some { runner with
      blockedChannels := Entries.distinct (runner.blockedChannels ++ [channelId])
      attempts := runner.attempts.map fun attempt ↦
        if attempt.listed && attempt.job.channelId == channelId then attempt.detach else attempt }
  | .unblockChannel channelId =>
    some (woken { runner with blockedChannels := runner.blockedChannels.filter (· != channelId) })
  | .shutdown =>
    if runner.stopped then none
    else some { runner with
      stopped := true, dirty := false
      attempts := runner.attempts.map fun attempt ↦ if attempt.listed then attempt.exitBy .shutdown else attempt }
  | .others options request =>
    if !fair config runner request then none
    else some { runner with store := ((invoke options request).run runner.store).2 }

end JobRunner

end Chopin.Jobs
