import Chopin.Lib.Json
import Chopin.Lib.Platform
import Chopin.Lib.Time

/-!
# The Planner's job queue

The pure transitions of the durable queue (`conversation-plan/jobs.ts`).  A document's jobs run one
at a time, in order; a request coalesces with a pending job that already covers it, and a full queue
makes room by forgetting its oldest finished job.
-/

set_option autoImplicit false

open Script (Platform text units isoTime digit)

namespace Chopin.Conversation

/-! ## The records -/

inductive JobKind
  | heading
  | refine
  | suggest
  | prose
  | decisionFollowup
  deriving DecidableEq

inductive JobStatus
  | pending
  | running
  | done
  | failed
  | skipped
  deriving DecidableEq

structure JobIntent where
  kind : JobKind
  /-- Questionnaire id, or `document` for a heading job. -/
  target : String
  trigger : String
  threadId : Option String
  deriving DecidableEq

structure Job where
  id : String
  kind : JobKind
  target : String
  /-- Initial card generation; the target reserves the future questionnaire's id. -/
  threadId : Option String
  trigger : String
  status : JobStatus
  attempts : Nat
  reason : Option String
  output : Option String
  /-- The time of the last change of status. -/
  «at» : String
  deriving DecidableEq

inductive JobOutcome
  | done (output : String)
  | failed (reason : String)
  | skipped (reason : String)
  | deferred (reason : String)
  deriving DecidableEq

def JobKind.name : JobKind → String
  | .heading => "heading"
  | .refine => "refine"
  | .suggest => "suggest"
  | .prose => "prose"
  | .decisionFollowup => "decision-followup"

def JobStatus.name : JobStatus → String
  | .pending => "pending"
  | .running => "running"
  | .done => "done"
  | .failed => "failed"
  | .skipped => "skipped"

def MAX_JOBS : Nat := 128
def MAX_TARGET : Nat := 200
def MAX_TRIGGER : Nat := 200
def MAX_REASON : Nat := 500
def MAX_OUTPUT : Nat := 4096

/-! ## Small tests -/

def invalidJob : String := "invalid Planner job in sidecar"

/-- A text that says something, of at most so many units. -/
def bounded (value : String) (max : Nat) : Bool := text value && units value ≤ max

def jsonOutput (platform : Platform) (value : String) : Bool :=
  bounded value MAX_OUTPUT && platform.json value

/-- `[0-9A-HJKMNP-TV-Z]` -/
def crockford (c : Char) : Bool :=
  digit c || ('A' ≤ c && c ≤ 'H') || c == 'J' || c == 'K' || c == 'M' || c == 'N'
    || ('P' ≤ c && c ≤ 'T') || ('V' ≤ c && c ≤ 'Z')

/-- `/^[0-7][0-9A-HJKMNP-TV-Z]{25}$/` -/
def ulid (value : String) : Bool :=
  match value.toList with
  | first :: rest => '0' ≤ first && first ≤ '7' && rest.length == 25 && rest.all crockford
  | [] => false

/-- The work that is of one card. -/
def JobKind.card (kind : JobKind) : Bool := kind == .refine || kind == .suggest

/-! ## Requests -/

def idOf (kind : JobKind) (target trigger : String) : String :=
  kind.name ++ ":" ++ target ++ ":" ++ trigger

def jobId (intent : JobIntent) : Except String String :=
  if intent.target.toList.contains ':' then .error invalidJob
  else .ok (idOf intent.kind intent.target intent.trigger)

/-- A conversation's thread goes with the first work on its card only. -/
def threadValid (threadId : Option String) (kind : JobKind) (target : String) : Bool :=
  threadId.all fun threadId ↦ kind == .refine && bounded threadId 200 && ulid target

def JobIntent.valid (intent : JobIntent) («at» : String) : Bool :=
  bounded intent.target MAX_TARGET && bounded intent.trigger MAX_TRIGGER
    && (intent.kind == .heading) == (intent.target == "document") && isoTime «at»
    && threadValid intent.threadId intent.kind intent.target

/-- `{ id, ...intent, status: "pending", attempts: 0, at }` -/
def JobIntent.job (intent : JobIntent) (id «at» : String) : Job :=
  { id, kind := intent.kind, target := intent.target, threadId := intent.threadId
    trigger := intent.trigger, status := .pending, attempts := 0, reason := none, output := none, «at» }

/-- The pending job that a request of this kind and target falls together with. -/
def Job.coalesces (job : Job) (intent : JobIntent) : Bool :=
  job.status == .pending && match intent.kind with
    | .heading => job.kind == .heading
    | .refine | .suggest => job.kind.card && job.target == intent.target
    | .prose | .decisionFollowup => false

/-- What becomes of that job; a refine takes the place of a suggest. -/
def Job.coalesced (job : Job) (intent : JobIntent) (id «at» : String) : Job :=
  match intent.kind with
  | .heading => intent.job id «at»
  | .suggest => job
  | _ => if job.kind == .refine then job
    else { job with id, kind := .refine, trigger := intent.trigger, «at» }

/-- Room for one more: a full queue forgets its oldest finished job. -/
def available (jobs : List Job) : Except String (List Job) :=
  if MAX_JOBS ≤ jobs.length then
    let oldestTerminal := jobs.findIdx fun job ↦ job.status == .done || job.status == .skipped
    if oldestTerminal < jobs.length then .ok (jobs.eraseIdx oldestTerminal)
    else .error "Planner job queue is full"
  else .ok jobs

def enqueue (jobs : List Job) (intent : JobIntent) («at» : String) : Except String (List Job) :=
  if !intent.valid «at» then .error invalidJob
  else do
    let id ← jobId intent
    if jobs.any (·.id == id) then .ok jobs
    else
      let pending := jobs.findIdx (·.coalesces intent)
      match jobs[pending]? with
      | some job => .ok (jobs.set pending (job.coalesced intent id «at»))
      | none => (available jobs).map (· ++ [intent.job id «at»])

/-! ## Running -/

/-- The job that runs next, while none does. -/
def next (jobs : List Job) (eligible : Job → Bool) : Option Job :=
  if jobs.any (·.status == .running) then none
  else jobs.find? fun job ↦ job.status == .pending && eligible job

/-- The job with an id is changed. -/
def change (jobs : List Job) (id : String) (f : Job → Job) : List Job :=
  jobs.map fun job ↦ if job.id == id then f job else job

def start (jobs : List Job) (id «at» : String) (eligible : Job → Bool) : Except String (List Job) :=
  if (next jobs eligible).map Job.id != some id then .ok jobs
  else if !isoTime «at» then .error invalidJob
  else .ok (change jobs id fun job ↦ { job with status := .running, «at» })

def JobOutcome.valid (platform : Platform) (kind : JobKind) : JobOutcome → Bool
  | .done output => jsonOutput platform output
  | .deferred reason => kind == .decisionFollowup && bounded reason MAX_REASON
  | .failed reason | .skipped reason => bounded reason MAX_REASON

def Job.settled (job : Job) (outcome : JobOutcome) («at» : String) : Job :=
  match outcome with
  | .deferred _ => { job with status := .pending, reason := none, output := none, «at» }
  | .done output => { job with
      status := .done, attempts := job.attempts + 1, reason := none, output := some output, «at» }
  | .failed reason => { job with
      status := .failed, attempts := job.attempts + 1, reason := some reason, output := none, «at» }
  | .skipped reason => { job with
      status := .skipped, attempts := job.attempts + 1, reason := some reason, output := none, «at» }

def settle (platform : Platform) (jobs : List Job) (id : String) (outcome : JobOutcome)
    («at» : String) : Except String (List Job) :=
  match jobs.find? fun job ↦ job.id == id && job.status == .running with
  | none => .ok jobs
  | some running =>
    if !isoTime «at» || Json.maxSafe ≤ running.attempts || !outcome.valid platform running.kind then
      .error invalidJob
    else .ok (change jobs id (·.settled outcome «at»))

/-- Newer pending work already stands for a failed job. -/
def superseded (jobs : List Job) (failed : Job) : Bool :=
  (failed.kind == .heading && jobs.any fun job ↦ job.kind == .heading && job.status == .pending)
    || (failed.kind.card && jobs.any fun job ↦
      job.status == .pending && job.kind.card && job.target == failed.target)

def retry (jobs : List Job) (id «at» : String) : Except String (List Job) :=
  match jobs.find? fun job ↦ job.id == id && job.status == .failed with
  | none => .ok jobs
  | some failed =>
    if superseded jobs failed then .ok jobs
    else if !isoTime «at» then .error invalidJob
    else .ok (change jobs id fun job ↦ { job with status := .pending, reason := none, «at» })

/-! ## What is stored -/

def Job.fields (job : Job) : List (String × Option Json) :=
  [("id", some (.str job.id)), ("kind", some (.str job.kind.name)), ("target", some (.str job.target)),
    ("trigger", some (.str job.trigger)), ("status", some (.str job.status.name)),
    ("attempts", some (.num job.attempts)), ("at", some (.str job.«at»)),
    ("reason", job.reason.map .str), ("output", job.output.map .str),
    ("threadId", job.threadId.map .str)]

def Job.toJson (job : Job) : Json := .object job.fields

def JobKind.ofName (name : String) : Option JobKind :=
  [JobKind.heading, .refine, .suggest, .prose, .decisionFollowup].find? (·.name == name)

def JobStatus.ofName (name : String) : Option JobStatus :=
  [JobStatus.pending, .running, .done, .failed, .skipped].find? (·.name == name)

/-- What a status goes with: an outcome has its text, and was attempted or interrupted. -/
def Job.outcomeValid (platform : Platform) (job : Job) : Bool :=
  match job.status with
  | .pending | .running => job.reason.isNone && job.output.isNone
  | .done => job.reason.isNone && job.output.any (jsonOutput platform) && job.attempts != 0
  | .failed => job.output.isNone && job.reason.any (bounded · MAX_REASON)
      && (job.attempts != 0 || job.reason == some "interrupted")
  | .skipped => job.output.isNone && job.reason.any (bounded · MAX_REASON) && job.attempts != 0

/-- One stored job, as the reader takes it. -/
def Job.valid (platform : Platform) (job : Job) : Bool :=
  bounded job.target MAX_TARGET && !job.target.toList.contains ':' && bounded job.trigger MAX_TRIGGER
    && bounded job.id 420 && job.id == idOf job.kind job.target job.trigger
    && threadValid job.threadId job.kind job.target && job.attempts ≤ Json.maxSafe && isoTime job.«at»
    && (job.kind == .heading) == (job.target == "document") && job.outcomeValid platform

def restoreJob (platform : Platform) (value : Json) : Option Job := do
  let item ← value.strict ["id", "kind", "target", "trigger", "status", "attempts", "at", "reason",
    "output", "threadId"]
  let id ← (← item.lookup "id").string
  let kind ← (← item.lookup "kind").string >>= JobKind.ofName
  let target ← (← item.lookup "target").string
  let trigger ← (← item.lookup "trigger").string
  let status ← (← item.lookup "status").string >>= JobStatus.ofName
  let attempts ← (← item.lookup "attempts").safe
  let «at» ← (← item.lookup "at").string
  let reason ← (item.lookup "reason") |> Json.optional Json.string
  let output ← (item.lookup "output") |> Json.optional Json.string
  let threadId ← (item.lookup "threadId") |> Json.optional Json.string
  let job : Job := { id, kind, target, threadId, trigger, status, attempts, reason, output, «at» }
  if job.valid platform then pure job else none

/-- Two jobs of one queue: no id twice, one at work, and one pending for the document's heading and
for each card. -/
structure Apart (left right : Job) : Prop where
  id : left.id ≠ right.id
  running : ¬(left.status = .running ∧ right.status = .running)
  heading : ¬((left.status = .pending ∧ left.kind = .heading) ∧
    right.status = .pending ∧ right.kind = .heading)
  card : ¬((left.status = .pending ∧ left.kind.card = true) ∧
    (right.status = .pending ∧ right.kind.card = true) ∧ left.target = right.target)

instance (left right : Job) : Decidable (Apart left right) :=
  decidable_of_iff
    (left.id ≠ right.id ∧ ¬(left.status = .running ∧ right.status = .running) ∧
      ¬((left.status = .pending ∧ left.kind = .heading) ∧
        right.status = .pending ∧ right.kind = .heading) ∧
      ¬((left.status = .pending ∧ left.kind.card = true) ∧
        (right.status = .pending ∧ right.kind.card = true) ∧ left.target = right.target))
    ⟨fun ⟨id, running, heading, card⟩ ↦ ⟨id, running, heading, card⟩,
      fun ⟨id, running, heading, card⟩ ↦ ⟨id, running, heading, card⟩⟩

/-- A job that was running when the server stopped. -/
def Job.interrupted (job : Job) : Job :=
  if job.status == .running then
    if job.kind == .decisionFollowup then { job with status := .pending }
    else { job with status := .failed, reason := some "interrupted" }
  else job

/-- The stored queue, which nothing is said of while it is empty. -/
def stored (jobs : List Job) : Option Json :=
  if jobs.isEmpty then none else some (.arr (jobs.map Job.toJson))

def restore (platform : Platform) (value : Option Json) : Option (List Job) :=
  match value with
  | none => some []
  | some value => do
    let items ← value.array
    if MAX_JOBS < items.length then none
    else
      let jobs ← items.mapM (restoreJob platform)
      if jobs.Pairwise Apart then pure (jobs.map Job.interrupted) else none

end Chopin.Conversation
