import Chopin.Investigations.Records
import Chopin.Lib.Versioned

/-!
# The store of investigations and the calls on it

`experiments/service.ts` over `storage/memory/experiments.ts`.  A call is a sequence of stretches between
its awaits: it reads the record, computes what to write, and writes it if the record still has the
revision it read; up to five times.  Between two stretches of a call those of others run, in any order.
-/

set_option autoImplicit false

namespace Chopin.Investigations

/-! ## The store -/

structure Channel where
  repositoryId : String
  archived : Bool
  parentChannelId : Option String
  deriving DecidableEq

/-- What a stretch finds outside the records. -/
structure Moment where
  clock : Clock
  /-- The lease that fences writers is held. -/
  leased : Bool
  channel : String → Option Channel
  /-- `createChannel` takes the child. -/
  creates : Bool
  /-- `Plan.initial` reads the child's source. -/
  plans : Bool

abbrev Records := List (String × Investigation)

namespace Records

variable (records : Records) (moment : Moment)

def get (id : String) : Option Investigation :=
  (records.lookup id).filter fun value ↦ (moment.channel value.documentId).isSome

def list (documentId : String) : List Investigation :=
  if (moment.channel documentId).isNone then []
  else ((records.map (·.2)).filter (·.documentId == documentId)).take 100

def active : List Investigation :=
  (records.map (·.2)).filter fun value ↦
    (moment.channel value.documentId).isSome && value.state.active

end Records

/-- What became of a write: the revision had changed, the child was there already, or the record to set. -/
inductive Saved where
  | stale
  | already
  | written (value : Investigation)

/-- The store's `save(value, expected, lease)`. -/
def save (rules : Rules) (moment : Moment) (records : Records) (value : Investigation)
    (expected : Option Nat) : Except Failure Saved := do
  refuse (!moment.leased) (.conflict "storage lease is no longer held")
  refuse (moment.channel value.documentId).isNone (.missing "experiment document not found")
  refuse ((moment.channel value.documentId).any (·.archived) && !value.state.settled)
    (.conflict "experiment document archived")
  if Versioned.current Investigation.revision records value.id ≠ expected then .ok .stale
  else do
    refuse (value.revision != expected.elim 0 (· + 1)
        || (records.lookup value.id).any (·.documentId != value.documentId))
      (.conflict "invalid experiment revision")
    match investigationSchema rules value with
    | none => .error .invalid
    | some saved => .ok (.written saved)

/-- The store's `publish(value, expected, child, lease)`. -/
def publish (rules : Rules) (moment : Moment) (records : Records) (value : Investigation)
    (expected : Nat) : Except Failure Saved := do
  refuse (value.revision != expected + 1 || value.state != .completed || value.result.isNone
      || value.spike.isSome)
    (.conflict "invalid experiment publication")
  refuse (!moment.leased) (.conflict "storage lease is no longer held")
  match moment.channel value.documentId, records.lookup value.id with
  | none, _ => .error (.missing "experiment document not found")
  | some _, none => .error (.missing "experiment not found")
  | some channel, some current => do
    refuse (current.documentId != value.documentId) (.missing "experiment not found")
    if current.childId.isSome then .ok .already
    else if current.revision ≠ expected then .ok .stale
    else do
      refuse channel.archived (.conflict "experiment document archived")
      -- A child document never holds investigations, so it never publishes one either.
      refuse channel.parentChannelId.isSome (.conflict "experiment document is a child")
      let childId := rules.deterministicChannelId channel.repositoryId ("investigation:" ++ value.id)
      match investigationSchema rules { value with childId := some childId } with
      | none => .error .invalid
      | some saved => do
        refuse (!moment.creates) (.conflict "the child document was refused")
        .ok (.written saved)

/-! ## Calls in flight -/

/-- Where a call stands between two stretches. -/
inductive Phase where
  | reading
  /-- `create` found no record and goes on to count the document's. -/
  | listing
  /-- The value to save over the record that was read, with the readings of the clock since. -/
  | saving (clock : Clock) (current : Option Investigation) (value : Investigation)
  /-- The same, while `Plan.initial` reads the child's source. -/
  | publishing (clock : Clock) (current value : Investigation)

/-- The readings of the clock in a call's attempt. -/
def Phase.clock : Phase → Clock
  | .saving clock _ _ | .publishing clock _ _ => clock
  | .reading | .listing => fun _ ↦ 0

/-- A call, and the calls that a recovery makes after it. -/
structure Flight where
  call : Call
  attempt : Nat
  phase : Phase
  more : List Call

/-- How a call goes on after a stretch. -/
inductive Next where
  /-- It answers; a recovery goes on with the stops it found to make. -/
  | answered (stops : List Call)
  | refused
  | again (attempt : Nat) (phase : Phase)

/-- `value.revision++; value.updatedAt = this.now()` -/
def Investigation.bumped (value : Investigation) (clock : Clock) : Investigation :=
  { value with revision := value.revision + 1, updatedAt := clock 9 }

/-- The record a completion writes. -/
def completing (clock : Clock) (current : Investigation) (result : Result) : Investigation :=
  { current with
    result := some result
    candidate := none
    views := result.views.map fun view ↦ (view.key, initialState view)
    state := .completed
    expiresAt := 0
    revision := current.revision + 1
    updatedAt := clock 9 }

/-- The next attempt, if there is one. -/
def retried (attempt : Nat) : Next := if attempt + 1 < 5 then .again (attempt + 1) .reading else .refused

def readCreate (records : Records) (moment : Moment) (attempt : Nat) (documentId requester brief id : String)
    (buildBlocker : Option String) : Next :=
  match records.get moment id with
  | some existing =>
    if existing.documentId != documentId || existing.requester != requester || existing.brief != brief
        || existing.buildBlocker != buildBlocker then .refused
    else .answered []
  | none =>
    if !Script.text brief || 8000 < Script.units brief then .refused else .again attempt .listing

def readMutate (records : Records) (moment : Moment) (attempt : Nat) (id : String) (action : Action) : Next :=
  match records.get moment id with
  | none => .refused
  | some current =>
    match action moment.clock current with
    | .error _ => .refused
    | .ok value =>
      if value = current then .answered []
      else .again attempt (.saving moment.clock (some current) (value.bumped moment.clock))

def readComplete (rules : Rules) (records : Records) (moment : Moment) (attempt : Nat)
    (id connectionId : String) (generation : Nat) : Next :=
  match records.get moment id with
  | none => .refused
  | some current =>
    if current.state = .completed ∧ current.connectionId = some connectionId
        ∧ current.generation = generation then .answered []
    else
      match assertClaim current connectionId generation (moment.clock 0), current.candidate with
      | .ok _, some result =>
        let value := completing moment.clock current result
        -- A spike lands only as its inline callout; it never becomes a child document.
        if value.spike.isSome then .again attempt (.saving moment.clock (some current) value)
        else
          match rules.investigationDocument value.id value.brief result with
          | .error _ => .refused
          | .ok _ => .again attempt (.publishing moment.clock current value)
      | _, _ => .refused

def INTERRUPTED : String := "Connection interrupted. Authorize a new attempt to retry."

/-- The stops of a recovery, each after its own reading of the clock. -/
def readRecover (records : Records) (moment : Moment) (all : Bool) : Next :=
  .answered (((records.active moment).zipIdx.filter fun entry ↦
    all || (entry.1.state != .queued && entry.1.expiresAt ≤ moment.clock entry.2)).map fun entry ↦
      .stop entry.1.id .interrupted rfl (Script.utf16 INTERRUPTED) fun _ ↦ .ok ())

/-- The first stretch of an attempt. -/
def read (rules : Rules) (records : Records) (moment : Moment) (attempt : Nat) (call : Call) : Next :=
  match call.task rules with
  | .error _ => .refused
  | .ok (.create documentId requester brief id _ buildBlocker) =>
    readCreate records moment attempt documentId requester brief id buildBlocker
  | .ok (.mutate id action) => readMutate records moment attempt id action
  | .ok (.complete id connectionId generation) =>
    readComplete rules records moment attempt id connectionId generation
  | .ok (.recover all) => readRecover records moment all

/-- The stretch in which `create` has the list of the document's records. -/
def listed (rules : Rules) (records : Records) (moment : Moment) (attempt : Nat) (call : Call) : Next :=
  match call.task rules with
  | .ok (.create documentId requester brief id spike buildBlocker) =>
    if 100 ≤ (records.list moment documentId).length then .refused
    else .again attempt (.saving moment.clock none
      (created documentId requester brief id spike buildBlocker moment.clock))
  | _ => .refused

/-- What a stretch sets in the store, and the child document it creates. -/
structure Write where
  value : Investigation
  child : Option String

/-- How a call goes on when its write was answered. -/
def wrote (expected : Option Nat) (attempt : Nat) (child : Bool) : Except Failure Saved → Option Write × Next
  | .error _ => (none, .refused)
  -- `create` does not try again.
  | .ok .stale => (none, if expected.isNone then .refused else retried attempt)
  | .ok .already => (none, .answered [])
  | .ok (.written value) => (some { value, child := if child then value.childId else none }, .answered [])

/-- One stretch of a call: what it writes, and how the call goes on. -/
def stretch (rules : Rules) (records : Records) (moment : Moment) (flight : Flight) : Option Write × Next :=
  match flight.phase with
  | .reading => (none, read rules records moment flight.attempt flight.call)
  | .listing => (none, listed rules records moment flight.attempt flight.call)
  | .saving _ current value =>
    let expected := current.map (·.revision)
    wrote expected flight.attempt false (save rules moment records value expected)
  | .publishing _ current value =>
    if moment.plans then
      wrote (some current.revision) flight.attempt true (publish rules moment records value current.revision)
    else (none, .refused)

/-! ## The service -/

structure Service where
  records : Records
  flights : List (Option Flight)
  /-- The child documents that were created: the investigation of each, and its own id. -/
  children : List (String × String)
  /-- The selections and decisions that were written: the investigation of each, and its receipt. -/
  applied : List (String × String)

def Service.empty : Service := { records := [], flights := [], children := [], applied := [] }

/-- The receipt that a selection or a decision writes. -/
def Call.receipt : Call → Option (String × String)
  | select id actor _ patch => some (id, selectionKey actor patch)
  | decide id _ _ input => some (id, decisionKey input)
  | _ => none

inductive Event where
  | start (call : Call)
  | resume (flight : Nat) (moment : Moment)

def Service.write (s : Service) (call : Call) : Option Write → Service
  | none => s
  | some write =>
    { s with
      records := Entries.set s.records write.value.id write.value
      children := s.children ++ (write.child.map fun child ↦ (write.value.id, child)).toList
      applied := s.applied ++ call.receipt.toList }

/-- The flight after a stretch. -/
def Flight.next (flight : Flight) : Next → Option Flight
  | .refused => none
  | .again attempt phase => some { flight with attempt, phase }
  | .answered stops =>
    match stops ++ flight.more with
    | [] => none
    | call :: more => some { call, attempt := 0, phase := .reading, more }

def step (rules : Rules) (s : Service) : Event → Option Service
  | .start call =>
    match call.task rules with
    | .error _ => none
    | .ok _ => some { s with flights := s.flights ++ [some { call, attempt := 0, phase := .reading, more := [] }] }
  | .resume i moment =>
    match s.flights[i]? with
    | some (some flight) =>
      let out := stretch rules s.records moment flight
      some { s.write flight.call out.1 with flights := s.flights.set i (flight.next out.2) }
    | _ => none

end Chopin.Investigations
