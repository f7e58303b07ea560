import Chopin.Investigations.Results
import Chopin.Lib.Except
import Chopin.Lib.Utf16

/-!
# Investigations

The record of one investigation, and what each call makes of the record it read
(`packages/experiment/src/records.ts`, `experiments/service.ts`).  A call's action is a function of the
clock's readings and of the record; `service.ts` runs it on a copy, once for each attempt to write.
-/

set_option autoImplicit false

open Script (Platform units text trim bounded)

namespace Chopin.Investigations

export Script (Units)

/-! ## Records -/

/-- A prototype that was started under a passage; it is shown as a callout there. -/
structure Spike where
  digest : String
  passage : String
  callout : String
  login : String
  placed : Bool
  placing : Option Bool
  rendered : Option String
  calloutDigest : Option String
  dismissed : Option Bool
  startedAt : Option Int
  settle : Option Bool
  retries : Option Nat
  deriving DecidableEq

structure Decision where
  id : String
  view : String
  state : ViewState
  conclusion : String
  rationale : String
  «by» : String
  userId : String
  «at» : Int
  deriving DecidableEq

inductive InvestigationState where
  | requested
  | queued
  | running
  | publishing
  | completed
  | failed
  | cancelled
  | interrupted
  deriving DecidableEq

structure Investigation where
  id : String
  documentId : String
  revision : Nat
  brief : String
  buildBlocker : Option String
  requester : String
  state : InvestigationState
  connectionId : Option String
  input : Option RunInput
  generation : Nat
  expiresAt : Int
  createdAt : Int
  updatedAt : Int
  progress : Units
  parentId : Option String
  childId : Option String
  spike : Option Spike
  candidate : Option Result
  result : Option Result
  views : List (String × ViewState)
  decisions : List Decision
  receipts : List (String × String)
  deriving DecidableEq

/-- A decision as its reader gives it. -/
structure DecisionInput where
  id : String
  view : String
  revision : Nat
  conclusion : String
  rationale : String
  deriving DecidableEq

/-- What `fingerprint` is taken of. -/
inductive Digested where
  | selection (viewKey : String) (patch : SelectionPatch)
  | decision (actorId : String) (input : DecisionInput)
  deriving DecidableEq

/-- The document a result is published as. -/
structure Document where
  title : String
  source : String
  deriving DecidableEq

/-- What the calls are given: the platform, a hash, the writer of documents and the ids of channels. -/
structure Rules where
  platform : Platform
  /-- `new URL(value).protocol === "https:"` -/
  secure : String → Bool
  fingerprint : Digested → String
  /-- `investigationDocument(id, brief, result)`. -/
  investigationDocument : String → String → Result → Except Failure Document
  deterministicChannelId : String → String → String

/-! ## The record's schema -/

/-- `/^[0-7][0-9A-HJKMNP-TV-Z]{25}$/` -/
def ulid (value : String) : Bool :=
  match value.toList with
  | first :: rest =>
    ('0' ≤ first && first ≤ '7') && rest.length == 25 && rest.all fun c ↦
      digit c || ('A' ≤ c && c ≤ 'H') || c == 'J' || c == 'K' || c == 'M' || c == 'N'
        || ('P' ≤ c && c ≤ 'T') || ('V' ≤ c && c ≤ 'Z')
  | [] => false

def spikeSchema (spike : Spike) : Bool :=
  bounded 100 spike.digest && bounded 4000 spike.passage && ulid spike.callout
    && bounded 100 spike.login
    && spike.rendered.all (units · ≤ 40) && spike.calloutDigest.all (units · ≤ 100)
    && spike.startedAt.all (0 ≤ ·) && spike.retries.all (· ≤ 10)

def stateSchema (state : ViewState) : Bool :=
  state.fields.all fun entry ↦ entry.2.values.length ≤ 50 && entry.2.values.all scalarSchema

def decisionSchema (platform : Platform) (decision : Decision) : Bool :=
  platform.uuid decision.id && stateSchema decision.state
    && bounded 4000 decision.conclusion && units decision.rationale ≤ 8000

/-- A result that may be missing. -/
def optionalResult (rules : Rules) : Option Result → Option (Option Result)
  | none => some none
  | some result => (resultSchema rules.platform rules.secure result).map some

def investigationChecks (rules : Rules) (value : Investigation) : Bool :=
  rules.platform.uuid value.id && bounded 8000 value.brief
    && value.buildBlocker.all (bounded 1000)
    && value.input.all (requestSchema rules.platform)
    && value.progress.length ≤ 2000
    && value.parentId.all rules.platform.uuid && value.childId.all (bounded 96)
    && value.spike.all spikeSchema
    && value.views.all (stateSchema ·.2)
    && value.decisions.length ≤ 100 && value.decisions.all (decisionSchema rules.platform)

/-- `investigationSchema.parse(value)` -/
def investigationSchema (rules : Rules) (value : Investigation) : Option Investigation := do
  let candidate ← optionalResult rules value.candidate
  let result ← optionalResult rules value.result
  let read := { value with buildBlocker := value.buildBlocker.map trim, candidate, result }
  if investigationChecks rules read then some read else none

/-! ## Claims -/

/-- The readings of the clock in one attempt, in order. -/
abbrev Clock := Nat → Int

def CLAIM_MS : Int := 60000

/-- Work that is over, though not completed. -/
def InvestigationState.settled : InvestigationState → Bool
  | .failed | .cancelled | .interrupted => true
  | _ => false

/-- `["running", "publishing"].includes(state)` -/
def InvestigationState.held : InvestigationState → Bool
  | .running | .publishing => true
  | _ => false

/-- `["queued", "running", "publishing"].includes(state)` -/
def InvestigationState.active : InvestigationState → Bool
  | .queued | .running | .publishing => true
  | _ => false

def assertClaim (value : Investigation) (connectionId : String) (generation : Nat) (now : Int) :
    Except Failure Unit :=
  refuse (value.connectionId != some connectionId || value.generation != generation
      || value.expiresAt ≤ now || !value.state.held)
    (.coded "stale-claim")

/-! ## The calls -/

inductive Call where
  | create (documentId requester brief id : String) (spike : Option Spike) (buildBlocker : Option String)
  | setBuildBlocker (documentId id : String) (revision : Nat) (reason : Option String)
  | authorize (id connectionId : String) (input : RunInput)
  | claim (id connectionId : String)
  | renew (id connectionId : String) (generation : Nat) (progress : Option Units)
  | candidate (id connectionId : String) (generation : Nat) (result : Submission)
  | complete (id connectionId : String) (generation : Nat)
  /-- The state is one of the settled ones; `allowed` is checked on the record that is written. -/
  | stop (id : String) (state : InvestigationState) (settled : state.settled = true) (progress : Units)
      (allowed : Investigation → Except Failure Unit)
  | failClaim (id connectionId : String) (generation : Nat) (error : Units)
  | retry (id : String)
  | retrySpike (id : String)
  | recover (all : Bool)
  | select (id actor viewKey : String) (patch : SelectionPatch)
  | decide (id actorId login : String) (input : DecisionInput)
  /-- `mutate` as the host and the settler of spikes call it: on the record's spike only. -/
  | mark (id : String) (edit : Spike → Spike)

/-- `action(value)`, on the record an attempt read. -/
abbrev Action := Clock → Investigation → Except Failure Investigation

/-- What a call that passed its own checks goes on to attempt. -/
inductive Task where
  | create (documentId requester brief id : String) (spike : Option Spike) (buildBlocker : Option String)
  | mutate (id : String) (action : Action)
  | complete (id connectionId : String) (generation : Nat)
  | recover (all : Bool)

/-- A record as it is created. -/
def created (documentId requester brief id : String) (spike : Option Spike) (buildBlocker : Option String)
    (clock : Clock) : Investigation :=
  { id, documentId, requester, brief
    buildBlocker := if buildBlocker = some "" then none else buildBlocker
    spike, revision := 0, state := .requested, connectionId := none, input := none, generation := 0
    expiresAt := 0, createdAt := clock 0, updatedAt := clock 0, progress := [], parentId := none
    childId := none, candidate := none, result := none, views := [], decisions := [], receipts := [] }

/-! ## The actions -/

def settingBlocker (documentId : String) (revision : Nat) (reason : Option String) : Action :=
  fun _ value ↦ do
    refuse (value.documentId != documentId || value.spike.isSome) (.coded "not-found")
    if value.buildBlocker = reason then .ok value
    else do
      refuse (value.revision != revision) (.coded "revision-conflict")
      .ok { value with buildBlocker := reason }

def authorizing (connectionId : String) (input : RunInput) : Action := fun _ value ↦
  if value.connectionId = some connectionId ∧ value.input = some input then .ok value
  else do
    refuse (value.state != .requested || input.id != value.id || input.documentId != value.documentId
        || input.brief != value.brief || input.requester != value.requester)
      (.coded "invalid-state")
    .ok { value with input := some input, connectionId := some connectionId, state := .queued }

def claiming (connectionId : String) : Action := fun clock value ↦ do
  refuse (value.connectionId != some connectionId) (.coded "connection-forbidden")
  if value.state = .running ∧ clock 0 < value.expiresAt then .ok value
  else do
    refuse (value.state != .queued) (.coded "invalid-state")
    .ok { value with
      generation := value.generation + 1
      expiresAt := clock 1 + CLAIM_MS
      state := .running
      spike := value.spike.map fun spike ↦ { spike with startedAt := some (clock 2) } }

def renewing (connectionId : String) (generation : Nat) (progress : Option Units) : Action :=
  fun clock value ↦ do
    assertClaim value connectionId generation (clock 0)
    .ok { value with
      expiresAt := clock 1 + CLAIM_MS
      progress := (progress.map (List.take 2000)).getD value.progress }

def proposing (rules : Rules) (connectionId : String) (generation : Nat) (parsed : Result) : Action :=
  fun clock value ↦ do
    assertClaim value connectionId generation (clock 0)
    -- Completion must not fail on content, so the child document is proven here.
    let _ ← rules.investigationDocument value.id value.brief parsed
    .ok { value with candidate := some parsed, state := .publishing }

def stopping (state : InvestigationState) (progress : Units)
    (allowed : Investigation → Except Failure Unit) : Action := fun _ value ↦
  if value.state = .completed ∨ value.state.settled = true then .ok value
  else do
    allowed value
    .ok { value with
      -- Removing a proposal withdraws its requirement; stopping execution does not.
      buildBlocker := if state = .cancelled ∧ value.state = .requested then none else value.buildBlocker
      state, progress := progress.take 2000, expiresAt := 0, candidate := none }

def failing (connectionId : String) (generation : Nat) (error : Units) : Action := fun clock value ↦
  if value.state = .failed ∧ value.connectionId = some connectionId ∧ value.generation = generation
      ∧ value.progress = error.take 2000 then .ok value
  else do
    assertClaim value connectionId generation (clock 0)
    .ok { value with state := .failed, progress := error.take 2000, expiresAt := 0, candidate := none }

def retrying : Action := fun _ value ↦
  if value.state = .requested then .ok value
  else do
    refuse (!value.state.settled) (.coded "invalid-state")
    .ok { value with
      state := .requested, progress := [], expiresAt := 0, connectionId := none, candidate := none }

def retryingSpike : Action := fun _ value ↦
  match value.spike with
  | none => .error (.coded "invalid-state")
  | some spike => do
    refuse (value.state != .interrupted || spike.dismissed == some true) (.coded "invalid-state")
    .ok { value with
      state := .requested, progress := [], expiresAt := 0
      spike := some { spike with retries := some (spike.retries.getD 0 + 1) }
      connectionId := none, input := none, candidate := none }

/-- `` `selection:${actor}:${patch.mutationId}` `` -/
def selectionKey (actor : String) (patch : SelectionPatch) : String :=
  "selection:" ++ actor ++ ":" ++ patch.mutationId

/-- `` `decision:${input.id}` `` -/
def decisionKey (input : DecisionInput) : String := "decision:" ++ input.id

/-- A receipt that is there already answers the call, if it is for the same request. -/
def receipted (value : Investigation) (receipt digest : String) (otherwise : Except Failure Investigation) :
    Except Failure Investigation :=
  match value.receipts.lookup receipt with
  | some found => do
    refuse (found != digest) (.coded "idempotency-conflict")
    .ok value
  | none => otherwise

def selecting (rules : Rules) (actor viewKey : String) (patch : SelectionPatch) : Action := fun _ value ↦
  let receipt := selectionKey actor patch
  let digest := rules.fingerprint (.selection viewKey patch)
  receipted value receipt digest do
    refuse (2048 ≤ value.receipts.length) (.coded "selection-limit")
    let view := value.result.bind fun result ↦ result.views.find? (·.key == viewKey)
    let dataset := value.result.bind fun result ↦
      result.datasets.find? fun dataset ↦ view.any (·.datasetKey == dataset.key)
    refuse (value.state != .completed || view.isNone) (.coded "not-ready")
    match dataset, value.views.lookup viewKey with
    | none, _ => .error (.coded "not-ready")
    | some _, none => .error .invalid
    | some dataset, some state => do
      let next ← applySelection state dataset patch
      .ok { value with
        views := Entries.set value.views viewKey next
        receipts := Entries.set value.receipts receipt digest }

def deciding (rules : Rules) (actorId login : String) (input : DecisionInput) : Action := fun clock value ↦
  let receipt := decisionKey input
  let digest := rules.fingerprint (.decision actorId input)
  receipted value receipt digest do
    refuse (100 ≤ value.decisions.length || 2048 ≤ value.receipts.length) (.coded "decision-limit")
    match value.result, value.views.lookup input.view with
    | some _, some state => do
      refuse (state.revision != input.revision)
        (.experiment "selection-conflict"
          "Shared selections changed. Review them before recording a decision.")
      .ok { value with
        decisions := value.decisions ++ [{
          id := input.id, view := input.view, state, conclusion := input.conclusion
          rationale := input.rationale, «by» := login, userId := actorId, «at» := clock 0 }]
        receipts := Entries.set value.receipts receipt digest }
    | _, _ => .error (.coded "not-ready")

def marking (edit : Spike → Spike) : Action := fun _ value ↦
  match value.spike with
  | none => .error .invalid
  | some spike => .ok { value with spike := some (edit spike) }

/-- The decision's reader trims its conclusion. -/
def DecisionInput.trimmed (input : DecisionInput) : DecisionInput :=
  { input with conclusion := trim input.conclusion }

def decisionInputSchema (platform : Platform) (input : DecisionInput) : Bool :=
  platform.uuid input.id && bounded 64 input.view && bounded 4000 input.conclusion
    && units input.rationale ≤ 8000

/-- What a call tests before it reads the record, and what it then attempts. -/
def Call.task (rules : Rules) : Call → Except Failure Task
  | create documentId requester brief id spike buildBlocker =>
    .ok (.create documentId requester brief id spike buildBlocker)
  | setBuildBlocker documentId id revision reason => do
    refuse (reason.any fun reason ↦ !text reason || 1000 < units reason) (.coded "invalid-reason")
    .ok (.mutate id (settingBlocker documentId revision reason))
  | authorize id connectionId input => do
    refuse (!requestSchema rules.platform input) .invalid
    .ok (.mutate id (authorizing connectionId input))
  | claim id connectionId => .ok (.mutate id (claiming connectionId))
  | renew id connectionId generation progress => .ok (.mutate id (renewing connectionId generation progress))
  | candidate id connectionId generation result => do
    let parsed ← parseResult rules.platform rules.secure result
    .ok (.mutate id (proposing rules connectionId generation parsed))
  | complete id connectionId generation => .ok (.complete id connectionId generation)
  | stop id state _ progress allowed => .ok (.mutate id (stopping state progress allowed))
  | failClaim id connectionId generation error => .ok (.mutate id (failing connectionId generation error))
  | retry id => .ok (.mutate id retrying)
  | retrySpike id => .ok (.mutate id retryingSpike)
  | recover all => .ok (.recover all)
  | select id actor viewKey patch => do
    refuse (!selectionPatchSchema rules.platform patch) .invalid
    .ok (.mutate id (selecting rules actor viewKey patch))
  | decide id actorId login input => do
    refuse (!decisionInputSchema rules.platform input.trimmed) .invalid
    .ok (.mutate id (deciding rules actorId login input.trimmed))
  | mark id edit => .ok (.mutate id (marking edit))

end Chopin.Investigations
