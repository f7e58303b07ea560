import Chopin.Threads.Events

/-!
# Corrections by people

A member corrects the conversation by an action that carries its own identifier (`domain-corrections.ts`).  The action
becomes an event whose identifier names the member and the action; an event of that identifier that is there already is
this action, submitted again, or another one that must not pass for it.
-/

set_option autoImplicit false
set_option linter.dupNamespace false

open Script Chopin.Mdx
open Except (demand demand_eq_ok demand_bind_eq_ok)

namespace Chopin.Threads

/-- `human:${actor.handle}:${request.actionId}` -/
def humanId (handle actionId : Units) : Units := utf16 "human:" ++ handle ++ utf16 ":" ++ actionId

/-- `"contribution" in event` -/
def Body.contribution? : Body → Option Wording
  | contributionAdded _ _ contribution => some contribution
  | _ => none

/-- What an analysis held back of a message covers the span. -/
def heldOutcome (state : State) (messageId : Units) (start stop : Nat) : Option Outcome :=
  ((state.analysis.find? (·.messageId == messageId)).bind (·.outcomes)).bind fun outcomes ↦
    outcomes.find? fun item ↦ [OutcomeStatus.review, .ignored].contains item.status && item.start ≤ start &&
      stop ≤ item.end

/-- The event is of the thread and rests on the span of the message. -/
def Event.quotes (threadId messageId : Units) (start stop : Nat) (event : Event) : Bool :=
  event.threadId == threadId && event.body.source.any fun source ↦
    source.messageId == messageId && source.start == start && source.end == stop

/-- The fields of the action's event.  `messages` finds the saved messages and `minted` is a new identifier; what is
asked of a fresh excerpt only is not asked of one that is there already. -/
def correctionBody (messages : Units → Option Entry) (minted : Units) (state : State) (request : CorrectionAction)
    (existing : Option Event) : Except String Body :=
  match request.change with
  | .addExcerpt messageId start stop contributionKind targetOptionId =>
    match messages messageId with
    | none => .error "saved excerpt message is missing"
    | some saved => do
      let quote := slice saved.text start stop
      let source : SourceRef := ⟨messageId, saved.author, quote, start, stop, contributionKind.role⟩
      validateSource source saved
      demand (!isBlank quote && quote.length ≤ 500) "invalid excerpt quote"
      demand ((heldOutcome state messageId start stop).isSome || existing.isSome)
        "excerpt has no held analysis outcome"
      match state.threads.find? (·.id == request.threadId) with
      | none => .error "excerpt target thread is not open"
      | some target =>
        demand (!target.closed || existing.isSome) "excerpt target thread is not open"
        demand (target.version == request.expectedVersion || existing.isSome) "stale conversation thread version"
        demand (existing.isSome || (truthy targetOptionId).all fun optionId ↦
          contributionKind != .option && target.hasOption optionId) "invalid excerpt target option"
        demand (existing.isSome || !state.events.any (Event.quotes request.threadId messageId start stop))
          "duplicate excerpt source"
        let contributionId := ((existing.bind (·.body.contribution?)).map (·.id)).getD minted
        .ok (.contributionAdded contributionKind (some source)
          ⟨contributionId, quote, .quoted, some (targetOptionId.getD request.threadId), none⟩)
  | .recordDecision text optionId => .ok (.decisionRecorded none text optionId true)
  | .confirmCandidate candidateId => .ok (.candidateConfirmed candidateId)
  | .rejectCandidate candidateId => .ok (.candidateRejected candidateId)
  | change => .ok (.cardCorrected change)

/-- What a person decides, they decide on the card. -/
def belongsOnCard (thread : Option Thread) (change : CorrectionChange) : Bool :=
  let carded := (thread.bind fun thread ↦ truthy thread.questionnaireId).isSome
  match change with
  | .recordDecision _ _ => true
  | .confirmCandidate candidateId => carded || thread.any fun thread ↦
      thread.candidates.any fun item ↦ item.id == candidateId && item.kind == .resolution
  | .setStatus _ => carded
  | .edit .decision _ => carded
  | _ => false

/-- An action of the member against the record. -/
def applyCorrection (lower : Units → Units) (messages : Units → Option Entry) (minted : Units) (state : State)
    (request : CorrectionAction) (handle : Units) («at» : Nat) : Except String State := do
  assertCorrectionAction request
  demand (handle != []) "correction requires a human member"
  let id := humanId handle request.actionId
  let existing := state.events.find? (·.id == id)
  let body ← correctionBody messages minted state request existing
  let event : Event := ⟨id, request.threadId, request.expectedVersion, .human, .member handle, «at», body⟩
  match existing with
  | some existing =>
    -- The time of an action is not part of it.
    demand ({ existing with «at» := 0 } == { event with «at» := 0 }) "human action ID collision"
    .ok state
  | none =>
    demand (!belongsOnCard (state.threads.find? (·.id == request.threadId)) request.change)
      "decisions are recorded on the card"
    applyEvent lower state event

end Chopin.Threads
