import Chopin.Lib.Entries
import Chopin.Threads.State

/-!
# Support for a provisional choice

A member may propose a choice for a spike; others agree to it, and anyone takes their support back by saying so
(`event-support.ts`).  Who supports a proposal is read off the accepted events each time it is asked.
-/

set_option autoImplicit false
set_option linter.dupNamespace false

open Script

namespace Chopin.Threads

/-- `value` where the language takes it for true. -/
def truthy (value : Option Units) : Option Units := value.filter (· != [])

/-- `Extract<Event, { type: "scoped-choice.proposed" }>` -/
structure Proposal where
  event : Event
  source : SourceRef
  choice : Scoped
  body : event.body = .scopedChoiceProposed source choice
deriving DecidableEq

/-- The event as a proposal. -/
def Event.proposal? (event : Event) : Option Proposal :=
  match h : event.body with
  | .scopedChoiceProposed source choice => some ⟨event, source, choice, h⟩
  | _ => none

/-- The proposal is one that the flag of the thread may have been set by. -/
def Proposal.sets (proposal : Proposal) (threadId : Units) (pending : PendingScopedChoice) : Bool :=
  proposal.event.threadId == threadId && proposal.choice.cardId == pending.cardId &&
    proposal.choice.optionId == pending.optionId && proposal.choice.label == pending.label &&
    proposal.choice.scope == pending.scope && proposal.source.messageId == pending.messageId &&
    proposal.source.author == .member pending.proposer

def currentScopedProposal (thread : Thread) (events : List Event) : Option Proposal :=
  match thread.pendingScopedChoice with
  | none => none
  | some pending =>
    let found := (events.filterMap Event.proposal?).filter (·.sets thread.id pending)
    match truthy pending.proposalId with
    | some proposalId => found.find? (·.event.id == proposalId)
    | none => if found.length = 1 then found.head? else none

/-- An absent link preserves previously persisted optionless stance behavior. -/
def targetsScopedProposal (stanceOption : Option Units) (scopedProposalId : Option (Option Units))
    (position : Position) (proposalId : Option Units) (optionId : Units) : Bool :=
  if position = .support ∨ scopedProposalId = some none then false
  else if stanceOption ≠ none ∧ stanceOption ≠ some optionId then false
  else scopedProposalId.isNone || scopedProposalId == some proposalId

/-- One event, in the order of the history; `proposer` made the proposal. -/
def hearSupport (proposal : Proposal) (proposer : Units) (active : List (Units × Event)) (item : Event) :
    List (Units × Event) :=
  if item.id = proposal.event.id then Entries.set active proposer proposal.event
  else match item.body with
    | .scopedChoiceAgreed source proposalId choice =>
      match source.author.member? with
      | some handle =>
        if item.threadId = proposal.event.threadId ∧ proposalId = proposal.event.id ∧ choice = proposal.choice then
          Entries.set (Entries.delete active handle) handle item
        else active
      | none => active
    | .stanceChanged source optionId scopedProposalId position =>
      match source.author.member? with
      | some handle =>
        if item.threadId = proposal.event.threadId ∧
            targetsScopedProposal optionId scopedProposalId position (some proposal.event.id)
              proposal.choice.optionId then Entries.delete active handle
        else active
      | none => active
    | _ => active

/-- The map of supporters, in the order of the history. -/
def scopedSupporters (events : List Event) (proposal : Proposal) : List (Units × Event) :=
  match events.findIdx? (·.id == proposal.event.id), proposal.source.author.member? with
  | some start, some proposer => (events.drop start).foldl (hearSupport proposal proposer) []
  | _, _ => []

/-- Accepted support in event order, with each member's latest active source. -/
def activeScopedSupport (events : List Event) (proposal : Proposal) : List Event :=
  (scopedSupporters events proposal).map Prod.snd

/-- A deferral: its event and the proposal it defers. -/
structure Deferral where
  id : Units
  proposalId : Units
deriving DecidableEq

/-- The event as a deferral in a thread. -/
def Event.deferral? (threadId : Units) (event : Event) : Option Deferral :=
  match event.body with
  | .settleDeferred _ proposalId => if event.threadId = threadId then some ⟨event.id, proposalId⟩ else none
  | _ => none

/-- The event takes a deferral in a thread off. -/
def Event.resumes (threadId : Units) (deferred : Deferral) (event : Event) : Bool :=
  match event.body with
  | .settleResumed _ proposalId deferredEventId =>
    event.threadId == threadId && proposalId == deferred.proposalId && deferredEventId == deferred.id
  | _ => false

/-- A later suggestion cannot override an unmet verification gate. -/
def activeSettleDeferral (thread : Thread) (events : List Event) : Option Deferral :=
  if thread.closed then none
  else match events.reverse.findSome? (Event.deferral? thread.id) with
    | none => none
    | some deferred => if events.any (Event.resumes thread.id deferred) then none else some deferred

end Chopin.Threads
