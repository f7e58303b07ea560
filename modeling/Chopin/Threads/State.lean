import Chopin.Lib.Utf16

/-!
# Conversation threads

The conversation is read into threads: a question, what was contributed to it, where its participants stand and
what was decided.  Accepted events are the record; the threads are what the events made of them
(`conversation-plan.d.ts`).
-/

set_option autoImplicit false
set_option linter.dupNamespace false

open Script

namespace Chopin.Threads

export Script (Units)

/-! ## Sources -/

/-- Who said something. -/
inductive Author where
  | member (handle : Units)
  | agent
  | system
deriving DecidableEq

/-- The handle of a member. -/
def Author.member? : Author → Option Units
  | .member handle => some handle
  | .agent | .system => none

/-- Who did something. -/
inductive Actor where
  | member (handle : Units)
  | agent
  | classifier
deriving DecidableEq

/-- `(actor as Member).handle` -/
def Actor.handle : Actor → Option Units
  | .member handle => some handle
  | .agent | .classifier => none

inductive SourceRole where
  | question
  | option
  | reason
  | constraint
  | support
  | objection
  | withdrawal
  | verification
  | resolution
  | reopening
deriving DecidableEq

/-- The words of a message something rests on. -/
structure SourceRef where
  messageId : Units
  author : Author
  quote : Units
  start : Nat
  «end» : Nat
  role : SourceRole
deriving DecidableEq

/-- A saved chat message; `streaming` while it is still being said. -/
structure Entry where
  id : Units
  author : Author
  text : Units
  streaming : Bool
deriving DecidableEq

/-! ## Threads -/

inductive Authoring where
  | quoted
  | scribe
  | humanEdited
deriving DecidableEq

inductive ThreadStatus where
  | exploring
  | leaning
  | decided
  | reopened
  | discarded
deriving DecidableEq

inductive ContributionKind where
  | option
  | reason
  | constraint
deriving DecidableEq

/-- The role of the source a contribution of this kind is read from. -/
def ContributionKind.role : ContributionKind → SourceRole
  | .option => .option
  | .reason => .reason
  | .constraint => .constraint

inductive Relation where
  | supports
  | challenges
  | qualifies
deriving DecidableEq

/-- `Pick<Contribution, "id" | "text" | "authoring" | "targetId" | "relation">` -/
structure Wording where
  id : Units
  text : Units
  authoring : Authoring
  targetId : Option Units
  relation : Option Relation
deriving DecidableEq

structure Contribution extends Wording where
  kind : ContributionKind
  /-- Concise card wording; the text and the sources remain the original evidence. -/
  displayLabel : Option Units
  editedBy : Option Units
  targetEditedBy : Option Units
  sources : List SourceRef
  actor : Actor
deriving DecidableEq

inductive Position where
  | support
  | oppose
  | neutral
deriving DecidableEq

structure Stance where
  id : Units
  participant : Units
  optionId : Option Units
  position : Position
  sources : List SourceRef
  «at» : Nat
  corrects : Option Units
  correctedBy : Option Units
deriving DecidableEq

structure Decision where
  id : Units
  text : Units
  optionId : Option Units
  sources : List SourceRef
  /-- The handle of the person who decided. -/
  actor : Option Units
  editedBy : Option Units
  «at» : Nat
deriving DecidableEq

inductive CandidateKind where
  | resolution
  | reopening
deriving DecidableEq

def CandidateKind.role : CandidateKind → SourceRole
  | .resolution => .resolution
  | .reopening => .reopening

inductive CandidateStatus where
  | pending
  | confirmed
  | rejected
deriving DecidableEq

structure Candidate where
  id : Units
  kind : CandidateKind
  text : Units
  sources : List SourceRef
  status : CandidateStatus
  actedBy : Option Units
deriving DecidableEq

/-- The latest proposal to settle. -/
structure PendingSettle where
  optionId : Units
  proposer : Units
  messageId : Units
deriving DecidableEq

/-- A provisional choice for a spike; `proposalId` is absent on old snapshots only. -/
structure PendingScopedChoice where
  proposalId : Option Units
  cardId : Units
  optionId : Units
  label : Units
  scope : Units
  proposer : Units
  messageId : Units
deriving DecidableEq

structure Thread where
  id : Units
  question : Units
  questionSources : List SourceRef
  questionAuthoring : Authoring
  questionEditedBy : Option Units
  status : ThreadStatus
  contributions : List Contribution
  /-- The latest explicit stance of each participant on each option. -/
  stances : List Stance
  stanceHistory : List Stance
  decision : Option Decision
  decisionHistory : List Decision
  candidates : List Candidate
  questionnaireId : Option Units
  pendingSettle : Option PendingSettle
  pendingScopedChoice : Option PendingScopedChoice
  version : Nat
deriving DecidableEq

/-- `thread.status === "decided" || thread.status === "discarded"` -/
def Thread.closed (thread : Thread) : Bool := thread.status == .decided || thread.status == .discarded

/-! ## Corrections -/

inductive EditField where
  | question
  | contribution (contributionId : Units)
  | decision
deriving DecidableEq

inductive CorrectionChange where
  | addExcerpt (messageId : Units) (start stop : Nat) (contributionKind : ContributionKind)
      (targetOptionId : Option Units)
  | edit (field : EditField) (text : Units)
  | move (contributionId targetThreadId : Units) (targetVersion : Nat)
  | setStatus (status : ThreadStatus)
  | retargetStance (stanceId : Units) (optionId : Option Units)
  | dismissStance (stanceId : Units)
  | retargetContribution (contributionId targetId : Units)
  | recordDecision (text : Units) (optionId : Option Units)
  | confirmCandidate (candidateId : Units)
  | rejectCandidate (candidateId : Units)
deriving DecidableEq

/-- `actionId` is stable across the retries of a client. -/
structure CorrectionAction where
  actionId : Units
  threadId : Units
  expectedVersion : Nat
  change : CorrectionChange
deriving DecidableEq

/-! ## Events -/

inductive Origin where
  | classifier
  | planner
  | human
deriving DecidableEq

/-- What the proposal of a provisional choice is about. -/
structure Scoped where
  cardId : Units
  optionId : Units
  label : Units
  scope : Units
deriving DecidableEq

/-- What an event carries; `scopedProposalId` is absent, null or a string. -/
inductive Body where
  | threadOpened (source : Option SourceRef) (question : Units)
  | contributionAdded (kind : ContributionKind) (source : Option SourceRef) (contribution : Wording)
  | stanceChanged (source : SourceRef) (optionId : Option Units) (scopedProposalId : Option (Option Units))
      (position : Position)
  | optionRelabeled (optionId label : Units) (observedCardRevision : Nat)
  | threadLeaning (source : SourceRef) (optionId : Option Units)
  | cardLinked (questionnaireId : Units)
  | settleSuggested (source : SourceRef) (optionId : Units)
  | settleAgreed (source : SourceRef) (optionId : Units)
  | settleDeferred (source : SourceRef) (proposalId : Units)
  | settleResumed (source : SourceRef) (proposalId deferredEventId : Units)
  | scopedChoiceProposed (source : SourceRef) (choice : Scoped)
  | scopedChoiceAgreed (source : SourceRef) (proposalId : Units) (choice : Scoped)
  | scopedChoiceSaved (proposalId : Units) (supportEventIds : Option (List Units)) (agreementId : Option Units)
      (choice : Scoped) (sources : List SourceRef) (expectedGeneration : Nat) (expectedLabel : Option Units)
  | threadDiscarded
  | decisionRecorded (source : Option SourceRef) (text : Units) (optionId : Option Units) (explicit : Bool)
  | decisionReopened (source : Option SourceRef) (explicit : Bool)
  | candidateProposed (source : SourceRef) (id : Units) (kind : CandidateKind) (text : Units)
  | candidateConfirmed (candidateId : Units)
  | candidateRejected (candidateId : Units)
  | cardCorrected (change : CorrectionChange)
deriving DecidableEq

structure Event where
  id : Units
  threadId : Units
  observedThreadVersion : Nat
  origin : Origin
  actor : Actor
  «at» : Nat
  body : Body
deriving DecidableEq

/-- `event.source`, where the type of the event has one. -/
def Body.source : Body → Option SourceRef
  | threadOpened source _ | contributionAdded _ source _ | decisionRecorded source _ _ _
  | decisionReopened source _ => source
  | stanceChanged source _ _ _ | threadLeaning source _ | settleSuggested source _ | settleAgreed source _
  | settleDeferred source _ | settleResumed source _ _ | scopedChoiceProposed source _
  | scopedChoiceAgreed source _ _ | candidateProposed source _ _ _ => some source
  | optionRelabeled _ _ _ | cardLinked _ | scopedChoiceSaved _ _ _ _ _ _ _ | threadDiscarded
  | candidateConfirmed _ | candidateRejected _ | cardCorrected _ => none

/-! ## The record -/

inductive OutcomeStatus where
  | accepted
  | review
  | ignored
deriving DecidableEq

/-- What became of a span of a message. -/
structure Outcome where
  start : Nat
  «end» : Nat
  status : OutcomeStatus
deriving DecidableEq

structure AnalysisRecord where
  messageId : Units
  outcomes : Option (List Outcome)
deriving DecidableEq

structure State where
  revision : Nat
  events : List Event
  threads : List Thread
  analysis : List AnalysisRecord
deriving DecidableEq

def initialState : State := ⟨0, [], [], []⟩

end Chopin.Threads
