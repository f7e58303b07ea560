import Chopin.Threads.Shapes
import Chopin.Threads.Support

/-!
# Applying an event

An accepted event changes the thread it names, and a move also the thread it moves to (`events.ts`,
`event-contributions.ts`, `event-lifecycle.ts`, `event-settlement.ts`, `event-corrections.ts`).  A refused one changes
nothing: the caller keeps the state it had.
-/

set_option autoImplicit false
set_option linter.dupNamespace false

open Script Chopin.Mdx
open Except (demand demand_eq_ok demand_bind_eq_ok)

namespace Chopin.Threads

/-- The thread has an option of this identifier. -/
def Thread.hasOption (thread : Thread) (optionId : Units) : Bool :=
  thread.contributions.any fun item ↦ item.id == optionId && item.kind == .option

/-! ## Contributions -/

/-- `option.added`, `reason.added`, `constraint.added` -/
def addContribution (next : State) (thread : Thread) (event : Event) (kind : ContributionKind)
    (source : Option SourceRef) (contribution : Wording) : Except String Thread := do
  demand (source.all (·.role == kind.role)) "contribution source role disagrees"
  demand (event.origin == .human || contribution.authoring != .humanEdited) "inference cannot claim human wording"
  demand (contribution.authoring != .quoted || source.all (·.quote == contribution.text))
    "quoted wording must match source"
  demand (!next.threads.any fun item ↦ item.contributions.any (·.id == contribution.id)) "duplicate contribution ID"
  demand (thread.contributions.length < MAX_CONTRIBUTIONS) "conversation thread contribution limit reached"
  demand ((truthy contribution.targetId).all fun targetId ↦
    targetId == thread.id || thread.contributions.any (·.id == targetId)) "unknown contribution target"
  .ok { thread with
    contributions := thread.contributions ++
      [{ contribution with
          kind, sources := source.toList, actor := event.actor, displayLabel := none, editedBy := none,
          targetEditedBy := none }] }

/-- The role of the source a position is read from. -/
def Position.role : Position → SourceRole
  | .support => .support
  | .oppose => .objection
  | .neutral => .withdrawal

/-- The flag after a stance: cleared by the stance that leaves the proposal without support. -/
def pendingAfterStance (next : State) (thread : Thread) (event : Event) (optionId : Option Units)
    (scopedProposalId : Option (Option Units)) (position : Position) : Option PendingScopedChoice :=
  match currentScopedProposal thread next.events with
  | none => thread.pendingScopedChoice
  | some proposal =>
    if targetsScopedProposal optionId scopedProposalId position (some proposal.event.id) proposal.choice.optionId &&
        (activeScopedSupport (next.events ++ [event]) proposal).length == 0 then none
    else thread.pendingScopedChoice

/-- `stance.changed` -/
def changeStance (next : State) (thread : Thread) (event : Event) (source : SourceRef) (optionId : Option Units)
    (scopedProposalId : Option (Option Units)) (position : Position) : Except String Thread :=
  match source.author.member? with
  | none => .error "human member required for stance"
  | some participant => do
    demand ((truthy optionId).all thread.hasOption) "unknown stance option"
    demand (source.role == position.role) "stance source role disagrees"
    let stance : Stance := ⟨event.id, participant, optionId, position, [source], event.at, none, none⟩
    .ok { thread with
      stanceHistory := thread.stanceHistory ++ [stance]
      stances := (thread.stances.filter fun item ↦
        item.participant != stance.participant || item.optionId != stance.optionId) ++ [stance]
      pendingScopedChoice := pendingAfterStance next thread event optionId scopedProposalId position }

/-- `option.relabeled` -/
def relabelOption (lower : Units → Units) (thread : Thread) (optionId label : Units) : Except String Thread := do
  demand ((truthy thread.questionnaireId).isSome && !thread.closed) "option's decision is not open and linked"
  let isOption : Contribution → Bool := fun item ↦ item.kind == .option && item.id == optionId
  match thread.contributions.find? isOption with
  | none => .error "unknown relabel option"
  | some option => do
    demand (!(option.displayLabel == some label || ((truthy option.displayLabel).isNone && option.text == label)))
      "option label is unchanged"
    demand (!thread.contributions.any fun item ↦ item.kind == .option && item.id != option.id &&
      lower (trimUnits (item.displayLabel.getD item.text)) == lower label) "duplicate option label"
    .ok { thread with
      contributions := thread.contributions.modify (thread.contributions.findIdx isOption) fun item ↦
        { item with displayLabel := some label } }

def applyContributionEvent (lower : Units → Units) (next : State) (thread : Thread) (event : Event) :
    Except String Thread :=
  match event.body with
  | .contributionAdded kind source contribution => addContribution next thread event kind source contribution
  | .stanceChanged source optionId scopedProposalId position =>
    changeStance next thread event source optionId scopedProposalId position
  | .optionRelabeled optionId label _ => relabelOption lower thread optionId label
  | _ => .ok thread

/-! ## Decisions -/

/-- The proposals the thread was waiting on are settled. -/
def Thread.settle (thread : Thread) : Thread :=
  { thread with pendingSettle := none, pendingScopedChoice := none }

/-- The decision is the thread's. -/
def Thread.decide (thread : Thread) (decision : Decision) : Thread :=
  { thread with
    decision := some decision, decisionHistory := thread.decisionHistory ++ [decision], status := .decided }

/-- `thread.leaning` -/
def leanThread (thread : Thread) (optionId : Option Units) : Except String Thread := do
  demand (!thread.closed) "cannot infer leaning over a closed thread"
  let supporters := (thread.stances.filter fun item ↦
    item.position == .support && item.optionId == optionId).map (·.participant)
  demand (2 ≤ supporters.dedup.length) "leaning needs several participant stances"
  .ok { thread with status := .leaning }

/-- The source is a member's, in the role. -/
def stated (source : Option SourceRef) (role : SourceRole) : Bool :=
  source.any fun source ↦ source.author.member?.isSome && source.role == role

/-- `decision.recorded` -/
def recordDecision (thread : Thread) (event : Event) (source : Option SourceRef) (text : Units)
    (optionId : Option Units) : Except String Thread := do
  demand (thread.status != .discarded) "thread is discarded"
  demand (thread.status != .decided) "decision must be reopened first"
  demand (event.origin == .human || stated source .resolution) "decision requires explicit human resolution"
  demand ((truthy optionId).all thread.hasOption) "unknown decision option"
  demand (event.origin == .human || !thread.stances.any fun item ↦ item.position == .oppose &&
    ((truthy item.optionId).isNone || item.optionId == optionId)) "contradictory stance needs human resolution"
  let actor := if event.origin = .human then event.actor.handle else source.bind (·.author.member?)
  .ok (thread.decide ⟨event.id, text, optionId, source.toList, actor, none, event.at⟩).settle

/-- `decision.reopened` -/
def reopenDecision (thread : Thread) (event : Event) (source : Option SourceRef) : Except String Thread := do
  demand (thread.status == .decided) "only a decided thread can reopen"
  demand (event.origin == .human || stated source .reopening) "reopening requires explicit human statement"
  .ok { thread with decision := none, status := .reopened }.settle

/-- `candidate.proposed` -/
def proposeCandidate (thread : Thread) (source : SourceRef) (id : Units) (kind : CandidateKind) (text : Units) :
    Except String Thread := do
  demand (source.role == kind.role) "candidate source role disagrees"
  demand (!thread.candidates.any (·.id == id)) "duplicate candidate ID"
  demand ((kind == .reopening) == (thread.status == .decided)) "candidate does not match thread status"
  .ok { thread with candidates := thread.candidates ++ [⟨id, kind, text, [source], .pending, none⟩] }

/-- The candidate as it is once a person acted on it. -/
def Thread.actOn (thread : Thread) (event : Event) (candidateId : Units) (status : CandidateStatus) : Thread :=
  { thread with
    candidates := thread.candidates.modify (thread.candidates.findIdx (·.id == candidateId)) fun item ↦
      { item with status, actedBy := event.actor.handle } }

/-- `candidate.confirmed` -/
def confirmCandidate (thread : Thread) (event : Event) (candidateId : Units) : Except String Thread :=
  match thread.candidates.find? (·.id == candidateId) with
  | none => .error "candidate is not pending"
  | some candidate => do
    demand (candidate.status == .pending) "candidate is not pending"
    demand ((candidate.kind == .reopening) == (thread.status == .decided)) "candidate no longer matches thread status"
    let acted := thread.actOn event candidateId .confirmed
    match candidate.kind with
    | .resolution =>
      .ok (acted.decide
        ⟨event.id, candidate.text, none, candidate.sources, event.actor.handle, none, event.at⟩).settle
    | .reopening => .ok { acted with decision := none, status := .reopened }.settle

/-- `candidate.rejected` -/
def rejectCandidate (thread : Thread) (event : Event) (candidateId : Units) : Except String Thread :=
  match thread.candidates.find? (·.id == candidateId) with
  | none => .error "candidate is not pending"
  | some candidate => do
    demand (candidate.status == .pending) "candidate is not pending"
    .ok (thread.actOn event candidateId .rejected)

/-- `card.linked` -/
def linkCard (thread : Thread) (questionnaireId : Units) : Except String Thread := do
  demand (truthy thread.questionnaireId).isNone "thread already has a card"
  .ok { thread with questionnaireId := some questionnaireId }

def applyLifecycleEvent (thread : Thread) (event : Event) : Except String Thread :=
  match event.body with
  | .threadLeaning _ optionId => leanThread thread optionId
  | .decisionRecorded source text optionId _ => recordDecision thread event source text optionId
  | .decisionReopened source _ => reopenDecision thread event source
  | .candidateProposed source id kind text => proposeCandidate thread source id kind text
  | .candidateConfirmed candidateId => confirmCandidate thread event candidateId
  | .candidateRejected candidateId => rejectCandidate thread event candidateId
  | .cardLinked questionnaireId => linkCard thread questionnaireId
  | .threadDiscarded => .ok { thread with status := .discarded }.settle
  | _ => .ok thread

/-! ## Settling -/

/-- `settle.suggested` -/
def suggestSettle (next : State) (thread : Thread) (source : SourceRef) (optionId : Units) : Except String Thread := do
  demand (source.role == .resolution) "settle source role disagrees"
  match source.author.member? with
  | none => .error "human member required to settle"
  | some proposer =>
    demand (!thread.closed) "thread is not open for settling"
    demand (thread.hasOption optionId) "unknown settle option"
    .ok (if (activeSettleDeferral thread next.events).isNone then
      { thread with pendingSettle := some ⟨optionId, proposer, source.messageId⟩ } else thread)

/-- `settle.agreed` -/
def agreeSettle (thread : Thread) (source : SourceRef) (optionId : Units) : Except String Thread := do
  demand (source.role == .support) "agreement source role disagrees"
  match thread.pendingSettle with
  | none => .error "no pending proposal to settle"
  | some pending =>
    demand (pending.optionId == optionId) "agreement names another option"
    demand (source.author.member?.any (· != pending.proposer)) "agreement needs another member"
    .ok thread

/-- The event is the suggestion the thread is waiting on. -/
def Event.suggests (thread : Thread) (pending : PendingSettle) (event : Event) : Bool :=
  match event.body with
  | .settleSuggested source optionId =>
    event.threadId == thread.id && optionId == pending.optionId && source.messageId == pending.messageId &&
      source.author == .member pending.proposer
  | _ => false

/-- `item.type === "settle.suggested" && item.threadId === thread.id` -/
def Event.isSuggestion (thread : Thread) (event : Event) : Bool :=
  match event.body with
  | .settleSuggested _ _ => event.threadId == thread.id
  | _ => false

/-- The event is the stance, in the words of the source, that takes the proposer's own suggestion back. -/
def Event.retracts (thread : Thread) (pending : PendingSettle) (messageId : Units) (event : Event) : Bool :=
  match event.body with
  | .stanceChanged source optionId _ position =>
    event.threadId == thread.id && source.messageId == messageId && source.author == .member pending.proposer &&
      optionId == some pending.optionId && position == .neutral
  | _ => false

/-- `settle.deferred` -/
def deferSettle (next : State) (thread : Thread) (source : SourceRef) (proposalId : Units) : Except String Thread :=
  match thread.pendingSettle,
    next.events.find? fun item ↦ item.id == proposalId && item.isSuggestion thread with
  | some pending, some proposal => do
    demand (proposal.suggests thread pending && source.author == .member pending.proposer &&
      next.events.any (Event.retracts thread pending source.messageId) &&
      (activeSettleDeferral thread next.events).isNone) "deferral does not target the active proposal"
    .ok thread
  | _, _ => .error "deferral does not target the active proposal"

/-- `settle.resumed` -/
def resumeSettle (next : State) (thread : Thread) (source : SourceRef) (proposalId deferredEventId : Units) :
    Except String Thread := do
  demand (activeSettleDeferral thread next.events == some ⟨deferredEventId, proposalId⟩ &&
    thread.pendingSettle.isSome && source.author.member?.isSome) "verification does not target the active deferral"
  .ok thread

/-- `scoped-choice.proposed` -/
def proposeScoped (thread : Thread) (event : Event) (source : SourceRef) (choice : Scoped) : Except String Thread :=
  match source.author.member? with
  | none => .error "scoped choice needs an open linked card"
  | some proposer => do
    demand (!thread.closed && thread.questionnaireId == some choice.cardId) "scoped choice needs an open linked card"
    .ok { thread with
      pendingScopedChoice := some
        ⟨some event.id, choice.cardId, choice.optionId, choice.label, utf16 "spike", proposer, source.messageId⟩ }

/-- The pending choice is this one. -/
def PendingScopedChoice.isFor (pending : PendingScopedChoice) (choice : Scoped) : Bool :=
  pending.cardId == choice.cardId && pending.optionId == choice.optionId && pending.label == choice.label &&
    pending.scope == choice.scope

/-- `scoped-choice.agreed` -/
def agreeScoped (next : State) (thread : Thread) (source : SourceRef) (proposalId : Units) (choice : Scoped) :
    Except String Thread :=
  match thread.pendingScopedChoice, currentScopedProposal thread next.events with
  | some pending, some proposal => do
    demand (!thread.closed && proposal.event.id == proposalId &&
      (pending.proposalId.isNone || pending.proposalId == some proposalId) &&
      thread.questionnaireId == some choice.cardId && pending.isFor choice &&
      source.author.member?.any (· != pending.proposer))
      "scoped choice agreement does not match the current proposal"
    .ok thread
  | _, _ => .error "scoped choice agreement does not match the current proposal"

/-- The event is a saved choice of the proposal. -/
def Event.saves (proposalId : Units) (event : Event) : Bool :=
  match event.body with
  | .scopedChoiceSaved saved _ _ _ _ _ _ => saved == proposalId
  | _ => false

/-- The event is an agreement. -/
def Event.isAgreement (event : Event) : Bool :=
  match event.body with
  | .scopedChoiceAgreed _ _ _ => true
  | _ => false

/-- The event is an agreement in the thread to the proposal, for the choice. -/
def Event.agreesTo (thread : Thread) (proposal : Proposal) (choice : Scoped) (event : Event) : Bool :=
  match event.body with
  | .scopedChoiceAgreed _ agreed its => agreed == proposal.event.id && event.threadId == thread.id && its == choice
  | _ => false

/-- The saved sources are those of the members who support the proposal now. -/
def lineageMatches (active : List Event) (proposal : Proposal) (supportEventIds : Option (List Units))
    (agreement : Option Event) (sources : List SourceRef) : Bool :=
  active != [] && sources == active.filterMap (·.body.source) && active.map (·.id) ==
    supportEventIds.getD (proposal.event.id :: ((agreement.filter Event.isAgreement).map (·.id)).toList)

/-- `scoped-choice.saved` -/
def saveScoped (next : State) (thread : Thread) (proposalId : Units) (supportEventIds : Option (List Units))
    (agreementId : Option Units) (choice : Scoped) (sources : List SourceRef) : Except String Thread :=
  match thread.pendingScopedChoice, currentScopedProposal thread next.events with
  | some pending, some proposal => do
    let agreement := (truthy agreementId).bind fun agreementId ↦ next.events.find? (·.id == agreementId)
    demand (!thread.closed && proposal.event.id == proposalId && thread.questionnaireId == some choice.cardId &&
      pending.isFor choice && !next.events.any (Event.saves proposalId) &&
      lineageMatches (activeScopedSupport next.events proposal) proposal supportEventIds agreement sources &&
      (agreementId.isNone || agreement.any (Event.agreesTo thread proposal choice)))
      "saved scoped choice does not match the current proposal"
    .ok thread
  | _, _ => .error "saved scoped choice does not match the current proposal"

def applySettlementEvent (next : State) (thread : Thread) (event : Event) : Except String Thread :=
  match event.body with
  | .settleSuggested source optionId => suggestSettle next thread source optionId
  | .settleAgreed source optionId => agreeSettle thread source optionId
  | .settleDeferred source proposalId => deferSettle next thread source proposalId
  | .settleResumed source proposalId deferredEventId => resumeSettle next thread source proposalId deferredEventId
  | .scopedChoiceProposed source choice => proposeScoped thread event source choice
  | .scopedChoiceAgreed source proposalId choice => agreeScoped next thread source proposalId choice
  | .scopedChoiceSaved proposalId supportEventIds agreementId choice sources _ _ =>
    saveScoped next thread proposalId supportEventIds agreementId choice sources
  | _ => .ok thread

/-! ## Corrections -/

/-- A person's edit. -/
def editThread (thread : Thread) (event : Event) (field : EditField) (text : Units) : Except String Thread :=
  match field with
  | .question =>
    .ok { thread with question := text, questionAuthoring := .humanEdited, questionEditedBy := event.actor.handle }
  | .contribution contributionId => do
    demand (thread.contributions.any (·.id == contributionId)) "unknown contribution"
    .ok { thread with
      contributions := thread.contributions.modify (thread.contributions.findIdx (·.id == contributionId))
        fun item ↦ { item with text, authoring := .humanEdited, editedBy := event.actor.handle } }
  | .decision =>
    match thread.decision with
    | none => .error "no current decision"
    | some decision =>
      let edit : Decision → Decision := fun item ↦ { item with text, editedBy := event.actor.handle }
      .ok { thread with
        decision := some (edit decision)
        decisionHistory :=
          thread.decisionHistory.modify (thread.decisionHistory.findIdx (·.id == decision.id)) edit }

/-- An option that something refers to does not move alone. -/
def Thread.refersTo (thread : Thread) (contribution : Contribution) : Bool :=
  thread.stanceHistory.any (·.optionId == some contribution.id) ||
    thread.contributions.any (·.targetId == some contribution.id) ||
    thread.decisionHistory.any (·.optionId == some contribution.id)

/-- A thread written over the one of its identifier. -/
def setThread (threads : List Thread) (thread : Thread) : List Thread :=
  threads.set (threads.findIdx (·.id == thread.id)) thread

/-- The thread and all the threads after a move. -/
def moveContribution (next : State) (thread : Thread) (contributionId targetThreadId : Units) (targetVersion : Nat) :
    Except String (Thread × List Thread) :=
  match next.threads.find? (·.id == targetThreadId) with
  | none => .error "stale target thread version"
  | some target => do
    demand (target.id != thread.id && target.version == targetVersion) "stale target thread version"
    demand (target.contributions.length < MAX_CONTRIBUTIONS) "conversation thread contribution limit reached"
    match thread.contributions.find? (·.id == contributionId) with
    | none => .error "unknown contribution"
    | some contribution =>
      demand (contribution.kind != .option || !thread.refersTo contribution) "referenced option cannot move alone"
      .ok ({ thread with
            contributions :=
              thread.contributions.eraseIdx (thread.contributions.findIdx (·.id == contributionId)) },
        setThread next.threads
          { target with
            contributions := target.contributions ++ [{ contribution with targetId := some target.id }]
            version := target.version + 1 })

/-- A stance is put on another option. -/
def retargetStance (thread : Thread) (event : Event) (stanceId : Units) (optionId : Option Units) :
    Except String Thread :=
  match thread.stances.find? (·.id == stanceId) with
  | none => .error "stance is not current"
  | some stance => do
    demand (optionId.all thread.hasOption) "unknown stance option"
    demand (stance.optionId != optionId) "stance target is unchanged"
    demand (!thread.stances.any fun item ↦ item.id != stance.id && item.participant == stance.participant &&
      item.optionId == optionId) "participant already has a current stance on target"
    let corrected := { stance with
      id := event.id, optionId, corrects := some stance.id, correctedBy := event.actor.handle }
    .ok { thread with
      stances := thread.stances.set (thread.stances.findIdx (·.id == stanceId)) corrected
      stanceHistory := thread.stanceHistory ++ [corrected] }

/-- A stance is taken off. -/
def dismissStance (thread : Thread) (stanceId : Units) : Except String Thread := do
  demand (thread.stances.any (·.id == stanceId)) "stance is not current"
  .ok { thread with stances := thread.stances.eraseIdx (thread.stances.findIdx (·.id == stanceId)) }

/-- A reason or a constraint is put under another option, or under the thread. -/
def retargetContribution (thread : Thread) (event : Event) (contributionId targetId : Units) :
    Except String Thread :=
  match thread.contributions.find? (·.id == contributionId) with
  | none => .error "target correction requires a reason or constraint"
  | some contribution => do
    demand (contribution.kind != .option) "target correction requires a reason or constraint"
    demand (targetId == thread.id || thread.hasOption targetId) "unknown contribution target"
    demand (contribution.targetId != some targetId) "contribution target is unchanged"
    .ok { thread with
      contributions := thread.contributions.modify (thread.contributions.findIdx (·.id == contributionId))
        fun item ↦ { item with targetId := some targetId, targetEditedBy := event.actor.handle } }

/-- `set-status` -/
def correctStatus (thread : Thread) (status : ThreadStatus) : Except String Thread := do
  demand (status != .reopened || (thread.status == .decided && thread.decision.isSome))
    "only a decided thread can reopen"
  .ok { thread with status, decision := none }

def applyCorrectionEvent (next : State) (thread : Thread) (event : Event) : Except String (Thread × List Thread) :=
  match event.body with
  | .cardCorrected change =>
    match change with
    | .edit field text => (editThread thread event field text).map (·, next.threads)
    | .setStatus status => (correctStatus thread status).map (·, next.threads)
    | .move contributionId targetThreadId targetVersion =>
      moveContribution next thread contributionId targetThreadId targetVersion
    | .retargetStance stanceId optionId => (retargetStance thread event stanceId optionId).map (·, next.threads)
    | .dismissStance stanceId => (dismissStance thread stanceId).map (·, next.threads)
    | .retargetContribution contributionId targetId =>
      (retargetContribution thread event contributionId targetId).map (·, next.threads)
    | .addExcerpt _ _ _ _ _ | .recordDecision _ _ | .confirmCandidate _ | .rejectCandidate _ =>
      .ok (thread, next.threads)
  | _ => .ok (thread, next.threads)

/-! ## An event -/

/-- `thread.opened` -/
def openThread (state : State) (event : Event) (source : Option SourceRef) (question : Units) :
    Except String State := do
  demand ((state.threads.find? (·.id == event.threadId)).isNone && event.observedThreadVersion == 0)
    "stale thread opening"
  demand (state.threads.length < MAX_THREADS) "conversation thread limit reached"
  demand (source.all (·.role == .question)) "opening requires a question source"
  let thread : Thread :=
    { id := event.threadId
      question
      questionSources := source.toList
      questionAuthoring := if source.any (·.quote == question) then .quoted else .scribe
      questionEditedBy := none
      status := .exploring
      contributions := []
      stances := []
      stanceHistory := []
      decision := none
      decisionHistory := []
      candidates := []
      questionnaireId := none
      pendingSettle := none
      pendingScopedChoice := none
      version := 1 }
  .ok { state with
    revision := state.revision + 1, events := state.events ++ [event], threads := state.threads ++ [thread] }

/-- The handler of the event's type: the thread, and all the threads, after it. -/
def dispatch (lower : Units → Units) (next : State) (thread : Thread) (event : Event) :
    Except String (Thread × List Thread) :=
  match event.body with
  | .contributionAdded _ _ _ | .stanceChanged _ _ _ _ | .optionRelabeled _ _ _ =>
    (applyContributionEvent lower next thread event).map (·, next.threads)
  | .threadLeaning _ _ | .decisionRecorded _ _ _ _ | .decisionReopened _ _ | .candidateProposed _ _ _ _
  | .candidateConfirmed _ | .candidateRejected _ | .cardLinked _ | .threadDiscarded =>
    (applyLifecycleEvent thread event).map (·, next.threads)
  | .settleSuggested _ _ | .settleAgreed _ _ | .settleDeferred _ _ | .settleResumed _ _ _
  | .scopedChoiceProposed _ _ | .scopedChoiceAgreed _ _ _ | .scopedChoiceSaved _ _ _ _ _ _ _ =>
    (applySettlementEvent next thread event).map (·, next.threads)
  | .cardCorrected _ => applyCorrectionEvent next thread event
  | .threadOpened _ _ => .ok (thread, next.threads)

/-- An event of a thread that is open. -/
def changeThread (lower : Units → Units) (state : State) (event : Event) : Except String State :=
  match state.threads.find? (·.id == event.threadId) with
  | none => .error "stale conversation thread version"
  | some thread => do
    demand (thread.version == event.observedThreadVersion) "stale conversation thread version"
    let (changed, threads) ← dispatch lower state thread event
    .ok { state with
      revision := state.revision + 1
      events := state.events ++ [event]
      threads := setThread threads { changed with version := changed.version + 1 } }

/-- One accepted event changes a cloned view; callers persist the returned state. -/
def applyEvent (lower : Units → Units) (state : State) (event : Event) : Except String State :=
  if state.events.any (·.id == event.id) then .ok state
  else do
    assertEventShape lower event
    demand (state.events.length + 1 ≤ MAX_EVENTS) "Conversation history is full"
    match event.body with
    | .threadOpened source question => openThread state event source question
    | _ => changeThread lower state event

/-- A restored record is the replay of its events. -/
def replay (lower : Units → Units) (events : List Event) : Except String State :=
  events.foldlM (applyEvent lower) initialState

end Chopin.Threads
