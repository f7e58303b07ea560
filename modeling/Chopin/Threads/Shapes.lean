import Chopin.Lib.Except
import Chopin.Mdx.Validate
import Chopin.Threads.State

/-!
# The shape of an event

Before an event is applied its fields are checked (`event-validation.ts`, `correction-validation.ts`, `sources.ts`,
`validation-fields.ts`).  The checks of the fields' types and of fields that the type does not have are the types of
`Event` and of `CorrectionAction` here; the others are these functions, each of which succeeds or says what is wrong.

The labels that a choice for a spike names are read off the quote it rests on; they are compared without case, and
`lower` is the platform's `toLocaleLowerCase`.
-/

set_option autoImplicit false
set_option linter.dupNamespace false

open Script Chopin.Mdx
open Except (demand demand_eq_ok demand_bind_eq_ok)

namespace Chopin.Threads

/-! ## Limits -/

def MAX_CONTRIBUTIONS : Nat := 64
def MAX_THREADS : Nat := 20
def MAX_EVENTS : Nat := 4096
def MAX_LABEL : Nat := 200

/-- `Number.MAX_SAFE_INTEGER` -/
def MAX_SAFE_INTEGER : Nat := 2 ^ 53 - 1

/-! ## Fields -/

def assertId (value : Units) : Except String Unit :=
  demand (value != [] && value.length ≤ 200) "invalid conversation plan ID"

/-- `text(value, max)` -/
def assertTextOf (value : Units) (max : Nat) : Except String Unit :=
  demand (!isBlank value && value.length ≤ max) "invalid conversation plan text"

def assertText (value : Units) : Except String Unit := assertTextOf value 500

def assertVersion (value : Nat) : Except String Unit :=
  demand (value ≤ MAX_SAFE_INTEGER) "invalid conversation plan version"

def assertActor : Actor → Except String Unit
  | .member handle => assertId handle
  | .agent | .classifier => .ok ()

/-- An optional identifier. -/
def assertIdIfAny : Option Units → Except String Unit
  | some value => assertId value
  | none => .ok ()

/-! ## Expressions -/

/-- `[a-z0-9]`, without case. -/
def isAlphanumeric (unit : Nat) : Bool := isLetter unit || isDigit unit

/-- `\w` -/
def isWordUnit (unit : Nat) : Bool := isAlphanumeric unit || unit == 0x5f

/-- `[0-9A-HJKMNP-TV-Z]` -/
def isUlidUnit (unit : Nat) : Bool :=
  isDigit unit || (0x41 ≤ unit && unit ≤ 0x5a && !([0x49, 0x4c, 0x4f, 0x55].contains unit))

/-- The lower case of an ASCII letter. -/
def lowerLetter (unit : Nat) : Nat := if 0x41 ≤ unit && unit ≤ 0x5a then unit + 0x20 else unit

/-- Case folding under `/iu`, where the long s and the Kelvin sign are letters of the ASCII words. -/
def foldUnit (unit : Nat) : Nat :=
  if unit = 0x17f then 0x73 else if unit = 0x212a then 0x6b else lowerLetter unit

/-- `.` -/
def isLine (unit : Nat) : Bool := !([0xa, 0xd, 0x2028, 0x2029].contains unit)

/-- `/^card:[0-9A-HJKMNP-TV-Z]{26}:option:[0-9A-HJKMNP-TV-Z]{26}$/` -/
def isCardOptionId (value : Units) : Bool :=
  value.length == 65 && value.take 5 == utf16 "card:" && ((value.drop 5).take 26).all isUlidUnit &&
    (value.drop 31).take 8 == utf16 ":option:" && (value.drop 39).all isUlidUnit

/-- `/^classifier:[0-9a-f]{24}$/` -/
def isClassifierId (value : Units) : Bool :=
  value.length == 35 && value.take 11 == utf16 "classifier:" &&
    (value.drop 11).all fun unit ↦ isDigit unit || (0x61 ≤ unit && unit ≤ 0x66)

/-- `/\b(?:and|or|versus|vs\.?)\b/i`: one of the words stands by itself. -/
def namesAlternatives (label : Units) : Bool :=
  (label.splitOnP (!isWordUnit ·)).any fun word ↦
    ["and", "or", "versus", "vs"].any fun name ↦ word.map lowerLetter == utf16 name

/-- `/,[^,]+,/`; the other form, `/,[^,]+\band\b/i`, names an alternative already. -/
def namesSeries (label : Units) : Bool := ((label.splitOnP (· == 0x2c)).drop 1).dropLast.any (· != [])

/-- `/(?<=[a-z0-9])\s*\/\s*(?=[a-z0-9])/i` -/
def namesSlash (label : Units) : Bool :=
  (List.range label.length).any fun index ↦
    label[index]? == some 0x2f &&
      ((label.take index).rdropWhile isSpaceUnit).getLast?.any isAlphanumeric &&
      ((label.drop (index + 1)).dropWhile isSpaceUnit).head?.any isAlphanumeric

/-- `(.+?) for (?:the|a) spike`, then one of the marks. -/
def spikeLabel (text : Units) (marks : List String) : Option Units :=
  ["the", "a"].findSome? fun article ↦ marks.findSome? fun mark ↦
    let ending := utf16 (" for " ++ article ++ " spike" ++ mark)
    let label := text.take (text.length - ending.length)
    if (text.drop label.length).map foldUnit == ending && label != [] && label.all isLine then some label else none

/-- `/^I(?:['’]d| would) pick (.+?) for (?:the|a) spike[;.!]?$/iu.exec(quote.trim())?.[1]` -/
def spikePreferenceLabel (quote : Units) : Option Units :=
  ["i'd pick ", "i’d pick ", "i would pick "].findSome? fun opening ↦
    let text := trimUnits quote
    if (text.take (utf16 opening).length).map foldUnit == utf16 opening then
      spikeLabel (text.drop (utf16 opening).length) ["", ";", ".", "!"]
    else none

/-- `/^yep,\s+(.+?) for (?:the|a) spike[.!]$/iu.exec(quote.trim())?.[1]`: as much white space as leaves a label. -/
def spikeAgreementLabel (quote : Units) : Option Units :=
  let text := trimUnits quote
  if (text.take 4).map foldUnit == utf16 "yep," then
    let rest := text.drop 4
    (List.range (rest.takeWhile isSpaceUnit).length).reverse.findSome? fun index ↦
      spikeLabel (rest.drop (index + 1)) [".", "!"]
  else none

/-! ## Sources -/

/-- A source is a member's or the agent's. -/
def Author.isSource : Author → Bool
  | .member handle => handle != []
  | .agent => true
  | .system => false

def assertSourceShape (source : SourceRef) : Except String Unit := do
  demand (source.messageId != [] && source.messageId.length ≤ 200 && source.quote != [] &&
    source.quote.length ≤ 2048 && source.start ≤ MAX_SAFE_INTEGER && source.end ≤ MAX_SAFE_INTEGER &&
    source.start < source.end && source.end - source.start == source.quote.length) "invalid conversation source"
  demand source.author.isSource "invalid conversation source author"

/-- A source, where there is one. -/
def assertSourceIfAny : Option SourceRef → Except String Unit
  | some source => assertSourceShape source
  | none => .ok ()

/-- `text.slice(start, end)` -/
def slice (text : Units) (start «end» : Nat) : Units := (text.take «end»).drop start

/-- The source against the saved message. -/
def validateSource (source : SourceRef) (message : Entry) : Except String Unit := do
  assertSourceShape source
  demand (message.id == source.messageId && !message.streaming && message.author == source.author &&
    slice message.text source.start source.end == source.quote)
    "conversation source quote does not match saved message"

/-- Each source is a member's support, and of another member when they are told apart. -/
def assertSupporters (apart : Bool) (sources : List SourceRef) : Except String (List Units) :=
  sources.foldlM (fun members source ↦ do
    assertSourceShape source
    match source.author.member? with
    | none => .error "invalid saved scoped choice source"
    | some handle =>
      demand (source.role == .support) "invalid saved scoped choice source"
      if apart then
        demand (!members.contains handle) "duplicate scoped supporter"
        .ok (handle :: members)
      else .ok members) []

/-! ## Corrections -/

def assertCorrectionChange : CorrectionChange → Except String Unit
  | .addExcerpt messageId start stop _ targetOptionId => do
    assertId messageId
    demand (start ≤ MAX_SAFE_INTEGER && stop ≤ MAX_SAFE_INTEGER && start < stop && stop - start ≤ 500)
      "invalid excerpt range"
    assertIdIfAny targetOptionId
  | .edit field text => do
    assertText text
    match field with
    | .contribution contributionId => assertId contributionId
    | .question | .decision => .ok ()
  | .move contributionId targetThreadId targetVersion => do
    assertId contributionId
    assertId targetThreadId
    assertVersion targetVersion
  | .setStatus status =>
    demand ([ThreadStatus.exploring, .leaning, .reopened].contains status) "invalid status correction"
  | .retargetStance stanceId optionId => do
    assertId stanceId
    assertIdIfAny optionId
  | .dismissStance stanceId => assertId stanceId
  | .retargetContribution contributionId targetId => do
    assertId contributionId
    assertId targetId
  | .recordDecision text optionId => do
    assertText text
    assertIdIfAny optionId
  | .confirmCandidate candidateId => assertId candidateId
  | .rejectCandidate candidateId => assertId candidateId

def assertCorrectionAction (action : CorrectionAction) : Except String Unit := do
  assertId action.actionId
  assertId action.threadId
  assertVersion action.expectedVersion
  assertCorrectionChange action.change

/-- `["record-decision", "confirm-candidate", "reject-candidate"].includes(change.kind)` -/
def CorrectionChange.acts : CorrectionChange → Bool
  | recordDecision _ _ | confirmCandidate _ | rejectCandidate _ => true
  | addExcerpt _ _ _ _ _ | edit _ _ | move _ _ _ | setStatus _ | retargetStance _ _ | dismissStance _
  | retargetContribution _ _ => false

/-! ## Events -/

/-- The actor is of the origin's kind. -/
def Origin.agrees : Origin → Actor → Bool
  | .classifier, .classifier | .planner, .agent | .human, .member _ => true
  | _, _ => false

/-- A person quotes a message. -/
def humanExcerpt (event : Event) : Bool :=
  match event.body with
  | .contributionAdded _ source contribution =>
    event.origin == .human && source.isSome && contribution.authoring == .quoted
  | _ => false

/-- The types of event that a person's action may be. -/
def Body.byPeople : Body → Bool
  | decisionRecorded _ _ _ _ | decisionReopened _ _ | threadDiscarded | scopedChoiceSaved _ _ _ _ _ _ _
  | contributionAdded _ _ _ | candidateConfirmed _ | candidateRejected _ | cardCorrected _ => true
  | threadOpened _ _ | stanceChanged _ _ _ _ | optionRelabeled _ _ _ | threadLeaning _ _ | cardLinked _
  | settleSuggested _ _ | settleAgreed _ _ | settleDeferred _ _ | settleResumed _ _ _ | scopedChoiceProposed _ _
  | scopedChoiceAgreed _ _ _ | candidateProposed _ _ _ _ => false

/-- `event.type === "option.added" && event.origin === "planner"` and the identifier says which card's option. -/
def cardOption (event : Event) (kind : ContributionKind) : Bool :=
  kind == .option && event.origin == .planner && isCardOptionId event.id

/-- A contribution that is read off a message. -/
def inferred (event : Event) (source : Option SourceRef) : Bool :=
  event.origin == .classifier || (event.origin == .planner && source.isSome && isClassifierId event.id)

/-- The fields of `option.added`, `reason.added` and `constraint.added`. -/
def assertContributionShape (event : Event) (kind : ContributionKind) (source : Option SourceRef)
    (contribution : Wording) : Except String Unit := do
  if inferred event source then
    match source with
    | none => .error "invalid conversation source"
    | some source =>
      assertSourceShape source
      demand (event.origin != .planner || source.author == .agent) "Planner quote must come from an agent message"
  else
    demand (humanExcerpt event || (kind == .option && (source.isNone || cardOption event kind)))
      "only card options can omit a source"
  assertId contribution.id
  demand (!cardOption event kind || (utf16 ":option:" ++ contribution.id).isSuffixOf event.id)
    "card option event ID disagrees with contribution"
  demand (inferred event source || isUlid contribution.id) "card option IDs must be ULIDs"
  assertText contribution.text
  demand (inferred event source || humanExcerpt event ||
    ((event.origin != .human || contribution.authoring == .humanEdited) &&
      (event.origin != .planner || contribution.authoring == .scribe)))
    "card option authoring disagrees with origin"
  assertIdIfAny contribution.targetId

/-- The source of a choice for a spike names its label. -/
def namesLabel (lower : Units → Units) (label : Units → Option Units) (event : Event) (source : SourceRef)
    (choice : Scoped) : Bool :=
  event.origin == .classifier && choice.scope == utf16 "spike" && source.role == .support &&
    source.author.member?.isSome && (label source.quote).map lower == some (lower choice.label)

/-- The fields that each type of event has. -/
def assertBodyShape (lower : Units → Units) (event : Event) : Except String Unit :=
  match event.body with
  | .threadOpened source question => do
    match source with
    | none =>
      demand (event.origin == .planner) "opening requires a question source"
      assertTextOf question 1000
    | some source =>
      assertSourceShape source
      assertText question
  | .contributionAdded kind source contribution => assertContributionShape event kind source contribution
  | .stanceChanged source optionId scopedProposalId _ => do
    assertSourceShape source
    assertIdIfAny optionId
    assertIdIfAny scopedProposalId.join
  | .optionRelabeled optionId label observedCardRevision => do
    assertId optionId
    assertVersion observedCardRevision
    assertTextOf label MAX_LABEL
    demand (event.origin == .planner && label == trimUnits label && !label.contains 0xd && !label.contains 0xa &&
      !namesAlternatives label && !namesSeries label && !namesSlash label) "invalid atomic option label"
  | .threadLeaning source optionId => do
    assertSourceShape source
    assertIdIfAny optionId
  | .cardLinked questionnaireId => do
    assertId questionnaireId
    demand (event.origin == .classifier) "card link is a system event"
  | .settleSuggested source optionId => do
    assertSourceShape source
    assertId optionId
    demand (event.origin == .classifier) "settle suggestion is inferred"
  | .settleAgreed source optionId => do
    assertSourceShape source
    assertId optionId
    demand (event.origin == .classifier) "agreement is inferred"
  | .settleDeferred source proposalId => do
    assertSourceShape source
    assertId proposalId
    demand (event.origin == .classifier && source.role == .constraint) "deferral requires a sourced constraint"
  | .settleResumed source proposalId deferredEventId => do
    assertSourceShape source
    assertId proposalId
    assertId deferredEventId
    demand (event.origin == .classifier && source.role == .verification) "resume requires sourced verification"
  | .scopedChoiceProposed source choice => do
    assertSourceShape source
    assertId choice.cardId
    assertId choice.optionId
    assertTextOf choice.label MAX_LABEL
    demand (namesLabel lower spikePreferenceLabel event source choice) "invalid scoped choice proposal"
  | .scopedChoiceAgreed source proposalId choice => do
    assertSourceShape source
    assertId proposalId
    assertId choice.cardId
    assertId choice.optionId
    assertTextOf choice.label MAX_LABEL
    demand (namesLabel lower spikeAgreementLabel event source choice) "invalid scoped choice agreement"
  | .scopedChoiceSaved proposalId supportEventIds agreementId choice sources expectedGeneration expectedLabel => do
    assertId proposalId
    match supportEventIds with
    | none => .ok ()
    | some supportEventIds =>
      demand (supportEventIds != [] && supportEventIds.length ≤ MAX_EVENTS && supportEventIds.Nodup)
        "invalid saved scoped choice source IDs"
      supportEventIds.forM assertId
    assertIdIfAny agreementId
    assertId choice.cardId
    assertId choice.optionId
    assertTextOf choice.label MAX_LABEL
    assertVersion expectedGeneration
    match expectedLabel with
    | none => .ok ()
    | some expectedLabel => assertTextOf expectedLabel MAX_LABEL
    demand (event.origin == .human && choice.scope == utf16 "spike" &&
      match supportEventIds with
      | none => sources.length == if agreementId.isNone then 1 else 2
      | some supportEventIds => agreementId.isNone && sources.length == supportEventIds.length)
      "invalid saved scoped choice"
    let _ ← assertSupporters supportEventIds.isSome sources
  | .threadDiscarded => demand (event.origin == .human) "only a person discards"
  | .decisionRecorded source text optionId explicit => do
    assertText text
    assertIdIfAny optionId
    demand explicit "decision requires explicit resolution"
    if event.origin != .human then
      match source with
      | none => .error "invalid conversation source"
      | some source => assertSourceShape source
  | .decisionReopened source explicit => do
    demand explicit "reopening requires explicit statement"
    if event.origin != .human then
      match source with
      | none => .error "invalid conversation source"
      | some source => assertSourceShape source
  | .candidateProposed source id _ text => do
    assertSourceShape source
    assertId id
    assertText text
  | .candidateConfirmed candidateId | .candidateRejected candidateId => do
    assertId candidateId
    demand (event.origin == .human) "candidate action requires human"
  | .cardCorrected change => do
    demand (event.origin == .human) "card correction requires human"
    assertCorrectionChange change
    demand (!change.acts) "invalid card correction event"

def assertEventShape (lower : Units → Units) (event : Event) : Except String Unit := do
  assertId event.id
  assertId event.threadId
  assertVersion event.observedThreadVersion
  assertVersion event.at
  assertActor event.actor
  demand (event.origin.agrees event.actor) "event origin and actor disagree"
  assertSourceIfAny event.body.source
  demand (event.origin != .human || ((humanExcerpt event || event.body.source.isNone) && event.body.byPeople))
    "human action cannot claim a message quote"
  assertBodyShape lower event

/-! ## What the checks say -/

variable {lower : Units → Units}

/-- An event that is let through has an identifier, and its fields are those of its type. -/
theorem assertEventShape_cases {event : Event} (h : assertEventShape lower event = .ok ()) :
    event.id ≠ [] ∧ assertBodyShape lower event = .ok () := by
  rw [assertEventShape] at h
  obtain ⟨⟨⟩, hid, h⟩ := Except.bind_eq_ok.1 h
  obtain ⟨-, -, h⟩ := Except.bind_eq_ok.1 h
  obtain ⟨-, -, h⟩ := Except.bind_eq_ok.1 h
  obtain ⟨-, -, h⟩ := Except.bind_eq_ok.1 h
  obtain ⟨-, -, h⟩ := Except.bind_eq_ok.1 h
  obtain ⟨-, h⟩ := demand_bind_eq_ok.1 h
  obtain ⟨-, -, h⟩ := Except.bind_eq_ok.1 h
  obtain ⟨-, h⟩ := demand_bind_eq_ok.1 h
  have hnamed := demand_eq_ok.1 hid
  rw [Bool.and_eq_true, bne_iff_ne] at hnamed
  exact ⟨hnamed.1, h⟩

/-- A proposal that is let through is for a spike. -/
theorem assertBodyShape_proposed {event : Event} {source : SourceRef} {choice : Scoped}
    (hbody : event.body = .scopedChoiceProposed source choice) (h : assertBodyShape lower event = .ok ()) :
    choice.scope = utf16 "spike" := by
  rw [assertBodyShape, hbody] at h
  obtain ⟨-, -, h⟩ := Except.bind_eq_ok.1 h
  obtain ⟨-, -, h⟩ := Except.bind_eq_ok.1 h
  obtain ⟨-, -, h⟩ := Except.bind_eq_ok.1 h
  obtain ⟨-, -, h⟩ := Except.bind_eq_ok.1 h
  have hnames := demand_eq_ok.1 h
  simp only [namesLabel, Bool.and_eq_true, beq_iff_eq] at hnames
  exact hnames.1.1.1.2

end Chopin.Threads
