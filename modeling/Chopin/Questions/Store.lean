import Chopin.Questions.Drafts

/-!
# The question store

The authority on what a questionnaire says and what it has been answered
(`apps/server/src/questions/store*.ts`).  Resolution is two-phase: a claim reserves the outcome, the caller
performs the durable half, and only then does the commit make it visible.

A claim holds the questionnaire it is on as an object, whatever the store has under that id by then.  So
the questionnaires are a list of objects, and the store's map leads from an id to a place in it.
-/

set_option autoImplicit false

open Script (trim text units)

namespace Chopin.Questions

/-! ## The store -/

/-- `CLOSED_TTL`: how long a resolved questionnaire is remembered. -/
def CLOSED_TTL : Int := 5 * 60 * 1000

/-- `Number.MAX_SAFE_INTEGER` -/
def MAX_SAFE_INTEGER : Nat := 2 ^ 53 - 1

structure Collaborator where
  client : String
  handle : String
  question : Option String
  field : Option Mode
  deriving DecidableEq

inductive Ended
  | answered (answers : List Answer) (resolver : String)
  | cancelled (resolver : String)
  | expired (resolver : String)
  deriving DecidableEq

structure Suggested where
  optionId : String
  messageIds : List String
  revision : Nat
  deriving DecidableEq

/-- What a questionnaire is set aside for while its outcome or a change to it is being made durable. -/
inductive Hold
  | submit
  | cancel
  | option
  | edit
  deriving DecidableEq

structure Open (M : Type) where
  id : String
  definition : Definition
  widget : Option String
  model : M
  revision : Nat
  presence : List (String × Collaborator)
  editors : List String
  suggested : Option Suggested
  claim : Option Hold
  /-- Somebody waits on the outcome (`settle`). -/
  awaited : Bool

structure Closed where
  result : Ended
  revision : Nat
  expires : Int
  deriving DecidableEq

/-- A reserved outcome, and the questionnaire it is on. -/
structure Claim where
  id : String
  entry : Nat
  result : Ended
  deriving DecidableEq

structure Store (M : Type) where
  objects : List (Open M)
  opened : List (String × Nat)
  closed : List (String × Closed)

variable {M : Type}

def empty : Store M := { objects := [], opened := [], closed := [] }

namespace Store

/-- `questions.open.get(id)`, with its place among the objects. -/
def get (questions : Store M) (id : String) : Option (Nat × Open M) :=
  (questions.opened.lookup id).bind fun place ↦ (questions.objects[place]?).map fun entry ↦ (place, entry)

/-- Change a questionnaire in place. -/
def assign (questions : Store M) (place : Nat) (entry : Open M) : Store M :=
  { questions with objects := questions.objects.set place entry }

/-- `questions.open.set(id, entry)`, with a new object. -/
def add (questions : Store M) (entry : Open M) : Store M :=
  { questions with
    objects := questions.objects ++ [entry]
    opened := Entries.set questions.opened entry.id questions.objects.length }

end Store

def sweep (closed : List (String × Closed)) (now : Int) : List (String × Closed) :=
  closed.filter fun entry ↦ !decide (entry.2.expires ≤ now)

def remember (questions : Store M) (id : String) (result : Ended) (revision : Nat) (now : Int) :
    Store M :=
  { questions with
    closed := Entries.set (sweep questions.closed now) id { result, revision, expires := now + CLOSED_TTL } }

/-! ## How a questionnaire comes into the store -/

/-- A questionnaire as it is first put into the store. -/
def fresh (id : String) (definition : Definition) (widget : Option String) (model : M) (awaited : Bool) :
    Open M :=
  { id, definition, widget, model, revision := 0, presence := [], editors := [], suggested := none
    claim := none, awaited }

/-- Register a questionnaire for somebody who waits on it.  A tombstone under its id is gone even when the
definition is refused. -/
def ask (crdt : Crdt M) (questions : Store M) (id : String) (definition : Definition)
    (widget : Option String) : Store M × Except String Unit :=
  if (questions.opened.lookup id).isSome then (questions, .error "Questionnaire is already open")
  else
    let questions := { questions with closed := Entries.delete questions.closed id }
    match (do
        let _ ← decision definition
        let model ← create crdt definition
        let _ ← read crdt model definition
        pure model : Except String M) with
    | .error message => (questions, .error message)
    | .ok model => (questions.add (fresh id definition widget model true), .ok ())

/-- Reopen the same card with a fresh draft and no waiting Planner turn. -/
def reopen (crdt : Crdt M) (questions : Store M) (id : String) (definition : Definition)
    (widget : Option String) : Store M × Except String Unit :=
  if (questions.opened.lookup id).isSome then (questions, .error "Questionnaire is already open")
  else
    match (do
        crdt.identified definition
        let model ← create crdt definition
        let _ ← read crdt model definition
        pure model : Except String M) with
    | .error message => (questions, .error message)
    | .ok model =>
      (({ questions with closed := Entries.delete questions.closed id } : Store M).add
        (fresh id definition widget model false), .ok ())

structure StoredOpen where
  id : String
  definition : Definition
  widget : Option String
  model : List Int
  revision : Int
  suggested : Option Suggested
  deriving DecidableEq

/-- What is open, in the order it was opened. -/
def Store.outstanding (questions : Store M) : List (Open M) :=
  questions.opened.filterMap fun entry ↦ questions.objects[entry.2]?

def dump (crdt : Crdt M) (questions : Store M) : List StoredOpen :=
  questions.outstanding.map fun entry ↦
    { id := entry.id, definition := entry.definition, widget := entry.widget
      model := (crdt.toBinary entry.model).map Int.ofNat
      revision := entry.revision, suggested := entry.suggested }

/-- Whether a stored suggestion belongs to its questionnaire. -/
def suggestible (suggested : Suggested) (revision : Int) (definition : Definition) : Bool :=
  decide (suggested.revision ≤ MAX_SAFE_INTEGER) && decide (1 ≤ suggested.revision) &&
    (suggested.revision : Int) == revision &&
    (definition.questions.head?.any fun question ↦
      question.options.any (·.id == suggested.optionId) && !question.multiple) &&
    definition.questions.length == 1 && decide (suggested.messageIds.length ≤ 16) &&
    !suggested.messageIds.any (fun id ↦ id == "" || decide (200 < units id)) &&
    decide suggested.messageIds.Nodup

def refusedSuggestion : String := "Questionnaire suggestion is invalid"

/-- A suggestion stands only beside a draft that nobody touched. -/
def checkUntouched (crdt : Crdt M) (model : M) (definition : Definition) (suggested : Option Suggested) :
    Except String Unit :=
  if suggested.isNone then .ok ()
  else do
    let drafts ← read crdt model definition
    check ((definition.questions.head?.bind fun question ↦ drafts.lookup question.id).any untouched)
      refusedSuggestion

/-- One stored questionnaire, as an object again. -/
def restoreOne (crdt : Crdt M) (stored : StoredOpen) : Except String (Open M) := do
  check (decide (0 ≤ stored.revision) && decide (stored.revision ≤ MAX_SAFE_INTEGER))
    "Questionnaire revision is invalid"
  check (stored.model.all fun byte ↦ decide (0 ≤ byte) && decide (byte ≤ 255)) "Questionnaire model is invalid"
  crdt.identified stored.definition
  check (stored.suggested.all fun suggested ↦ suggestible suggested stored.revision stored.definition)
    refusedSuggestion
  let restored ← Questions.restore crdt (stored.model.map Int.toNat) stored.definition
  let model := upgrade crdt restored stored.definition
  checkUntouched crdt model stored.definition stored.suggested
  pure { fresh stored.id stored.definition stored.widget model false with
    revision := stored.revision.toNat, suggested := stored.suggested }

/-- The store a room starts with, from what it saved. -/
def restoreAll (crdt : Crdt M) (entries : List StoredOpen) : Except String (Store M) :=
  entries.foldlM (fun questions stored ↦ do
    check (questions.opened.lookup stored.id).isNone "Questionnaire is duplicated in storage"
    let entry ← restoreOne crdt stored
    pure (questions.add entry)) empty

/-! ## How one changes -/

inductive Edited
  | closed (revision : Nat)
  | refused (revision : Nat) (message : String)
  | taken (applied : Bool) (revision : Nat)
  deriving DecidableEq

/-- Apply one patch, if the questionnaire is in a state to take it. -/
def edit (crdt : Crdt M) (questions : Store M) (id : String) (binary : List Int)
    (editor : Option String) : Store M × Edited :=
  match questions.get id with
  | none => (questions, .closed (((questions.closed.lookup id).map (·.revision)).getD 0))
  | some (place, entry) =>
    if entry.claim.isSome then (questions, .refused entry.revision "Questionnaire is resolving")
    else
      match apply crdt entry.model entry.definition binary with
      | .error message => (questions, .refused entry.revision message)
      | .ok none => (questions, .taken false entry.revision)
      | .ok (some model) =>
        (questions.assign place
          { entry with
            model, revision := entry.revision + 1, suggested := none
            editors := match editor with
              | some name => if name = "" || name ∈ entry.editors then entry.editors else entry.editors ++ [name]
              | none => entry.editors },
          .taken true (entry.revision + 1))

/-- Replace an open question's definition with one that only appended options. -/
def redefine (questions : Store M) (id : String) (definition : Definition) :
    Store M × Except String Definition :=
  match questions.get id with
  | none => (questions, .error "resolved")
  | some (place, entry) =>
    if entry.claim.isSome then (questions, .error "resolving")
    else (questions.assign place { entry with definition }, .ok entry.definition)

/-- Undo `redefine` after its durable half failed. -/
def restoreDefinition (questions : Store M) (id : String) (definition : Definition) : Store M :=
  match questions.get id with
  | none => questions
  | some (place, entry) => questions.assign place { entry with definition }

/-- A suggestion moves along when its questionnaire does. -/
def carrySuggestion (suggested : Option Suggested) (revision : Nat) : Option Suggested :=
  suggested.map fun suggestion ↦ { suggestion with revision }

/-- Change only the display label of an existing option; the draft keeps its option ID. -/
def relabelOption (crdt : Crdt M) (questions : Store M) (id optionId label : String)
    (expectedRevision : Nat) : Store M × Except String (Definition × Nat) :=
  match questions.get id with
  | none => (questions, .error "decision is no longer open")
  | some (place, entry) =>
    match entry.claim, entry.definition.questions with
    | none, [question] =>
      if entry.revision ≠ expectedRevision then (questions, .error "stale decision revision")
      else
        match question.options.find? (·.id == optionId) with
        | none => (questions, .error "unknown decision option")
        | some option =>
          if option.label = label then (questions, .error "option label is unchanged")
          else if question.options.any fun item ↦ item.id != optionId &&
              crdt.toLocaleLowerCase (trim item.label) == crdt.toLocaleLowerCase (trim label) then
            (questions, .error "duplicate option label")
          else
            let definition : Definition := { questions := [{ question with
              options := question.options.map fun item ↦
                if item.id = optionId then { item with label } else item }] }
            match read crdt entry.model definition with
            | .error message => (questions, .error message)
            | .ok _ =>
              (questions.assign place
                { entry with
                  definition, revision := entry.revision + 1
                  suggested := carrySuggestion entry.suggested (entry.revision + 1) },
                .ok (definition, entry.revision + 1))
    | _, _ => (questions, .error "decision is no longer open")

inductive TitleRefusal
  | closed
  | invalid
  deriving DecidableEq

structure Retitled where
  definition : Definition
  revision : Nat
  applied : Bool
  deriving DecidableEq

/-- Reword one open decision while retaining its shared human draft. -/
def retitle (questions : Store M) (id title : String) :
    Store M × Except (TitleRefusal × String) Retitled :=
  match questions.get id with
  | none => (questions, .error (.closed, "This decision is no longer open"))
  | some (place, entry) =>
    match entry.claim, entry.definition.questions with
    | none, [current] =>
      let question := trim title
      if question = "" || Limits.MAX_NEW_QUESTION < units question then
        (questions, .error (.invalid, "A question is 1–100 characters"))
      else if current.question = question then
        (questions, .ok { definition := entry.definition, revision := entry.revision, applied := false })
      else
        let definition : Definition := { questions := [{ current with question }] }
        (questions.assign place
          { entry with
            definition, revision := entry.revision + 1
            suggested := carrySuggestion entry.suggested (entry.revision + 1) },
          .ok { definition, revision := entry.revision + 1, applied := true })
    | _, _ => (questions, .error (.closed, "This decision is no longer open"))

/-- The fields an option addition changes. -/
structure Before (M : Type) where
  definition : Definition
  model : M
  revision : Nat
  suggested : Option Suggested

/-- Capture the fields changed by an option addition. -/
def before (questions : Store M) (id : String) : Option (Before M) :=
  (questions.get id).map fun found ↦
    { definition := found.2.definition, model := found.2.model, revision := found.2.revision
      suggested := found.2.suggested }

structure AddedOption where
  definition : Definition
  option : Choice
  revision : Nat
  deriving DecidableEq

/-- Grow an open decision without changing a person's existing draft choice.  Reading the grown draft back
may throw. -/
def growOption (crdt : Crdt M) (questions : Store M) (id optionId label : String) :
    Store M × Except String (Except (OptionRefusal × String) AddedOption) :=
  match questions.get id with
  | none => (questions, .ok (.error (.closed, "This decision is no longer open")))
  | some (place, entry) =>
    if entry.claim.isSome then (questions, .ok (.error (.closed, "This decision is no longer open")))
    else
      match entry.definition.questions with
      | [question] =>
        match addOption crdt question entry.model optionId label with
        | .error message => (questions, .error message)
        | .ok (.error refusal) => (questions, .ok (.error refusal))
        | .ok (.ok added) =>
          (questions.assign place
            { entry with
              definition := added.definition, model := added.model, revision := entry.revision + 1
              suggested := carrySuggestion entry.suggested (entry.revision + 1) },
            .ok (.ok { definition := added.definition, option := added.option
                       revision := entry.revision + 1 }))
      | _ => (questions, .ok (.error (.closed, "Options cannot be added to this questionnaire")))

/-- Restore the original shape if a caller discards an uncommitted addition. -/
def revert (questions : Store M) (id : String) (previous : Before M) : Store M :=
  match questions.get id with
  | none => questions
  | some (place, entry) =>
    questions.assign place
      { entry with
        definition := previous.definition, model := previous.model, revision := previous.revision
        suggested := previous.suggested }

/-- `reserveOption` and `reserveEdit`. -/
def reserve (questions : Store M) (id : String) (hold : Hold) : Store M × Bool :=
  match questions.get id with
  | none => (questions, false)
  | some (place, entry) =>
    if entry.claim.isSome then (questions, false)
    else (questions.assign place { entry with claim := some hold }, true)

/-- `releaseOption` and `releaseEdit`. -/
def release (questions : Store M) (id : String) (hold : Hold) : Store M :=
  match questions.get id with
  | none => questions
  | some (place, entry) =>
    if entry.claim = some hold then questions.assign place { entry with claim := none } else questions

/-- Keep draft edits and resolution claims off a card during its fenced option commit. -/
def reserveOption (questions : Store M) (id : String) : Store M × Bool := reserve questions id .option

def releaseOption (questions : Store M) (id : String) : Store M := release questions id .option

/-- Hold a draft while its edit is fenced, so no submit reads uncommitted state. -/
def reserveEdit (questions : Store M) (id : String) : Store M × Bool := reserve questions id .edit

def releaseEdit (questions : Store M) (id : String) : Store M := release questions id .edit

structure Suggestion where
  optionId : String
  messageIds : List String
  deriving DecidableEq

inductive Advised
  | closed
  | chosen
  | unknown
  | threw (message : String)
  | taken (revision : Nat)
  deriving DecidableEq

/-- Persist or clear an advisory conversation option without editing the shared draft. -/
def suggest (crdt : Crdt M) (questions : Store M) (id : String) (suggestion : Option Suggestion) :
    Store M × Advised :=
  match questions.get id with
  | none => (questions, .closed)
  | some (place, entry) =>
    if entry.claim.isSome then (questions, .closed)
    else
      match suggestion with
      | none =>
        if entry.suggested.isNone then (questions, .taken entry.revision)
        else
          (questions.assign place { entry with revision := entry.revision + 1, suggested := none },
            .taken (entry.revision + 1))
      | some suggestion =>
        match entry.definition.questions with
        | [question] =>
          if question.multiple || !question.options.any (·.id == suggestion.optionId) ||
              decide (16 < suggestion.messageIds.length) ||
              suggestion.messageIds.any (fun id ↦ id == "" || decide (200 < units id)) ||
              !decide suggestion.messageIds.Nodup then (questions, .unknown)
          else
            match read crdt entry.model entry.definition with
            | .error message => (questions, .threw message)
            | .ok drafts =>
              if !(drafts.lookup question.id).any untouched then (questions, .chosen)
              else if entry.suggested.any fun suggested ↦ suggested.optionId == suggestion.optionId &&
                  suggested.messageIds == suggestion.messageIds then
                (questions, .taken entry.revision)
              else
                (questions.assign place
                  { entry with
                    revision := entry.revision + 1
                    suggested := some { optionId := suggestion.optionId, messageIds := suggestion.messageIds
                                        revision := entry.revision + 1 } },
                  .taken (entry.revision + 1))
        | _ => (questions, .unknown)

/-- Note who is looking at which question, for the badges beside it. -/
def focus (questions : Store M) (id : String) (person : Collaborator) : Store M × Bool :=
  match questions.get id with
  | none => (questions, false)
  | some (place, entry) =>
    if person.question.all (· == "") then
      (questions.assign place { entry with presence := Entries.delete entry.presence person.client }, true)
    else if entry.definition.questions.any (some ·.id == person.question) then
      (questions.assign place { entry with presence := Entries.set entry.presence person.client person }, true)
    else (questions, false)

/-- Forget a departed connection's presence across every open questionnaire. -/
def away (questions : Store M) (client : String) : Store M × List String :=
  let there := questions.outstanding.filter fun entry ↦ (entry.presence.lookup client).isSome
  ({ questions with
      objects := questions.objects.zipIdx.map fun object ↦
        if questions.opened.any (·.2 == object.2) then
          { object.1 with presence := Entries.delete object.1.presence client }
        else object.1 },
    there.map (·.id))

/-! ## How one is resolved -/

inductive SubmitRefusal
  /-- Already decided, by somebody else; carries the outcome. -/
  | resolved (result : Ended)
  | stale (current : Nat)
  | invalid (message : String)
  deriving DecidableEq

inductive CancelRefusal
  | resolved (result : Ended)
  | resolving
  deriving DecidableEq

structure Claimed where
  claim : Claim
  widget : Option String
  deriving DecidableEq

/-- The drafts an answer is derived from: those of the model, with the suggestion that is submitted along
as the choice. -/
def submitted (entry : Open M) (drafts : Drafts) (suggestedOptionId : Option String) :
    Except String Drafts :=
  match suggestedOptionId with
  | none => .ok drafts
  | some optionId =>
    match entry.definition.questions with
    | [question] =>
      match drafts.lookup question.id with
      | some draft =>
        if question.multiple || !untouched draft || !entry.suggested.any (·.optionId == optionId) ||
            !question.options.any (·.id == optionId) then
          .error "Suggestion is no longer current"
        else .ok (Entries.set drafts question.id { draft with choice := some optionId })
      | none => .error "Suggestion is no longer current"
    | _ => .error "Suggestion is no longer current"

/-- The answers a questionnaire would be resolved with. -/
def answersOf (crdt : Crdt M) (entry : Open M) (suggestedOptionId : Option String) :
    Except String (List Answer) := do
  let drafts ← read crdt entry.model entry.definition
  let drafts ← submitted entry drafts suggestedOptionId
  derive entry.definition drafts

/-- Reserve an answer.  The revision must match. -/
def claimSubmit (crdt : Crdt M) (questions : Store M) (id : String) (revision : Nat)
    (resolver : String) (suggestedOptionId : Option String) :
    Store M × Except SubmitRefusal Claimed :=
  match questions.closed.lookup id with
  | some ended => (questions, .error (.resolved ended.result))
  | none =>
    match questions.get id with
    | none => (questions, .error (.resolved (.cancelled "system")))
    | some (place, entry) =>
      if entry.claim.isSome then (questions, .error (.stale entry.revision))
      else if revision ≠ entry.revision then (questions, .error (.stale entry.revision))
      else
        match answersOf crdt entry suggestedOptionId with
        | .error message => (questions, .error (.invalid message))
        | .ok answers =>
          (questions.assign place { entry with claim := some .submit },
            .ok { claim := { id, entry := place, result := .answered answers resolver }
                  widget := entry.widget })

/-- Reserve an unanswered close: a cancellation. -/
def claimCancel (questions : Store M) (id resolver : String) :
    Store M × Except CancelRefusal Claimed :=
  match questions.closed.lookup id with
  | some ended => (questions, .error (.resolved ended.result))
  | none =>
    match questions.get id with
    | none => (questions, .error (.resolved (.cancelled "system")))
    | some (place, entry) =>
      if entry.claim.isSome then (questions, .error .resolving)
      else
        (questions.assign place { entry with claim := some .cancel },
          .ok { claim := { id, entry := place, result := .cancelled resolver }, widget := entry.widget })

/-- Make a claimed resolution final: what the store is then.  The caller releases whoever waits. -/
def stage (questions : Store M) (claim : Claim) (now : Int) : Store M :=
  remember { questions with opened := Entries.delete questions.opened claim.id } claim.id claim.result
    (((questions.objects[claim.entry]?).map (·.revision)).getD 0) now

/-- Undo a claim whose durable half failed. -/
def rollback (questions : Store M) (claim : Claim) : Store M :=
  if questions.opened.lookup claim.id = some claim.entry then
    match questions.objects[claim.entry]? with
    | some entry => questions.assign claim.entry { entry with claim := none }
    | none => questions
  else questions

/-- Release everything, without recording an outcome. -/
def shutdown (questions : Store M) : Store M := { questions with opened := [], closed := [] }

end Chopin.Questions
