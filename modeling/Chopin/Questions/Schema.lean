import Chopin.Questions.Drafts

/-!
# What a stored questionnaire has to be, and how it grows

`identified` validates a stored or wire definition without changing it; `appendOption`, `appendCriterion`
and, together with the shared draft, `addCriterion` are how a decision grows while it is open
(`packages/question/src/schema.ts`, `options.ts`).

A `Definition` has fields of the right types already, so what is left of `identified` are the bounds and the
ids; the criteria that a question does not have are the empty list.  `folded` strings are compared after
`toLowerCase`, which is a parameter.
-/

set_option autoImplicit false

open Script (trim text units)

namespace Chopin.Questions

namespace Limits

def MAX_QUESTIONS : Nat := 10
def MAX_OPTIONS : Nat := 20
def MAX_SHARED_OPTIONS : Nat := 10
def MAX_HEADER : Nat := 80
def MAX_QUESTION : Nat := 1000
def MAX_QUESTION_DESCRIPTION : Nat := 300
def MAX_LABEL : Nat := 200
def MAX_DESCRIPTION : Nat := 1000
def MAX_PREVIEW : Nat := 16000
def MAX_NEW_DESCRIPTION : Nat := 160
def MAX_CRITERIA : Nat := 5
def MAX_CRITERION_LABEL : Nat := 40
def MAX_CALL_ID : Nat := 256

end Limits

/-! ## Texts -/

/-- `text(value, name, max, optional, verbatim)`, where `none` is a value that is no string. -/
def fieldText (value : Option String) (name : String) (max : Nat) (optional verbatim : Bool) :
    Except String String :=
  match value with
  | none => reject (name ++ " must be text")
  | some value =>
    if verbatim then .ok value
    else if !optional && trim value == "" then reject (name ++ " is required")
    else if max < units (trim value) then reject (name ++ " exceeds " ++ toString max ++ " characters")
    else .ok (trim value)

/-- A stored definition keeps its original string, so enforce the bound on that string. -/
def storedText (value name : String) (max : Nat) (optional verbatim : Bool) : Except String Unit := do
  let _ ← fieldText (some value) name max optional verbatim
  check (verbatim || decide (units value ≤ max)) (name ++ " exceeds " ++ toString max ++ " characters")

/-- A text that may be left out, and that may be empty where it is not. -/
def storedField (value : Option String) (name : String) (max : Nat) (verbatim : Bool) : Except String Unit :=
  match value with
  | none => .ok ()
  | some value => storedText value name max true verbatim

/-- `[A-Za-z0-9_-]` -/
def isWord (c : Char) : Bool := c.isAlphanum || c == '_' || c == '-'

/-- `/^[A-Za-z0-9_-]{8,64}$/` -/
def KEY (value : String) : Bool := value.toList.all isWord && 8 ≤ value.length && value.length ≤ 64

/-- `/^[A-Za-z0-9_-]{1,64}$/`: no separator character, so a mark's `option/criterion` key splits
unambiguously. -/
def CRITERION_ID (value : String) : Bool := value.toList.all isWord && 1 ≤ value.length && value.length ≤ 64

/-! ## Definitions -/

variable {M : Type} (toLowerCase : String → String)

/-- The criteria from a position on, after those with these ids and folded labels. -/
def identifiedCriteria (question : String) :
    List Criterion → (position : Nat) → (ids labels : List String) → Except String Unit
  | [], _, _, _ => .ok ()
  | criterion :: rest, position, ids, labels => do
    let name := question ++ " criterion " ++ toString (position + 1)
    check (CRITERION_ID criterion.id) (name ++ " has an invalid id")
    storedText criterion.label (name ++ " label") Limits.MAX_CRITERION_LABEL false false
    let folded := toLowerCase (trim criterion.label)
    check (!(ids.contains criterion.id || labels.contains folded)) (name ++ " is a duplicate")
    identifiedCriteria question rest (position + 1) (criterion.id :: ids) (folded :: labels)

/-- The options of a question, after options with these ids; the ids of all of them are returned. -/
def identifiedOptions (question : String) (verbatim : Bool) :
    List Choice → (optionIds : List String) → Except String (List String)
  | [], optionIds => .ok optionIds
  | option :: rest, optionIds => do
    storedText option.id (question ++ " option id") Limits.MAX_CALL_ID false false
    check (!optionIds.contains option.id) "Questionnaire has duplicate option IDs"
    storedText option.label (question ++ " option label") Limits.MAX_LABEL false verbatim
    storedText option.description (question ++ " option description") Limits.MAX_DESCRIPTION true verbatim
    storedField option.preview (question ++ " option preview") Limits.MAX_PREVIEW verbatim
    identifiedOptions question verbatim rest (option.id :: optionIds)

/-- One of `count` questions; the ids of its options are returned with those from before it. -/
def identifiedQuestion (count index : Nat) (question : Item) (questionIds optionIds : List String) :
    Except String (List String) := do
  let name := "Question " ++ toString (index + 1)
  check (!(question.written && (question.verbatim || question.multiple))) (name ++ " has invalid text response")
  storedText question.id (name ++ " id") Limits.MAX_CALL_ID false false
  check (!questionIds.contains question.id) "Questionnaire has duplicate question IDs"
  storedText question.header (name ++ " header") Limits.MAX_HEADER false question.verbatim
  storedText question.question name Limits.MAX_QUESTION false question.verbatim
  storedField question.description (name ++ " description") Limits.MAX_QUESTION_DESCRIPTION question.verbatim
  check (!(question.options.isEmpty && !question.verbatim && !question.written && (count != 1 || question.multiple) ||
      question.written && !question.options.isEmpty ||
      !question.verbatim && decide (Limits.MAX_OPTIONS < question.options.length)))
    (name ++ " has invalid options or multiple value")
  check (question.criteria.isEmpty || !(question.verbatim || question.written ||
      decide (Limits.MAX_CRITERIA < question.criteria.length)))
    (name ++ " has invalid criteria")
  identifiedCriteria toLowerCase name question.criteria 0 [] []
  identifiedOptions name question.verbatim question.options optionIds

/-- The questions from an index on, after questions and options with these ids. -/
def identifiedQuestions (count : Nat) :
    List Item → (index : Nat) → (questionIds optionIds : List String) → Except String Unit
  | [], _, _, _ => .ok ()
  | question :: rest, index, questionIds, optionIds => do
    let optionIds ← identifiedQuestion toLowerCase count index question questionIds optionIds
    identifiedQuestions count rest (index + 1) (question.id :: questionIds) optionIds

/-- Validate a stored or wire definition without changing its durable IDs or order. -/
def identified (definition : Definition) : Except String Unit := do
  check (!(definition.questions.isEmpty ||
      decide (Limits.MAX_QUESTIONS < definition.questions.length) && !definition.questions.all (·.verbatim)))
    "Questionnaire definition has an invalid question count"
  identifiedQuestions toLowerCase definition.questions.length definition.questions 0 [] []

/-! ## Additions -/

/-- What somebody asks to append; `none` is a value that is no string. -/
structure OptionInput where
  question : String
  key : Option String
  label : Option String
  /-- Left out, or a value. -/
  description : Option (Option String)

structure CriterionInput where
  question : String
  key : Option String
  label : Option String

/-- `{ ok: false, reason: "invalid", message }` for a text that is thrown out. -/
def invalid {α : Type} (found : Except String α) : Except (OptionRefusal × String) α :=
  found.mapError (.invalid, ·)

/-- The description of a new option, which may be left out. -/
def newDescription (description : Option (Option String)) : Except String String :=
  match description with
  | none => .ok ""
  | some description => fieldText description "Option description" Limits.MAX_NEW_DESCRIPTION true false

/-- The label is that of an option there is. -/
def labelled (options : List Choice) (label : String) : Bool :=
  options.any fun option ↦ toLowerCase (trim option.label) == toLowerCase label

/-- Append one option to a decision's only question. -/
def appendOption (definition : Definition) (input : OptionInput) (id : String) :
    Except (OptionRefusal × String) (Definition × Choice) :=
  match definition.questions.head?.filter (·.id == input.question) with
  | none => .error (.invalid, "Unknown question")
  | some item =>
    if item.written then .error (.invalid, "Written answers do not have options")
    else if !input.key.any KEY then .error (.invalid, "Option request key is invalid")
    else do
      let label ← invalid (fieldText input.label "Option" Limits.MAX_NEW_LABEL false false)
      let description ← invalid (newDescription input.description)
      if labelled toLowerCase item.options label then .error (.duplicate, "That option already exists")
      else if Limits.MAX_SHARED_OPTIONS ≤ item.options.length then
        .error (.full, "A question can have at most 10 options")
      else if item.options.any (·.id == id) then .error (.invalid, "Option id is already in use")
      else
        let option : Choice := { id, label, description, preview := none }
        .ok ({ questions := [{ item with options := item.options ++ [option] }] }, option)

/-- Append one criterion to a decision's only choice question. -/
def appendCriterion (definition : Definition) (input : CriterionInput) (id : String) :
    Except (OptionRefusal × String) (Definition × Criterion) :=
  match definition.questions.head?.filter (·.id == input.question) with
  | none => .error (.invalid, "Unknown question")
  | some item =>
    if item.written || item.verbatim then .error (.invalid, "Only choice questions have criteria")
    else if !input.key.any KEY then .error (.invalid, "Criterion request key is invalid")
    else do
      let label ← invalid (fieldText input.label "Criterion" Limits.MAX_CRITERION_LABEL false false)
      if item.criteria.any fun criterion ↦ toLowerCase (trim criterion.label) == toLowerCase label then
        .error (.duplicate, "That criterion already exists")
      else if Limits.MAX_CRITERIA ≤ item.criteria.length then
        .error (.full, "A question can have at most 5 criteria")
      else if !CRITERION_ID id || item.criteria.any (·.id == id) then
        .error (.invalid, "Criterion id is already in use")
      else
        let criterion : Criterion := { id, label }
        .ok ({ questions := [{ item with criteria := item.criteria ++ [criterion] }] }, criterion)

structure CriterionAdded (M : Type) where
  definition : Definition
  model : M
  criterion : Criterion

/-- Append a criterion.  The draft's shape does not change: its `marks` object already exists and cells are
created lazily. -/
def addCriterion (crdt : Crdt M) (question : Item) (model : M) (id label : String) :
    Except (OptionRefusal × String) (CriterionAdded M) := do
  let (definition, criterion) ← appendCriterion crdt.toLowerCase { questions := [question] }
    { question := question.id, key := some "xxxxxxxx", label := some label } id
  match read crdt model definition with
  | .error _ => .error (.invalid, "This draft cannot hold criteria")
  | .ok _ => .ok { definition, model, criterion }

end Chopin.Questions
