import Chopin.Lib.Entries
import Chopin.Lib.Except
import Chopin.Mdx.Validate

/-!
# Questionnaires in a document

A document shows a questionnaire as an element: a projection of the record kept beside it.  The element is written from
the projection and read back to it (`questionnaire-mdx.ts`), and both go through the check of the projection's fields
(`questionnaire-fields.ts`).

Strings are read as they come: that a status is one of the five, or a mark one of the three, is what `parse` checks.  An
absent field is `none`.
-/

set_option autoImplicit false

open Script
open Except (demand)

namespace Chopin.Mdx.Questionnaires

/-! ## The projection -/

structure QuestionOption where
  id : Units
  label : Units
  description : Option Units
  /-- The option's own visual as Markdown: an image of this document's, a diagram, a table. -/
  preview : Option Units
deriving DecidableEq

structure Criterion where
  id : Units
  label : Units
deriving DecidableEq

/-- A settled answer's matrix, keyed `optionId/criterionId`, sparse.  An object has no key twice. -/
structure Marks where
  cells : List (Units × Units)
  distinct : (cells.map Prod.fst).Nodup
deriving DecidableEq

/-- `{}` -/
def Marks.empty : Marks := ⟨[], .nil⟩

/-- `marks[cell] = mark`; what is set under `__proto__` is no field. -/
def Marks.set (marks : Marks) (cell mark : Units) : Marks :=
  if cell = utf16 "__proto__" then marks
  else ⟨Entries.set marks.cells cell mark, Entries.nodup_set marks.distinct cell mark⟩

structure Previous where
  choices : List Units
  value : Option Units
  «by» : Units
  «at» : Units
deriving DecidableEq

structure Question where
  id : Units
  header : Units
  prompt : Units
  description : Option Units
  multiple : Bool
  response : Option Units
  options : List QuestionOption
  /-- Columns the options are judged against.  Choice questions only. -/
  criteria : Option (List Criterion)
  /-- Projection of the settled matrix, when the question has criteria and an answer. -/
  marks : Option Marks
  /-- Projection of the resolved answer, when there is one. -/
  answer : Option Units
  /-- Ids of the chosen options, when known. -/
  choices : Option (List Units)
  /-- Latest decision replaced when this question was reopened. -/
  previous : Option Previous
deriving DecidableEq

structure Questionnaire where
  id : Units
  questions : List Question
  /-- Conversation thread that raised this card. -/
  thread : Option Units
  /-- Absent on older documents. -/
  status : Option Units
  /-- Who settled it, and when. -/
  «by» : Option Units
  «at» : Option Units
deriving DecidableEq

/-! ## Its fields -/

def STATUSES : List String := ["open", "decided", "reopened", "discarded", "expired"]

def MARKS : List String := ["yes", "partly", "no"]

/-- The text says something, and is not too long. -/
def bounded (max : Nat) (value : Units) : Bool := !isBlank value && value.length ≤ max

/-- A cell of the matrix is of an option and a criterion, and its mark is one of the three. -/
def checkCell (options ids : List Units) (cell mark : Units) : Bool :=
  (lastIndexOf cell 0x2f).any fun slash ↦
    1 ≤ slash && options.contains (cell.take slash) && ids.contains (cell.drop (slash + 1)) && oneOf MARKS mark

/-- The criteria and the marks of a question. -/
def checkCriteria (question : Question) : Except String Unit :=
  match question.criteria with
  | none => demand question.marks.isNone "invalid questionnaire criteria"
  | some criteria => do
    demand (question.response.isNone && criteria != [] && criteria.length ≤ MAX_CRITERIA &&
      criteria.all (fun criterion ↦ criterion.id != [] && bounded MAX_CRITERION_LABEL criterion.label) &&
      decide (criteria.map (·.id)).Nodup) "invalid questionnaire criteria"
    match question.marks with
    | none => .ok ()
    | some marks =>
      demand (question.answer.isSome && marks.cells.all fun entry ↦
        checkCell (question.options.map (·.id)) (criteria.map (·.id)) entry.1 entry.2)
        "invalid questionnaire criteria"

/-- A question that is answered in writing. -/
def checkResponse (question : Question) : Except String Unit :=
  match question.response with
  | none => .ok ()
  | some response => do
    demand (response == utf16 "text" && !question.multiple && question.options == [])
      "invalid questionnaire text response"
    demand (question.choices.all (· == []) && question.previous.all (·.choices == []))
      "text questionnaire cannot contain answer choices"
    demand (question.answer.all (bounded MAX_CUSTOM_ANSWER)) "invalid questionnaire written answer"

/-- The decision that was replaced. -/
def checkPrevious (question : Question) : Except String Unit :=
  match question.previous with
  | none => .ok ()
  | some previous => do
    demand (previous.choices.length ≤ MAX_OPTIONS && (previous.choices == []) != previous.value.isNone &&
      previous.value.all (bounded MAX_CUSTOM_ANSWER) && bounded MAX_HANDLE previous.by &&
      bounded MAX_TIMESTAMP previous.at) "invalid questionnaire previous decision"
    demand (previous.choices.all (question.options.map (·.id)).contains && decide previous.choices.Nodup &&
      (question.multiple || previous.choices.length ≤ 1)) "invalid questionnaire previous choices"

def checkQuestion (question : Question) : Except String Unit := do
  checkResponse question
  checkCriteria question
  checkPrevious question

/-- The fields of a projection, which is returned as it is. -/
def parse (value : Questionnaire) : Except String Questionnaire := do
  demand (value.thread.all (bounded MAX_ID)) "invalid questionnaire thread"
  demand (value.status.all (oneOf STATUSES)) "invalid questionnaire status"
  value.questions.forM checkQuestion
  .ok value

/-! ## Attributes -/

/-- `value || undefined` -/
def kept (value : Option Units) : Option Units := value.filter (· != [])

/-- `attribute(node, name)`: a string attribute of a parsed component. -/
def readAttribute (node : Node) (name : String) : Option Units := node.stringAttribute name

/-- One attribute. -/
def written (name : String) (value : Units) : Attribute := .named name (some value)

/-- Build MDX attributes, dropping empties so optional values stay out of source. -/
def attributes (values : List (String × Option Units)) : List Attribute :=
  values.filterMap fun entry ↦ (kept entry.2).map (written entry.1)

/-- Attributes every identified component carries, in canonical order. -/
def identity (id : Units) (rest : List (String × Option Units)) : List Attribute :=
  attributes (("id", some id) :: rest)

/-- The flow components of a name directly beneath a component. -/
def elements (node : Node) (name : String) : List Node :=
  node.children.filter fun child ↦ child.type == "mdxJsxFlowElement" && child.name == some name

/-- `strings.join(" ")` -/
def join (strings : List Units) : Units := [0x20].intercalate strings

/-! ## Marks -/

/-- `option/criterion:mark` tokens. -/
def encodeMarks (marks : Marks) : Option Units :=
  let tokens := marks.cells.map fun entry ↦ entry.1 ++ [0x3a] ++ entry.2
  if tokens = [] then none else some (join tokens)

/-- One token. -/
def decodeMark (marks : Marks) (token : Units) : Except String Marks :=
  match (lastIndexOf token 0x3a).filter (1 ≤ ·) with
  | none => .error "invalid questionnaire marks"
  | some colon => .ok (marks.set (token.take colon) (token.drop (colon + 1)))

def decodeMarks (value : Option Units) : Except String (Option Marks) :=
  match value with
  | none => .ok none
  | some value => ((words value).foldlM decodeMark Marks.empty).map some

/-! ## Reading -/

def readOption (source : Node) : QuestionOption where
  id := (readAttribute source "id").getD []
  label := (readAttribute source "label").getD []
  description := kept (readAttribute source "description")
  preview := kept (readAttribute source "preview")

def readCriterion (source : Node) : Criterion where
  id := (readAttribute source "id").getD []
  label := (readAttribute source "label").getD []

/-- The ids of an answer, when it names some. -/
def readChoices (answer : Node) : Option (List Units) :=
  let chosen := words ((readAttribute answer "choices").getD [])
  if chosen = [] then none else some chosen

def readPrevious (previous : Node) : Previous where
  choices := words (trimUnits ((readAttribute previous "choices").getD []))
  value := readAttribute previous "value"
  «by» := (readAttribute previous "by").getD []
  «at» := (readAttribute previous "at").getD []

def readQuestion (element : Node) : Except String Question := do
  let criteria := (elements element "Criterion").map readCriterion
  let answer := (elements element "Answer").head?
  let marks ← decodeMarks (answer.bind (readAttribute · "marks"))
  let previousElements := elements element "Previous"
  demand (previousElements.length ≤ 1) "Question accepts at most one Previous"
  .ok {
    id := (readAttribute element "id").getD []
    header := (readAttribute element "header").getD []
    prompt := (readAttribute element "prompt").getD []
    description := readAttribute element "description"
    multiple := readAttribute element "multiple" == some (utf16 "true")
    response := readAttribute element "response"
    options := (elements element "Option").map readOption
    criteria := if criteria = [] then none else some criteria
    marks
    answer := answer.map fun answer ↦ (readAttribute answer "value").getD []
    choices := answer.bind readChoices
    previous := previousElements.head?.map readPrevious }

def fromElement (node : Node) : Except String Questionnaire := do
  let questions ← (elements node "Question").mapM readQuestion
  parse {
    id := (readAttribute node "id").getD []
    questions
    thread := readAttribute node "thread"
    status := readAttribute node "status"
    «by» := kept (readAttribute node "by")
    «at» := kept (readAttribute node "at") }

/-! ## Writing -/

/-- A flow element. -/
def element (name : String) (attributes : List Attribute) (children : List Node) : Node :=
  .jsx .flow (some name) attributes children none

def optionElement (option : QuestionOption) : Node :=
  element "Option" (identity option.id [] ++ [written "label" option.label] ++
    ((kept option.description).map (written "description")).toList ++
    ((kept option.preview).map (written "preview")).toList) []

def criterionElement (criterion : Criterion) : Node :=
  element "Criterion" (identity criterion.id [] ++ [written "label" criterion.label]) []

/-- A projection of sidecar state: addressed through its Question, so it carries no identity of its own. -/
def answerElement (question : Question) (answer : Units) : Node :=
  element "Answer" ([written "value" answer] ++
    attributes [("choices", question.choices.map join), ("marks", question.marks.bind encodeMarks)]) []

def previousElement (previous : Previous) : Node :=
  element "Previous" (attributes [
    ("choices", if previous.choices = [] then none else some (join previous.choices)),
    ("value", previous.value),
    ("by", some previous.by),
    ("at", some previous.at)]) []

def questionElement (question : Question) : Node :=
  element "Question"
    (identity question.id [] ++ [written "header" question.header, written "prompt" question.prompt] ++
      attributes [("description", question.description), ("response", question.response)] ++
      [written "multiple" (if question.multiple then utf16 "true" else utf16 "false")])
    (question.options.map optionElement ++ (question.criteria.getD []).map criterionElement ++
      (question.answer.map (answerElement question)).toList ++ (question.previous.map previousElement).toList)

def toElement (value : Questionnaire) : Except String Node := do
  let value ← parse value
  .ok (element "Questionnaire"
    (identity value.id
      [("thread", value.thread), ("status", value.status), ("by", value.by), ("at", value.at)])
    (value.questions.map questionElement))

end Chopin.Mdx.Questionnaires
