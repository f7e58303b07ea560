import Chopin.Lib.Entries
import Chopin.Lib.Except
import Chopin.Lib.Text

/-!
# Questions and their shared drafts

A questionnaire is a definition and one collaborative draft that everybody edits
(`packages/question/src`).  A draft is read back against its definition before anything relies on it, and
an answer is derived from what was read.

The draft is a document of a CRDT library, which this development does not look into: `Crdt` is what the
questionnaires use of it, with the tree of nodes that a document shows.
-/

set_option autoImplicit false

open Script (trim text units)

namespace Chopin.Questions

/-! ## Definitions -/

namespace Limits

def MAX_DECISION_OPTIONS : Nat := 10
def MAX_NEW_QUESTION : Nat := 100
def MAX_NEW_LABEL : Nat := 60
def MAX_CUSTOM : Nat := 4000
def MAX_PATCH_BYTES : Nat := 64 * 1024
def MAX_MODEL_BYTES : Nat := 256 * 1024

end Limits

/-- An option of a question. -/
structure Choice where
  id : String
  label : String
  description : String
  preview : Option String
  deriving DecidableEq

structure Criterion where
  id : String
  label : String
  deriving DecidableEq

structure Item where
  id : String
  header : String
  question : String
  description : Option String
  options : List Choice
  criteria : List Criterion
  multiple : Bool
  /-- `response: "text"` -/
  written : Bool
  verbatim : Bool
  deriving DecidableEq

structure Definition where
  questions : List Item
  deriving DecidableEq

/-- Narrow a questionnaire to the shape owned by one durable decision card. -/
def decision (definition : Definition) : Except String Item :=
  match definition.questions with
  | [question] => .ok question
  | _ => .error "A decision record must contain exactly one question"

/-! ## Drafts -/

inductive Mode
  | choices
  | custom
  deriving DecidableEq

inductive Mark
  | yes
  | partly
  | no
  deriving DecidableEq

structure Draft where
  mode : Mode
  choice : Option String
  options : List (String × Bool)
  custom : String
  marks : Option (List (String × Option Mark))
  deriving DecidableEq

abbrev Drafts := List (String × Draft)

/-- What a register holds. -/
inductive Value
  | null
  | bool (value : Bool)
  | str (value : String)
  | other
  deriving DecidableEq

/-- What a document shows of itself: objects, registers, strings, and nodes of other kinds. -/
inductive Node
  | obj (entries : List (String × Node))
  | val (value : Value)
  | str (value : String)
  | other

/-- The CRDT documents, as far as a questionnaire uses them. -/
structure Crdt (M : Type) where
  /-- `model.root.child()` -/
  root : M → Node
  toBinary : M → List Nat
  fromBinary : List Nat → Except String M
  /-- `Model.create` of an object of this shape. -/
  create : Node → M
  /-- A clone with a patch applied. -/
  applyPatch : M → List Nat → Except String M
  /-- A clone whose object at `[question, "options"]` has a new register that holds `false`. -/
  setOption : M → (question option : String) → M
  /-- `model.api.obj([question]).set({ marks: {} })` -/
  setMarks : M → (question : String) → M
  toLowerCase : String → String
  toLocaleLowerCase : String → String
  /-- Whether a stored definition has the right fields within their bounds (`identified`). -/
  identified : Definition → Except String Unit

variable {M : Type}

/-- Choice questions carry a `marks` object; written and verbatim host questions do not. -/
def markable (question : Item) : Bool := !question.written && !question.verbatim

def reject {α : Type} (message : String) : Except String α := .error message

/-- `if (!valid) reject(message)` -/
def check (valid : Bool) (message : String) : Except String Unit := if valid then .ok () else reject message

def Node.get (entries : List (String × Node)) (key : String) : Option Node := entries.lookup key

/-- `keys(node, expected, name, optional)` -/
def checkKeys (entries : List (String × Node)) (expected : List String) (name : String)
    (optional : List String) : Except String Unit :=
  check (((entries.map (·.1)).filter fun key ↦ !optional.contains key || expected.contains key).isPerm expected)
    (name ++ " has invalid keys")

def register (node : Option Node) (name : String) : Except String Value :=
  match node with
  | some (.val value) => .ok value
  | _ => reject (name ++ " must be an LWW register")

def object (node : Option Node) (name : String) : Except String (List (String × Node)) :=
  match node with
  | some (.obj entries) => .ok entries
  | _ => reject (name ++ " must be an object")

def markKey (optionId criterionId : String) : String := optionId ++ "/" ++ criterionId

def readMode (question : Item) (value : Value) : Except String Mode :=
  if value = .str "choices" then .ok .choices
  else if value = .str "custom" then .ok .custom
  else reject (question.id ++ ".mode is invalid")

def readChoice (question : Item) (value : Value) : Except String (Option String) :=
  match value with
  | .null => .ok none
  | .str id =>
    if question.options.any (·.id == id) then .ok (some id)
    else reject (question.id ++ ".choice contains an invalid option ID")
  | _ => reject (question.id ++ ".choice must be an option ID or null")

def readOption (question : Item) (entries : List (String × Node)) (option : Choice) :
    Except String (String × Bool) :=
  match Node.get entries option.id with
  | none => .ok (option.id, false)
  | some node => do
    match ← register (some node) (question.id ++ ".options." ++ option.id) with
    | .bool selected => .ok (option.id, selected)
    | _ => reject (question.id ++ ".options." ++ option.id ++ " must be a boolean LWW register")

def readMark (question : Item) (known : List String) (entry : String × Node) :
    Except String (String × Option Mark) :=
  if !known.contains entry.1 then reject (question.id ++ ".marks has invalid keys")
  else do
    match ← register (some entry.2) (question.id ++ ".marks." ++ entry.1) with
    | .null => .ok (entry.1, none)
    | .str "yes" => .ok (entry.1, some .yes)
    | .str "partly" => .ok (entry.1, some .partly)
    | .str "no" => .ok (entry.1, some .no)
    | _ => reject (question.id ++ ".marks." ++ entry.1 ++ " is invalid")

def readMarks (node : Option Node) (question : Item) : Except String (List (String × Option Mark)) := do
  let cells ← object node (question.id ++ ".marks")
  cells.mapM (readMark question (question.options.flatMap fun option ↦
    question.criteria.map fun criterion ↦ markKey option.id criterion.id))

/-- The marks of a draft, which count only where the question has criteria. -/
def readCells (node : List (String × Node)) (question : Item) :
    Except String (Option (List (String × Option Mark))) :=
  if 0 < question.criteria.length then some <$> readMarks (Node.get node "marks") question
  else if (Node.get node "marks").isSome then (fun _ ↦ none) <$> readMarks (Node.get node "marks") question
  else .ok none

/-- The draft in the object of a question. -/
def readNode (node : List (String × Node)) (question : Item) : Except String (String × Draft) := do
  checkKeys node (["mode", "choice", "options", "custom"] ++ if 0 < question.criteria.length then ["marks"] else [])
    question.id (if markable question then ["marks"] else [])
  let mode ← readMode question (← register (Node.get node "mode") (question.id ++ ".mode"))
  let choice ← readChoice question (← register (Node.get node "choice") (question.id ++ ".choice"))
  let entries ← object (Node.get node "options") (question.id ++ ".options")
  check (entries.all fun entry ↦ question.options.any (·.id == entry.1))
    (question.id ++ ".options has invalid keys")
  let options ← question.options.mapM (readOption question entries)
  check (!question.written || mode == .custom && choice.isNone && !options.any (·.2))
    (question.id ++ " requires a written answer")
  let custom ← match Node.get node "custom" with
    | some (.str value) => .ok value
    | _ => reject (question.id ++ ".custom must be a CRDT string")
  check (question.verbatim || decide (units custom ≤ Limits.MAX_CUSTOM))
    (question.id ++ ".custom exceeds 4000 characters")
  let marks ← readCells node question
  pure (question.id, { mode, choice, options, custom, marks })

/-- The draft of one question. -/
def readQuestion (root : List (String × Node)) (question : Item) : Except String (String × Draft) := do
  readNode (← object (Node.get root question.id) question.id) question

/-- Read a model as drafts, rejecting anything that does not match the definition. -/
def read (crdt : Crdt M) (model : M) (definition : Definition) : Except String Drafts := do
  match crdt.root model with
  | .obj root => do
    checkKeys root (definition.questions.map (·.id)) "Questionnaire root" []
    definition.questions.mapM (readQuestion root)
  | _ => reject "Questionnaire root must be an object"

/-- Build the initial draft for a definition. -/
def shape (definition : Definition) : Node :=
  .obj (definition.questions.map fun question ↦ (question.id, .obj
    ((if markable question then [("marks", Node.obj [])] else []) ++
      [("mode", Node.val (.str
          (if question.written || question.verbatim && question.options.isEmpty then "custom" else "choices"))),
        ("choice", Node.val .null),
        ("options", Node.obj (question.options.map fun option ↦ (option.id, .val (.bool false)))),
        ("custom", Node.str "")])))

def tooLarge : String := "Questionnaire collaboration state exceeds the 256 KiB limit"

def create (crdt : Crdt M) (definition : Definition) : Except String M :=
  let model := crdt.create (shape definition)
  if Limits.MAX_MODEL_BYTES < (crdt.toBinary model).length then reject tooLarge else .ok model

/-- Restore a complete shared draft, proving it still matches its definition. -/
def restore (crdt : Crdt M) (binary : List Nat) (definition : Definition) : Except String M := do
  check (decide (binary.length ≤ Limits.MAX_MODEL_BYTES)) tooLarge
  let model ← crdt.fromBinary binary
  let _ ← read crdt model definition
  pure model

/-- The question's object has no `marks` yet, as a draft stored before criteria existed. -/
def unmarked (crdt : Crdt M) (model : M) (question : Item) : Bool :=
  match crdt.root model with
  | .obj root =>
    match Node.get root question.id with
    | some (.obj node) => markable question && !(node.map (·.1)).contains "marks"
    | _ => false
  | _ => false

/-- Give a draft stored before criteria existed its empty `marks` object. -/
def upgrade (crdt : Crdt M) (model : M) (definition : Definition) : M :=
  definition.questions.foldl (fun model question ↦
    if unmarked crdt model question then crdt.setMarks model question.id else model) model

/-! ## Answers -/

structure Answer where
  question : String
  custom : Option String
  choices : Option (List String)
  optionIds : Option (List String)
  marks : Option (List (String × Mark))
  deriving DecidableEq

/-- The marked cells of a draft, without cleared ones. -/
def marked (draft : Draft) : List (String × Mark) :=
  (draft.marks.getD []).filterMap fun cell ↦ cell.2.map fun mark ↦ (cell.1, mark)

def selects (draft : Draft) (option : Choice) : Bool := (draft.options.lookup option.id).getD false

/-- Whether a question has enough of an answer to submit. -/
def answered (question : Item) (draft : Option Draft) : Bool :=
  match draft with
  | none => false
  | some draft =>
    if question.written then draft.mode == .custom && text draft.custom
    else if draft.mode = .custom then question.verbatim || text draft.custom
    else if question.multiple then question.options.any (selects draft)
    else question.options.any (some ·.id == draft.choice)

/-- The answer to one question. -/
def deriveOne (drafts : Drafts) (question : Item) : Except String Answer :=
  let draft := drafts.lookup question.id
  if !answered question draft then
    .error (if draft.any (·.mode == .custom) then question.header ++ " requires a custom answer"
      else question.header ++ " requires an answer")
  else
    match draft with
    | none => .error (question.header ++ " requires an answer")
    | some draft =>
      if draft.mode = .custom then
        .ok { question := question.question
              custom := some (if question.verbatim then draft.custom else trim draft.custom)
              choices := none, optionIds := none, marks := none }
      else
        let selected := question.options.filter fun option ↦
          if question.multiple then selects draft option else some option.id == draft.choice
        if !question.multiple && 1 < selected.length then
          .error (question.header ++ " accepts only one answer")
        else
          .ok { question := question.question, custom := none
                choices := some (selected.map (·.label)), optionIds := some (selected.map (·.id))
                marks := if (marked draft).isEmpty then none else some (marked draft) }

/-- Derive answers from a draft: every question must be answered. -/
def derive (definition : Definition) (drafts : Drafts) : Except String (List Answer) :=
  definition.questions.mapM (deriveOne drafts)

/-- Nothing was chosen or written yet. -/
def untouched (draft : Draft) : Bool :=
  draft.mode == .choices && draft.choice.isNone && draft.custom == "" && !draft.options.any (·.2)

/-! ## Changes -/

/-- Reject a patch that is malformed or too large before it is applied. -/
def assertPatch (binary : List Int) : Except String (List Nat) :=
  if binary.isEmpty then reject "Question edit patch is empty"
  else if Limits.MAX_PATCH_BYTES < binary.length then reject "Question edit exceeds the 64 KiB patch limit"
  else if binary.any fun byte ↦ byte < 0 || 255 < byte then reject "Question edit patch contains invalid bytes"
  else .ok (binary.map Int.toNat)

/-- Apply one patch, if the result is still a draft the definition describes; `none` for one that
changes nothing. -/
def apply (crdt : Crdt M) (model : M) (definition : Definition) (binary : List Int) :
    Except String (Option M) := do
  let patch ← assertPatch binary
  let next ← crdt.applyPatch model patch
  let _ ← read crdt next definition
  check (decide ((crdt.toBinary next).length ≤ Limits.MAX_MODEL_BYTES)) "Answer exceeds the 256 KiB limit"
  pure (if crdt.toBinary next = crdt.toBinary model then none else some next)

/-- Why an option is not added. -/
inductive OptionRefusal
  | full
  | duplicate
  | invalid
  | closed
  deriving DecidableEq

structure Added (M : Type) where
  definition : Definition
  model : M
  option : Choice

/-- Grow a decision: the definition and the shared draft change together.  Reading the grown draft back
may throw. -/
def addOption (crdt : Crdt M) (question : Item) (model : M) (id label : String) :
    Except String (Except (OptionRefusal × String) (Added M)) :=
  let label := trim label
  if question.written then .ok (.error (.invalid, "Written answers do not have options"))
  else if label = "" then .ok (.error (.invalid, "An option needs a label"))
  else if Limits.MAX_NEW_LABEL < units label then
    .ok (.error (.invalid, "An option label is at most 60 characters"))
  else if Limits.MAX_DECISION_OPTIONS ≤ question.options.length then
    .ok (.error (.full, "A decision holds at most 10 options"))
  else if question.options.any fun option ↦ crdt.toLowerCase (trim option.label) == crdt.toLowerCase label then
    .ok (.error (.duplicate, "That is already an option"))
  else if question.options.any (·.id == id) then
    .ok (.error (.duplicate, "That option ID already exists"))
  else do
    let option : Choice := { id, label, description := "", preview := none }
    let definition : Definition := { questions := [{ question with options := question.options ++ [option] }] }
    let model := crdt.setOption model question.id id
    let _ ← read crdt model definition
    pure (.ok { definition, model, option })

end Chopin.Questions
