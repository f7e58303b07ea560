import Chopin.Lib.Entries
import Chopin.Lib.Platform
import Mathlib.Data.Rat.Init

/-!
# What an investigation reports

The request that a local agent works from, the result it submits, and the selections people share on a
result's views (`packages/experiment/src/index.ts`, `selection.ts`).

A schema's `trim()` changes what it reads, so `resultSchema` answers a result; every other check here
only refuses.
-/

set_option autoImplicit false

open Script (Platform units text trim bounded)

namespace Chopin.Investigations

/-- `new ExperimentError(code, message)`, and the errors of a store and of a schema. -/
inductive Failure where
  | experiment (code message : String)
  | conflict (message : String)
  | missing (message : String)
  | invalid
  deriving DecidableEq

/-- `fail(code)`, whose message is its code. -/
def Failure.coded (code : String) : Failure := .experiment code code

/-- `if (refused) fail(…)` -/
def refuse (refused : Bool) (failure : Failure) : Except Failure Unit :=
  if refused then .error failure else .ok ()

theorem refuse_eq_ok {refused : Bool} {failure : Failure} {u : Unit} :
    refuse refused failure = .ok u ↔ refused = false := by
  cases refused <;> simp [refuse]

namespace limits

def resultBytes : Nat := 1024 * 1024
def report : Nat := 128 * 1024
def rows : Nat := 4096
def columns : Nat := 32
def datasets : Nat := 8
def views : Nat := 16
def evidence : Nat := 8
def text : Nat := 64 * 1024
def brief : Nat := 8000
def context : Nat := 256 * 1024

end limits

/-! ## Values -/

inductive Scalar where
  | string (value : String)
  | number (value : Rat)
  | boolean (value : Bool)
  | null
  deriving DecidableEq

def scalarSchema : Scalar → Bool
  | .string value => units value ≤ 2000
  | _ => true

def letter (c : Char) : Bool := ('a' ≤ c && c ≤ 'z') || ('A' ≤ c && c ≤ 'Z')

def digit (c : Char) : Bool := '0' ≤ c && c ≤ '9'

/-- `/^[a-zA-Z][a-zA-Z0-9_-]*$/`, of at most 64 and not a name every object has. -/
def key (value : String) : Bool :=
  bounded 64 value
    && (match value.toList with
      | first :: rest => letter first && rest.all fun c ↦ letter c || digit c || c == '_' || c == '-'
      | [] => false)
    && !(["constructor", "prototype", "__proto__"].contains value)

/-- A label's length, once it is trimmed. -/
def label (value : String) : Bool := bounded 200 value

/-! ## Requests -/

structure Source where
  repositoryId : String
  repository : String
  commit : String
  branch : Option String
  deriving DecidableEq

/-- `/^[\w.-]+\/[\w.-]+$/` -/
def repositoryName (value : String) : Bool :=
  let parts := value.toList.splitOn '/'
  parts.length == 2 && parts.all fun part ↦
    !part.isEmpty && part.all fun c ↦ letter c || digit c || c == '_' || c == '.' || c == '-'

def sourceSchema (source : Source) : Bool :=
  bounded 200 source.repositoryId
    && repositoryName source.repository && units source.repository ≤ 200
    && (Script.hex 40 40 source.commit || Script.hex 64 64 source.commit)
    && source.branch.all (bounded 255)

structure RunInput where
  id : String
  documentId : String
  brief : String
  source : Source
  context : String
  requester : String
  authorizer : String
  deriving DecidableEq

def requestSchema (platform : Platform) (input : RunInput) : Bool :=
  platform.uuid input.id && platform.uuid input.documentId
    && bounded limits.brief input.brief && text input.brief
    && sourceSchema input.source
    && units input.context ≤ limits.context
    && bounded 200 input.requester && bounded 200 input.authorizer

/-! ## Results -/

inductive ColumnType where
  | string
  | number
  | boolean
  | timestamp
  deriving DecidableEq

structure Column where
  key : String
  label : String
  type : ColumnType
  unit : Option String
  nullable : Option Bool
  deriving DecidableEq

structure Row where
  key : String
  values : List (String × Scalar)
  deriving DecidableEq

inductive Basis where
  | observed
  | derived
  | simulated
  | qualitative
  deriving DecidableEq

/-- Where a dataset was captured. -/
structure Capture where
  label : String
  capturedAt : String
  query : Option String
  url : Option String
  deriving DecidableEq

structure Dataset where
  key : String
  title : String
  columns : List Column
  rows : List Row
  method : String
  basis : Basis
  sources : List Capture
  deriving DecidableEq

inductive ViewKind where
  | table
  | metricComparison
  | barChart
  | lineChart
  deriving DecidableEq

structure View where
  key : String
  title : String
  kind : ViewKind
  datasetKey : String
  categoryColumn : Option String
  valueColumn : Option String
  filterColumns : List String
  deriving DecidableEq

inductive Format where
  | plain
  | csv
  | json
  | diff
  deriving DecidableEq

structure Evidence where
  key : String
  title : String
  format : Format
  text : String
  deriving DecidableEq

structure Provenance where
  environment : String
  checks : List String
  limitations : List String
  deriving DecidableEq

structure Result where
  schemaVersion : Nat
  report : String
  datasets : List Dataset
  views : List View
  evidence : List Evidence
  provenance : Provenance
  deriving DecidableEq

/-! ## The result's schema -/

def Column.trimmed (column : Column) : Column := { column with label := trim column.label }

/-- An address is kept trimmed, too. -/
def Capture.trimmed (capture : Capture) : Capture :=
  { capture with label := trim capture.label, url := capture.url.map trim }

def Dataset.trimmed (dataset : Dataset) : Dataset :=
  { dataset with
    title := trim dataset.title
    columns := dataset.columns.map Column.trimmed
    sources := dataset.sources.map Capture.trimmed }

def View.trimmed (view : View) : View := { view with title := trim view.title }

def Evidence.trimmed (evidence : Evidence) : Evidence := { evidence with title := trim evidence.title }

def Result.trimmed (result : Result) : Result :=
  { result with
    report := trim result.report
    datasets := result.datasets.map Dataset.trimmed
    views := result.views.map View.trimmed
    evidence := result.evidence.map Evidence.trimmed }

def columnSchema (column : Column) : Bool :=
  key column.key && label column.label && column.unit.all (units · ≤ 40)

def rowSchema (row : Row) : Bool :=
  key row.key && row.values.all fun entry ↦ key entry.1 && scalarSchema entry.2

def captureSchema (platform : Platform) (secure : String → Bool) (capture : Capture) : Bool :=
  label capture.label && platform.datetime capture.capturedAt
    && capture.query.all (units · ≤ 4000)
    && capture.url.all fun url ↦ platform.url url && units url ≤ 2048 && secure url

def datasetSchema (platform : Platform) (secure : String → Bool) (dataset : Dataset) : Bool :=
  key dataset.key && label dataset.title
    && 1 ≤ dataset.columns.length && dataset.columns.length ≤ limits.columns
    && dataset.columns.all columnSchema
    && dataset.rows.length ≤ limits.rows && dataset.rows.all rowSchema
    && units dataset.method ≤ 4000
    && dataset.sources.length ≤ 20 && dataset.sources.all (captureSchema platform secure)

def viewSchema (view : View) : Bool :=
  key view.key && label view.title && key view.datasetKey
    && view.categoryColumn.all key && view.valueColumn.all key
    && view.filterColumns.length ≤ 8 && view.filterColumns.all key

def evidenceSchema (evidence : Evidence) : Bool :=
  key evidence.key && label evidence.title && units evidence.text ≤ limits.text

def provenanceSchema (provenance : Provenance) : Bool :=
  units provenance.environment ≤ 4000
    && provenance.checks.length ≤ 40 && provenance.checks.all (units · ≤ 2000)
    && provenance.limitations.length ≤ 40 && provenance.limitations.all (units · ≤ 2000)

/-- `resultSchema`, of a result whose labels and report are trimmed. -/
def resultChecks (platform : Platform) (secure : String → Bool) (result : Result) : Bool :=
  result.schemaVersion == 1 && bounded limits.report result.report
    && result.datasets.length ≤ limits.datasets && result.datasets.all (datasetSchema platform secure)
    && result.views.length ≤ limits.views && result.views.all viewSchema
    && result.evidence.length ≤ limits.evidence && result.evidence.all evidenceSchema
    && provenanceSchema result.provenance

def resultSchema (platform : Platform) (secure : String → Bool) (result : Result) : Option Result :=
  if resultChecks platform secure result.trimmed then some result.trimmed else none

theorem Column.trimmed_idem (column : Column) : column.trimmed.trimmed = column.trimmed := by
  rw [trimmed, trimmed, Script.trim_trim]

theorem Capture.trimmed_idem (capture : Capture) : capture.trimmed.trimmed = capture.trimmed := by
  rw [trimmed, trimmed, Script.trim_trim, Option.map_map,
    show trim ∘ trim = trim from funext Script.trim_trim]

theorem map_trimmed {α : Type} {trimmed : α → α} (h : ∀ value, trimmed (trimmed value) = trimmed value)
    (values : List α) : (values.map trimmed).map trimmed = values.map trimmed := by
  rw [List.map_map]
  exact List.map_congr_left fun value _ ↦ h value

theorem Dataset.trimmed_idem (dataset : Dataset) : dataset.trimmed.trimmed = dataset.trimmed := by
  rw [trimmed, trimmed, Script.trim_trim, map_trimmed Column.trimmed_idem, map_trimmed Capture.trimmed_idem]

theorem View.trimmed_idem (view : View) : view.trimmed.trimmed = view.trimmed := by
  rw [trimmed, trimmed, Script.trim_trim]

theorem Evidence.trimmed_idem (evidence : Evidence) : evidence.trimmed.trimmed = evidence.trimmed := by
  rw [trimmed, trimmed, Script.trim_trim]

/-- What is trimmed is trimmed again to itself. -/
theorem Result.trimmed_idem (result : Result) : result.trimmed.trimmed = result.trimmed := by
  rw [Result.trimmed, Result.trimmed, Script.trim_trim, map_trimmed Dataset.trimmed_idem,
    map_trimmed View.trimmed_idem, map_trimmed Evidence.trimmed_idem]

/-! ## The result's references -/

def invalidResult (message : String) : Failure := .experiment "invalid-result" message

def unique (values : List String) (name : String) : Except Failure Unit :=
  refuse (!decide values.Nodup) (invalidResult ("Duplicate " ++ name ++ "."))

/-- The type a column asks of a value. -/
def valid (platform : Platform) (column : Column) : Scalar → Bool
  | .null => column.nullable == some true
  | .string value => match column.type with
    | .timestamp => platform.datetime value
    | type => type == .string
  | .number _ => column.type == .number
  | .boolean _ => column.type == .boolean

def checkRow (platform : Platform) (dataset : Dataset) (row : Row) : Except Failure Unit := do
  refuse (row.values.length != dataset.columns.length)
    (invalidResult ("Row " ++ row.key ++ " has unexpected columns."))
  dataset.columns.forM fun column ↦
    refuse (!(row.values.lookup column.key).any (valid platform column))
      (invalidResult ("Invalid " ++ column.key ++ " in row " ++ row.key ++ "."))

def checkDataset (platform : Platform) (dataset : Dataset) : Except Failure Unit := do
  unique (dataset.columns.map (·.key)) "column keys"
  unique (dataset.rows.map (·.key)) "row keys"
  dataset.rows.forM (checkRow platform dataset)

def checkView (datasets : List Dataset) (view : View) : Except Failure Unit :=
  match datasets.find? (·.key == view.datasetKey) with
  | none => .error (invalidResult "View references a missing dataset.")
  | some dataset => do
    unique view.filterColumns "filter columns"
    (view.filterColumns ++ view.categoryColumn.toList).forM fun column ↦
      refuse (!dataset.columns.any (·.key == column))
        (invalidResult ("Unknown view column " ++ column ++ "."))
    refuse (view.valueColumn.any fun value ↦
        !dataset.columns.any fun column ↦ column.key == value && column.type == .number)
      (invalidResult "A value column must be numeric.")
    refuse (view.kind != .table && (view.categoryColumn.isNone || view.valueColumn.isNone))
      (invalidResult "A chart or comparison needs category and value columns.")
    refuse (view.kind == .lineChart && !dataset.columns.any fun column ↦
        some column.key == view.categoryColumn && (column.type == .timestamp || column.type == .number))
      (invalidResult "A line chart needs an ordered numeric or timestamp axis.")

/-- What a local agent submits, and the bytes of its JSON. -/
structure Submission where
  result : Result
  bytes : Nat
  deriving DecidableEq

def parseResult (platform : Platform) (secure : String → Bool) (input : Submission) :
    Except Failure Result := do
  refuse (limits.resultBytes < input.bytes) (invalidResult "Result exceeds the byte limit.")
  match resultSchema platform secure input.result with
  | none => .error .invalid
  | some result => do
    unique (result.datasets.map (·.key)) "dataset keys"
    unique (result.views.map (·.key)) "view keys"
    unique (result.evidence.map (·.key)) "evidence keys"
    result.datasets.forM (checkDataset platform)
    result.views.forM (checkView result.datasets)
    .ok result

/-! ## Selections -/

structure Field where
  revision : Nat
  values : List Scalar
  deriving DecidableEq

structure ViewState where
  revision : Nat
  fields : List (String × Field)
  deriving DecidableEq

structure SelectionPatch where
  mutationId : String
  expected : List (String × Nat)
  set : List (String × List Scalar)
  deriving DecidableEq

def selectionPatchSchema (platform : Platform) (patch : SelectionPatch) : Bool :=
  platform.uuid patch.mutationId
    && patch.expected.all (units ·.1 ≤ 100)
    && patch.set.all fun entry ↦
      units entry.1 ≤ 100 && entry.2.length ≤ 50 && entry.2.all scalarSchema

def initialState (view : View) : ViewState :=
  { revision := 0
    fields := (view.filterColumns.map ("filter:" ++ ·) ++ ["selection"]).map fun key ↦
      (key, { revision := 0, values := [] }) }

/-- The values a field may be set to. -/
def allowed (dataset : Dataset) (key : String) : List Scalar :=
  if key == "selection" then dataset.rows.map fun row ↦ .string row.key
  else dataset.rows.filterMap fun row ↦ row.values.lookup (Script.slice key 7)

def invalidSelection (message : String) : Failure := .experiment "invalid-selection" message

/-- The checks on one field that a patch sets. -/
def checkField (dataset : Dataset) (expected : Option Nat) (field : Option Field) (key : String)
    (values : List Scalar) : Except Failure Field :=
  match field, expected with
  | some field, some revision => do
    refuse (field.revision != revision)
      (.experiment "selection-conflict" "A collaborator changed this selection. Review the current value.")
    refuse ((key == "selection" && 1 < values.length) || values.any (!(allowed dataset key).contains ·)
        || !decide values.Nodup)
      (invalidSelection "Selection must refer to captured observations.")
    .ok field
  | _, _ => .error (invalidSelection "Unknown selection field.")

/-- A field that is set to what it has keeps its revision. -/
def edited (fields : List (String × Field)) (key : String) (field : Field) (values : List Scalar) :
    List (String × Field) :=
  if values = field.values then fields
  else Entries.set fields key { revision := field.revision + 1, values := values }

def applyFields (dataset : Dataset) (patch : SelectionPatch) (state : ViewState) :
    List (String × List Scalar) → List (String × Field) → Bool → Except Failure ViewState
  | [], fields, changed =>
    .ok { revision := if changed then state.revision + 1 else state.revision, fields := fields }
  | (key, values) :: rest, fields, changed => do
    let field ← checkField dataset (patch.expected.lookup key) (state.fields.lookup key) key values
    applyFields dataset patch state rest (edited fields key field values)
      (changed || values != field.values)

def applySelection (state : ViewState) (dataset : Dataset) (patch : SelectionPatch) :
    Except Failure ViewState := do
  refuse (patch.set.isEmpty || 9 < patch.set.length || patch.set.length != patch.expected.length)
    (invalidSelection "Expected revisions are required for each changed field.")
  applyFields dataset patch state patch.set state.fields false

end Chopin.Investigations
