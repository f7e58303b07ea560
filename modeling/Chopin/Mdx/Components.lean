import Chopin.Lib.Spaces

/-!
# The components of a plan

A plan is Markdown with components.  The dialect (`dialect.ts`) is the allowlist: the node types and components
there are, where a component may stand, what it may hold and which attributes it has.
-/

set_option autoImplicit false

open Script

namespace Chopin.Mdx

export Script (Units)

/-! ## Limits -/

/-- Canonical source, UTF-8. -/
def MAX_SOURCE_BYTES : Nat := 256 * 1024

/-- Structural nesting depth, guarding renderer and AST recursion. -/
def MAX_DEPTH : Nat := 20

def MAX_TABLE_ROWS : Nat := 100
def MAX_TABLE_COLUMNS : Nat := 20
def MAX_ID : Nat := 200

/-- Image nodes per plan. -/
def MAX_IMAGES : Nat := 100

def MAX_IMAGE_WIDTH : Nat := 4096
def MAX_TAB_LABEL : Nat := 60
def MAX_CALLOUT_TITLE : Nat := 100
def MAX_CALLOUT_FOLD : Nat := 3
def MAX_OPTIONS : Nat := 20
def MAX_CUSTOM_ANSWER : Nat := 4000
def MAX_CRITERIA : Nat := 5
def MAX_CRITERION_LABEL : Nat := 40
def MAX_ANSWER_MARKS : Nat := 16000
def MAX_ANSWER_CHOICES : Nat := 600
def MAX_QUESTIONNAIRE_TEXT : Nat := MAX_SOURCE_BYTES
def MAX_QUOTE : Nat := 500
def MAX_NOTE : Nat := 4000
def MAX_HANDLE : Nat := 80
def MAX_TIMESTAMP : Nat := 40

/-! ## Node types -/

/-- MDAST node types the dialect accepts outside of custom components. -/
def NODES : List String :=
  ["root", "paragraph", "heading", "thematicBreak", "blockquote", "list", "listItem", "code", "table", "tableRow",
    "tableCell", "text", "strong", "emphasis", "delete", "inlineCode", "break", "link", "image", "math", "inlineMath",
    "footnoteReference", "footnoteDefinition", "mdxJsxFlowElement", "mdxJsxTextElement"]

/-- Node types that must never appear: executable or raw-HTML constructs. -/
def FORBIDDEN_NODES : List String :=
  ["html", "mdxjsEsm", "mdxFlowExpression", "mdxTextExpression", "yaml", "toml", "linkReference", "imageReference",
    "definition"]

/-- The types whose nodes hold something the validator reads. -/
def READ_NODES : List String :=
  ["text", "link", "image", "footnoteReference", "footnoteDefinition", "mdxJsxFlowElement", "mdxJsxTextElement"]

/-! ## Syntax trees -/

/-- `mdxJsxFlowElement` or `mdxJsxTextElement`. -/
inductive ElementKind where
  | flow
  | text
deriving DecidableEq

/-- An attribute of a component; no other value than a string is read. -/
inductive Attribute where
  | named (name : String) (value : Option Units)
  | spread
deriving DecidableEq

/-- A node of Markdown other than a text. -/
inductive Markdown where
  | link (url : Units)
  | image (url : Units)
  | footnoteReference (identifier : Units)
  | footnoteDefinition (identifier : Units)
  | plain (type : String) (unread : type ∉ READ_NODES)

def Markdown.type : Markdown → String
  | .link _ => "link"
  | .image _ => "image"
  | .footnoteReference _ => "footnoteReference"
  | .footnoteDefinition _ => "footnoteDefinition"
  | .plain type _ => type

/-- A syntax tree; `offset` is where a node starts in the source, when it is known.  Texts have no children. -/
inductive Node where
  | text (value : Units) (offset : Option Nat)
  | jsx (kind : ElementKind) (name : Option String) (attributes : List Attribute) (children : List Node)
      (offset : Option Nat)
  | markdown (content : Markdown) (children : List Node) (offset : Option Nat)

namespace Node

def type : Node → String
  | text _ _ => "text"
  | jsx .flow _ _ _ _ => "mdxJsxFlowElement"
  | jsx .text _ _ _ _ => "mdxJsxTextElement"
  | markdown content _ _ => content.type

def isJsx : Node → Bool
  | jsx _ _ _ _ _ => true
  | _ => false

/-- The name of a component; a fragment has none. -/
def name : Node → Option String
  | jsx _ name _ _ _ => name
  | _ => none

def attributes : Node → List Attribute
  | jsx _ _ attributes _ _ => attributes
  | _ => []

def children : Node → List Node
  | text _ _ => []
  | jsx _ _ _ children _ => children
  | markdown _ children _ => children

def offset : Node → Option Nat
  | text _ offset => offset
  | jsx _ _ _ _ offset => offset
  | markdown _ _ offset => offset

def label (node : Node) : String := if node.isJsx then node.name.getD "fragment" else node.type

/-- `stringAttribute(node, name)`: what the first attribute of this name holds, if that is a string. -/
def stringAttribute (node : Node) (name : String) : Option Units :=
  (node.attributes.find? fun
    | .named other _ => other == name
    | .spread => false).bind fun
    | .named _ value => value
    | .spread => none

end Node

/-! ## Components -/

inductive Kind where
  | flow
  | text
  | both
deriving DecidableEq

/-- What a component may contain. -/
inductive Content where
  | blocks
  | phrasing
  | empty
  | components (names : List String)
deriving DecidableEq

inductive AttributeSpec where
  | id
  | reference (max : Nat)
  | text (required : Bool) (max : Nat) (empty : Bool)
  | integer (required : Bool) (min max : Nat)
  | enum (required : Bool) (values : List String)
deriving DecidableEq

def AttributeSpec.required : AttributeSpec → Bool
  | id => true
  | reference _ => true
  | text required _ _ => required
  | integer required _ _ => required
  | enum required _ => required

structure Component where
  name : String
  kind : Kind
  content : Content
  attributes : List (String × AttributeSpec) := []
  /-- Components that may not appear anywhere beneath this one. -/
  forbids : List String := []
  /-- Only valid as a direct child of these components. -/
  parent : Option (List String) := none
  /-- Only valid as a direct child of the document root. -/
  topLevel : Bool := false
deriving DecidableEq

/-- A component with durable identity: everything that carries or anchors state. -/
def component (spec : Component) : Component := { spec with attributes := ("id", .id) :: spec.attributes }

/-- A component with no identity of its own. -/
def plain (spec : Component) : Component := spec

def CALLOUT_TYPES : List String := ["note", "tip", "important", "warning", "danger"]

def COMPONENTS : List Component := [
  plain {
    name := "Image"
    kind := .both
    content := .empty
    attributes := [
      ("src", .text true MAX_SOURCE_BYTES false),
      ("alt", .text true MAX_SOURCE_BYTES true),
      ("width", .integer true 1 MAX_IMAGE_WIDTH)] },
  component {
    name := "Experiment"
    kind := .flow
    content := .empty
    attributes := [
      ("experiment", .reference 96),
      ("view", .text true 64 false),
      ("decision", .text false 96 false)] },
  component {
    name := "Questionnaire"
    kind := .flow
    content := .components ["Question"]
    forbids := ["Questionnaire", "Tabs", "Callout"]
    attributes := [
      ("thread", .text false MAX_ID false),
      ("status", .enum false ["open", "decided", "reopened", "discarded", "expired"]),
      ("by", .text false MAX_HANDLE false),
      ("at", .text false MAX_TIMESTAMP false)] },
  component {
    name := "Question"
    kind := .flow
    content := .components ["Option", "Criterion", "Answer", "Previous"]
    parent := some ["Questionnaire"]
    attributes := [
      ("header", .text true MAX_QUESTIONNAIRE_TEXT false),
      ("prompt", .text true MAX_QUESTIONNAIRE_TEXT false),
      ("description", .text false MAX_QUESTIONNAIRE_TEXT false),
      ("multiple", .enum true ["true", "false"]),
      ("response", .enum false ["text"])] },
  component {
    name := "Option"
    kind := .flow
    content := .empty
    parent := some ["Question"]
    attributes := [
      ("label", .text true MAX_QUESTIONNAIRE_TEXT false),
      ("description", .text false MAX_QUESTIONNAIRE_TEXT false),
      ("preview", .text false MAX_QUESTIONNAIRE_TEXT false)] },
  component {
    name := "Criterion"
    kind := .flow
    content := .empty
    parent := some ["Question"]
    attributes := [("label", .text true MAX_CRITERION_LABEL false)] },
  plain {
    name := "Answer"
    kind := .flow
    content := .empty
    parent := some ["Question"]
    attributes := [
      ("value", .text true MAX_QUESTIONNAIRE_TEXT false),
      ("choices", .text false MAX_ANSWER_CHOICES false),
      ("marks", .text false MAX_ANSWER_MARKS false)] },
  plain {
    name := "Previous"
    kind := .flow
    content := .empty
    parent := some ["Question"]
    attributes := [
      ("choices", .text false MAX_ANSWER_CHOICES false),
      ("value", .text false MAX_CUSTOM_ANSWER false),
      ("by", .text true MAX_HANDLE false),
      ("at", .text true MAX_TIMESTAMP false)] },
  component {
    name := "Decision"
    kind := .flow
    content := .components ["Note"]
    forbids := ["Questionnaire", "Decision", "Tabs", "Callout"]
    attributes := [
      ("quote", .text true MAX_QUOTE false),
      ("by", .text true MAX_HANDLE false),
      ("at", .text true MAX_TIMESTAMP false)] },
  plain {
    name := "Note"
    kind := .flow
    content := .empty
    parent := some ["Decision"]
    attributes := [
      ("by", .text true MAX_HANDLE false),
      ("text", .text true MAX_NOTE false)] },
  component {
    name := "Columns"
    kind := .flow
    content := .components ["Column"]
    forbids := ["Columns"]
    topLevel := true },
  component {
    name := "Column"
    kind := .flow
    content := .blocks
    parent := some ["Columns"]
    forbids := ["Experiment", "Questionnaire", "Question", "Option", "Criterion", "Answer", "Previous", "Decision",
      "Note", "Tabs", "Tab", "Callout", "Research", "Investigation", "Columns", "Column"] },
  component {
    name := "Tabs"
    kind := .flow
    content := .components ["Tab"]
    forbids := ["Tabs"] },
  component {
    name := "Tab"
    kind := .flow
    content := .blocks
    parent := some ["Tabs"]
    attributes := [("label", .text true MAX_TAB_LABEL false)] },
  component {
    name := "Callout"
    kind := .flow
    content := .blocks
    forbids := ["Callout"]
    attributes := [
      ("type", .enum true CALLOUT_TYPES),
      ("title", .text false MAX_CALLOUT_TITLE false),
      ("fold", .integer false 1 MAX_CALLOUT_FOLD)] },
  plain {
    name := "Research"
    kind := .flow
    content := .empty
    attributes := [("id", .reference 96)] },
  plain {
    name := "Investigation"
    kind := .flow
    content := .empty
    attributes := [("id", .reference 96)] },
  plain {
    name := "Underline"
    kind := .text
    content := .phrasing }]

def lookup (name : Option String) : Option Component :=
  (name.filter (· ≠ "")).bind fun name ↦ COMPONENTS.find? (·.name == name)

/-- URL protocols permitted in links. -/
def LINK_PROTOCOLS : List String := ["https:", "mailto:"]

/-- URL protocols permitted in absolute image URLs. -/
def IMAGE_PROTOCOLS : List String := ["https:"]

end Chopin.Mdx
