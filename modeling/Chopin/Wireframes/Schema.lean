import Chopin.Lib.Spaces

/-!
# Wireframes

A wireframe is an indented outline of interface parts.  One table says of each kind of part whether it has a label, what
it contains, and which flags and properties it takes.
-/

set_option autoImplicit false
set_option linter.dupNamespace false

open Script

namespace Chopin.Wireframes

export Script (Units)

/-! ## Limits -/

/-- `MAX_WIREFRAME_SOURCE_BYTES` -/
def maxSourceBytes : Nat := 64 * 1024

/-- `MAX_WIREFRAME_NODES` -/
def maxNodes : Nat := 400

/-- `MAX_WIREFRAME_DEPTH` -/
def maxDepth : Nat := 10

/-- `MAX_WIREFRAME_LABEL` -/
def maxLabel : Nat := 200

/-- `MAX_WIREFRAME_ID` -/
def maxId : Nat := 40

/-- `MAX_WIREFRAME_PROBLEMS` -/
def maxProblems : Nat := 20

/-- A unit that `CONTROL_CHARACTER` matches. -/
def control (unit : Nat) : Bool := unit ≤ 0x1f || unit == 0x7f

/-! ## Units with a meaning -/

def space : Nat := 0x20
def tab : Nat := 0x9
def newline : Nat := 0xa
def doubleQuote : Nat := 0x22
def hash : Nat := 0x23
def dash : Nat := 0x2d
def equals : Nat := 0x3d
def backslash : Nat := 0x5c
def letterN : Nat := 0x6e

/-- `->` -/
def arrow : Units := [dash, 0x3e]

/-- A unit of `[a-z]`. -/
def lower (unit : Nat) : Bool := 0x61 ≤ unit && unit ≤ 0x7a

def upper (unit : Nat) : Bool := 0x41 ≤ unit && unit ≤ 0x5a

def digit (unit : Nat) : Bool := 0x30 ≤ unit && unit ≤ 0x39

/-! ## Kinds -/

/-- Whether a quoted label is required, optional or not accepted. -/
inductive LabelRule where
  | required
  | optional
  | none
  deriving DecidableEq

/-- Blocks are other parts; items are lines of text. -/
inductive ChildrenRule where
  | blocks
  | items
  | none
  deriving DecidableEq

/-- A property accepts one of a fixed set of words, free text, or a small count. -/
inductive Value where
  | words (allowed : List Units)
  | text
  | count
  deriving DecidableEq

structure KindSpec where
  label : LabelRule
  children : ChildrenRule
  flags : List Units
  props : List (Units × Value)
  target : Bool := false
  deriving DecidableEq

inductive Kind where
  | panel
  | header
  | row
  | stack
  | card
  | title
  | text
  | button
  | badge
  | disclosure
  | list
  | note
  | input
  | tabs
  | nav
  | image
  | divider
  | box
  | fill
  | lines
  | icon
  | grid
  deriving DecidableEq

def Kind.all : List Kind :=
  [.panel, .header, .row, .stack, .card, .title, .text, .button, .badge, .disclosure, .list, .note, .input, .tabs, .nav,
    .image, .divider, .box, .fill, .lines, .icon, .grid]

def Kind.word : Kind → String
  | .panel => "panel"
  | .header => "header"
  | .row => "row"
  | .stack => "stack"
  | .card => "card"
  | .title => "title"
  | .text => "text"
  | .button => "button"
  | .badge => "badge"
  | .disclosure => "disclosure"
  | .list => "list"
  | .note => "note"
  | .input => "input"
  | .tabs => "tabs"
  | .nav => "nav"
  | .image => "image"
  | .divider => "divider"
  | .box => "box"
  | .fill => "fill"
  | .lines => "lines"
  | .icon => "icon"
  | .grid => "grid"

def Kind.name (kind : Kind) : Units := utf16 kind.word

/-- `isWireframeKind`, with the kind -/
def kindOf (word : Units) : Option Kind := Kind.all.find? (·.name == word)

def words (allowed : List String) : Value := .words (allowed.map utf16)

def range (first last : Nat) : List String := (List.range' first (last + 1 - first)).map toString

/-- `ALIGN` -/
def align : Value := words ["start", "center", "end", "between"]

/-- `TONE` -/
def tone : Value := words ["neutral", "info", "success", "warning", "danger"]

/-- `HEIGHT` -/
def height : Value := words ["xs", "sm", "md", "lg", "xl"]

/-- `WIDTH` -/
def width : Value := words ["sm", "md", "lg"]

/-- `SHARE` -/
def share : Value := words (range 1 12)

/-- `REPEAT` -/
def repeats : Value := words (range 2 12)

/-- `LINES` -/
def lineCounts : Value := words (range 1 8)

/-- A kind that takes a share of its row and is drawn several times. -/
def sized (label : LabelRule) (children : ChildrenRule) (flags : List String) (props : List (String × Value)) :
    KindSpec where
  label
  children
  flags := flags.map utf16
  props := (props ++ [("w", share), ("repeat", repeats)]).map fun (key, value) ↦ (utf16 key, value)

/-- `WIREFRAME_KINDS` -/
def Kind.spec : Kind → KindSpec
  | .panel => sized .optional .blocks ["shaded"] [("h", height), ("width", width)]
  | .header => sized .optional .blocks ["flush"] [("align", align)]
  | .row => sized .none .blocks ["wrap", "flow", "flush"] [("align", align), ("h", height)]
  | .stack => sized .none .blocks [] [("align", align), ("h", height)]
  | .card => sized .optional .blocks ["selected", "muted", "shaded"] [("h", height), ("width", width)]
  | .title => sized .required .none [] []
  | .text => sized .required .none ["muted", "strong"] []
  | .button => sized .optional .none ["primary", "danger", "disabled"] []
  | .badge => sized .required .none [] [("tone", tone)]
  | .disclosure => sized .required .blocks ["open"] []
  | .list => sized .optional .items ["ordered"] [("n", lineCounts)]
  | .note => { label := .required, children := .none, flags := [], props := [], target := true }
  | .input => sized .optional .none ["disabled"] [("placeholder", .text), ("value", .text)]
  | .tabs => sized .none .items [] [("active", .count)]
  | .nav => sized .none .items ["vertical"] [("active", .count), ("n", lineCounts)]
  | .image => sized .optional .none [] [("ratio", words ["square", "wide", "tall"]), ("h", height)]
  | .divider => sized .none .none [] []
  | .box => sized .optional .blocks ["shaded"] [("h", height), ("width", width)]
  | .fill => sized .optional .none [] [("h", height)]
  | .lines => sized .none .none [] [("n", lineCounts)]
  | .icon => sized .none .none [] []
  | .grid => sized .none .blocks [] [("cols", words (range 2 6))]

/-! ## Parts -/

/-- Inclusive, one-based source lines. -/
structure Span where
  start : Nat
  finish : Nat
  deriving DecidableEq

structure Item where
  text : Units
  span : Span
  deriving DecidableEq

/-- A part, without the parts that it contains. -/
structure Part where
  kind : Kind
  label : Option Units := none
  id : Option Units := none
  flags : List Units := []
  props : List (Units × Units) := []
  /-- As it is written: `#id`, or the name of a kind. -/
  target : Option Units := none
  items : List Item := []
  span : Span
  deriving DecidableEq

/-- `WireframeNode` -/
inductive Node where
  | mk (part : Part) (children : List Node)

namespace Node

def part : Node → Part
  | mk part _ => part

mutual

/-- A part and all parts in it, in the order of their lines. -/
def parts : Node → List Part
  | mk part children => part :: partsOf children

def partsOf : List Node → List Part
  | [] => []
  | node :: rest => node.parts ++ partsOf rest

end

theorem partsOf_eq (nodes : List Node) : partsOf nodes = nodes.flatMap parts := by
  induction nodes with
  | nil => rfl
  | cons node rest ih => rw [partsOf, ih, List.flatMap_cons]

end Node

/-- A problem, with its line. -/
structure Problem where
  line : Nat
  message : Units
  deriving DecidableEq

/-- A property of the part. -/
def Part.prop (part : Part) (key : String) : Option Units := part.props.lookup (utf16 key)

/-- `Number(text)`, of decimal digits -/
def decimal (text : Units) : Nat := text.foldl (fun value unit ↦ value * 10 + (unit - 0x30)) 0

/-- How many items are drawn. -/
def Part.total (part : Part) : Nat :=
  if part.items.isEmpty then ((part.prop "n").map decimal).getD 0 else part.items.length

/-- How many times the part is drawn. -/
def Part.copies (part : Part) : Nat := ((part.prop "repeat").map decimal).getD 1

end Chopin.Wireframes
