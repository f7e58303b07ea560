import Chopin.Wireframes.Schema

/-!
# Printing wireframes

`printWireframe` writes a wireframe in canonical form: two spaces a level, and on each line the kind, then label, id,
flags, properties and target.
-/

set_option autoImplicit false
set_option linter.dupNamespace false

open Script

namespace Chopin.Wireframes

/-- A unit within quotes. -/
def escape (unit : Nat) : Units :=
  if unit = backslash ∨ unit = doubleQuote then [backslash, unit]
  else if unit = newline then [backslash, letterN]
  else [unit]

def quote (text : Units) : Units := doubleQuote :: (text.flatMap escape ++ [doubleQuote])

/-- The value of a property can stand without quotes. -/
def bareValue (value : Units) : Bool :=
  !value.isEmpty && value.all (fun unit ↦ !isSpaceUnit unit && unit != doubleQuote) && !value.any control

/-- The text of an item can stand without quotes. -/
def bareText (text : Units) : Bool :=
  !text.isEmpty && text == trimUnits text && text.head? != some doubleQuote && !text.any control

def printedValue (value : Units) : Units := if bareValue value then value else quote value

def printedText (text : Units) : Units := if bareText text then text else quote text

/-- What follows the kind on the line of a part. -/
def tokens (part : Part) : List Units :=
  (part.label.map quote).toList ++ (part.id.map (hash :: ·)).toList ++ part.flags ++
    part.props.map (fun (key, value) ↦ key ++ equals :: printedValue value) ++
    (part.target.map fun target ↦ arrow ++ space :: target).toList

def indentation (depth : Nat) : Units := List.replicate (2 * depth) space

def printedPart (depth : Nat) (part : Part) : Units :=
  indentation depth ++ [space].intercalate (part.kind.name :: tokens part)

def printedItem (depth : Nat) (item : Item) : Units :=
  indentation depth ++ [space, space, dash, space] ++ printedText item.text

mutual

/-- `visit`: the lines of a part and of what it contains. -/
def linesOf (depth : Nat) : Node → List Units
  | .mk part children => printedPart depth part :: (part.items.map (printedItem depth) ++ allLines (depth + 1) children)

def allLines (depth : Nat) : List Node → List Units
  | [] => []
  | node :: rest => linesOf depth node ++ allLines depth rest

end

def printWireframe (nodes : List Node) : Units := [newline].intercalate (allLines 0 nodes)

end Chopin.Wireframes
