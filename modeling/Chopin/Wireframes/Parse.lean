import Mathlib.Data.List.Sort
import Chopin.Wireframes.Schema

/-!
# Reading wireframes

`parseWireframe` reads a source line by line.  Each line has at most one problem; what stands below a line that was
rejected is still checked but belongs to nothing.  The parts that are open, from the line that was read last up to the
outermost, are a stack of frames: a part is added to the one above it once it is closed.
-/

set_option autoImplicit false
set_option linter.dupNamespace false

open Script

namespace Chopin.Wireframes

/-! ## Text -/

/-- Echo at most a short prefix of a token. -/
def echo (token : Units) : Units := if 24 < token.length then token.take 24 ++ utf16 "…" else token

def tooLong : Units := utf16 "Text is longer than 200 characters."

def noControl : Units := utf16 "Text cannot contain control characters."

/-- `checkText` -/
def checkText (text : Units) : Option Units :=
  if (trimUnits text).isEmpty then some (utf16 "A label cannot be empty.")
  else if maxLabel < text.length then some tooLong
  else if text.any control then some noControl
  else none

/-- A text whose lines are joined by spaces. -/
def oneLine (text : Units) : Units := text.map fun unit ↦ if unit = newline then space else unit

/-- `readQuoted`, after the opening quote: the value, and what follows the closing one. -/
def readQuoted (value : Units) : Units → Except Units (Units × Units)
  | [] => .error (utf16 "A label is missing its closing quote.")
  | unit :: rest =>
    if unit = doubleQuote then
      if rest.head?.any (· != space) then .error (utf16 "Expected a space after the closing quote.")
      else match checkText (oneLine value) with
        | some problem => .error problem
        | none => .ok (value, rest)
    else if unit = backslash then
      match rest with
      | [] => .error (utf16 "A label is missing its closing quote.")
      | next :: rest =>
        if next = doubleQuote ∨ next = backslash then readQuoted (value ++ [next]) rest
        else if next = letterN then readQuoted (value ++ [newline]) rest
        else .error (utf16 "Unknown escape \"\\" ++ echo [next] ++ utf16 "\". Use \\\", \\\\ or \\n.")
    else if control unit then .error noControl
    else if maxLabel < (value ++ [unit]).length then .error tooLong
    else readQuoted (value ++ [unit]) rest

def readItem (text : Units) : Except Units Units :=
  match text with
  | [] => .error (utf16 "An item needs text after \"- \".")
  | unit :: rest =>
    if unit = doubleQuote then
      match readQuoted [] rest with
      | .error problem => .error problem
      | .ok (value, rest) =>
        if rest.isEmpty then .ok value else .error (utf16 "Expected nothing after the quoted item.")
    else match checkText text with
      | some problem => .error problem
      | none => .ok text

/-! ## Tokens of a part -/

/-- `word()` -/
def wordOf (line : Units) : Units := line.takeWhile (· != space)

/-- What follows the word. -/
def afterWord (line : Units) : Units := line.dropWhile (· != space)

/-- `ID` -/
def isId (text : Units) : Bool :=
  text.head?.any (fun unit ↦ lower unit || upper unit) &&
    text.all fun unit ↦ lower unit || upper unit || digit unit || unit == 0x5f || unit == dash

/-- A number from 1, of up to three digits. -/
def isCount (text : Units) : Bool :=
  text.head?.any (fun unit ↦ digit unit && unit != 0x30) && text.all digit && text.length ≤ 3

def readLabel (part : Part) (rest : Units) : Except Units (Part × Units) :=
  if part.label.isSome then .error (part.kind.name ++ utf16 " has more than one label.")
  else if part.kind.spec.label = .none then .error (part.kind.name ++ utf16 " does not take a label.")
  else match readQuoted [] rest with
    | .error problem => .error problem
    | .ok (label, rest) => .ok ({ part with label := some label }, rest)

def readId (part : Part) (line : Units) : Except Units (Part × Units) :=
  let id := (wordOf line).tail
  if part.id.isSome then .error (part.kind.name ++ utf16 " has more than one id.")
  else if !isId id then .error (utf16 "An id is # followed by a letter, then letters, digits, - or _.")
  else if maxId < id.length then .error (utf16 "An id is at most 40 characters.")
  else .ok ({ part with id := some id }, afterWord line)

/-- A target is `#id` or the name of a kind. -/
def isTarget (target : Units) : Bool :=
  if target.head? = some hash then isId target.tail else (kindOf target).isSome

/-- `rest` follows the arrow. -/
def readTarget (part : Part) (rest : Units) : Except Units (Part × Units) :=
  let rest := rest.dropWhile (· == space)
  let target := wordOf rest
  if !part.kind.spec.target then .error (utf16 "Only a note points at a target.")
  else if part.target.isSome then .error (part.kind.name ++ utf16 " has more than one target.")
  else if target.isEmpty then .error (utf16 "Expected a target after \"->\".")
  else if !isTarget target then .error (utf16 "Unknown target \"" ++ echo target ++ utf16 "\".")
  else if target = Kind.note.name then .error (utf16 "A note cannot point at a note.")
  else .ok ({ part with target := some target }, afterWord rest)

/-- The key of a property, before its `=`. -/
def keyOf (line : Units) : Option Units :=
  let front := line.take 32
  let key := front.takeWhile lower
  if !key.isEmpty && (front.drop key.length).head? == some equals then some key else none

/-- The value of a property, quoted or bare. -/
def readValue (key rest : Units) : Except Units (Units × Units) :=
  if rest.head? = some doubleQuote then readQuoted [] rest.tail
  else
    let value := wordOf rest
    if value.isEmpty then .error (key ++ utf16 " needs a value.")
    else if value.contains doubleQuote then .error (utf16 "Unexpected \"" ++ echo value ++ utf16 "\".")
    else match checkText value with
      | some problem => .error problem
      | none => .ok (value, afterWord rest)

/-- The value is not one that the property accepts. -/
def refusedValue (key value : Units) : Value → Option Units
  | .text => none
  | .count => if isCount value then none else some (key ++ utf16 " must be a whole number from 1.")
  | .words allowed =>
    if allowed.contains value then none
    else some (key ++ utf16 " must be one of: " ++ (utf16 ", ").intercalate allowed ++ utf16 ".")

def readProp (part : Part) (key line : Units) : Except Units (Part × Units) :=
  match part.kind.spec.props.lookup key with
  | none => .error (part.kind.name ++ utf16 " does not accept \"" ++ key ++ utf16 "\".")
  | some allowed =>
    if (part.props.lookup key).isSome then .error (utf16 "The property \"" ++ key ++ utf16 "\" is repeated.")
    else match readValue key (line.drop (key.length + 1)) with
      | .error problem => .error problem
      | .ok (value, rest) =>
        match refusedValue key value allowed with
        | some problem => .error problem
        | none => .ok ({ part with props := part.props ++ [(key, value)] }, rest)

def readFlag (part : Part) (line : Units) : Except Units (Part × Units) :=
  let token := wordOf line
  let flags := part.kind.spec.flags
  if !token.all lower then .error (utf16 "Unexpected \"" ++ echo token ++ utf16 "\".")
  else if !flags.contains token then
    .error (part.kind.name ++ utf16 " does not accept the flag \"" ++ echo token ++ utf16 "\"." ++
      if flags.isEmpty then [] else utf16 " Allowed: " ++ (utf16 ", ").intercalate flags ++ utf16 ".")
  else if part.flags.contains token then .error (utf16 "The flag \"" ++ token ++ utf16 "\" is repeated.")
  else .ok ({ part with flags := part.flags ++ [token] }, afterWord line)

/-- `line.startsWith("->", at)`, with a space or nothing behind it. -/
def pointsOn (line : Units) : Bool := arrow.isPrefixOf line && (line.drop 2).head?.all (· == space)

/-- One token of a part's line, or a space. -/
def readToken (part : Part) (line : Units) : Except Units (Part × Units) :=
  match line with
  | [] => .ok (part, [])
  | unit :: rest =>
    if unit = space then .ok (part, rest)
    else if unit = doubleQuote then readLabel part rest
    else if unit = hash then readId part line
    else if pointsOn line then readTarget part (line.drop 2)
    else match keyOf line with
      | some key => readProp part key line
      | none => readFlag part line

/-- The tokens, one after the other; each takes a unit at least of the line. -/
def readTokens : Nat → Part → Units → Except Units Part
  | 0, part, _ => .ok part
  | fuel + 1, part, line =>
    if line.isEmpty then .ok part
    else match readToken part line with
      | .error problem => .error problem
      | .ok (part, rest) => readTokens fuel part rest

/-- What a part still needs. -/
def missing (part : Part) : Option Units :=
  if part.kind.spec.label = .required ∧ part.label = none then
    some (part.kind.name ++ utf16 " needs a quoted label.")
  else if part.kind.spec.target = true ∧ part.target = none then
    some (part.kind.name ++ utf16 " needs a target: -> #id or -> kind.")
  else none

def readNode (line : Units) (number : Nat) : Except Units Part :=
  let word := line.takeWhile lower
  let rest := line.dropWhile lower
  if word.isEmpty then .error (utf16 "Expected a kind or a \"- item\" line.")
  else if rest.head?.any (· != space) then
    .error (utf16 "Unknown kind \"" ++ echo (line.takeWhile fun unit ↦ !isSpaceUnit unit) ++ utf16 "\".")
  else match kindOf word with
    | none => .error (utf16 "Unknown kind \"" ++ echo word ++ utf16 "\".")
    | some kind =>
      match readTokens rest.length { kind, span := ⟨number, number⟩ } rest with
      | .error problem => .error problem
      | .ok part =>
        match missing part with
        | some problem => .error problem
        | none => .ok part

/-! ## Lines -/

/-- What is open: a part with what it contains so far, an item, or a line that was rejected. -/
inductive Frame where
  | node (width : Nat) (part : Part) (children : List Node)
  | item (width : Nat)
  | rejected (width : Nat)

namespace Frame

def width : Frame → Nat
  | node width _ _ => width
  | item width => width
  | rejected width => width

/-- A part that is closed belongs to the one around it. -/
def take (pending : Option Node) : Frame → Frame
  | node width part children => node width part (children ++ pending.toList)
  | frame => frame

def closed : Frame → Option Node
  | node _ part children => some (.mk part children)
  | _ => none

/-- `stretch`, of one frame -/
def stretch (number : Nat) : Frame → Frame
  | node width part children => node width { part with span := { part.span with finish := number } } children
  | frame => frame

def isRejected : Frame → Bool
  | rejected _ => true
  | _ => false

def isItem : Frame → Bool
  | item _ => true
  | _ => false

/-- `owner.kind` -/
def kind : Frame → Option Kind
  | node _ part _ => some part.kind
  | _ => none

end Frame

/-- The frames that a line with this indentation leaves open, and the outermost parts; what is closed is added to the
part around it. -/
def closeFrames (width : Nat) : Option Node → List Frame → List Node → List Frame × List Node
  | pending, [], nodes => ([], nodes ++ pending.toList)
  | pending, frame :: rest, nodes =>
    if width ≤ frame.width then closeFrames width (frame.take pending).closed rest nodes
    else (frame.take pending :: rest, nodes)

structure State where
  nodes : List Node := []
  problems : List Problem := []
  /-- The innermost frame comes first. -/
  stack : List Frame := []
  parts : Nat := 0
  ids : List (Units × Nat) := []
  stopped : Bool := false

namespace State

def reject (state : State) (width number : Nat) (message : Units) : State :=
  { state with
    problems := state.problems ++ [⟨number, message⟩]
    stack := .rejected width :: state.stack }

def tooMany (state : State) (number : Nat) : State :=
  { state with
    problems := state.problems ++ [⟨number, utf16 "The wireframe has more than 400 parts."⟩]
    parts := state.parts + 1
    stopped := true }

/-- The line is within one that was rejected. -/
def within (state : State) : Bool := state.stack.head?.any Frame.isRejected

/-- `ownerSpec?.children` -/
def ownerChildren (state : State) : Option ChildrenRule :=
  (state.stack.head?.bind Frame.kind).map fun kind ↦ kind.spec.children

def ownerName (state : State) (otherwise : Units) : Units :=
  ((state.stack.head?.bind Frame.kind).map Kind.name).getD otherwise

def itemInside : Units := utf16 "An item cannot contain other lines."

/-- Why an item cannot stand here. -/
def refusesItem (state : State) : Option Units :=
  if state.within then none
  else if state.stack.head?.any Frame.isItem then some itemInside
  else if state.ownerChildren ≠ some .items then
    some (state.ownerName (utf16 "The top level") ++ utf16 " cannot contain \"- item\" lines.")
  else none

/-- Why a part cannot stand here. -/
def refusesNode (state : State) (width : Nat) : Option Units :=
  if state.within then none
  else if state.stack.head?.any Frame.isItem then some itemInside
  else if state.ownerChildren = some .none then some (state.ownerName [] ++ utf16 " cannot contain other parts.")
  else if state.ownerChildren = some .items then some (state.ownerName [] ++ utf16 " contains only \"- item\" lines.")
  else if maxDepth < width / 2 + 1 then some (utf16 "Parts can nest at most 10 levels deep.")
  else none

/-- `owner.items.push(item)`, in the innermost frame -/
def addItem (item : Item) : List Frame → List Frame
  | .node width part children :: rest => .node width { part with items := part.items ++ [item] } children :: rest
  | stack => stack

/-- A line that begins with a dash, once it is clear that it may stand here. -/
def itemLine (state : State) (width number : Nat) (rest : Units) : State :=
  match state.refusesItem with
  | some message => state.reject width number message
  | none =>
    match readItem (trimUnits rest.tail) with
    | .error message => state.reject width number message
    | .ok text =>
      if state.within || (state.stack.head?.bind Frame.kind).isNone then
        { state with stack := .rejected width :: state.stack }
      else if maxNodes < state.parts + 1 then state.tooMany number
      else
        { state with
          parts := state.parts + 1
          stack := .item width :: (addItem ⟨text, ⟨number, number⟩⟩ state.stack).map (.stretch number) }

def nodeLine (state : State) (width number : Nat) (rest : Units) : State :=
  match state.refusesNode width with
  | some message => state.reject width number message
  | none =>
    match readNode rest number with
    | .error message => state.reject width number message
    | .ok part =>
      if state.within then { state with stack := .rejected width :: state.stack }
      else match part.id.bind fun id ↦ (state.ids.lookup id).map (id, ·) with
        | some (id, first) =>
          state.reject width number
            (utf16 "The id \"" ++ id ++ utf16 "\" is already used on line " ++ utf16 (toString first) ++ utf16 ".")
        | none =>
          if maxNodes < state.parts + 1 then state.tooMany number
          else
            { state with
              parts := state.parts + 1
              ids := state.ids ++ part.id.toList.map (·, number)
              stack := .node width part [] :: state.stack.map (.stretch number) }

/-- A space or a tab. -/
def blank (unit : Nat) : Bool := unit == space || unit == tab

/-- The line is indented by more than a level below what it would stand in. -/
def tooDeep (state : State) (width : Nat) : Bool :=
  !state.within && (state.stack.head?.map (·.width + 2)).getD 0 < width

def line (state : State) (number : Nat) (text : Units) : State :=
  let line := text.rdropWhile blank
  if line.isEmpty then state
  else
    let indent := line.takeWhile blank
    let width := indent.length
    let (stack, nodes) := closeFrames width none state.stack state.nodes
    let state := { state with stack, nodes }
    let rest := line.drop width
    if indent.contains tab then state.reject width number (utf16 "Indent with two spaces, not tabs.")
    else if width % 2 ≠ 0 then state.reject width number (utf16 "Indentation must be a multiple of two spaces.")
    else if state.tooDeep width then
      state.reject width number (utf16 "This line is indented more than one level below its parent.")
    else if rest = [dash] ∨ [dash, space].isPrefixOf rest = true then state.itemLine width number rest
    else state.nodeLine width number rest

/-- The lines, until there are too many parts or problems. -/
def lines (state : State) (number : Nat) : List Units → State
  | [] => state
  | text :: rest =>
    if state.stopped || maxProblems ≤ state.problems.length then state
    else (state.line number text).lines (number + 1) rest

end State

/-! ## The whole tree -/

/-- The part that a target names. -/
def named (parts : List Part) (target : Units) : Except Units Part :=
  if target.head? = some hash then
    match parts.find? (·.id == some target.tail) with
    | some part => .ok part
    | none => .error (utf16 "No part has the id \"" ++ echo target.tail ++ utf16 "\".")
  else match kindOf target with
    | none => .error (utf16 "Unknown target \"" ++ echo target ++ utf16 "\".")
    | some kind =>
      match parts.filter (·.kind = kind) with
      | [] => .error (utf16 "No " ++ target ++ utf16 " to point at.")
      | [part] => .ok part
      | several => .error (utf16 (toString several.length) ++ utf16 " parts are a " ++ target ++
          utf16 "; give the target an #id.")

def locate (parts : List Part) (target : Units) : Except Units Part :=
  match named parts target with
  | .error problem => .error problem
  | .ok part => if part.kind = .note then .error (utf16 "A note cannot point at a note.") else .ok part

def checkTarget (parts : List Part) (part : Part) : List Problem :=
  match part.target with
  | none => []
  | some target =>
    match locate parts target with
    | .error message => [⟨part.span.start, message⟩]
    | .ok _ => []

def checkItems (part : Part) : List Problem :=
  if (part.kind.spec.props.lookup (utf16 "n")).isSome && (part.prop "n").isSome && !part.items.isEmpty then
    [⟨part.span.start, part.kind.name ++ utf16 " has both items and n=; use one."⟩]
  else []

def checkCounts (part : Part) : List Problem :=
  part.props.filterMap fun (key, value) ↦
    if part.kind.spec.props.lookup key = some .count ∧ part.total < decimal value then
      some ⟨part.span.start, key ++ utf16 "=" ++ value ++ utf16 " but " ++ part.kind.name ++ utf16 " has " ++
        utf16 (toString part.total) ++ utf16 " items."⟩
    else none

/-- The problems of one part that need the others, or its items. -/
def checkPart (parts : List Part) (part : Part) : List Problem :=
  checkTarget parts part ++ checkItems part ++ checkCounts part

mutual

/-- How many parts and items are drawn, as far as is counted. -/
def expanded : Node → Nat
  | .mk part children => min (expandedAll (1 + part.total) children * part.copies) (maxNodes + 1)

def expandedAll (inside : Nat) : List Node → Nat
  | [] => inside
  | child :: rest => expandedAll (min (inside + expanded child) (maxNodes + 1)) rest

end

/-- The first part with which too much is drawn. -/
def overflow (total : Nat) : List Node → List Problem
  | [] => []
  | node :: rest =>
    if maxNodes < total + expanded node then
      [⟨node.part.span.start, utf16 "Repeats expand the wireframe past 400 parts."⟩]
    else overflow (total + expanded node) rest

def check (nodes : List Node) : List Problem :=
  let parts := Node.partsOf nodes
  parts.flatMap (checkPart parts) ++ overflow 0 nodes

/-! ## Sources -/

/-- `source.split(/\r?\n/)` -/
def splitLines : Units → List Units
  | [] => [[]]
  | 0xd :: 0xa :: rest => [] :: splitLines rest
  | 0xa :: rest => [] :: splitLines rest
  | unit :: rest =>
    match splitLines rest with
    | [] => [[unit]]
    | first :: others => (unit :: first) :: others

/-- Without a byte order mark. -/
def withoutMark : Units → Units
  | 0xfeff :: rest => rest
  | source => source

def tooLarge (source : Units) : Bool := maxSourceBytes < source.length || maxSourceBytes < size source

def parseWireframe (source : Units) : Except (List Problem) (List Node) :=
  if tooLarge source then .error [⟨1, utf16 "The wireframe is too large (64 KiB maximum)."⟩]
  else
    let state := ({} : State).lines 1 (splitLines (withoutMark source))
    let nodes := (closeFrames 0 none state.stack state.nodes).2
    let found :=
      if state.problems.isEmpty && nodes.isEmpty then [⟨1, utf16 "The wireframe is empty."⟩] else state.problems
    let problems := if found.isEmpty then check nodes else found
    if problems.isEmpty then .ok nodes
    else .error ((problems.insertionSort fun a b ↦ a.line ≤ b.line).take maxProblems)

end Chopin.Wireframes
