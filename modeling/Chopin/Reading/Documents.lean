import Mathlib.Data.List.Sort
import Chopin.Lib.Spaces
import Chopin.Lib.Text

/-!
# A document as text in parts

One result of reading a document carries at most `READ_BYTES` bytes in all (`document-reading.ts`):
header, outline, lists and block listing, and as much of the source as then fits.  A result that is
not the last names the position that the next one starts at.

Positions are lines and columns of code points, the budget counts bytes of UTF-8, and the text itself
is sliced at UTF-16 offsets, as in the source.  The top-level blocks of a document come from a parser
that is not part of it: `DocumentText.parts` is whatever it found.
-/

set_option autoImplicit false

open Script

namespace Chopin.Reading

export Script (Units)

/-- The most bytes one whole result may carry. -/
def READ_BYTES : Nat := 16000

/-- The most bytes the outline of a large document may take. -/
def OUTLINE_BYTES : Nat := 2500

/-- The longest value a header field or a listed item shows. -/
def FIELD_CHARS : Nat := 300
def ITEM_CHARS : Nat := 240

/-- A request for part of a document: a line, a most-lines count and a column in the line. -/
structure ReadRange where
  offset : Option Nat
  limit : Option Nat
  column : Option Nat
  deriving DecidableEq

/-- The position a result continues at. -/
structure Position where
  offset : Nat
  column : Option Nat
  deriving DecidableEq

def Position.range (position : Position) : ReadRange :=
  { offset := some position.offset, limit := none, column := position.column }

structure TextBlock where
  index : Nat
  type : Units
  digest : Units
  deriving DecidableEq

/-- A list that comes with the first part only. -/
structure Notes where
  title : Units
  items : List Units
  bytes : Nat
  rest : Nat → Units

structure Heading where
  depth : Nat
  title : Units
  deriving DecidableEq

/-- A top-level block of the source, as it was parsed. -/
structure Structure where
  start : Nat
  finish : Nat
  heading : Option Heading
  deriving DecidableEq

structure DocumentText where
  fields : List (Units × Units)
  notes : List Notes
  source : Units
  blocks : Option (List TextBlock)
  next : Position → Units
  range : ReadRange
  /-- `structure(source)` -/
  parts : List Structure

structure Window where
  first : Nat
  fromColumn : Nat
  last : Nat
  /-- Set when the result ends inside `last`: the column the next result starts at. -/
  cut : Option Nat
  more : Bool
  /-- Set to the limit asked for when this result stops short of it. -/
  asked : Option Nat
  text : Units
  listed : List Units
  /-- Set for the first part of a document too large for one result. -/
  outline : Option (List Units)
  deriving DecidableEq

def decimal (number : Nat) : Units := utf16 (toString number)

def newline : Nat := 10

/-- `lines.join("\n")` -/
def joined (lines : List Units) : Units := [newline].intercalate lines

/-! ## Cutting text -/

/-- The units of the longest start whose code points fit `bytes`, with `used` of them spent. -/
def prefixUnits (bytes : Int) : List Nat → (used finish : Nat) → Nat
  | [], _, finish => finish
  | point :: rest, used, finish =>
    if bytes < (used + width point : Nat) then finish
    else prefixUnits bytes rest (used + width point) (finish + pointUnits point)

/-- The longest start of `text` that fits `bytes`, cut between characters. -/
def prefixOf (text : Units) (bytes : Int) : Units :=
  if size text ≤ bytes then text else text.take (prefixUnits bytes (points text) 0 0)

/-- `text.codePointAt(index)! > 0xffff ? 2 : 1` -/
def unitsAt (text : Units) (index : Nat) : Nat := ((points (text.drop index)).head?.map pointUnits).getD 1

/-- The loop of `indexOfColumn`, with so many columns still to skip. -/
def skipColumns (text : Units) : (columns index : Nat) → Nat
  | 0, index => index
  | columns + 1, index =>
    if index < text.length then skipColumns text columns (index + unitsAt text index) else index

/-- The index in `text` of 1-based `column`, counted in characters. -/
def indexOfColumn (text : Units) (column : Nat) : Nat := skipColumns text (column - 1) 0

/-- `value` as one line of at most `limit` characters, whitespace collapsed. -/
def oneLine (value : Units) (limit : Nat) : Units :=
  let text := ((collapse value).dropWhile isSpaceUnit).rdropWhile isSpaceUnit
  if indexOfColumn text (limit + 1) < text.length then
    text.take (indexOfColumn text limit) ++ utf16 "…"
  else text

/-- The lines once this start is put before the first of them. -/
def before {α : Type} (start : List α) : List (List α) → List (List α)
  | [] => [start]
  | line :: more => (start ++ line) :: more

/-- A newline ends its line. -/
def linesFrom : Units → List Units
  | [] => []
  | unit :: rest =>
    if unit = newline then [unit] :: linesFrom rest else before [unit] (linesFrom rest)

/-- The document's lines, each with its newline; a final newline does not start another line. -/
def sourceLines (source : Units) : List Units := linesFrom source

/-! ## The lists of the first part -/

structure OutlineEntry where
  line : Nat
  depth : Nat
  title : Units
  deriving DecidableEq

def entry (item : OutlineEntry) : Units :=
  utf16 "L" ++ decimal item.line ++ utf16 " " ++ List.replicate item.depth 35 ++ utf16 " " ++ item.title

def moreHeadings (count : Nat) : Units :=
  utf16 "(" ++ decimal count ++ utf16 " more headings are not listed: deeper levels or later lines.)"

/-- The bytes of lines, each with the newline after it. -/
def listedBytes (items : List Units) : Nat := (items.map fun item ↦ size item + 1).sum

/-- How many of these entries fit, in their order. -/
def chosen : (used : Nat) → List (Nat × OutlineEntry) → List Nat
  | _, [] => []
  | used, (index, item) :: rest =>
    let cost := size (entry item) + 1
    if OUTLINE_BYTES < used + cost then [] else index :: chosen (used + cost) rest

/-- `a.depth - b.depth || a.line - b.line` -/
def shallower (left right : Nat × OutlineEntry) : Bool :=
  left.2.depth < right.2.depth || left.2.depth == right.2.depth && left.2.line ≤ right.2.line

/-- Shallow headings first, in document order within a level, as many as fit. -/
def outline (parts : List Structure) : List Units :=
  let headings := parts.filterMap fun part ↦ part.heading.map fun heading ↦
    (⟨part.start, heading.depth, heading.title⟩ : OutlineEntry)
  let all := listedBytes (headings.map entry)
  let used := if OUTLINE_BYTES < all then size (moreHeadings headings.length) + 1 else 0
  let numbered := headings.zipIdx.map Prod.swap
  let kept := chosen used (numbered.mergeSort shallower)
  let lines := (numbered.filter fun item ↦ kept.contains item.1).map (entry ·.2)
  let omitted := headings.length - kept.length
  if omitted = 0 then lines else lines ++ [moreHeadings omitted]

/-- How many items fit beside the line for the ones after them. -/
def keptItems (notes : Notes) (count : Nat) : (used index : Nat) → List Units → Nat
  | _, index, [] => index
  | used, index, item :: more =>
    let next := used + size item + 1
    let rest := if index + 1 < count then size (notes.rest (count - index - 1)) + 1 else 0
    if notes.bytes < next + rest then index else keptItems notes count next (index + 1) more

/-- `notes` as lines within their byte budget, and a last line for the items that did not fit. -/
def listing (notes : Notes) : List Units :=
  let items := notes.items.map (oneLine · ITEM_CHARS)
  let kept := keptItems notes items.length (size notes.title + 1) 0 items
  let omitted := items.length - kept
  notes.title :: items.take kept ++ if omitted = 0 then [] else [notes.rest omitted]

/-! ## Ranges -/

/-- The line of this number. -/
def line (lines : List Units) (number : Nat) : Units := (lines[number - 1]?).getD []

/-- Refuses a range that names no position, with the message of its `ReadRangeError`. -/
def checkLines (lines : List Units) (range : ReadRange) : Except String Unit :=
  let total := lines.length
  let offset := range.offset.getD 1
  if range.column.isSome && range.offset.isNone then
    .error "`column` counts characters in a line: pass `offset` with it."
  else if offset < 1 || (if total ≠ 0 then total < offset else offset ≠ 1) then
    .error (s!"offset {offset} is outside the document, which has {total} line"
      ++ (if total = 1 then "" else "s") ++ s!". Read from a line between 1 and {max total 1}.")
  else
    let column := range.column.getD 1
    let length := if total ≠ 0 then characters (line lines offset) else 1
    if column < 1 || length < column then
      .error (s!"column {column} is outside line {offset}, which has {length} character positions "
        ++ s!"(its characters, then its newline). Read from a column between 1 and {length}.")
    else .ok ()

/-- Refuses a range that names no position in `source`. -/
def checkRange (source : Units) (range : ReadRange) : Except String Unit :=
  checkLines (sourceLines source) range

/-- Where a result that is not the last continues. -/
def Window.next (window : Window) : Option Position :=
  if window.more then
    some (match window.cut with
      | some column => ⟨window.last, some column⟩
      | none => ⟨window.last + 1, none⟩)
  else none

namespace DocumentText

variable (input : DocumentText)

def lines : List Units := sourceLines input.source

def total : Nat := input.lines.length

def offset : Nat := input.range.offset.getD 1

def column : Nat := input.range.column.getD 1

/-- The last line asked for. -/
def requested : Nat :=
  match input.range.limit with
  | none => input.total
  | some limit => min input.total (input.offset + limit - 1)

def lengths (number : Nat) : Nat := characters (line input.lines number)

/-- The top-level blocks an editor addresses, with where each starts. -/
def blockLines : List (Nat × Units) :=
  if input.total = 0 then []
  else (input.blocks.getD []).filterMap fun block ↦ (input.parts[block.index]?).map fun part ↦
    (part.start, decimal block.index ++ utf16 " " ++ block.type ++ utf16 " L" ++ decimal part.start
      ++ utf16 "-" ++ decimal part.finish ++ utf16 " " ++ block.digest)

/-- The blocks listed for this line. -/
def blocksOn (number : Nat) : List Units :=
  (input.blockLines.filter (·.1 == number)).map Prod.snd

/-- The lists, each after a blank line but for the first. -/
def listings : List Notes → List Units
  | [] => []
  | notes :: more => listing notes ++ more.flatMap fun notes ↦ [] :: listing notes

def noted : List Units :=
  if input.offset = 1 ∧ input.column = 1 then listings input.notes else []

/-- `2-5 of 9` -/
def lineRange (window : Window) : Units :=
  decimal window.first ++ utf16 "-" ++ decimal window.last ++ utf16 " of " ++ decimal input.total

/-- The lines above the block listing. -/
def summary (window : Window) : List Units :=
  let blocks := match input.blocks with
    | none => []
    | some blocks => utf16 ", " ++ decimal blocks.length ++ utf16 " blocks"
  (input.fields.map fun (name, value) ↦ name ++ utf16 ": " ++ oneLine value FIELD_CHARS)
    ++ [utf16 "size: " ++ decimal (characters input.source) ++ utf16 " characters, " ++ decimal input.total
          ++ utf16 " lines" ++ blocks,
        if input.total = 0 then utf16 "lines: none, the document is empty"
        else if window.first = 1 ∧ window.fromColumn = 1 ∧ window.more = false then
          utf16 "lines: all " ++ decimal input.total
        else utf16 "lines: " ++ input.lineRange window]
    ++ (if 1 < window.fromColumn then
          [utf16 "starts mid-line: line " ++ decimal window.first ++ utf16 " from character "
            ++ decimal window.fromColumn ++ utf16 " of " ++ decimal (input.lengths window.first)]
        else [])
    ++ (match window.cut with
        | some cut =>
          [utf16 "ends mid-line: line " ++ decimal window.last ++ utf16 " after character "
            ++ decimal (cut - 1) ++ utf16 " of " ++ decimal (input.lengths window.last)]
        | none => [])
    ++ (match window.asked.filter (0 < ·) with
        | some asked =>
          [utf16 "limit: asked for " ++ decimal asked ++ utf16 " lines from line " ++ decimal input.offset
            ++ utf16 ", but one result holds at most " ++ decimal READ_BYTES
            ++ utf16 " bytes, so this one stops at line " ++ decimal window.last
            ++ (if window.cut.isSome then utf16 ", part way through it" else [])
            ++ utf16 ". A limit is a most, not a promise."]
        | none => [])
    ++ (match window.next with
        | some position =>
          [utf16 "next: " ++ input.next position,
            if window.outline.isSome then
              utf16 "This document is larger than one result holds (" ++ decimal READ_BYTES
                ++ utf16 " bytes), so this is its outline and first part. Read the rest with the next call, "
                ++ utf16 "or jump to a line from the outline."
            else utf16 "More follows: each call returns at most " ++ decimal READ_BYTES ++ utf16 " bytes."]
        | none => [])
    ++ (match window.outline with
        | some (heading :: more) => [[], utf16 "Outline (line, heading):"] ++ heading :: more
        | _ => [])
    ++ if input.noted = [] then [] else [] :: input.noted

/-- The blocks that start in the result, under a title. -/
def blockListing (window : Window) : List Units :=
  if window.listed = [] then []
  else
    [[], utf16 "Blocks starting on lines "
      ++ decimal (if 1 < window.fromColumn then window.first + 1 else window.first) ++ utf16 "-"
      ++ decimal window.last ++ utf16 " (index type lines digest):"] ++ window.listed

/-- The line above the source section. -/
def marker (window : Window) : Units :=
  if input.total = 0 then utf16 "--- source (empty) ---"
  else utf16 "--- source lines " ++ input.lineRange window ++ utf16 " ---"

/-- The lines of a result before its source section. -/
def header (window : Window) : List Units :=
  input.summary window ++ blockListing window ++ [[], input.marker window]

/-- A whole result: the header, and the source section. -/
def render (window : Window) : Units := joined (input.header window) ++ newline :: window.text

/-! ## Filling a result -/

/-- What a result has taken so far. -/
structure Taking where
  pieces : List Units
  listed : List Units
  used : Nat
  line : Nat
  fromColumn : Nat
  cut : Option Nat
  deriving DecidableEq

/-- Whether this many bytes fit; no room means no bound. -/
def fits (room : Option Int) (bytes : Nat) : Bool := room.all fun room ↦ (bytes : Int) ≤ room

/-- What a line has from this column on. -/
def restOfLine (unit : Units) (column : Nat) : Units :=
  if column = 1 then unit else unit.drop (indexOfColumn unit column)

/-- The blocks that start in the line, if it is taken from its start. -/
def startingOn (number column : Nat) : List Units := if column = 1 then input.blocksOn number else []

/-- The loop over these lines, the first of them the one to take next. -/
def takeLines (room : Option Int) : List Units → Taking → Taking
  | [], taking => taking
  | unit :: more, taking =>
    if taking.line ≤ input.requested then
      let rest := restOfLine unit taking.fromColumn
      let starting := input.startingOn taking.line taking.fromColumn
      let cost := size rest + listedBytes starting
      if fits room (taking.used + cost) then
        takeLines room more
          { pieces := taking.pieces ++ [rest], listed := taking.listed ++ starting
            used := taking.used + cost, line := taking.line + 1, fromColumn := 1, cut := none }
      else if taking.pieces = [] then
        let piece := prefixOf rest (max ((room.getD 0) - listedBytes starting) 4)
        { taking with
          pieces := [piece], listed := taking.listed ++ starting
          cut := some (taking.fromColumn + characters piece) }
      else taking
    else taking

/-- As much of the document as fits, from where the range starts. -/
def take (room : Option Int) (outlined : Option (List Units)) : Window :=
  let taken := input.takeLines room (input.lines.drop (input.offset - 1))
    { pieces := [], listed := [], used := 0, line := input.offset, fromColumn := input.column, cut := none }
  let last := if taken.cut.isSome then taken.line else taken.line - 1
  let more := taken.cut.isSome || taken.line ≤ input.total
  let short := input.range.limit.isSome && more && (taken.cut.isSome || last < input.requested)
  { first := input.offset, fromColumn := input.column, last, cut := taken.cut, more
    asked := if short then input.range.limit else none
    text := taken.pieces.flatten, listed := taken.listed, outline := outlined }

/-- The window with the longest header there can be. -/
def worst (outlined : Option (List Units)) : Window :=
  { first := input.offset, fromColumn := input.column, last := input.total
    cut := some ((input.lines.map characters).foldl max 1 + 1), more := true, asked := input.range.limit
    text := [], listed := if input.blockLines = [] then [] else [[]], outline := outlined }

/-- Take less until the result fits.  Each turn takes at least a byte less, so the room says how often. -/
def shrink (outlined : Option (List Units)) : Nat → Int → Window
  | 0, room => input.take (some room) outlined
  | turns + 1, room =>
    let window := input.take (some room) outlined
    let excess := (size (input.render window) : Int) - READ_BYTES
    if excess ≤ 0 ∨ room ≤ 4 then window else shrink outlined turns (room - excess)

/-- The lines asked for, in bytes. -/
def sourceBytes : Nat :=
  (((input.lines.take input.requested).drop (input.offset - 1)).map size).sum

/-- The outline comes with the first part of a document too large for one result. -/
def outlined : Option (List Units) :=
  if input.range.offset.isSome || input.range.limit.isSome || input.total = 0 then none
  else some (outline input.parts)

/-- What one result shows. -/
def window : Except String Window := do
  checkLines input.lines input.range
  let everything := input.take none none
  if input.sourceBytes ≤ READ_BYTES && size (input.render everything) ≤ READ_BYTES then pure everything
  else if input.total = 0 then .error "undefined is not iterable"
  else
    let room := (READ_BYTES : Int) - size (input.render (input.worst input.outlined))
    pure (input.shrink input.outlined room.toNat room)

end DocumentText

/-- `documentText` -/
def documentText (input : DocumentText) : Except String Units := input.window.map input.render

end Chopin.Reading
