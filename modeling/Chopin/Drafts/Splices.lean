import Chopin.Lib.Utf16

/-!
# Splices of a shared text

What somebody types is sent as one splice: where it starts, how many code units go and what comes in their place.
The browser makes one for a text field, and the drafts of a questionnaire make one for their own history.  Both
look for the part that the two texts do not share, and widen it by a unit on either side where it would otherwise
start or end between the halves of a pair.
-/

set_option autoImplicit false

open Script

namespace Chopin.Drafts

export Script (Units)

/-- How far two texts are the same. -/
def shared : Units → Units → Nat
  | unit :: before, other :: after => if unit = other then shared before after + 1 else 0
  | _, _ => 0

/-- `/[\uDC00-\uDFFF]/u.test(text[index] ?? "")` -/
def lowAt (text : Units) (index : Nat) : Bool := (text[index]?).any low

/-- The first `start` of the code, and then the one that is not between the halves of a pair. -/
def startOf (before after : Units) : Nat :=
  let start := shared before after
  if 0 < start && lowAt before start then start - 1 else start

/-- The start, and the ends in both texts. -/
def bounds (before after : Units) : Nat × Nat × Nat :=
  let start := startOf before after
  -- what is the same at the end, as far back as the start
  let same := shared (before.drop start).reverse (after.drop start).reverse
  let «end» := before.length - same
  let nextEnd := after.length - same
  if «end» < before.length && lowAt before «end» then (start, «end» + 1, nextEnd + 1) else (start, «end», nextEnd)

/-- `text.slice(start, end)`, where the one is not after the other. -/
def slice (text : Units) (start «end» : Nat) : Units := (text.take «end»).drop start

/-! ## In the browser -/

structure Splice where
  start : Nat
  remove : Nat
  insert : Units
  deriving DecidableEq

/-- What a splice makes of a text. -/
def Splice.apply (splice : Splice) (text : Units) : Units :=
  text.take splice.start ++ splice.insert ++ text.drop (splice.start + splice.remove)

/-- The smallest edit that preserves unchanged characters and their identities. -/
def textSplice (before after : Units) : Option Splice :=
  if before = after then none
  else
    let (start, «end», nextEnd) := bounds before after
    some ⟨start, «end» - start, slice after start nextEnd⟩

/-! ## In a draft -/

def MAX_TEXT : Nat := 2048

def MAX_MODEL : Nat := 256 * 1024

/-- A draft: its text, and the length of its history in bytes. -/
structure Model where
  text : Units
  bytes : Nat

/-- `del` and `ins`, of a string in a draft. -/
inductive Edit where
  | del (position length : Nat)
  | ins (position : Nat) (inserted : Units)
  deriving DecidableEq

def Edit.apply (text : Units) : Edit → Units
  | del position length => text.take position ++ text.drop (position + length)
  | ins position inserted => text.take position ++ inserted ++ text.drop position

/-- What edits make of a text, one after another. -/
def edited (text : Units) (edits : List Edit) : Units := edits.foldl Edit.apply text

/-- A control character that is no tab and no line end; a half of a pair is none, as is the pair. -/
def control (code : Nat) : Bool := code = 127 || code < 32 && code ≠ 9 && code ≠ 10 && code ≠ 13

/-- `text`: refuses what a draft may not say. -/
def checkText (value : Units) : Except String Unit :=
  if MAX_TEXT < value.length || (points value).any control then .error "Invalid draft text" else .ok ()

def Model.read (model : Model) : Except String Units := do
  checkText model.text
  if MAX_MODEL < model.bytes then throw "Draft history is full"
  pure model.text

/-- The edits that bring one text to another, unless they are the same. -/
def edits (before value : Units) : Option (List Edit) :=
  if before = value then none
  else
    let (start, «end», nextEnd) := bounds before value
    some ((if start < «end» then [.del start («end» - start)] else [])
      ++ if start < nextEnd then [.ins start (slice value start nextEnd)] else [])

/-- Produce a local splice against the model the input actually displayed; `bytes` is the history with the edits
in it. -/
def change (bytes : Model → List Edit → Nat) (model : Model) (value : Units) : Except String (Option (List Edit)) := do
  checkText value
  let before ← model.read
  match edits before value with
  | none => pure none
  | some made =>
    let next : Model := ⟨edited before made, bytes model made⟩
    let _ ← next.read
    pure (some made)

end Chopin.Drafts
