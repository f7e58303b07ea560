import Chopin.Lib.Text

/-!
# The live document

A room holds its document as a tree that everyone edits at once, and this is the tree's top level: blocks, each
with a key of its own, and between them empty paragraphs, which are places for a caret and not part of the
source.

In a document with a title the title is one heading, known by its key.  `normalizeTitle` puts it back at the top
whenever the room has changed the document.
-/

set_option autoImplicit false

open Script

namespace Chopin.Room

inductive NodeType where
  | paragraph
  | heading (tag : String)
  | other (type : String)
  deriving DecidableEq

/-- What a block contains; a child is plain when it is a text without a format. -/
structure Inline where
  text : String
  plain : Bool
  deriving DecidableEq

structure LexicalNode where
  key : Nat
  type : NodeType
  children : List Inline
  deriving DecidableEq

/-- Keys come from a counter, of which `nextKey` is the next. -/
structure Document where
  titleKey : Option Nat
  titleBodyKeys : Option (List Nat)
  epoch : String
  root : List LexicalNode
  nextKey : Nat
  deriving DecidableEq

namespace LexicalNode

def isHeading (node : LexicalNode) : Bool :=
  match node.type with
  | .heading _ => true
  | _ => false

/-- `getTextContent` -/
def textContent (node : LexicalNode) : String := String.join (node.children.map (·.text))

/-- An empty paragraph, which is a shared caret position. -/
def caret (node : LexicalNode) : Bool := node.type = .paragraph && node.children.isEmpty

end LexicalNode

/-- Blocks an anchor can name: the ones the source addresses. -/
def Document.addressable (target : Document) : List LexicalNode := target.root.filter (!·.caret)

/-! ## The title -/

def MAX_TITLE_LENGTH : Nat := 50

/-- Editable text retains edge spaces. -/
def boundDocumentTitle (value : String) : String :=
  String.ofList ((value.toList.map fun c ↦ if c = '\r' ∨ c = '\n' then ' ' else c).take MAX_TITLE_LENGTH)

/-- `replace(/\s+/gu, " ")`, when what came before was a space or not. -/
def collapse : (after : Bool) → List Char → List Char
  | _, [] => []
  | after, c :: rest =>
    if isSpace c then (if after then collapse true rest else ' ' :: collapse true rest) else c :: collapse false rest

def normalizeDocumentTitle (value : String) : String :=
  String.ofList ((trim (String.ofList (collapse false value.toList))).toList.take MAX_TITLE_LENGTH)

/-- The heading that the title is in, unless there is none at the top level. -/
def titleHeading (target : Document) : Option LexicalNode :=
  match target.titleKey with
  | some key =>
    ((target.root.find? (·.key == key)).filter (·.isHeading)).or
      (target.root.head?.filter fun first ↦
        first.type = .heading "h1" && first.textContent = "" && !(target.titleBodyKeys.getD []).contains first.key)
  | none => target.root.head?.filter (·.type = .heading "h1")

/-- A heading of the first level, with nothing but text in it. -/
def LexicalNode.asTitle (known : Bool) (heading : LexicalNode) : LexicalNode :=
  let text := if known then boundDocumentTitle heading.textContent else normalizeDocumentTitle heading.textContent
  { heading with
    type := .heading "h1"
    children :=
      if heading.textContent ≠ text || heading.children.any (!·.plain) then
        (if text = "" then [] else [⟨text, true⟩])
      else heading.children }

/-- `$createHeadingNode("h1")`, with this text in it. -/
def createHeading (key : Nat) (text : String) : LexicalNode :=
  ⟨key, .heading "h1", if text = "" then [] else [⟨text, true⟩]⟩

/-- The title comes first, whatever stood there, and is a heading of the first level; says whether that is new. -/
def normalizeTitle (target : Document) (fallback : String) : Document × Bool :=
  let known := target.titleKey.isSome
  match titleHeading target with
  | some heading =>
    let title := heading.asTitle known
    let body := target.root.filter (·.key != heading.key)
    ({ target with
        titleKey := some heading.key
        titleBodyKeys := some (body.map (·.key))
        root := title :: body },
      target.root.head? != some heading || title != heading)
  | none =>
    let title := (createHeading target.nextKey (normalizeDocumentTitle (if known then "" else fallback))).asTitle known
    ({ target with
        titleKey := some title.key
        titleBodyKeys := some (target.root.map (·.key))
        root := title :: target.root
        nextKey := target.nextKey + 1 }, true)

/-- Apply a change of our own to the live document; says whether it changed.  A change that fails has changed
nothing. -/
def mutate (target : Document) (change : Document → Except String (Document × Bool)) :
    Except String (Document × Bool) :=
  (change target).map fun (target, changed) ↦
    if target.titleKey.isSome then
      let (target, normalized) := normalizeTitle target ""
      (target, normalized || changed)
    else (target, changed)

end Chopin.Room
