import Chopin.Lib.Entries
import Chopin.Lib.Utf16
import Chopin.Room.Document

/-!
# Anchors

A remark is tied to a block by a position in the history of the shared document, which survives the edits around
the block, and by a digest of what the block said, for when the position cannot be resolved.  `rebase` brings
anchors forward onto the document as it is now.  A phrase inside a block is found again by its text, and `seek`
looks for it.

The shared document is somebody else's: `Yjs` is what the room asks of it, and `collabNodeMap` the shared type
that each node of the editor is bound to.
-/

set_option autoImplicit false

open Script

namespace Chopin.Room

export Script (Units)

/-- Positions in the shared document: `createRelativePositionFromTypeIndex(type, 0, -1)` as it is encoded, and the
type that a decoded one is in, if there is one. -/
structure Yjs (Shared : Type) where
  position : Shared → String
  absolute : String → Option Shared

/-- The live document, what `serialize` makes of each block of its projection, and the shared types. -/
structure Mirror (Shared : Type) extends Document where
  sources : List String
  collabNodeMap : List (Nat × Shared)

/-- A relationship that is lost says that it is `orphaned`. -/
structure Anchor where
  epoch : String
  position : String
  digest : String
  orphaned : Bool
  byDigest : Bool
  deriving DecidableEq

variable {Shared : Type} [DecidableEq Shared]

def digest (sha256 : String → String) (source : String) : String := "sha256:" ++ sha256 source

/-- Canonical hash of each top-level block, in order. -/
def digests (sha256 : String → String) (target : Mirror Shared) : List String :=
  target.sources.map (digest sha256)

def anchorForKey (yjs : Yjs Shared) (target : Mirror Shared) (key : Option Nat) (hash : String) :
    Except String Anchor :=
  match key.bind fun key ↦ target.collabNodeMap.lookup key with
  | none => .error "anchored block has no collaborative identity"
  | some type => .ok ⟨target.epoch, yjs.position type, hash, false, false⟩

/-- The local node an anchor names, if it still names one. -/
def resolveAnchor (yjs : Yjs Shared) (target : Mirror Shared) (anchor : Anchor) : Option Nat :=
  if anchor.epoch ≠ target.epoch then none
  else (yjs.absolute anchor.position).bind fun type ↦
    (target.collabNodeMap.find? (·.2 == type)).map Prod.fst

/-- The keys of the blocks with each digest. -/
def keysByDigest (blocks : List (String × Nat)) : List (String × List Nat) :=
  blocks.foldl (fun found (hash, key) ↦ Entries.set found hash ((found.lookup hash).getD [] ++ [key])) []

/-- The one block with the digest of the anchor; where there is none or several, the anchor is lost. -/
def rebaseByDigest (yjs : Yjs Shared) (target : Mirror Shared) (marking : Bool) (blocks : List (String × Nat))
    (anchor : Anchor) : Except String Anchor :=
  match ((keysByDigest blocks).lookup anchor.digest).getD [] with
  | [key] => do
    let rebased ← anchorForKey yjs target (some key) anchor.digest
    pure { rebased with byDigest := marking }
  | _ => pure { anchor with epoch := target.epoch, orphaned := true }

/-- One anchor, from the digests and the keys of the blocks. -/
def rebaseAnchor (yjs : Yjs Shared) (target : Mirror Shared) (marking : Bool) (hashes : List String) (keys : List Nat)
    (anchor : Anchor) : Except String Anchor :=
  if anchor.orphaned then pure { anchor with epoch := target.epoch }
  else
    match resolveAnchor yjs target anchor with
    | none => rebaseByDigest yjs target marking (hashes.zip keys) anchor
    | some key =>
      -- a block that the source does not address, or one without a digest, is looked for by its old one
      match (keys.idxOf? key).bind fun index ↦ (hashes[index]?).filter (· ≠ "") with
      | none => rebaseByDigest yjs target marking (hashes.zip keys) anchor
      | some hash => do
        let rebased ← anchorForKey yjs target (some key) hash
        pure { rebased with byDigest := marking && anchor.byDigest }

/-- Bring anchors forward onto the document as it is now. -/
def rebase (yjs : Yjs Shared) (sha256 : String → String) (target : Mirror Shared) (anchors : List Anchor)
    (marking : Bool) : Except String (List Anchor) :=
  let hashes := digests sha256 target
  let keys := target.addressable.map (·.key)
  anchors.mapM (rebaseAnchor yjs target marking hashes keys)

/-! ## Passages -/

/-- The indices at which the quote stands, the text being from `at` on. -/
def occurrences (quote : Units) : («at» : Nat) → Units → List Nat
  | «at», [] => if quote.isPrefixOf [] then [«at»] else []
  | «at», unit :: rest =>
    (if quote.isPrefixOf (unit :: rest) then [«at»] else []) ++ occurrences quote («at» + 1) rest

/-- `Math.abs(at - offset)` -/
def distance (offset : Int) («at» : Nat) : Nat := («at» - offset).natAbs

/-- Where the quote is now, or nothing if that cannot be said.  The recorded offset breaks ties; two occurrences
equally near it recover neither. -/
def seek (text quote : Units) (offset : Int) : Option Nat :=
  if quote = [] then none
  else
    match occurrences quote 0 text with
    | [] => none
    | [only] => some only
    | first :: rest =>
      let best := rest.foldl (fun a b ↦ if distance offset a ≤ distance offset b then a else b) first
      if ((first :: rest).filter fun «at» ↦ distance offset «at» = distance offset best).length = 1 then some best
      else none

end Chopin.Room
