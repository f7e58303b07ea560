import Chopin.Lib.Json
import Chopin.Protocol.Addresses
import Chopin.Protocol.DocumentPaths

/-!
# References in chat messages

A message may refer to documents and to research (`chat/references.ts`).  Its author names ranges of the text,
`#` or `%` and a title; `resolve` puts the target's own title in their place, removes the Planner's mention from
what is addressed to it, trims the message and says where the labels have come to stand.  `restoreReferences`
reads what was stored, and checks every range against the text.

Numbers are natural numbers: others are refused by `token`, whose ranges are safe integers that are not negative.
Strings are UTF-16 units, and no longer than the language allows.
-/

set_option autoImplicit false

open Script Chopin.Protocol

namespace Chopin.Chat

export Script (Units)

def MAX_REFERENCES : Nat := 10
def MAX_TOKEN : Nat := 256
def MAX_LABEL : Nat := 121
def MAX_HREF : Nat := 2048
def MAX_REPOSITORY_ID : Nat := 255
def MAX_WORKSPACE_ID : Nat := 96

inductive Destination where
  | room
  | planner
deriving DecidableEq

/-- What a request or a reference is for, as the two are told apart. -/
inductive Target where
  | document (channelId : Units)
  | research (workspaceId : Units)
deriving DecidableEq

def Target.marker : Target → Nat
  | .document _ => 0x23
  | .research _ => 0x25

structure Request where
  target : Target
  start : Nat
  «end» : Nat
deriving DecidableEq

/-- What only one kind of reference holds beside its target. -/
inductive Observed where
  | document (observedSourceHash : Units)
  | research (parentChannelId : Units)
deriving DecidableEq

structure Reference where
  id : Units
  start : Nat
  «end» : Nat
  label : Units
  href : Units
  repositoryId : Units
  observedRevision : Nat
  target : Target
  observed : Observed
deriving DecidableEq

/-- A message as it is stored. -/
structure ResolvedMessage where
  text : Units
  references : List Reference
deriving DecidableEq

/-- A unit of the text; one of a label knows which reference it belongs to. -/
structure TextUnit where
  value : Nat
  reference : Option Nat
deriving DecidableEq

/-! ## Small checks -/

def hasControlCharacter (value : Units) : Bool := value.any fun code ↦ code ≤ 31 || code == 127

def opaqueId (value : Units) (maximum : Nat) : Bool :=
  1 ≤ value.length && value.length ≤ maximum && !hasControlCharacter value

/-- `[0-9a-f]` -/
def isHex (unit : Nat) : Bool := (0x30 ≤ unit && unit ≤ 0x39) || (0x61 ≤ unit && unit ≤ 0x66)

/-- `CHANNEL.test(value)` -/
def isChannelId (value : Units) : Bool :=
  match value.splitOn 0x2d with
  | [first, second, third, fourth, fifth] =>
    [first, second, third, fourth, fifth].all (·.all isHex) &&
      [first, second, third, fourth, fifth].map List.length == [8, 4, 4, 4, 12] &&
      third.head?.any (fun unit ↦ unit == 0x34 || unit == 0x35) &&
      fourth.head?.any (fun unit ↦ [0x38, 0x39, 0x61, 0x62].contains unit)
  | _ => false

/-- `[A-Za-z0-9]` -/
def isAlphanumeric (unit : Nat) : Bool := isWord unit && unit != 0x5f

def safeWorkspaceId (value : Units) : Bool :=
  1 ≤ value.length && value.length ≤ MAX_WORKSPACE_ID && value.head?.any isAlphanumeric &&
    value.all fun unit ↦ isAlphanumeric unit || [0x2e, 0x5f, 0x3a, 0x2d].contains unit

/-- `[0-9A-HJKMNP-TV-Z]`: the letters without I, L, O and U. -/
def isUlidUnit (unit : Nat) : Bool :=
  (0x30 ≤ unit && unit ≤ 0x39) || (0x41 ≤ unit && unit ≤ 0x5a && !([0x49, 0x4c, 0x4f, 0x55].contains unit))

/-- `ULID.test(value)` -/
def isUlid (value : Units) : Bool :=
  value.length == 26 && value.head?.any (fun unit ↦ 0x30 ≤ unit && unit ≤ 0x37) && value.all isUlidUnit

/-- `SOURCE_HASH.test(value)` -/
def isSourceHash (value : Units) : Bool :=
  value.take 7 == utf16 "sha256:" && value.length == 71 && (value.drop 7).all isHex

def safeBoundary (text : Units) (boundary : Nat) : Bool :=
  boundary == 0 || text.length ≤ boundary ||
    !((text[boundary - 1]?).any high && (text[boundary]?).any low)

/-- `text.slice(start, end)` -/
def slice (text : Units) (start stop : Nat) : Units := (text.take stop).drop start

def token (text : Units) (start stop marker : Nat) : Except String Units :=
  if Json.maxSafe < start ∨ Json.maxSafe < stop ∨ stop ≤ start ∨ text.length < stop ∨ MAX_TOKEN < stop - start ∨
      safeBoundary text start = false ∨ safeBoundary text stop = false then
    .error "Reference range is invalid."
  else
    let value := slice text start stop
    if value.head? ≠ some marker ∨ MAX_LABEL < (spread value).length ∨ hasControlCharacter value then
      .error "Reference token is invalid."
    else .ok value

/-- What `request` checks beside the shape. -/
def request (item : Request) : Except String Request :=
  match item.target with
  | .document channelId => if isChannelId channelId then .ok item else .error "Document reference is invalid."
  | .research workspaceId =>
    if safeWorkspaceId workspaceId then .ok item else .error "Research reference is invalid."

/-- The loop over the requests, with the end of the last one and the targets so far. -/
def checkRequests (text : Units) (previousEnd : Nat) (targets : List Target) : List Request → Except String Unit
  | [] => .ok ()
  | item :: rest =>
    if item.start < previousEnd then .error "References must be sorted and disjoint."
    else
      match token text item.start item.end item.target.marker with
      | .error message => .error message
      | .ok _ =>
        if item.target ∈ targets then .error "Reference targets must be unique."
        else checkRequests text item.end (targets ++ [item.target]) rest

def requests (text : Units) (values : List Request) : Except String (List Request) :=
  if MAX_REFERENCES < values.length then .error "A message may contain at most 10 references."
  else do
    let parsed ← values.mapM request
    checkRequests text 0 [] parsed
    pure parsed

/-! ## The text -/

def units (value : Units) (reference : Option Nat) : List TextUnit := value.map (⟨·, reference⟩)

/-- The text of a message's units. -/
def texts (input : List TextUnit) : Units := input.map (·.value)

/-- `text.toLowerCase()`, of one unit.  Outside ASCII only the Kelvin sign and the dotted capital i give a unit
of ASCII; the others stay outside it, and stand for what they give. -/
def lowerCase (unit : Nat) : Units :=
  if unit = 0x212a then [0x6b] else if unit = 0x130 then [0x69, 0x307] else [asciiLower unit]

/-- The mention begins here, behind `before`, and no unit of it is a label's. -/
def addressesHere (before : Option Nat) (input : List TextUnit) : Bool :=
  (texts (input.take MENTION.length)).flatMap lowerCase = MENTION &&
    !(before.any fun unit ↦ isWord unit || unit == 0x40) &&
    !(input[MENTION.length]?.any fun unit ↦ isWord unit.value) &&
    (input.take MENTION.length).all (·.reference.isNone)

/-- The loop that filters the mentions out, behind `before` and with `skip` units still to pass over. -/
def filterMentions (before : Option Nat) (skip : Nat) : List TextUnit → List TextUnit
  | [] => []
  | unit :: rest =>
    match skip with
    | skip + 1 => filterMentions (some unit.value) skip rest
    | 0 =>
      if addressesHere before (unit :: rest) then filterMentions (some unit.value) (MENTION.length - 1) rest
      else unit :: filterMentions (some unit.value) 0 rest

def TextUnit.isGap (unit : TextUnit) : Bool := unit.reference.isNone && Protocol.isGap unit.value

def TextUnit.isSpace (unit : TextUnit) : Bool := unit.reference.isNone && isSpaceUnit unit.value

/-- The space a gap is replaced by. -/
def TextUnit.space : TextUnit := ⟨0x20, none⟩

/-- The ends of a message are trimmed, but no label is. -/
def trimMessage (input : List TextUnit) : List TextUnit :=
  (input.dropWhile TextUnit.isSpace).rdropWhile TextUnit.isSpace

/-- Remove Planner addressing only from prose; canonical reference labels are opaque. -/
def plannerText (input : List TextUnit) : List TextUnit :=
  trimMessage (narrow TextUnit.isGap TextUnit.space .none (filterMentions none 0 input))

/-- The text from `cursor` on, with the labels of the references from `index` on. -/
def canonicalUnits (text : Units) (cursor index : Nat) : List Reference → List TextUnit
  | [] => units (text.drop cursor) none
  | reference :: rest =>
    units (slice text cursor reference.start) none ++ units reference.label (some index) ++
      canonicalUnits text reference.end (index + 1) rest

/-- The range of a reference's units: the first of them, and the last. -/
def rangeOf (canonical : List TextUnit) (index : Nat) : Option (Nat × Nat) :=
  canonical.zipIdx.foldl (fun range entry ↦
    if entry.1.reference = some index then some ((range.map (·.1)).getD entry.2, entry.2 + 1) else range) none

/-- A reference with the range of its label. -/
def placed (canonical : List TextUnit) (reference : Reference) (index : Nat) : Except String Reference :=
  match rangeOf canonical index with
  | none => .error "Canonical reference range is invalid."
  | some range =>
    if range.2 ≤ range.1 ∨ slice (texts canonical) range.1 range.2 ≠ reference.label then
      .error "Canonical reference range is invalid."
    else .ok { reference with start := range.1, «end» := range.2 }

def canonicalMessage (text : Units) (destination : Destination) (references : List Reference) :
    Except String ResolvedMessage :=
  if references = [] then
    .ok ⟨if destination = .planner then instruction text else trimUnits text, []⟩
  else
    let canonical := canonicalUnits text 0 0 references
    let canonical := if destination = .planner then plannerText canonical else trimMessage canonical
    -- No string is longer: to join more throws a range error.
    if Json.maxSafe < canonical.length then .error "Invalid string length"
    else do
      let restored ← references.zipIdx.mapM fun entry ↦ placed canonical entry.1 entry.2
      pure ⟨texts canonical, restored⟩

/-! ## References -/

def validLabel (value : Units) (marker : Nat) : Bool :=
  value.head? == some marker && !hasControlCharacter value && value.tail ≠ [] &&
    trimUnits value.tail == value.tail && (spread value).length ≤ MAX_LABEL

/-- The path of a removed product route, which stored references keep. -/
def legacyResearchPath (owner repository slug workspaceId : Units) : Option Units := do
  let owner ← encodeURIComponent owner
  let repository ← encodeURIComponent repository
  let slug ← encodeURIComponent slug
  let workspaceId ← encodeURIComponent workspaceId
  pure (utf16 "/documents/" ++ owner ++ [slash] ++ repository ++ [slash] ++ slug ++ utf16 "/research/" ++ workspaceId)

/-- The parts of a legacy path: owner, repository, slug and workspace. -/
def parseLegacyResearchPath (value : Units) : Option (Units × Units × Units × Units) :=
  match value.splitOn slash with
  | [] :: documents :: owner :: repository :: slug :: research :: workspaceId :: rest =>
    if documents = utf16 "documents" ∧ research = utf16 "research" ∧ plainPart owner ∧ plainPart repository ∧
        plainPart slug ∧ plainPart workspaceId ∧ (rest = [] ∨ rest = [[]]) then do
      let owner ← decodedSegment owner
      let repository ← decodedSegment repository
      let slug ← decodedSegment slug
      let workspaceId ← decodedSegment workspaceId
      pure (owner, repository, slug, workspaceId)
    else none
  | _ => none

/-- The path is the one its parts are built into; where they cannot be built, that throws. -/
def canonicalDocumentHref (value : Units) : Bool :=
  value.length ≤ MAX_HREF &&
    ((parseDocumentPath value).any (fun parsed ↦ parsed.slug.isSome && parsed.rebuilt.toOption == some value) ||
      (parseChildDocumentPath value).any (fun child ↦ child.rebuilt.toOption == some value))

def canonicalResearchHref (value : Units) : Bool :=
  value.length ≤ MAX_HREF &&
    (parseLegacyResearchPath value).any fun (owner, repository, slug, workspaceId) ↦
      legacyResearchPath owner repository slug workspaceId == some value

/-- What every reference has. -/
def validBase (item : Reference) : Bool :=
  isUlid item.id && item.start ≤ Json.maxSafe && item.end ≤ Json.maxSafe &&
    opaqueId item.repositoryId MAX_REPOSITORY_ID && item.observedRevision ≤ Json.maxSafe

/-- What `reference` checks beside the shape. -/
def reference (item : Reference) : Except String Reference :=
  match item.target, item.observed with
  | .document channelId, .document observedSourceHash =>
    if validBase item && isChannelId channelId && validLabel item.label 0x23 && canonicalDocumentHref item.href &&
        isSourceHash observedSourceHash then .ok item
    else .error "Stored document reference is invalid."
  | .research workspaceId, .research parentChannelId =>
    if validBase item && isChannelId parentChannelId && safeWorkspaceId workspaceId &&
        validLabel item.label 0x25 && canonicalResearchHref item.href &&
        (parseLegacyResearchPath item.href).map (·.2.2.2) == some workspaceId then .ok item
    else .error "Stored research reference is invalid."
  | _, _ => .error "Stored reference kind is invalid."

/-- The document a message belongs to. -/
structure Scope where
  channelId : Units
  repositoryId : Units
deriving DecidableEq

/-- The reference is to something outside the document it is stored with. -/
def outside (scope : Option Scope) (item : Reference) : Bool :=
  scope.any fun scope ↦ item.repositoryId != scope.repositoryId ||
    (match item.target, item.observed with
    | .document channelId, _ => channelId == scope.channelId
    | .research _, .research parentChannelId => parentChannelId != scope.channelId
    | .research _, .document _ => true)

/-- The loop over stored references, with the end of the last one, the ids and the targets so far. -/
def checkStored (text : Units) (scope : Option Scope) (previousEnd : Nat) (seenIds : List Units)
    (targets : List Target) : List Reference → Except String Unit
  | [] => .ok ()
  | item :: rest =>
    if item.start < previousEnd then .error "Stored references are not disjoint."
    else
      match token text item.start item.end item.target.marker with
      | .error message => .error message
      | .ok value =>
        if value ≠ item.label then .error "Stored reference label does not match its range."
        else if outside scope item then .error "Stored reference is outside its parent document."
        else if item.id ∈ seenIds then .error "Stored reference id is duplicated."
        else if item.target ∈ targets then .error "Stored reference target is duplicated."
        else checkStored text scope item.end (seenIds ++ [item.id]) (targets ++ [item.target]) rest

/-- Strictly restore transcript references and verify their ranges against stored text. -/
def restoreReferences (values : List Reference) (text : Units) (seenIds : List Units) (scope : Option Scope) :
    Except String (List Reference) :=
  if MAX_REFERENCES < values.length then .error "Stored references are invalid."
  else do
    let restored ← values.mapM reference
    checkStored text scope 0 seenIds [] restored
    pure restored

/-! ## Resolving -/

structure Channel where
  id : Units
  title : Units
  slug : Units
  repositoryId : Units
  repositoryOwner : Units
  repositoryName : Units
  parentChannelId : Option Units

structure DocumentTarget where
  channelId : Units
  revision : Nat
  source : Units
  sourceHash : Units

structure Workspace where
  id : Units
  channelId : Units
  title : Units
  revision : Nat

/-- What the server finds.  A channel is found under its own id. -/
structure Server where
  channel : Units → Option Channel
  current : Units → Option DocumentTarget
  research : Units → Units → Option Workspace
  hash : Units → Units
  channel_id : ∀ id found, channel id = some found → found.id = id

def currentDocument (server : Server) (channelId : Units) : Except String DocumentTarget :=
  let target := (server.current channelId).getD ⟨channelId, 0, [], server.hash []⟩
  if target.channelId ≠ channelId ∨ Json.maxSafe < target.revision ∨ isSourceHash target.sourceHash = false ∨
      server.hash target.source ≠ target.sourceHash then
    .error "Referenced document state is invalid."
  else .ok target

/-- An exception of another kind, with its message. -/
def thrown (path : Except PathError Units) : Except String Units :=
  match path with
  | .ok path => .ok path
  | .error .emptySegment => .error "document path segments must not be empty"
  | .error .uriError => .error "URI malformed"

def documentHref (server : Server) (target : Channel) : Except String Units :=
  match target.parentChannelId.filter (· ≠ []) with
  | none => thrown (documentPath target.repositoryOwner target.repositoryName target.slug)
  | some parentChannelId =>
    match server.channel parentChannelId with
    | none => .error "Referenced document parent is unavailable."
    | some parent =>
      if parent.parentChannelId.any (· ≠ []) ∨ parent.repositoryId ≠ target.repositoryId then
        .error "Referenced document parent is unavailable."
      else thrown (childDocumentPath target.repositoryOwner target.repositoryName parent.slug target.slug)

/-- What one request is resolved to, before it is given an id. -/
def resolveItem (server : Server) (parent : Channel) (item : Request) : Except String Reference :=
  match item.target with
  | .document channelId =>
    if channelId = parent.id then .error "A document cannot reference itself."
    else
      match server.channel channelId with
      | none => .error "Referenced document is unavailable."
      | some target =>
        if target.repositoryId ≠ parent.repositoryId then .error "Referenced document is unavailable."
        else do
          let document ← currentDocument server target.id
          let href ← documentHref server target
          pure ⟨[], item.start, item.end, 0x23 :: target.title, href, target.repositoryId, document.revision,
            .document target.id, .document document.sourceHash⟩
  | .research workspaceId =>
    match server.research parent.id workspaceId with
    | none => .error "Referenced research workspace is unavailable."
    | some workspace =>
      if workspace.id ≠ workspaceId ∨ workspace.channelId ≠ parent.id then
        .error "Referenced research workspace is unavailable."
      else
        match legacyResearchPath parent.repositoryOwner parent.repositoryName parent.slug workspace.id with
        | none => .error "URI malformed"
        | some href =>
          .ok ⟨[], item.start, item.end, 0x25 :: workspace.title, href, parent.repositoryId, workspace.revision,
            .research workspace.id, .research parent.id⟩

/-- Every reference gets an id of its own, and is checked as when it is restored. -/
def identify (ids : List Units) : List (Reference × Units) → Except String (List Reference)
  | [] => .ok []
  | (item, id) :: rest =>
    if isUlid id = false ∨ id ∈ ids then .error "Reference id is invalid."
    else do
      let checked ← reference { item with id }
      let others ← identify (ids ++ [id]) rest
      pure (checked :: others)

structure ResolveInput where
  channelId : Units
  repositoryId : Units
  text : Units
  destination : Destination
  requests : List Request

/-- `server` answers the question for the message's own document, `servers` those for each request, and `ids` are
the ids that are minted. -/
def resolve (server : Server) (servers : Nat → Server) (ids : Nat → Units) (input : ResolveInput) :
    Except String ResolvedMessage := do
  let requested ← requests input.text input.requests
  if requested = [] then canonicalMessage input.text input.destination []
  else
    match server.channel input.channelId with
    | none => .error "Current document is unavailable."
    | some parent =>
      if parent.repositoryId ≠ input.repositoryId then .error "Current document is unavailable."
      else do
        let resolved ← requested.zipIdx.mapM fun entry ↦ resolveItem (servers entry.2) parent entry.1
        let references ← identify [] (resolved.zipIdx.map fun entry ↦ (entry.1, ids entry.2))
        canonicalMessage input.text input.destination references

end Chopin.Chat
