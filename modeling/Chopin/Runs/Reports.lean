import Chopin.Lib.Keyed
import Chopin.Runs.Cards

/-!
# Reports of runs

A Planner that runs in a client tells the server of its runs.  A message is a complete report: the server forgets the
runs it leaves out.  A full card replaces the stages of its run, and a delta card adds to them, so a report that is too
large for a message is split into several: the first has the full cards, and the delta cards' stages are spread across
all of them.
-/

set_option autoImplicit false
set_option linter.dupNamespace false

open Entries

namespace Chopin.Runs

/-! ## Cards on the wire -/

/-- `runFields` -/
structure RunFields where
  id : String
  name : String
  status : RunStatus
  started : Nat
  updated : Nat
  ended : Option Nat := none
  waiting : Nat := 0
  deriving DecidableEq

/-- A card on the wire; one is a delta exactly if it has `stagesDelta`. -/
inductive LinkRun where
  | full (fields : RunFields) (stages : List RunStage) (earlierStages : Option Nat)
  | delta (fields : RunFields) (stages : List RunStage)
  deriving DecidableEq

def LinkRun.fields : LinkRun → RunFields
  | .full fields _ _ => fields
  | .delta fields _ => fields

def LinkRun.id (card : LinkRun) : String := card.fields.id

def LinkRun.stages : LinkRun → List RunStage
  | .full _ stages _ => stages
  | .delta _ stages => stages

/-- `"stagesDelta" in card` -/
def LinkRun.isDelta : LinkRun → Bool
  | .full .. => false
  | .delta .. => true

/-- A card with more stages. -/
def LinkRun.add (card : LinkRun) (more : List RunStage) : LinkRun :=
  match card with
  | .full fields stages earlierStages => .full fields (stages ++ more) earlierStages
  | .delta fields stages => .delta fields (stages ++ more)

structure RunsReport where
  active : List String
  paused : List String
  cards : List LinkRun
  deriving DecidableEq

/-- A `runs` message. -/
structure Message where
  session : String
  report : RunsReport
  deriving DecidableEq

/-! ## Messages as they are written -/

/-- The digits of a control character that has no short escape. -/
def controlText (c : Char) : String :=
  "\\u00" ++ String.ofList [if c.toNat < 16 then '0' else '1', Nat.digitChar (c.toNat % 16)]

/-- A character in a string of JSON. -/
def charText (c : Char) : String :=
  if c = '"' then "\\\""
  else if c = '\\' then "\\\\"
  else if c = '\n' then "\\n"
  else if c = '\r' then "\\r"
  else if c = '\t' then "\\t"
  else if c.toNat = 8 then "\\b"
  else if c.toNat = 12 then "\\f"
  else if c.toNat < 32 then controlText c
  else c.toString

/-- Texts one after the other. -/
def concat (texts : List String) : String := texts.foldr (· ++ ·) ""

def stringText (value : String) : String := "\"" ++ concat (value.toList.map charText) ++ "\""

/-- Items with commas between them. -/
def commas : List String → String
  | [] => ""
  | [item] => item
  | item :: rest => item ++ "," ++ commas rest

def arrayText (items : List String) : String := "[" ++ commas items ++ "]"

/-- A member of an object, unless it is undefined. -/
def member (name : String) (value : Option String) : Option String := value.map (stringText name ++ ":" ++ ·)

def objectText (members : List (Option String)) : String := "\x7b" ++ commas (members.filterMap id) ++ "\x7d"

def StageStatus.text : StageStatus → String
  | .pending => "pending"
  | .running => "running"
  | .awaitingInput => "awaiting_input"
  | .paused => "paused"
  | .blocked => "blocked"
  | .completed => "completed"
  | .failed => "failed"
  | .skipped => "skipped"
  | .stopped => "stopped"

def RunStatus.text : RunStatus → String
  | .running => "running"
  | .waiting => "waiting"
  | .paused => "paused"
  | .finished => "finished"
  | .blocked => "blocked"
  | .failed => "failed"
  | .stopped => "stopped"

def RunStage.text (stage : RunStage) : String :=
  objectText [
    member "id" (stringText stage.id),
    member "name" (stringText stage.name),
    member "parentIds" (stage.parentIds.map fun ids ↦ arrayText (ids.map stringText)),
    member "kind" (stage.kind.map fun _ ↦ stringText "tool"),
    member "status" (stringText stage.status.text),
    member "started" (stage.started.map toString),
    member "ended" (stage.ended.map toString)]

/-- The members that every card has. -/
def RunFields.members (fields : RunFields) : List (Option String) := [
  member "id" (stringText fields.id),
  member "name" (stringText fields.name),
  member "status" (stringText fields.status.text),
  member "started" (toString fields.started),
  member "updated" (toString fields.updated),
  member "ended" (fields.ended.map toString),
  member "waiting" (toString fields.waiting)]

def LinkRun.text : LinkRun → String
  | .full fields stages earlierStages =>
    objectText (fields.members ++ [
      member "stages" (arrayText (stages.map RunStage.text)),
      member "earlierStages" (earlierStages.map toString)])
  | .delta fields stages =>
    objectText (fields.members ++ [
      member "stagesDelta" (some "true"),
      member "stages" (arrayText (stages.map RunStage.text))])

def Message.text (message : Message) : String :=
  objectText [
    member "type" (stringText "runs"),
    member "session" (stringText message.session),
    member "active" (arrayText (message.report.active.map stringText)),
    member "paused" (arrayText (message.report.paused.map stringText)),
    member "cards" (arrayText (message.report.cards.map LinkRun.text))]

/-- `bytes`, of a text in UTF-8 -/
def bytes (text : String) : Nat := text.utf8ByteSize

/-- `MAX_LINK_MESSAGE_BYTES` -/
def maxMessageBytes : Nat := 2 * 1024 * 1024

/-! ## The client -/

/-- A stage that is still to be sent, of the card with this index. -/
structure Pending where
  index : Nat
  stage : RunStage
  deriving DecidableEq

/-- Its size, with a comma. -/
def Pending.size (pending : Pending) : Nat := bytes pending.stage.text + 1

/-- The stages that are spread across the parts. -/
def pendingOf (cards : List LinkRun) : List Pending :=
  cards.zipIdx.flatMap fun (card, index) ↦
    if card.isDelta then card.stages.map (⟨index, ·⟩) else []

/-- A card in a part, before stages are put into it. -/
def LinkRun.inPart (first : Bool) (card : LinkRun) : LinkRun :=
  if first && !card.isDelta then card else .delta card.fields []

/-- Stages that still fit, from the first on, and those that are left. -/
def fill (size : Nat) : List Pending → List Pending × List Pending
  | [] => ([], [])
  | next :: rest =>
    if size + next.size ≤ maxMessageBytes then
      let (taken, left) := fill (size + next.size) rest
      (next :: taken, left)
    else ([], next :: rest)

/-- `cards[index].stages.push(stage)` -/
def pushStage (cards : List LinkRun) (pending : Pending) : List LinkRun :=
  cards.modify pending.index (·.add [pending.stage])

def partOf (session : String) (runs : RunsReport) (first : Bool) (taken : List Pending) : Message :=
  ⟨session, { runs with cards := taken.foldl pushStage (runs.cards.map (.inPart first)) }⟩

inductive Failure where
  /-- A part has no room for a single stage. -/
  | reportExceeds
  /-- A message is too large. -/
  | messageExceeds
  /-- The server takes no deltas. -/
  | noDeltas
  deriving DecidableEq

def Failure.text : Failure → String
  | .reportExceeds => "A run report exceeds the agent connection's size limit."
  | .messageExceeds => "The message exceeds the agent connection's size limit."
  | .noDeltas => "This Chopin does not accept stage deltas; report full run cards."

/-- The loop of `splitRuns`, if it ends within so many rounds. -/
def splitLoop (session : String) (runs : RunsReport) :
    Nat → Bool → List Pending → Option (Except Failure (List Message))
  | 0, _, _ => none
  | rounds + 1, first, pending =>
    if pending.isEmpty && !first then some (.ok [])
    else
      let (taken, left) := fill (bytes (partOf session runs first []).text) pending
      if taken.isEmpty && !left.isEmpty then some (.error .reportExceeds)
      else (splitLoop session runs rounds false left).map fun parts ↦
        parts.map (partOf session runs first taken :: ·)

def splitRuns (rounds : Nat) (session : String) (runs : RunsReport) : Option (Except Failure (List Message)) :=
  if bytes (Message.text ⟨session, runs⟩) ≤ maxMessageBytes then some (.ok [⟨session, runs⟩])
  else splitLoop session runs rounds true (pendingOf runs.cards)

/-- What went out, and the failure that ended it, if one did. -/
structure Sent where
  messages : List Message
  failure : Option Failure
  deriving DecidableEq

/-- `send`, for each message; a socket that is not open takes none. -/
def sendAll (isOpen : Bool) : List Message → Sent
  | [] => ⟨[], none⟩
  | message :: rest =>
    if maxMessageBytes < bytes message.text then ⟨[], some .messageExceeds⟩
    else
      let sent := sendAll isOpen rest
      { sent with messages := if isOpen then message :: sent.messages else sent.messages }

/-- `reportRuns` -/
def reportRuns (rounds : Nat) (takesDeltas isOpen : Bool) (session : String) (runs : RunsReport) : Option Sent :=
  if !takesDeltas && runs.cards.any LinkRun.isDelta then some ⟨[], some .noDeltas⟩
  else (splitRuns rounds session runs).map fun
    | .ok parts => sendAll isOpen parts
    | .error failure => ⟨[], some failure⟩

/-! ## The server -/

/-- What the Planner sees of its runs. -/
structure PlannerRuns where
  active : List String
  paused : List String
  cards : List Run
  deriving DecidableEq

/-- Every reported stage of each run, by its id. -/
abbrev KeptStages := List (String × List RunStage)

structure RemoteSession where
  closed : Bool := false
  isolated : Bool := false
  /-- `#stages` -/
  stages : KeptStages := []
  runs : Option PlannerRuns := none
  deriving DecidableEq

/-- A card as the Planner sees it. -/
def RunFields.card (fields : RunFields) (stages : List RunStage) (earlierStages : Option Nat) : Run :=
  { fields with stages, earlierStages }

/-- A count of earlier stages that is not zero. -/
def counted (earlierStages : Option Nat) : Option Nat := earlierStages.filter (· != 0)

/-- `previous.get(id)?.earlierStages`, if it is not zero. -/
def earlierOf (previous : List Run) (id : String) : Option Nat :=
  counted ((previous.reverse.find? (·.id == id)).bind Run.earlierStages)

/-- The stages that are kept of a run after a card, and the card that is seen. -/
def takeCard (kept : Option (List RunStage)) (earlier : Option Nat) : LinkRun → List RunStage × Run
  | .full fields stages earlierStages =>
    let old := kept.getD []
    if stages.isEmpty && !old.isEmpty then (old, fields.card old earlier)
    else (collect RunStage.id stages, fields.card stages earlierStages)
  | .delta fields stages =>
    let all := puts RunStage.id (kept.getD []) stages
    (all, fields.card all earlier)

/-- The cards of a report, one after the other. -/
def takeCards (previous : List Run) : KeptStages → List LinkRun → KeptStages × List Run
  | stages, [] => (stages, [])
  | stages, card :: rest =>
    let (kept, seen) := takeCard (get stages card.id) (earlierOf previous card.id) card
    let (final, cards) := takeCards previous (set stages card.id kept) rest
    (final, seen :: cards)

/-- The cards that the Planner saw before. -/
def RemoteSession.previous (session : RemoteSession) : List Run := (session.runs.map PlannerRuns.cards).getD []

def RemoteSession.reportRuns (session : RemoteSession) (report : RunsReport) : RemoteSession :=
  if session.closed || session.isolated then session
  else
    let (stages, cards) := takeCards session.previous session.stages report.cards
    { session with
      stages := stages.filter fun entry ↦ (cards.map Run.id).contains entry.1
      runs := some { active := report.active, paused := report.paused, cards } }

end Chopin.Runs
