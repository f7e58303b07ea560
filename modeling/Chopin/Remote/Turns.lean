import Chopin.Lib.Json

/-!
# Turns of the remote Planner

A Planner session's turns run in the attached client (`apps/server/src/harness/remote/link.ts`).  The client
calls Chopin's tools, which run in the server, with `host-tool-call`, and streams the calls of its own tools,
which it runs itself, as parts of the turn.  The two kinds of call share their ids.

What a turn emits goes to the harness, which runs a tool for each call that is not marked as executed by the
provider.  The log keeps what was emitted and sent, and when a turn began, was stopped and ended; turns are
numbered for it in the order they began, and no code keeps either.
-/

set_option autoImplicit false

namespace Chopin.Remote

/-- The parts that are passed on as they come, or copied field by field. -/
inductive PlainPart
  | streamStart (modelId : Option String)
  | textStart (id : String)
  | textDelta (id delta : String)
  | textEnd (id : String)
  | reasoningStart (id : String)
  | reasoningDelta (id delta : String)
  | reasoningEnd (id : String)
  | toolInputDelta (id delta : String)
  | toolInputEnd (id : String)
  | finishStep (finishReason usage : Json)
  | finish (finishReason totalUsage : Json)

/-- A part of the client's stream. -/
inductive LinkPart
  | toolInputStart (id toolName : String) (title : Option String)
  | toolCall (toolCallId toolName input : String)
  | toolResult (toolCallId toolName : String) (result : Json) (isError preliminary : Bool)
  | error (text : String)
  | plain (part : PlainPart)

inductive TurnStatus
  | finished
  | failed
  | aborted
  deriving DecidableEq

/-- What the client says about a turn. -/
inductive TurnMessage
  | tools (names : List String)
  | part (part : LinkPart)
  | hostToolCall (toolCallId toolName input : String)
  | turnEnd (status : TurnStatus) (message : Option String)

/-- What a turn emits; `own` marks what the client's own tools do as executed by the provider. -/
inductive StreamPart
  | toolInputStart (id toolName : String) (title : Option String) (own : Bool)
  | toolCall (toolCallId toolName input : String) (own : Bool)
  | toolResult (toolCallId toolName : String) (result : Json) (isError own : Bool)
  | error (text : String)
  | plain (part : PlainPart)

inductive ServerMessage
  | turn (session turn : String) (tools : List String)
  | abort (session turn : String)
  | hostToolResult (session turn toolCallId : String) (output : Json) (isError : Bool)
  | destroy (session : String)

inductive Failure
  | toolBoundary (message : String)
  | error (message : String)

inductive ToolStatus
  | running
  | failed
  | done

inductive Event
  | began (turn : Nat) (tools : List String)
  | emitted (turn : Nat) (part : StreamPart)
  | sent (message : ServerMessage)
  | reported (toolCallId : String) (result : Json) (status : ToolStatus)
  | stopped (turn : Nat)
  | ended (turn : Nat) (failure : Option Failure)

/-- A turn under way.  One that ended is no session's current turn. -/
structure Turn where
  id : String
  number : Nat
  hostNames : List String
  own : List String
  ownCalls : List String
  /-- Every host call id the turn has used, refused ones too, so none runs twice. -/
  hostIds : List String
  hostCalls : List (String × String)
  stopped : Bool

structure RemoteSession where
  id : String
  /-- The sessions' own number, for those that are let go under their id. -/
  serial : Nat
  isolated : Bool
  /-- The link's map of sessions holds it. -/
  listed : Bool
  closed : Bool
  current : Option Turn
  activeTools : List String
  turns : Nat
  log : List Event

def hostError (message : String) : Json := .obj [("error", .str message)]

namespace RemoteSession

def new (id : String) (serial : Nat) (isolated : Bool) : RemoteSession where
  id := id
  serial := serial
  isolated := isolated
  listed := true
  closed := false
  current := none
  activeTools := []
  turns := 0
  log := []

def add (session : RemoteSession) (events : List Event) : RemoteSession :=
  { session with log := session.log ++ events }

def emit (session : RemoteSession) (turn : Turn) (part : StreamPart) : RemoteSession :=
  session.add [.emitted turn.number part]

/-! ## How a turn ends -/

def finish (session : RemoteSession) (turn : Turn) (failure : Option Failure) : RemoteSession :=
  { session.add [.ended turn.number failure] with current := none }

def stop (session : RemoteSession) (turn : Turn) : RemoteSession :=
  if turn.stopped then session
  else
    { session.add [.stopped turn.number, .sent (.abort session.id turn.id)] with
      current := some { turn with stopped := true } }

def fail (session : RemoteSession) (turn : Turn) (failure : Failure) : RemoteSession :=
  (session.stop turn).finish turn (some failure)

def repeated (session : RemoteSession) (turn : Turn) (toolCallId : String) : RemoteSession :=
  session.fail turn (.error s!"Tool call {toolCallId} was repeated.")

/-! ## The client's messages -/

/-- The client declares its own tools. -/
def offer (session : RemoteSession) (turn : Turn) (names : List String) : RemoteSession :=
  if session.isolated && !names.isEmpty then
    let offered := ", ".intercalate names
    session.fail turn (.toolBoundary s!"An isolated Planner turn cannot offer {offered}.")
  else
    let clash := names.filter (turn.hostNames.contains ·)
    if !clash.isEmpty then
      let redefined := ", ".intercalate clash
      session.fail turn (.toolBoundary s!"The machine redefined Chopin's {redefined}.")
    else
      { session with current := some { turn with own := names }, activeTools := turn.hostNames ++ names }

inductive Refusal
  | aborted
  | unavailable

def refuseHostCall (session : RemoteSession) (turn : Turn) (toolCallId toolName : String) (reason : Refusal) :
    RemoteSession :=
  let text :=
    match reason with
    | .aborted => "The turn was aborted."
    | .unavailable => s!"{toolName} is not available in this turn."
  session.add [.sent (.hostToolResult session.id turn.id toolCallId (hostError text) true)]

def hostCall (session : RemoteSession) (turn : Turn) (toolCallId toolName input : String) : RemoteSession :=
  if turn.hostIds.contains toolCallId || turn.ownCalls.contains toolCallId then session.repeated turn toolCallId
  else
    let turn := { turn with hostIds := turn.hostIds ++ [toolCallId] }
    if !turn.hostNames.contains toolName then
      { session with current := some turn }.refuseHostCall turn toolCallId toolName .unavailable
    else
      let turn := { turn with hostCalls := turn.hostCalls ++ [(toolCallId, toolName)] }
      { session with current := some turn }.emit turn (.toolCall toolCallId toolName input false)

def part (session : RemoteSession) (turn : Turn) (part : LinkPart) : RemoteSession :=
  let boundary (name : String) := session.fail turn (.toolBoundary s!"Chopin's tool boundary failure: {name}")
  match part with
  | .toolInputStart id toolName title =>
    if turn.hostNames.contains toolName then session.emit turn (.toolInputStart id toolName title false)
    else if !turn.own.contains toolName then boundary toolName
    else session.emit turn (.toolInputStart id toolName title true)
  | .toolCall toolCallId toolName input =>
    if !turn.own.contains toolName then boundary toolName
    else if turn.hostIds.contains toolCallId || turn.ownCalls.contains toolCallId then session.repeated turn toolCallId
    else
      let turn := { turn with ownCalls := turn.ownCalls ++ [toolCallId] }
      { session with current := some turn }.emit turn (.toolCall toolCallId toolName input true)
  | .toolResult toolCallId toolName result isError preliminary =>
    if !turn.ownCalls.contains toolCallId then boundary toolName
    else
      let status := if preliminary then .running else if isError then .failed else .done
      (session.add [.reported toolCallId result status]).emit turn (.toolResult toolCallId toolName result isError true)
  | .error text => session.emit turn (.error text)
  | .plain part => session.emit turn (.plain part)

def receive (session : RemoteSession) (turn : String) (message : TurnMessage) : RemoteSession :=
  match session.current.filter (·.id == turn), message with
  | none, .hostToolCall toolCallId _ _ =>
    session.add [.sent (.hostToolResult session.id turn toolCallId (hostError "The turn has ended.") true)]
  | none, _ => session
  | some turn, .turnEnd status text =>
    let failure :=
      if status = .finished || turn.stopped then none
      else some (.error (text.getD
        (if status = .aborted then "The machine stopped the turn." else "The machine's turn failed.")))
    session.finish turn failure
  | some turn, .hostToolCall toolCallId toolName input =>
    if turn.stopped then session.refuseHostCall turn toolCallId toolName .aborted
    else session.hostCall turn toolCallId toolName input
  | some turn, .tools names => if turn.stopped then session else session.offer turn names
  | some turn, .part part => if turn.stopped then session else session.part turn part

/-! ## The server's side -/

/-- The abort signal that is listened to while a turn lasts fires. -/
def abort (session : RemoteSession) : RemoteSession :=
  match session.current with
  | none => session
  | some turn => session.stop turn

/-- The grace of a stopped turn runs out. -/
def graceOver (session : RemoteSession) : RemoteSession :=
  match session.current with
  | none => session
  | some turn => if turn.stopped then session.finish turn none else session

/-- Gives a host tool's result, for the turn of this number; `encodes` is whether the connection can carry it. -/
def submitToolResult (session : RemoteSession) (number : Nat) (toolCallId : String) (output : Json)
    (isError encodes : Bool) : RemoteSession :=
  match session.current.filter (·.number == number) with
  | none => session
  | some turn =>
    match turn.hostCalls.lookup toolCallId with
    | none => session
    | some toolName =>
      if toolName == "" then session
      else
        let turn := { turn with hostCalls := turn.hostCalls.filter (·.1 != toolCallId) }
        let result :=
          if encodes then output
          else hostError s!"{toolName} returned more than the agent connection can carry."
        let failed := !encodes || isError
        let session := { session with current := some turn }.emit turn (.toolResult toolCallId toolName result failed false)
        if turn.stopped then session
        else session.add [.sent (.hostToolResult session.id turn.id toolCallId result failed)]

/-- Starts a turn, once the caller was checked again.  `sent` is whether the link could carry it, and
`aborted` whether its signal was aborted before. -/
def prompt (session : RemoteSession) (id : String) (tools : List String) (previews sent aborted : Bool) :
    RemoteSession :=
  if session.closed || session.current.isSome || !sent then session
  else
    -- A client that did not ask for option previews is not offered the tool that makes their images.
    let hostNames := tools.filter fun name ↦ name != "upload_plan_image" || previews
    let turn : Turn :=
      { id, number := session.turns, hostNames, own := [], ownCalls := [], hostIds := [], hostCalls := []
        stopped := false }
    let session :=
      { session.add [.began turn.number hostNames, .sent (.turn session.id id hostNames)] with
        current := some turn, activeTools := hostNames, turns := session.turns + 1 }
    if aborted then session.stop turn else session

def close (session : RemoteSession) : RemoteSession :=
  if session.closed then session
  else
    let ended :=
      match session.current with
      | none => session
      | some turn => (session.stop turn).finish turn none
    { ended.add [.sent (.destroy session.id)] with closed := true, listed := false }

/-- The link dropped, and the session waits for its client to come back. -/
def suspend (session : RemoteSession) : RemoteSession :=
  match session.current with
  | none => session
  | some turn =>
    session.finish turn (if turn.stopped then none else some (.error "The machine disconnected during the turn."))

/-- The link is gone for good: nothing more will arrive for this session. -/
def linkClosed (session : RemoteSession) : RemoteSession := { session.suspend with closed := true, listed := false }

/-- What the server does with a session. -/
inductive Act
  | prompt (id : String) (tools : List String) (previews sent aborted : Bool)
  | abort
  | graceOver
  | submitToolResult (turn : Nat) (toolCallId : String) (output : Json) (isError encodes : Bool)
  | close

def act (session : RemoteSession) : Act → RemoteSession
  | .prompt id tools previews sent aborted => session.prompt id tools previews sent aborted
  | .abort => session.abort
  | .graceOver => session.graceOver
  | .submitToolResult turn toolCallId output isError encodes =>
    session.submitToolResult turn toolCallId output isError encodes
  | .close => session.close

end RemoteSession

/-- The client's links, each of which takes over what the one before kept. -/
structure Links where
  attached : Bool
  sessions : List RemoteSession
  log : List Event

namespace Links

inductive Act
  | startSession (id : String) (isolated : Bool)
  /-- The client says something about a turn of a session. -/
  | message (session turn : String) (message : TurnMessage)
  /-- The server does something with the session of this number. -/
  | act (serial : Nat) (act : RemoteSession.Act)
  /-- The link drops, and keeps some sessions for the client's return. -/
  | drop (kept : List String)
  /-- The client is back on another link, and names the sessions it still holds. -/
  | resume (held : List String)

def update (links : Links) (which : RemoteSession → Bool) (change : RemoteSession → RemoteSession) : Links :=
  { links with sessions := links.sessions.map fun session ↦ if which session then change session else session }

def step (links : Links) : Act → Option Links
  | .startSession id isolated =>
    if !links.attached || links.sessions.any (fun session ↦ session.listed && session.id == id) then none
    else some { links with sessions := links.sessions ++ [.new id links.sessions.length isolated] }
  | .message session turn message =>
    if !links.attached then none
    else if links.sessions.any fun other ↦ other.listed && other.id == session then
      some (links.update (fun other ↦ other.listed && other.id == session) (·.receive turn message))
    else
      match message with
      | .hostToolCall toolCallId _ _ =>
        let answer := .hostToolResult session turn toolCallId (hostError "The session has ended.") true
        some { links with log := links.log ++ [.sent answer] }
      | _ => some links
  | .act serial act => some (links.update (·.serial == serial) (·.act act))
  | .drop kept =>
    if !links.attached then none
    else
      some { links.update (·.listed) fun session ↦
        if kept.contains session.id then session.suspend else session.linkClosed with attached := false }
  | .resume held =>
    if links.attached then none
    else
      some { links.update (fun session ↦ session.listed && !held.contains session.id) (·.linkClosed) with
        attached := true }

def new : Links := { attached := true, sessions := [], log := [] }

end Links

end Chopin.Remote
