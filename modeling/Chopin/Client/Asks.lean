import Chopin.Lib.Entries

/-!
# A remote client's questions

An external client asks the document's members over its link (`packages/agent-link/src/client.ts`).  When a
resumable link drops, what it held is a resumption, which its caller gives to the next `connectAgent`; the
questions in it are pending until the server gives them back, or ends them.

The client's links come one after another.  Questions are numbered in the order they are asked, and links in
the order they are opened.  `token` is the resumption that the caller has to try: what the last link held, or
the one it was opened with when that may still be given back.  The log says what was sent and settled.
-/

set_option autoImplicit false

namespace Chopin.Client

/-- What a question's promise settles with. -/
inductive Outcome
  | answered (status : String)
  /-- `"The agent connection closed."` -/
  | closed
  /-- `"The question was withdrawn before it was asked."` -/
  | unasked
  /-- `"The question was withdrawn while the connection was down."` -/
  | withdrawn
  /-- It rejects: the question exceeds the size limit. -/
  | failed
  deriving DecidableEq

structure Ask where
  session : String
  /-- The link a cancellation goes to. -/
  route : Nat
  withdrawn : Bool
  result : Option Outcome
  deriving DecidableEq

/-- The sessions a link that dropped held, and the questions each still waited on. -/
structure Resumption where
  sessions : List String
  asks : List Nat
  deriving DecidableEq

inductive Message
  | inputRequest (request : Nat) (session : String)
  | inputCancel (request : Nat)
  | inputReceived (request : Nat)
  | resume (sessions : List (String × List Nat))
  | detach
  deriving DecidableEq

inductive Event
  | withdrawn (request : Nat)
  | sent (link : Nat) (message : Message)
  | settled (request : Nat) (outcome : Outcome)
  deriving DecidableEq

inductive Socket
  | connecting
  | opened
  | closing
  deriving DecidableEq

structure Link where
  number : Nat
  resumable : Bool
  resume : Option Resumption
  socket : Socket
  attached : Bool
  /-- The server offers `resumable-sessions`. -/
  features : Bool
  ready : Bool
  ended : Bool
  /-- The server refused or failed the link for good before it was ready. -/
  failed : Bool
  asks : List Nat
  sessions : List String
  deriving DecidableEq

structure AgentClient where
  asks : List Ask
  link : Option Link
  token : Option Resumption
  links : Nat
  log : List Event
  deriving DecidableEq

namespace AgentClient

def new : AgentClient := { asks := [], link := none, token := none, links := 0, log := [] }

/-! ## Questions -/

/-- The socket of this link can send. -/
def sends (client : AgentClient) (number : Nat) : Bool :=
  client.link.any fun link ↦ link.number == number && link.socket == .opened

/-- Sends one message; nothing when the link is no longer open. -/
def send (client : AgentClient) (number : Nat) (message : Message) : AgentClient :=
  if client.sends number then { client with log := client.log ++ [.sent number message] } else client

def update (client : AgentClient) (request : Nat) (change : Ask → Ask) : AgentClient :=
  { client with asks := client.asks.modify request change }

/-- Settles a question, unless it is settled. -/
def settle (client : AgentClient) (request : Nat) (outcome : Outcome) : AgentClient :=
  match client.asks[request]? with
  | none => client
  | some ask =>
    if ask.result.isSome then client
    else
      { client.update request fun ask ↦ { ask with result := some outcome } with
        log := client.log ++ [.settled request outcome] }

/-- Settles each question as cancelled: the link that held it is gone and nothing will answer it. -/
def cancelAsks (client : AgentClient) (held : List Nat) : AgentClient :=
  held.foldl (fun client request ↦ client.settle request .closed) client

def isWithdrawn (client : AgentClient) (request : Nat) : Bool := client.asks[request]?.any (·.withdrawn)

def held (link : Link) : List Nat := (link.resume.map (·.asks)).getD []

/-! ## A link's beginning and its ends -/

/-- The first message of a resumable link: what this client still holds. -/
def resuming (client : AgentClient) (link : Link) : List (String × List Nat) :=
  ((link.resume.map (·.sessions)).getD []).map fun session ↦
    (session, (held link).filter fun request ↦
      !client.isWithdrawn request && client.asks[request]?.any (·.session == session))

/-- The server refused or failed the link.  What a resumption holds ends with it, unless it may be tried again. -/
def failAttach (client : AgentClient) (link : Link) (retry : Bool) : AgentClient :=
  let fails := !link.ready && !retry
  let client := { client with link := some { link with ended := true, failed := link.failed || fails } }
  if fails then client.cancelAsks (held link) else client

/-- A question that the server gave back resumes here. -/
def resumeAsk (number : Nat) (client : AgentClient) (request : Nat) : AgentClient :=
  match client.link with
  | none => client
  | some link =>
    if !(held link).contains request then client
    else
      let asks := if link.asks.contains request then link.asks else link.asks ++ [request]
      let client := { client.update request fun ask ↦ { ask with route := number } with link := some { link with asks } }
      -- Withdrawn while this link was being resumed, so its first cancel went nowhere.
      if client.isWithdrawn request then client.send number (.inputCancel request) else client

/-- What the server gave back resumes here; what it did not give back has ended there. -/
def resumed (client : AgentClient) (link : Link) (sessions : List (String × List Nat)) : AgentClient :=
  let client := (sessions.flatMap (·.2)).foldl (resumeAsk link.number) client
  match client.link with
  | none => client
  | some link =>
    let client := client.cancelAsks ((held link).filter fun request ↦ !link.asks.contains request)
    { client with
      link := some { link with ready := true, sessions := Entries.distinct (link.sessions ++ sessions.map (·.1)) }
      token := none }

/-- The link is gone.  One that dropped unexpectedly leaves its questions pending for the next link. -/
def release (client : AgentClient) (link : Link) : AgentClient :=
  if link.resumable && link.attached && !link.ended && link.features then
    let client := client.cancelAsks (link.asks.filter client.isWithdrawn)
    let token := if link.ready then some { sessions := link.sessions, asks := link.asks } else client.token
    { client with link := none, token }
  else
    let client := client.cancelAsks link.asks
    let token := if link.ready || link.failed then none else client.token
    { client with link := none, token }

/-! ## What happens -/

/-- What the server says. -/
inductive ServerMessage
  | attached (features : Bool)
  | refused (retry : Bool)
  | error
  | resumed (sessions : List (String × List Nat))
  | inputResult (request : Nat) (status : String)
  /-- A session was started, or it refused to. -/
  | start (session : String) (accepted : Bool)
  | destroy (session : String)
  | malformed

def serve (client : AgentClient) (link : Link) : ServerMessage → AgentClient
  | .refused retry => client.failAttach link retry
  | .error => client.failAttach link false
  | .resumed sessions => client.resumed link sessions
  | .inputResult request status =>
    let settled := if link.asks.contains request then client.settle request (.answered status) else client
    let client := { settled with link := some { link with asks := link.asks.filter (· != request) } }
    -- Settled now or before: either way Chopin may stop keeping the result for this client.
    if link.features then client.send link.number (.inputReceived request) else client
  | .start session accepted =>
    if accepted then
      { client with link := some { link with sessions := Entries.distinct (link.sessions ++ [session]) } }
    else client
  | .destroy session => { client with link := some { link with sessions := link.sessions.filter (· != session) } }
  | .attached _ => client
  | .malformed => client

def message (client : AgentClient) (link : Link) : ServerMessage → AgentClient
  | .malformed =>
    let failed := link.failed || !link.ready
    let link := { link with ended := true, socket := .closing, failed }
    let client := { client with link := some link }
    (if link.ready then client else client.cancelAsks (held link)).release link
  | .attached features =>
    if link.attached then client
    else if features then
      ({ client with link := some { link with attached := true, features } }).send link.number
        (.resume (client.resuming link))
    else
      { (client.cancelAsks (held link)) with link := some { link with attached := true, features, ready := true }
                                             token := none }
  | .refused retry => client.failAttach link retry
  | message => if link.attached then client.serve link message else client

/-- Asks the members, through the client of the current link or of an earlier one.  `aborted` is whether its
signal was aborted before, and `oversized` whether it exceeds the size limit. -/
def ask (client : AgentClient) (current : Bool) (session : String) (aborted oversized : Bool) : AgentClient :=
  let request := client.asks.length
  let ended (outcome : Outcome) : AgentClient :=
    { client with
      asks := client.asks ++ [{ session, route := client.links, withdrawn := false, result := some outcome }]
      log := client.log ++ [.settled request outcome] }
  if aborted then ended .unasked
  else if oversized then ended .failed
  else
    match client.link.filter fun link ↦ current && link.ready && link.socket == .opened with
    -- The client of a link that is gone asks nothing.
    | none => ended .closed
    | some link =>
      { client with
        asks := client.asks ++ [{ session, route := link.number, withdrawn := false, result := none }]
        link := some { link with asks := link.asks ++ [request] }
        log := client.log ++ [.sent link.number (.inputRequest request session)] }

/-- The caller withdraws a question. -/
def abort (client : AgentClient) (request : Nat) : AgentClient :=
  match client.asks[request]? with
  | none => client
  | some ask =>
    if ask.result.isSome || ask.withdrawn then client
    else
      let client : AgentClient :=
        { client.update request fun ask ↦ { ask with withdrawn := true } with log := client.log ++ [.withdrawn request] }
      -- A link that is down cannot carry the cancellation: the ask ends here.
      if client.sends ask.route then client.send ask.route (.inputCancel request) else client.settle request .withdrawn

inductive Act
  /-- Opens a link, with the resumption there is to try. -/
  | connect (resumable : Bool)
  | opened
  /-- The socket stops being open. -/
  | closing
  | closed
  | message (message : ServerMessage)
  | ask (current : Bool) (session : String) (aborted oversized : Bool)
  | abort (request : Nat)
  | detach

def step (client : AgentClient) : Act → Option AgentClient
  | .connect resumable =>
    if client.link.isSome then none
    else
      some { client with
        link := some { number := client.links, resumable := resumable || client.token.isSome, resume := client.token
                       socket := .connecting, attached := false, features := false, ready := false, ended := false
                       failed := false, asks := [], sessions := [] }
        links := client.links + 1 }
  | .opened => client.link.bind fun link ↦
    if link.socket ≠ .connecting then none else some { client with link := some { link with socket := .opened } }
  | .closing => client.link.map fun link ↦ { client with link := some { link with socket := .closing } }
  | .closed => client.link.map client.release
  | .message message => client.link.bind fun link ↦
    if link.socket = .connecting then none else some (client.message link message)
  | .ask current session aborted oversized => some (client.ask current session aborted oversized)
  | .abort request => some (client.abort request)
  | .detach => client.link.bind fun link ↦
    if !link.ready then none
    else some ({ client with link := some { link with ended := true } }.send link.number .detach)

end AgentClient

end Chopin.Client
