import Chopin.Lib.Entries

/-!
# Answers to the questions of a remote client

A client's question is put to the document's members, and its answer is sent back over the client's link
(`apps/server/src/harness/remote/link.ts`).  An answer keeps its session until `delivered` is called: once the
client has acknowledged it, or can never.  A link that drops keeps what it owes, and hands it to the link that
the client resumes on; what is answered on the old link from then on goes to that one.

A link and those that took over from it, one after another, are one `Chain`: only the newest of them is not
closed, and they share the map of open questions.  Questions are numbered in the order they are asked, and
`delivered` and `offered` are kept for what is said of them.
-/

set_option autoImplicit false

namespace Chopin.Remote

def MAX_OPEN_INPUTS : Nat := 16

def REMEMBERED_INPUTS : Nat := 1024

/-- A question of the client, and where its answer goes. -/
structure Reply where
  number : Nat
  request : String
  session : String
  deriving DecidableEq

/-- Why `delivered` was called. -/
inductive Reason
  /-- The client has it. -/
  | acknowledged
  /-- It was sent to a client that cannot acknowledge. -/
  | unacknowledgeable
  /-- It could not be sent. -/
  | unsent
  /-- Its session was let go. -/
  | letGo
  /-- The client came back and does not wait for it. -/
  | unnamed
  /-- The link ended for good. -/
  | torn
  deriving DecidableEq

/-- What becomes of a frame: it may be too large to carry, and the socket may throw. -/
inductive Sending
  | written
  | oversized
  | throws
  deriving DecidableEq

/-- The states of a link once it is attached. -/
inductive LinkState
  | attached
  | suspended
  | closed
  deriving DecidableEq

structure Chain where
  state : LinkState
  /-- The newest link offered `resumable-sessions`. -/
  resumable : Bool
  sessions : List String
  /-- The open questions, with their sessions. -/
  inputs : List (String × String)
  /-- Recent requests, oldest first. -/
  inputIds : List String
  /-- The questions that no answer was given for yet, also those that were withdrawn. -/
  asking : List Reply
  /-- Answers sent that the client has not acknowledged, by request. -/
  unacked : List Reply
  /-- Answers for a client that is to come back. -/
  outbox : List Reply
  count : Nat
  delivered : List (Reply × Reason)
  /-- The numbers of the answers that were given to a socket to send. -/
  offered : List Nat
  deriving DecidableEq

namespace Chain

def new (resumable : Bool) : Chain where
  state := .attached
  resumable := resumable
  sessions := []
  inputs := []
  inputIds := []
  asking := []
  unacked := []
  outbox := []
  count := 0
  delivered := []
  offered := []

def deliver (chain : Chain) (replies : List Reply) (reason : Reason) : Chain :=
  { chain with delivered := chain.delivered ++ replies.map (·, reason) }

def awaitAck (chain : Chain) (owed : Reply) : Chain :=
  { chain with unacked := Entries.put Reply.request chain.unacked owed }

/-- Gives the client an answer, or keeps it for the link that takes this one's sessions; and whether the
socket threw. -/
def answer (chain : Chain) (reply : Reply) (sending : Sending) : Chain × Bool :=
  match chain.state with
  | .suspended => ({ chain with outbox := chain.outbox ++ [reply] }, false)
  | .closed => (chain.deliver [reply] .unsent, false)
  | .attached =>
    let chain := { chain with offered := chain.offered ++ [reply.number] }
    match sending with
    | .written =>
      if chain.resumable then (chain.awaitAck reply, false) else (chain.deliver [reply] .unacknowledgeable, false)
    | .oversized => (chain.deliver [reply] .unsent, false)
    | .throws => (chain.deliver [reply] .unsent, true)

/-- Answers a question.  When sending the answer throws, a failure is sent in its place. -/
def reply (chain : Chain) (reply : Reply) (first second : Sending) : Chain :=
  let sent := chain.answer reply first
  if sent.2 then (sent.1.answer reply second).1 else sent.1

/-! ## Letting go -/

def cancelInputs (chain : Chain) (session : String) : Chain :=
  { chain with inputs := chain.inputs.filter (·.2 != session) }

/-- Every session and open question this link still holds ends, as when any link closes. -/
def teardown (chain : Chain) : Chain :=
  { (chain.deliver chain.unacked .torn).deliver chain.outbox .torn with
    state := .closed, sessions := [], inputs := [], unacked := [], outbox := [] }

def suspend (chain : Chain) (kept : List String) : Chain :=
  let gone := chain.unacked.filter fun owed ↦ !kept.contains owed.session
  { chain.deliver gone .letGo with
    state := .suspended
    sessions := kept
    inputs := chain.inputs.filter fun input ↦ !chain.sessions.contains input.2 || kept.contains input.2
    outbox := chain.outbox ++ chain.unacked.filter fun owed ↦ kept.contains owed.session
    unacked := [] }

/-- A session was let go.  A suspended link that keeps none ends. -/
def forget (chain : Chain) (session : String) : Chain :=
  let gone := chain.unacked.filter (·.session == session)
  let chain :=
    { (chain.deliver gone .letGo).cancelInputs session with
      sessions := chain.sessions.filter (· != session)
      unacked := chain.unacked.filter (·.session != session) }
  if chain.state = .suspended && chain.sessions.isEmpty then chain.teardown else chain

/-- The sessions the client names, each with the requests it waits on; the last counts. -/
def waiting (held : List (String × List String)) (session : String) : Option (List String) :=
  held.reverse.lookup session

/-- What of the outbox the client still waits on, for each session it still holds. -/
def owedTo (chain : Chain) (held : List (String × List String)) : List Reply :=
  chain.sessions.flatMap fun session ↦
    match waiting held session with
    | none => []
    | some requests => chain.outbox.filter fun owed ↦ requests.contains owed.request

/-- Gives the next link the sessions the client still holds; returns the answers it is still owed. -/
def hand (chain : Chain) (held : List (String × List String)) : Chain × List Reply :=
  let owed := chain.owedTo held
  let left := chain.outbox.filter fun reply ↦ !owed.contains reply
  ({ chain.deliver left .unnamed with
    state := .attached
    resumable := true
    sessions := chain.sessions.filter fun session ↦ (waiting held session).isSome
    inputs := chain.inputs.filter fun input ↦
      match waiting held input.2 with
      | none => !chain.sessions.contains input.2
      | some requests => !chain.sessions.contains input.2 || requests.contains input.1
    outbox := [] }, owed)

/-- Answers what is owed, in order.  A socket that throws ends it. -/
def answerAll (sends : Nat → Sending) : List Reply → Chain → Chain
  | [], chain => chain
  | owed :: rest, chain =>
    let sent := chain.answer owed (sends owed.number)
    if sent.2 then sent.1 else answerAll sends rest sent.1

/-! ## What happens -/

inductive Act
  | startSession (session : String)
  /-- `available` is whether the session takes questions. -/
  | ask (request session : String) (available : Bool) (sending : Sending)
  /-- The host's answer to a question, or that it was withdrawn. -/
  | settle (number : Nat) (first second : Sending)
  | ack (request : String)
  /-- The link closes.  `planned` says that the server or the client chose to. -/
  | disconnected (planned : Bool) (resumable working : List String)
  | forget (session : String)
  /-- Nothing will take back what a suspended link kept. -/
  | terminate
  /-- The client is back on another link.  `resumed` is what becomes of the first frame there. -/
  | resume (held : List (String × List String)) (resumed : Sending) (sends : Nat → Sending)

def ask (chain : Chain) (request session : String) (available : Bool) (sending : Sending) : Chain :=
  if chain.inputs.any (·.1 == request) || chain.inputIds.contains request then chain.teardown
  else
    let inputIds := chain.inputIds ++ [request]
    let asked : Reply := { number := chain.count, request, session }
    let chain :=
      { chain with
        inputIds := if REMEMBERED_INPUTS < inputIds.length then inputIds.drop 1 else inputIds
        count := chain.count + 1 }
    if !chain.sessions.contains session || !available || MAX_OPEN_INPUTS ≤ chain.inputs.length then
      (chain.answer asked sending).1
    else { chain with asking := chain.asking ++ [asked], inputs := chain.inputs ++ [(request, session)] }

def settle (chain : Chain) (number : Nat) (first second : Sending) : Chain :=
  match chain.asking.find? (·.number == number) with
  | none => chain
  | some asked =>
    let chain := { chain with asking := chain.asking.filter (·.number != number) }
    let chain := chain.reply asked first second
    { chain with inputs := chain.inputs.filter (·.1 != asked.request) }

def ack (chain : Chain) (request : String) : Chain :=
  if !chain.resumable then chain.teardown
  else
    match chain.unacked.find? (·.request == request) with
    | none => chain
    | some owed =>
      { chain.deliver [owed] .acknowledged with unacked := chain.unacked.filter (·.request != request) }

def disconnected (chain : Chain) (planned : Bool) (resumable working : List String) : Chain :=
  let kept := chain.sessions.filter fun session ↦
    resumable.contains session &&
      (working.contains session || chain.inputs.any (·.2 == session) || chain.unacked.any (·.session == session))
  if !planned && chain.resumable && !kept.isEmpty then chain.suspend kept else chain.teardown

def resume (chain : Chain) (held : List (String × List String)) (resumed : Sending) (sends : Nat → Sending) : Chain :=
  let handed := chain.hand held
  if resumed = .throws then handed.1 else answerAll sends handed.2 handed.1

def step (chain : Chain) : Act → Option Chain
  | .startSession session =>
    if chain.state ≠ .attached || chain.sessions.contains session then none
    else some { chain with sessions := chain.sessions ++ [session] }
  | .ask request session available sending =>
    if chain.state ≠ .attached then none else some (chain.ask request session available sending)
  | .settle number first second => some (chain.settle number first second)
  | .ack request => if chain.state ≠ .attached then none else some (chain.ack request)
  | .disconnected planned resumable working =>
    if chain.state ≠ .attached then none else some (chain.disconnected planned resumable working)
  | .forget session => some (chain.forget session)
  | .terminate => if chain.state ≠ .suspended then none else some chain.teardown
  | .resume held resumed sends => if chain.state ≠ .suspended then none else some (chain.resume held resumed sends)

end Chain

end Chopin.Remote
