import Chopin.Lib.Calls
import Chopin.Lib.Entries

/-!
# Connected machines

The machines that connectors opened, and the documents whose builds they hold
(`experiments/connections.ts`).  A connection holds one document's build at a time; others are
queued behind it, and each release hands the connection to the next.

The keys of `runTokens` begin with a connection's and a run's id.  Both are UUIDs, in which no colon
stands, so `RunTokenKey` keeps the key's fields apart where the code compares prefixes.
-/

set_option autoImplicit false

open Script (Call)
open Script.Call (refuseIf)

namespace Chopin.Experiments

/-! ## The records -/

structure Source where
  repositoryId : String
  deriving DecidableEq

structure Connection where
  id : String
  owner : String
  machineId : String
  /-- The checkouts it said it has. -/
  checkouts : List Source
  /-- Whether it takes work in any repository. -/
  anyRepository : Bool
  expiresAt : Int
  deriving DecidableEq

inductive RunKind
  | experiment
  | implementation
  | rebuild
  deriving DecidableEq

structure Run where
  id : String
  documentId : String
  generation : Nat
  kind : RunKind
  deriving DecidableEq

structure Grant where
  connectionId : String
  run : Option Run
  deriving DecidableEq

/-- `${connectionId}:${id}:${generation}:${kind}` -/
structure RunTokenKey where
  connectionId : String
  id : String
  generation : Nat
  kind : RunKind
  deriving DecidableEq

structure Connections where
  connections : List (String × Connection)
  /-- By the token's fingerprint. -/
  tokens : List (String × Grant)
  /-- Tokens of revoked machines' connections, with why they are refused. -/
  revoked : List (String × String)
  runTokens : List (RunTokenKey × String)
  /-- When each connection that ended in the last hour ended. -/
  ended : List (String × Int)
  /-- The document that holds the build a connection was last given. -/
  builds : List (String × String)
  /-- Documents whose builds wait behind a connection's current one, first queued first. -/
  queued : List (String × List String)
  /-- The connection last used, by document. -/
  used : List (String × String)
  deriving DecidableEq

def Connections.empty : Connections :=
  { connections := [], tokens := [], revoked := [], runTokens := [], ended := [], builds := [],
    queued := [], used := [] }

def CONNECTION_MS : Int := 90000
def ENDED_MS : Int := 3600000
def OWNER_CONNECTIONS : Nat := 32
def ANY_REPOSITORY_PROTOCOL : Nat := 5

def serves (connection : Connection) (repositoryId : String) : Bool :=
  connection.anyRepository || connection.checkouts.any (·.repositoryId == repositoryId)

namespace Connections

/-- The document that holds the build a connection was last given. -/
def assigned (s : Connections) (connectionId : String) : Option String := s.builds.lookup connectionId

/-- Documents whose builds wait for this connection, in the order they will start. -/
def queuedOn (s : Connections) (connectionId : String) : List String :=
  (s.queued.lookup connectionId).getD []

def get (s : Connections) (id : String) (now : Int) : Option Connection :=
  (s.connections.lookup id).filter (now < ·.expiresAt)

/-- `this.#connections.has(id)` -/
def has (s : Connections) (id : String) : Bool := (s.connections.lookup id).isSome

/-! ## Builds -/

def assign (s : Connections) (connectionId documentId : String) : Connections :=
  if s.has connectionId then { s with builds := Entries.set s.builds connectionId documentId } else s

/-- Queue a document's build behind the other document's build a connection holds. -/
def enqueue (s : Connections) (connectionId documentId : String) : Connections :=
  if !s.has connectionId || s.assigned connectionId == some documentId then s
  else
    let queue := s.queuedOn connectionId
    if queue.contains documentId then s
    else { s with queued := Entries.set s.queued connectionId (queue ++ [documentId]) }

/-- The queue of a connection, forgotten once it is empty. -/
def setQueue (s : Connections) (connectionId : String) (rest : List String) : Connections :=
  if rest.isEmpty then { s with queued := Entries.delete s.queued connectionId }
  else { s with queued := Entries.set s.queued connectionId rest }

/-- Forget a build; the next document queued behind it takes its place. -/
def release (s : Connections) (connectionId documentId : String) : Connections :=
  let queue := s.queuedOn connectionId
  if s.assigned connectionId == some documentId then
    match queue with
    | [] => { s with builds := Entries.delete s.builds connectionId }
    | next :: rest => setQueue { s with builds := Entries.set s.builds connectionId next } connectionId rest
  else setQueue s connectionId (queue.filter (· != documentId))

def use (s : Connections) (documentId connectionId : String) : Connections :=
  { s with used := Entries.set s.used documentId connectionId }

/-! ## Tokens -/

/-- A run's credential: the one it has, or a new one. -/
def runToken (s : Connections) (fingerprint : String → String) (connectionId documentId id : String)
    (generation : Nat) (kind : RunKind) (token : String) : Connections :=
  let key : RunTokenKey := { connectionId, id, generation, kind }
  match s.runTokens.lookup key with
  | some _ => s
  | none => { s with
      runTokens := Entries.set s.runTokens key token
      tokens := Entries.set s.tokens (fingerprint token)
        { connectionId, run := some { id, documentId, generation, kind } } }

/-- Accept a durable build credential for the connection that now holds its build. -/
def adopt (s : Connections) (fingerprint : String → String) (token connectionId : String) (run : Run) :
    Connections :=
  if !s.has connectionId then s
  else
    let key : RunTokenKey := { connectionId, id := run.id, generation := 1, kind := run.kind }
    { s with
      runTokens := Entries.set s.runTokens key token
      tokens := Entries.set s.tokens (fingerprint token)
        { connectionId, run := some { run with generation := 1 } } }

/-- The run credentials of a run, under the connection it moves to. -/
def moveRunTokens (runTokens : List (RunTokenKey × String)) (fromId toId runId : String) :
    List (RunTokenKey × String) :=
  (runTokens.filter fun entry ↦ entry.1.connectionId == fromId && entry.1.id == runId).foldl
    (fun moved entry ↦ Entries.set (Entries.delete moved entry.1)
      { entry.1 with connectionId := toId } entry.2)
    runTokens

/-- A document's assignment, moved to a connection that holds no other's. -/
def moveBuild (s : Connections) (fromId toId documentId : String) : Connections :=
  let s := if s.assigned fromId == some documentId then
      { s with builds := Entries.delete s.builds fromId } else s
  if s.assigned toId == none then s.assign toId documentId else s

/-- Move a run from one connection of a machine to a newer one: its document's assignment, and the
run credential the agent holds. -/
def rebind (s : Connections) (fromId toId documentId runId : String) : Connections :=
  let s := s.moveBuild fromId toId documentId
  { s with
    used := if s.used.lookup documentId == some fromId then Entries.set s.used documentId toId else s.used
    runTokens := moveRunTokens s.runTokens fromId toId runId
    tokens := s.tokens.map fun entry ↦
      if entry.2.connectionId == fromId && entry.2.run.any (·.id == runId) then
        (entry.1, { entry.2 with connectionId := toId })
      else entry }

/-! ## Ends and beginnings -/

def revoke (s : Connections) (now : Int) (id : String) : Connections :=
  { s with
    connections := Entries.delete s.connections id
    ended := if s.has id then Entries.set s.ended id now else s.ended
    builds := Entries.delete s.builds id
    queued := Entries.delete s.queued id
    used := s.used.filter (·.2 != id)
    runTokens := s.runTokens.filter (·.1.connectionId != id)
    tokens := s.tokens.filter (·.2.connectionId != id) }

/-- A revoked machine's connection: its tokens keep saying why they are refused. -/
def revokeFor (s : Connections) (now : Int) (code : String) (id : String) : Connections :=
  revoke { s with
    revoked := (s.tokens.filter (·.2.connectionId == id)).foldl
      (fun revoked entry ↦ Entries.set revoked entry.1 code) s.revoked } now id

def revokeMachine (s : Connections) (now : Int) (machineId code : String) : Connections :=
  ((s.connections.filter (·.2.machineId == machineId)).map Prod.fst).foldl
    (fun s id ↦ s.revokeFor now code id) s

def sweep (s : Connections) (now : Int) : Connections :=
  let s := ((s.connections.filter (·.2.expiresAt ≤ now)).map Prod.fst).foldl
    (fun s id ↦ s.revoke now id) s
  { s with ended := s.ended.filter fun entry ↦ now - ENDED_MS < entry.2 }

end Connections

/-- What a machine says of itself as it connects. -/
structure Machine where
  id : String
  owner : String
  protocol : Option Nat
  deriving DecidableEq

/-- A paired machine comes online, under an id and with a token made for it. -/
def openConnection (fingerprint : String → String) (now : Int) (id token : String) (machine : Machine)
    (checkouts : List Source) : Call Connections String Connection := do
  modify (·.sweep now)
  let anyRepository := ANY_REPOSITORY_PROTOCOL ≤ machine.protocol.getD 1
  let owned := ((← get).connections.map Prod.snd).filter fun value ↦
    value.owner == machine.owner && now < value.expiresAt
  refuseIf (OWNER_CONNECTIONS ≤ owned.length || !anyRepository && checkouts.any fun checkout ↦
      8 ≤ (owned.filter (serves · checkout.repositoryId)).length)
    "connection-limit"
  let connection : Connection :=
    { id, owner := machine.owner, machineId := machine.id, checkouts, anyRepository
      expiresAt := now + CONNECTION_MS }
  modify fun s ↦ { s with
    connections := Entries.set s.connections id connection
    tokens := Entries.set s.tokens (fingerprint token) { connectionId := id, run := none } }
  pure connection

/-- `connection.expiresAt = this.now() + CONNECTION_MS` -/
def Connections.touch (s : Connections) (now : Int) (id : String) : Connections :=
  { s with connections := s.connections.map fun entry ↦
      if entry.1 = id then (id, { entry.2 with expiresAt := now + CONNECTION_MS }) else entry }

end Chopin.Experiments
