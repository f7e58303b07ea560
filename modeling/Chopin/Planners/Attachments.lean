import Chopin.Lib.Entries
import Chopin.Lib.Lists
import Chopin.Lib.Runs

/-!
# A document's attached client

Which client is each document's remote Planner (`apps/server/src/harness/remote/attachments.ts`).  A hold is an
account's ownership of a document through one of its logins.  It has the link that is attached, or the earlier
link whose sessions are parked for the next one, or it runs a grace period.

The operations on one document take turns, but an attach awaits the logins, GitHub and storage in its turn.
Whatever these say is determined while it waits, and the attach goes on later, so that anything may happen
before, between and after.  The objects that the source shares by reference are numbered: a hold by its place in
`heap`, a link by its place in `links`.

## What is here

* `Hold`, `Link`, `Table` — the holds and the links, and what is done to them at once.
* `PlannerAttachments.step` — every operation.

The texts of the refusals are left out; a refusal is named for what it says.  So are the listeners and the clock:
a grace period's timer fires at any time.
-/

set_option autoImplicit false

namespace Chopin.Planners

/-! ## Holds and links -/

/-- A login that the process keeps in memory; a paired machine's is delegated. -/
structure Login where
  id : String
  userId : String
  delegated : Bool
  deriving DecidableEq

structure User where
  id : String
  login : String
  deriving DecidableEq

/-- What an attach asks for; the repository is the one that the document was found in. -/
structure AttachRequest where
  channelId : String
  user : User
  login : Option String
  machine : Option String
  machineId : Option String
  deriving DecidableEq

inductive AttachRefusal
  /-- A writer reset the document's connection. -/
  | reset (login : String)
  | documentEnded
  /-- Somebody holds the document. -/
  | attached (login : String)
  | signIn (login : String)
  | signInEnded (login : String)
  | machineEnded (machine login : String)
  | forbidden
  /-- The stored owner is another. -/
  | released (login : String)
  | stopped (message : String)
  /-- What a client is told when the attach threw. -/
  | unavailable
  deriving DecidableEq

def AttachRefusal.code : AttachRefusal → String
  | .reset _ | .machineEnded _ _ | .released _ | .stopped _ => "access-revoked"
  | .documentEnded => "document-archived"
  | .attached _ => "planner-attached"
  | .signIn _ | .signInEnded _ => "sign-in-required"
  | .forbidden => "repository-forbidden"
  | .unavailable => "unavailable"

structure Hold where
  channelId : String
  userId : String
  login : String
  ownerSessionId : String
  generation : Nat
  machine : Option String
  machineId : Option String
  link : Option Nat
  /-- A dropped link that kept its sessions. -/
  parked : Option Nat
  /-- The grace period's timer is set. -/
  timer : Bool
  /-- `releaseAt` is set. -/
  releasing : Bool
  /-- How often the document was reset when the attach that made the hold began. -/
  begun : Nat
  /-- How often it was ended when that attach was asked for. -/
  asked : Nat

/-- What an attach answers its link. -/
inductive Outcome
  | refused (refusal : AttachRefusal)
  /-- The grant of a hold: its `detach`, `claim` and `lapse` are the hold's. -/
  | granted (hold : Nat)
  /-- A grant that stands for nothing until its `takeover`; `ending` is what it compares then. -/
  | offered (earlier ending : Nat)

inductive LinkState
  | attaching
  | attached
  | suspended
  | closed
  deriving DecidableEq

/-- How far a link is with its attach. -/
inductive Stage
  /-- Its attach, or the takeover it was offered, waits for its turn. -/
  | queued (offer : Option (Nat × Nat))
  | running
  /-- It is answered, and the link has not heard yet. -/
  | answered (outcome : Outcome)
  | offered (earlier ending : Nat)
  /-- The link has the hold's grant; `claim` is whether its first message has not come yet. -/
  | bound (hold : Nat) (claim : Bool)
  /-- Its sessions are kept on the hold. -/
  | parked (hold : Nat)
  | over

structure Link where
  request : AttachRequest
  /-- It offered `resumable-sessions`. -/
  resumable : Bool
  state : LinkState
  stage : Stage
  refused : Option AttachRefusal
  /-- How often the document was ended when the attach was asked for. -/
  asked : Nat
  /-- How often it was reset when the link's turn began. -/
  turn : Nat

/-- The holds and the links; `holds` has each document's. -/
structure Table where
  heap : List Hold
  links : List Link
  holds : List (String × Nat)

namespace Table

def setHold (table : Table) (h : Nat) (hold : Hold) : Table := { table with heap := table.heap.set h hold }

def setLink (table : Table) (l : Nat) (link : Link) : Table := { table with links := table.links.set l link }

/-- `this.#holds.get(hold.channelId) === hold` -/
def current (table : Table) (h : Nat) (hold : Hold) : Bool := table.holds.lookup hold.channelId == some h

/-- `AgentLink.terminate`: nothing will take back what a suspended link kept. -/
def terminate (table : Table) (l : Nat) : Table :=
  match table.links[l]? with
  | none => table
  | some link => if link.state = .suspended then table.setLink l { link with state := .closed, stage := .over } else table

/-- `hold.parked?.terminate()` -/
def terminateParked (table : Table) : Option Nat → Table
  | none => table
  | some l => table.terminate l

/-- `#drop` -/
def drop (table : Table) (h : Nat) : Table :=
  match table.heap[h]? with
  | none => table
  | some hold =>
    if table.current h hold then
      let table := (table.terminateParked hold.parked).setHold h { hold with timer := false, parked := none }
      { table with holds := Entries.delete table.holds hold.channelId }
    else table.setHold h { hold with timer := false }

/-- `#detached` -/
def detached (table : Table) (h l : Nat) (suspended : Bool) : Table :=
  match table.heap[h]? with
  | none => table
  | some hold =>
    if hold.link ≠ some l then if suspended then table.terminate l else table
    else if !table.current h hold then
      let table := table.setHold h { hold with link := none }
      if suspended then table.terminate l else table
    else if suspended then
      (table.terminateParked (hold.parked.filter (· != l))).setHold h { hold with link := none, parked := some l }
    else if hold.parked.isSome then table.setHold h { hold with link := none }
    else table.setHold h { hold with link := none, timer := true, releasing := true }

/-- `AgentLink.disconnected`: `kept` is whether any of its sessions has work or is waited on.  Sessions are opened
on a bound link only. -/
def disconnected (table : Table) (l : Nat) (planned kept : Bool) : Table :=
  match table.links[l]? with
  | none => table
  | some link =>
    if link.state = .closed ∨ link.state = .suspended then table
    else match link.stage with
      | .bound h _ =>
        if !planned && link.resumable && kept then
          (table.setLink l { link with state := .suspended, stage := .parked h }).detached h l true
        else (table.setLink l { link with state := .closed, stage := .over }).detached h l false
      | .offered _ _ => table.setLink l { link with state := .closed, stage := .over }
      | _ => table.setLink l { link with state := .closed }

/-- `AgentLink.revoke` -/
def revoke (table : Table) (l : Nat) (refusal : AttachRefusal) : Table :=
  match table.links[l]? with
  | none => table
  | some link =>
    if link.state = .closed ∨ link.state = .suspended then table
    else (table.setLink l { link with refused := some refusal }).disconnected l true false

/-- `#invalidate` -/
def invalidate (table : Table) (h : Nat) (refusal : AttachRefusal) : Table :=
  match table.heap[h]? with
  | none => table
  | some hold =>
    if !table.current h hold then table
    else match hold.link with
      | none => table.drop h
      | some l => (table.drop h).revoke l refusal

/-- What `#bind` does to the hold; the grant is the link's to hear. -/
def bind (table : Table) (h l : Nat) : Table :=
  match table.heap[h]? with
  | none => table
  | some hold => table.setHold h { hold with timer := false, releasing := false, link := some l }

/-- The grant's `claim`, whose link ends: it gave its sessions to the next link (`#hand`), or nobody takes them. -/
def claim (table : Table) (h l : Nat) : Table :=
  match table.heap[h]? with
  | none => table
  | some hold =>
    if hold.link ≠ some l then table
    else (table.terminateParked hold.parked).setHold h { hold with parked := none }

/-- `#lapsed` -/
def lapsed (table : Table) (h l : Nat) : Table :=
  match table.heap[h]? with
  | none => table
  | some hold =>
    if hold.parked ≠ some l ∨ !table.current h hold then table
    else if hold.link.isSome then table.setHold h { hold with parked := none }
    else table.setHold h { hold with parked := none, timer := true, releasing := true }

end Table

/-! ## Turns -/

structure PendingAttach where
  login : String
  machine : Option String
  held : Option Nat
  sessionIds : List String
  invalidated : Option AttachRefusal

/-- What the login's checks answer. -/
inductive Access
  | granted
  | forbidden
  /-- GitHub refused the login. -/
  | expired

/-- What storage has of a document's owner. -/
structure AgentState where
  ownerSessionId : Option String
  generation : Nat
  deriving DecidableEq

/-- What an attach awaits, with the answer once it is determined; `login` is the caller's. -/
inductive Phase
  /-- `#eligibleLogin`: the login itself. -/
  | login (answer : Option (Option String))
  /-- `#eligibleLogin`: what it has access to. -/
  | access (login : String) (answer : Option Access)
  /-- The hold that cannot be kept is released. -/
  | release (login : String) (hold : Nat) (answered : Bool)
  | readAgent (login : String) (hold : Nat) (answer : Option (Option AgentState))
  /-- Whether the hold's login is live. -/
  | resolve (login : String) (hold : Nat) (stored : Option AgentState) (answer : Option Bool)
  | claim (login : String) (answer : Option AgentState)
  | clear (login owner : String) (generation : Nat) (answered : Bool)
  | claimAgain (login : String) (answer : Option AgentState)
  /-- The claim threw: whether the login is live. -/
  | claimRefused (login : String) (answer : Option Bool)
  /-- Whether the login is live once it owns the document. -/
  | confirm (login : String) (generation : Nat) (answer : Option Bool)
  | withdraw (login : String) (generation : Nat) (refusal : AttachRefusal) (answered : Bool)

/-- What has its turn on a document and awaits something. -/
inductive Work
  | attach (link : Nat) (pending : PendingAttach) (phase : Phase)
  | release (hold : Nat)

/-- What waits for its turn. -/
inductive Task
  /-- A link's attach or takeover. -/
  | call (link : Nat)
  /-- What `documentEnded` does in its turn. -/
  | ended
  | expire (hold : Nat)
  | stopMachine (machineId message : String)
  deriving DecidableEq

/-- What the logins, GitHub and storage say at one moment. -/
structure Reply where
  /-- Which logins, if they are live, pass the checks of `Sessions.resolve`. -/
  admitted : String → Bool
  access : Access
  /-- Storage takes the call. -/
  stored : Bool

structure PlannerAttachments where
  table : Table
  logins : List Login
  agents : List (String × AgentState)
  queue : List (String × Task)
  /-- The turns; those of an attach are `#pending`. -/
  working : List (String × Work)
  endings : List (String × Nat)
  /-- The logins that `sessionRevoked` was told of. -/
  revoked : List String
  /-- How often each document ended, in the turns of `documentEnded`. -/
  ended : List (String × Nat)
  /-- How often each was reset. -/
  resets : List (String × Nat)

def times (counts : List (String × Nat)) (channelId : String) : Nat := (counts.lookup channelId).getD 0

def once (counts : List (String × Nat)) (channelId : String) : List (String × Nat) :=
  Entries.set counts channelId (times counts channelId + 1)

/-! ### Storage -/

def claimAgentOwner (agents : List (String × AgentState)) (channelId sessionId : String) :
    AgentState × List (String × AgentState) :=
  let existing := agents.lookup channelId
  match existing.filter (·.ownerSessionId.isSome) with
  | some existing => (existing, agents)
  | none =>
    let saved : AgentState := { ownerSessionId := some sessionId, generation := (existing.map (·.generation)).getD 0 + 1 }
    (saved, Entries.set agents channelId saved)

def clearAgentOwner (agents : List (String × AgentState)) (channelId sessionId : String) (generation : Nat) :
    List (String × AgentState) :=
  match agents.lookup channelId with
  | none => agents
  | some existing =>
    if existing.ownerSessionId ≠ some sessionId ∨ existing.generation ≠ generation then agents
    else Entries.set agents channelId { existing with ownerSessionId := none }

namespace PlannerAttachments

/-- `Sessions.resolve` -/
def resolve (state : PlannerAttachments) (reply : Reply) (id : String) : Bool :=
  state.logins.any (·.id == id) && reply.admitted id

/-- `Sessions.forUser` -/
def forUser (state : PlannerAttachments) (reply : Reply) (userId : String) : Option String :=
  (state.logins.reverse.find? fun login ↦
    login.userId == userId && !login.delegated && reply.admitted login.id).map (·.id)

/-- `#release` -/
def release (state : PlannerAttachments) (reply : Reply) (h : Nat) : List (String × AgentState) :=
  match state.table.heap[h]? with
  | none => state.agents
  | some hold =>
    if reply.stored then clearAgentOwner state.agents hold.channelId hold.ownerSessionId hold.generation else state.agents

/-! ### Answers -/

/-- What an attach awaits is determined; a claim that storage does not take throws instead. -/
def answer (state : PlannerAttachments) (request : AttachRequest) (reply : Reply) :
    Phase → Option (Phase × List (String × AgentState))
  | .login none =>
    let found := match request.login with
      | some id => if state.resolve reply id then some id else none
      | none => state.forUser reply request.user.id
    some (.login (some found), state.agents)
  | .access login none => some (.access login (some reply.access), state.agents)
  | .release login h false => some (.release login h true, state.release reply h)
  | .readAgent login h none =>
    some (.readAgent login h (some (if reply.stored then state.agents.lookup request.channelId else none)), state.agents)
  | .resolve login h stored none =>
    (state.table.heap[h]?).map fun hold ↦ (.resolve login h stored (some (state.resolve reply hold.ownerSessionId)), state.agents)
  | .claim login none =>
    if reply.stored then
      let (claimed, agents) := claimAgentOwner state.agents request.channelId login
      some (.claim login (some claimed), agents)
    else none
  | .clear login owner generation false =>
    some (.clear login owner generation true,
      if reply.stored then clearAgentOwner state.agents request.channelId owner generation else state.agents)
  | .claimAgain login none =>
    if reply.stored then
      let (claimed, agents) := claimAgentOwner state.agents request.channelId login
      some (.claimAgain login (some claimed), agents)
    else none
  | .claimRefused login none => some (.claimRefused login (some (state.resolve reply login)), state.agents)
  | .confirm login generation none => some (.confirm login generation (some (state.resolve reply login)), state.agents)
  | .withdraw login generation refusal false =>
    some (.withdraw login generation refusal true,
      if reply.stored then clearAgentOwner state.agents request.channelId login generation else state.agents)
  | _ => none

/-! ### An attach's turn -/

/-- The attach is answered, and its turn is over. -/
def finish (state : PlannerAttachments) (channelId : String) (l : Nat) (link : Link) (outcome : Outcome) :
    PlannerAttachments :=
  { state with
    table := state.table.setLink l { link with stage := .answered outcome }
    working := Entries.delete state.working channelId }

/-- The attach goes on to await something else. -/
def await (state : PlannerAttachments) (channelId : String) (l : Nat) (pending : PendingAttach) (phase : Phase) :
    PlannerAttachments :=
  { state with working := Entries.set state.working channelId (.attach l pending phase) }

/-- The login that the attach asked for is not there, or ended. -/
def noLogin (request : AttachRequest) : AttachRefusal :=
  match request.machine with
  | some machine => .machineEnded machine request.user.login
  | none => .signIn request.user.login

/-- The document is claimed, unless what the attach rests on ended meanwhile. -/
def toClaim (state : PlannerAttachments) (channelId : String) (l : Nat) (link : Link) (pending : PendingAttach)
    (login : String) : PlannerAttachments :=
  match pending.invalidated with
  | some refusal => state.finish channelId l link (.refused refusal)
  | none => state.await channelId l pending (.claim login none)

/-- The caller may attach: the hold that it has is kept if it can be. -/
def allowed (state : PlannerAttachments) (channelId : String) (l : Nat) (link : Link) (pending : PendingAttach)
    (login : String) : PlannerAttachments :=
  match pending.invalidated with
  | some refusal => state.finish channelId l link (.refused refusal)
  | none =>
    match pending.held.bind fun h ↦ (state.table.heap[h]?).map (h, ·) with
    | none => state.toClaim channelId l link pending login
    | some (h, hold) =>
      let rests := match link.request.login with
        | some login => hold.ownerSessionId == login
        | none => hold.machine.isNone
      if !state.table.current h hold then state.toClaim channelId l link pending login
      else if rests then state.await channelId l pending (.readAgent login h none)
      else { state with table := state.table.drop h }.await channelId l pending (.release login h false)

/-- The held document, reread: it is bound, or given up and claimed again. -/
def reread (state : PlannerAttachments) (channelId : String) (l : Nat) (link : Link) (pending : PendingAttach)
    (login : String) (h : Nat) (hold : Hold) (stored : Option AgentState) (live : Bool) : PlannerAttachments :=
  match pending.invalidated with
  | some refusal => state.finish channelId l link (.refused refusal)
  | none =>
    if live && state.table.current h hold
        && stored == some { ownerSessionId := some hold.ownerSessionId, generation := hold.generation } then
      { state with table := state.table.bind h l }.finish channelId l link (.granted h)
    else
      let state := { state with table := state.table.drop h }
      if live then state.toClaim channelId l link pending login
      else state.await channelId l pending (.release login h false)

/-- The hold of a document that was claimed. -/
def claimedHold (link : Link) (login : String) (generation : Nat) : Hold :=
  { channelId := link.request.channelId, userId := link.request.user.id, login := link.request.user.login
    ownerSessionId := login, generation, machine := link.request.machine, machineId := link.request.machineId
    link := none, parked := none, timer := false, releasing := false, begun := link.turn, asked := link.asked }

/-- The claimed document is bound, unless what the attach rests on ended meanwhile. -/
def confirmed (state : PlannerAttachments) (channelId : String) (l : Nat) (link : Link) (pending : PendingAttach)
    (login : String) (generation : Nat) (live : Bool) : PlannerAttachments :=
  match pending.invalidated.or (if live then none else some (noLogin link.request)) with
  | some refusal => state.await channelId l pending (.withdraw login generation refusal false)
  | none =>
    let h := state.table.heap.length
    let table := { state.table with
      heap := state.table.heap ++ [claimedHold link login generation], holds := Entries.set state.table.holds channelId h }
    { state with table := table.bind h l }.finish channelId l link (.granted h)

/-- The attach goes on with what it awaited. -/
def go (state : PlannerAttachments) (channelId : String) (l : Nat) (link : Link) (pending : PendingAttach) :
    Phase → Option PlannerAttachments
  | .login (some none) => some (state.finish channelId l link (.refused (noLogin link.request)))
  | .login (some (some login)) =>
    some (state.await channelId l { pending with sessionIds := pending.sessionIds ++ [login] } (.access login none))
  | .access _ (some .expired) => some (state.finish channelId l link (.refused (noLogin link.request)))
  | .access _ (some .forbidden) => some (state.finish channelId l link (.refused .forbidden))
  | .access login (some .granted) => some (state.allowed channelId l link pending login)
  | .release login _ true => some (state.toClaim channelId l link pending login)
  | .readAgent login h (some stored) => some (state.await channelId l pending (.resolve login h stored none))
  | .resolve login h stored (some live) =>
    (state.table.heap[h]?).map fun hold ↦ state.reread channelId l link pending login h hold stored live
  | .claim login (some claimed) =>
    some <|
      if claimed.ownerSessionId = some login then state.await channelId l pending (.confirm login claimed.generation none)
      else match claimed.ownerSessionId with
        | some owner => state.await channelId l pending (.clear login owner claimed.generation false)
        | none => state.await channelId l pending (.claimAgain login none)
  | .clear login _ _ true => some (state.await channelId l pending (.claimAgain login none))
  | .claimAgain login (some claimed) =>
    some <|
      if claimed.ownerSessionId = some login then state.await channelId l pending (.confirm login claimed.generation none)
      else state.finish channelId l link (.refused .unavailable)
  | .claimRefused _ (some live) =>
    some (state.finish channelId l link (.refused (if live then .unavailable else noLogin link.request)))
  | .confirm login generation (some live) => some (state.confirmed channelId l link pending login generation live)
  | .withdraw _ _ refusal true => some (state.finish channelId l link (.refused refusal))
  | _ => none

/-- What the attach awaits throws; a release does not. -/
def fail (state : PlannerAttachments) (channelId : String) (l : Nat) (link : Link) (pending : PendingAttach) :
    Phase → Option PlannerAttachments
  | .release _ _ _ | .withdraw _ _ _ _ => none
  | .claim login _ | .clear login _ _ _ | .claimAgain login _ =>
    some <| match pending.invalidated with
      | some refusal => state.finish channelId l link (.refused refusal)
      | none => state.await channelId l pending (.claimRefused login none)
  | _ => some (state.finish channelId l link (.refused .unavailable))

/-- What an attach finds in its turn. -/
inductive Entry
  /-- Another link holds the document, or another account. -/
  | taken (login : String)
  /-- The same account's earlier link may have lost its connection. -/
  | earlier (link : Nat) (login : String)
  | free (held : Option Nat)

def entry (table : Table) (link : Link) : Entry :=
  match (table.holds.lookup link.request.channelId).bind fun h ↦ (table.heap[h]?).map (h, ·) with
  | none => .free none
  | some (h, hold) =>
    match hold.link with
    | none => if hold.userId = link.request.user.id then .free (some h) else .taken hold.login
    | some earlier =>
      let resumable := link.resumable && (table.links[earlier]?).any (·.resumable)
      let same := match link.request.login with
        | some login => hold.ownerSessionId == login
        | none => hold.machine.isNone
      if hold.userId = link.request.user.id && resumable && same then .earlier earlier hold.login else .taken hold.login

/-- `#attach`; `taking` is whether it is the takeover's, which is offered no other. -/
def attach (state : PlannerAttachments) (channelId : String) (l : Nat) (link : Link) (taking : Bool) :
    PlannerAttachments :=
  let link := { link with turn := times state.resets channelId }
  let answered outcome := { state with table := state.table.setLink l { link with stage := .answered outcome } }
  match entry state.table link with
  | .taken login => answered (.refused (.attached login))
  | .earlier earlier login =>
    if taking then answered (.refused (.attached login))
    else answered (.offered earlier (times state.endings channelId))
  | .free held =>
    let owner := (held.bind (state.table.heap[·]?)).map (·.ownerSessionId)
    let pending : PendingAttach :=
      { login := link.request.user.login, machine := link.request.machine, held, sessionIds := owner.toList, invalidated := none }
    { state with table := state.table.setLink l { link with stage := .running } }.await channelId l pending
    (.login none)

/-- `#takeover`; `names` is whether the first message names a session that the earlier link holds. -/
def takeover (state : PlannerAttachments) (channelId : String) (l : Nat) (link : Link) (earlier ending : Nat)
    (names kept : Bool) : PlannerAttachments :=
  let refused refusal := { state with table := state.table.setLink l { link with stage := .answered (.refused refusal) } }
  if times state.endings channelId ≠ ending then refused .documentEnded
  else match (state.table.holds.lookup channelId).bind (state.table.heap[·]?) with
    | none => state.attach channelId l link true
    | some hold =>
      match hold.link with
      | none => state.attach channelId l link true
      | some current =>
        if current ≠ earlier || !names then refused (.attached hold.login)
        else
          let state := { state with table := state.table.disconnected current false kept }
          match state.table.links[l]? with
          | some link => state.attach channelId l link true
          | none => state

/-! ### What a link hears -/

/-- `AgentLink.#bind`: a link that cannot take what an earlier one kept ends it. -/
def bound (table : Table) (l : Nat) (link : Link) (h : Nat) : Table :=
  let table := table.setLink l { link with state := .attached, stage := .bound h link.resumable }
  if link.resumable then table else table.claim h l

/-- The link hears what its attach or its takeover was answered. -/
def hear (table : Table) (l : Nat) (link : Link) (outcome : Outcome) : Table :=
  if link.state = .closed then
    let table := table.setLink l { link with stage := .over }
    match outcome with
    | .granted h => table.detached h l false
    | _ => table
  else match outcome with
    | .refused refusal => (table.setLink l { link with stage := .over }).revoke l refusal
    | .granted h => bound table l link h
    | .offered earlier ending => table.setLink l { link with state := .attached, stage := .offered earlier ending }

/-! ### What ends a hold -/

/-- Why a hold's login ended. -/
def endedRefusal (hold : Hold) : AttachRefusal :=
  match hold.machine with
  | some machine => .machineEnded machine hold.login
  | none => .signInEnded hold.login

def invalidated (refusal : PendingAttach → AttachRefusal) : Work → Work
  | .attach l pending phase => .attach l { pending with invalidated := pending.invalidated.or (some (refusal pending)) } phase
  | .release h => .release h

/-- A login that a pending attach rests on ended. -/
def pendingRefusal (state : PlannerAttachments) (sessionId : String) (pending : PendingAttach) : AttachRefusal :=
  match pending.machine with
  | some machine => .machineEnded machine pending.login
  | none =>
    if (pending.held.bind (state.table.heap[·]?)).any (·.ownerSessionId == sessionId) then .signInEnded pending.login
    else .signIn pending.login

def restsOn (sessionId : String) : Work → Bool
  | .attach _ pending _ => pending.sessionIds.contains sessionId
  | .release _ => false

/-- The holds that the login owns. -/
def endLogin (sessionId : String) (table : Table) (entry : String × Nat) : Table :=
  match table.heap[entry.2]? with
  | none => table
  | some hold => if hold.ownerSessionId = sessionId then table.invalidate entry.2 (endedRefusal hold) else table

def sessionRevoked (state : PlannerAttachments) (sessionId : String) : PlannerAttachments :=
  { state with
    working := state.working.map fun entry ↦
      (entry.1, if restsOn sessionId entry.2 then invalidated (state.pendingRefusal sessionId) entry.2 else entry.2)
    table := state.table.holds.foldl (endLogin sessionId) state.table
    revoked := sessionId :: state.revoked }

def ownerReset (state : PlannerAttachments) (channelId : String) : PlannerAttachments :=
  { state with
    working := match state.working.lookup channelId with
      | some work => Entries.set state.working channelId (invalidated (fun pending ↦ .reset pending.login) work)
      | none => state.working
    table := match state.table.holds.lookup channelId with
      | some h => state.table.invalidate h (.reset (((state.table.heap[h]?).map (·.login)).getD ""))
      | none => state.table
    resets := once state.resets channelId }

/-- The first turn that waits for the document. -/
def first (state : PlannerAttachments) (channelId : String) : Option Task :=
  (state.queue.find? (·.1 == channelId)).map (·.2)

/-- A turn begins; `names` and `kept` are for a takeover. -/
def start (state : PlannerAttachments) (channelId : String) (names kept : Bool) : Task → Option PlannerAttachments
  | .call l =>
    (state.table.links[l]?).bind fun link ↦
      match link.stage with
      | .queued none => some (state.attach channelId l link false)
      | .queued (some (earlier, ending)) => some (state.takeover channelId l link earlier ending names kept)
      | _ => none
  | .ended => some <|
    let state := { state with ended := once state.ended channelId }
    match state.table.holds.lookup channelId with
    | none => state
    | some h => { state with
        table := state.table.invalidate h .documentEnded
        working := Entries.set state.working channelId (.release h) }
  | .expire h => (state.table.heap[h]?).map fun hold ↦
    if !state.table.current h hold || hold.link.isSome then state
    else { state with table := state.table.drop h, working := Entries.set state.working channelId (.release h) }
  | .stopMachine machineId message => some <|
    match (state.table.holds.lookup channelId).bind fun h ↦ (state.table.heap[h]?).map (h, ·) with
    | none => state
    | some (h, hold) =>
      if hold.link.isNone && hold.parked.isNone || hold.machineId ≠ some machineId then state
      else { state with
        table := state.table.invalidate h (.stopped message)
        working := Entries.set state.working channelId (.release h) }

end PlannerAttachments

/-! ## Every operation -/

inductive Act
  /-- A link asks to be attached. -/
  | attach (request : AttachRequest) (resumable : Bool)
  | start (channelId : String) (names kept : Bool)
  | answer (channelId : String) (reply : Reply)
  | go (channelId : String)
  | fail (channelId : String)
  | hear (link : Nat)
  /-- The first message of a link that was offered a takeover. -/
  | confirm (link : Nat)
  /-- The first message of a bound link: it takes what an earlier link kept, or abandons it. -/
  | claim (link : Nat)
  /-- The link detaches or is closed, or its connection drops. -/
  | disconnect (link : Nat) (planned kept : Bool)
  /-- A suspended link's sessions are all let go. -/
  | lapse (link : Nat)
  /-- The timer of a grace period. -/
  | fire (channelId : String)
  | sessionRevoked (sessionId : String)
  | documentEnded (channelId : String)
  | ownerReset (channelId : String)
  | stopMachine (channelId machineId message : String)
  /-- `verify` found that the login ended, or that the stored owner is another. -/
  | verify (link : Nat) (live : Bool)
  | signIn (login : Login)
  /-- The process forgets a login: it ends, or waits in storage to be restored. -/
  | forget (sessionId : String)
  /-- The stored owner is cleared: by a reset, or by a release that nothing waits for. -/
  | cleared (channelId : String)

namespace PlannerAttachments

def new : PlannerAttachments :=
  { table := { heap := [], links := [], holds := [] }, logins := [], agents := [], queue := [], working := [], endings := []
    revoked := [], ended := [], resets := [] }

def step (state : PlannerAttachments) : Act → Option PlannerAttachments
  | .attach request resumable =>
    let link : Link :=
      { request, resumable, state := .attaching, stage := .queued none, refused := none
        asked := times state.endings request.channelId, turn := 0 }
    some { state with
      table := { state.table with links := state.table.links ++ [link] }
      queue := state.queue ++ [(request.channelId, .call state.table.links.length)] }
  | .start channelId names kept =>
    if (state.working.lookup channelId).isSome then none
    else (state.first channelId).bind fun task ↦
      { state with queue := state.queue.eraseP (·.1 == channelId) }.start channelId names kept task
  | .answer channelId reply =>
    (state.working.lookup channelId).bind fun
      | .attach l pending phase =>
        (state.table.links[l]?).bind fun link ↦ (state.answer link.request reply phase).map fun (phase, agents) ↦
          { state with agents }.await channelId l pending phase
      | .release h => some { state with
          agents := state.release reply h, working := Entries.delete state.working channelId }
  | .go channelId =>
    (state.working.lookup channelId).bind fun
      | .attach l pending phase => (state.table.links[l]?).bind fun link ↦ state.go channelId l link pending phase
      | .release _ => none
  | .fail channelId =>
    (state.working.lookup channelId).bind fun
      | .attach l pending phase => (state.table.links[l]?).bind fun link ↦ state.fail channelId l link pending phase
      | .release _ => none
  | .hear l =>
    (state.table.links[l]?).bind fun link ↦
      match link.stage with
      | .answered outcome => some { state with table := hear state.table l link outcome }
      | _ => none
  | .confirm l =>
    (state.table.links[l]?).bind fun link ↦
      match link.stage with
      | .offered earlier ending => some { state with
          table := state.table.setLink l { link with stage := .queued (some (earlier, ending)) }
          queue := state.queue ++ [(link.request.channelId, .call l)] }
      | _ => none
  | .claim l =>
    (state.table.links[l]?).bind fun link ↦
      match link.stage with
      | .bound h true => some { state with
          table := (state.table.setLink l { link with stage := .bound h false }).claim h l }
      | _ => none
  | .disconnect l planned kept => some { state with table := state.table.disconnected l planned kept }
  | .lapse l =>
    (state.table.links[l]?).bind fun link ↦
      match link.stage with
      | .parked h => some { state with
          table := (state.table.setLink l { link with state := .closed, stage := .over }).lapsed h l }
      | _ => none
  | .fire channelId =>
    (state.table.holds.lookup channelId).bind fun h ↦ (state.table.heap[h]?).bind fun hold ↦
      if hold.timer then some { state with
        table := state.table.setHold h { hold with timer := false }, queue := state.queue ++ [(channelId, .expire h)] }
      else none
  | .sessionRevoked sessionId =>
    if state.logins.any (·.id == sessionId) then none else some (state.sessionRevoked sessionId)
  | .documentEnded channelId =>
    some { state with endings := once state.endings channelId, queue := state.queue ++ [(channelId, .ended)] }
  | .ownerReset channelId => some (state.ownerReset channelId)
  | .stopMachine channelId machineId message =>
    some { state with queue := state.queue ++ [(channelId, .stopMachine machineId message)] }
  | .verify l live =>
    (state.table.links[l]?).bind fun link ↦
      (state.table.holds.lookup link.request.channelId).bind fun h ↦ (state.table.heap[h]?).bind fun hold ↦
        if hold.link = some l then some { state with
          table := state.table.invalidate h (if live then .released hold.login else endedRefusal hold) }
        else none
  | .signIn login =>
    if state.revoked.contains login.id || state.logins.any (·.id == login.id) then none
    else some { state with logins := state.logins ++ [login] }
  | .forget sessionId => some { state with logins := state.logins.filter (·.id != sessionId) }
  | .cleared channelId =>
    (state.agents.lookup channelId).map fun agent ↦
      { state with agents := Entries.set state.agents channelId { agent with ownerSessionId := none } }

end PlannerAttachments

end Chopin.Planners
