import Chopin.Lib.Platform
import Chopin.Tasks.Lifecycle

/-!
# The open document

What an open plan holds of its implementation (`plan/service.ts`), with the two records that
`tasks/builds.ts` adds to it: the builds asked of paired machines, and the living record of the
source that was last built.

A schema that a source record is parsed with is a Boolean here, `BuildRequest.valid`: parsing
returns the record it was given or throws.
-/

set_option autoImplicit false
set_option linter.dupNamespace false

open Script

namespace Chopin.Tasks

/-! ## Builds -/

structure Checkout where
  repository : String
  branch : Option String
  commit : String
  deriving DecidableEq

inductive BuildState
  | queued
  | starting
  | running
  | stopped
  | failed
  deriving DecidableEq

structure Activity where
  text : String
  «at» : String
  deriving DecidableEq

/-- A rebuild carries edits since `baseRevision` onto a live build's pull requests. -/
structure Rebuild where
  baseRevision : Nat
  targetRevision : Nat
  deriving DecidableEq

structure BuildRequest where
  id : String
  retryOf : Option String
  user : String
  /-- Whose machine runs it, when it is not `user`'s. -/
  machineOwner : Option String
  connectionId : String
  machineId : Option String
  machineService : Bool
  repositoryId : String
  checkout : Checkout
  planRevision : Nat
  graphVersion : Nat
  graphRevision : Nat
  createdAt : String
  finishedAt : Option String
  expiresAt : Nat
  state : BuildState
  session : Option String
  error : Option String
  stoppedAtRevision : Option Nat
  activity : Option Activity
  reportKey : Option String
  resumable : Bool
  /-- The revisions of a build of kind `rebuild`; the schema gives them to no other kind. -/
  rebuild : Option Rebuild
  deriving DecidableEq

/-- `[A-Za-z0-9_.-]` -/
def repositoryChar (c : Char) : Bool :=
  ('A' ≤ c && c ≤ 'Z') || ('a' ≤ c && c ≤ 'z') || ('0' ≤ c && c ≤ '9') || c == '_' || c == '.'
    || c == '-'

/-- An owner and a name with one slash between. -/
def repositoryName (value : String) : Bool :=
  match value.toList.splitOn '/' with
  | [owner, name] => owner != [] && name != [] && owner.all repositoryChar && name.all repositoryChar
  | _ => false

/-- `checkoutSchema`. -/
def Checkout.valid (checkout : Checkout) : Bool :=
  repositoryName checkout.repository && checkout.branch.all (bounded 255)
    && hex 40 40 checkout.commit

/-- `buildSchema`. -/
def BuildRequest.valid (platform : Platform) (build : BuildRequest) : Bool :=
  platform.uuid build.id && build.retryOf.all platform.uuid && bounded 128 build.user
    && build.machineOwner.all (bounded 128) && bounded 128 build.connectionId
    && build.machineId.all (bounded 128) && bounded 128 build.repositoryId && build.checkout.valid
    && build.planRevision ≤ Json.maxSafe
    && (1 ≤ build.graphVersion && build.graphVersion ≤ Json.maxSafe)
    && (1 ≤ build.graphRevision && build.graphRevision ≤ Json.maxSafe)
    && platform.datetime build.createdAt && build.finishedAt.all platform.datetime
    && build.expiresAt ≤ Json.maxSafe && build.session.all (bounded 128)
    && build.error.all (units · ≤ 2000) && build.stoppedAtRevision.all (· ≤ Json.maxSafe)
    && build.activity.all (fun activity ↦ bounded 2000 activity.text && platform.datetime activity.«at»)
    && build.reportKey.all platform.uuid
    && build.rebuild.all fun rebuild ↦ rebuild.baseRevision ≤ rebuild.targetRevision
      && rebuild.baseRevision ≤ Json.maxSafe && rebuild.targetRevision ≤ Json.maxSafe

/-- `buildSchema.parse`. -/
def BuildRequest.parse (platform : Platform) (build : BuildRequest) : Except String BuildRequest :=
  if build.valid platform then .ok build else .error "invalid build"

/-- Whose connection runs a build. -/
def runner (build : BuildRequest) : String := build.machineOwner.getD build.user

def BuildState.active : BuildState → Bool
  | .queued | .starting | .running => true
  | .stopped | .failed => false

/-- Whether a build closes document editing.  A rebuild works from a sealed delta instead. -/
def locksEditing (build : BuildRequest) : Bool := build.rebuild.isNone && build.state.active

/-! ## The living record -/

/-- A commit a rebuild landed on a live pull request. -/
structure Commit where
  pullRequest : String
  sha : String
  message : String
  revision : Nat
  «at» : String
  deriving DecidableEq

/-- A sync that needed no code. -/
structure Settlement where
  buildId : String
  revision : Nat
  summary : String
  «at» : String
  deriving DecidableEq

/-- The source a queued rebuild targets, sealed so later edits join the next delta. -/
structure Target where
  buildId : String
  revision : Nat
  source : String
  deriving DecidableEq

/-- The built source a living document compares later edits against. -/
structure LiveBuild where
  buildId : String
  user : String
  repositoryId : String
  checkout : Checkout
  baseRevision : Nat
  baseSource : String
  pullRequests : List String
  commits : Option (List Commit)
  /-- Tasks a first build stopped short of; the next rebuild finishes them. -/
  outstanding : Option (List String)
  noChange : Option (List Settlement)
  target : Option Target
  deriving DecidableEq

/-! ## The plan -/

structure Plan where
  id : String
  revision : Nat
  source : String
  graph : Option Graph
  execution : Option Run
  lifecycle : Lifecycle
  builds : List BuildRequest
  live : Option LiveBuild
  /-- A claim is in flight. -/
  claiming : Bool
  /-- The server serves living builds (`persistence.liveBuild`). -/
  liveBuild : Bool
  deriving DecidableEq

/-- Whether any build or claim is in flight, including rebuilds that leave editing open. -/
def buildActive (plan : Plan) : Bool :=
  plan.claiming || plan.execution.isSome || plan.builds.any (·.state.active)

/-- One gate for every path that can mutate a plan during implementation. -/
def implementationActive (plan : Plan) : Bool :=
  plan.claiming || plan.execution.isSome || plan.builds.any locksEditing

/-- Stop cancels existing automatic work; a later document edit can start new work. -/
def stoppedForRevision (plan : Plan) (revision : Nat) : Bool :=
  (plan.builds.getLast?.bind BuildRequest.stoppedAtRevision).any (revision ≤ ·)

end Chopin.Tasks
