import Mathlib.Data.List.Basic

/-!
# Stops and Resumes of the remote Planner

A Planner session runs in an attached client (`apps/server/src/harness/remote/link.ts`).  A Stop that the
client has not answered is owed to it: the session keeps it among its unanswered Stops, and moves it to the
held ones when the link drops, for the client to hear first when it resumes.

The session is followed with the part of its link that carries controls.  The Stops are objects, which the
session and the commands in flight refer to, so they are listed and named by their place.  Commands are
numbered in the order they are given; no code keeps the numbers, nor what `told`, `heard` and `resumes` say.
-/

set_option autoImplicit false

namespace Chopin.Remote

def MAX_LATE_CONTROLS : Nat := 64

inductive Action
  | stop
  | resume
  deriving DecidableEq

/-- A Stop sent to the client and not yet answered, naming its run (none: every run).  `origin` is the
Stop of every run this one stands for after a Resume of another run undid part of it. -/
structure OwedStop where
  run : Option String
  origin : Option Nat
  /-- The number of the command that made it. -/
  time : Nat
  /-- It carries a Stop that was held. -/
  resent : Bool
  deriving DecidableEq

/-- A control request that waits for its answer. -/
structure Command where
  request : Nat
  action : Action
  run : Option String
  owed : Option Nat
  deriving DecidableEq

/-- What a Stop resolves with, or that it rejects. -/
inductive Outcome
  | done
  | held
  | unconfirmed
  | failed
  deriving DecidableEq

/-- A Stop that was asked for. -/
structure Told where
  run : Option String
  time : Nat
  outcome : Option Outcome
  deriving DecidableEq

structure Session where
  /-- `planner.suspended` and `planner.stopping` -/
  suspended : Bool
  stopping : Bool
  /-- The cards the client reports, and which of them are live. -/
  cards : List (String × Bool)
  /-- Stops asked for while the link was down. -/
  held : List (Option String)
  stops : List OwedStop
  /-- The Stops whose `held` is set. -/
  marked : List Nat
  /-- Stops sent to the client that it has not answered. -/
  unanswered : List Nat
  /-- The Stops sent and not yet answered, by control request. -/
  requests : List (Nat × Nat)
  /-- The link can send. -/
  linked : Bool
  controls : List Command
  /-- Controls whose wait ended unanswered. -/
  late : List Nat
  clock : Nat
  ended : Bool
  told : List Told
  /-- The Stops the client's answers were taken for. -/
  heard : List Nat
  /-- The numbers of the Resumes the client answered. -/
  resumes : List Nat

namespace Session

def new : Session where
  suspended := false
  stopping := false
  cards := []
  held := []
  stops := []
  marked := []
  unanswered := []
  requests := []
  linked := true
  controls := []
  late := []
  clock := 0
  ended := false
  told := []
  heard := []
  resumes := []

/-- Keeps a Stop for the client's return.  Stopping every run covers each one, and a run already named is
not named twice. -/
def hold (session : Session) (run : Option String) : Session :=
  if session.held.any fun held ↦ held.isNone || held == run then session
  else { session with held := (if run.isNone then [] else session.held) ++ [run] }

/-- What the Stop of this number resolved with. -/
def resolve (session : Session) (time : Nat) (outcome : Outcome) : Session :=
  { session with
    told := session.told.map fun told ↦ if told.time = time then { told with outcome := some outcome } else told }

/-- The client answered a Stop, in time or late: it, and the Stops split from it, are not owed. -/
def answered (session : Session) (owed : Nat) : Session :=
  { session with
    unanswered := session.unanswered.filter fun other ↦
      other != owed && !(session.stops[other]?).any (·.origin == some owed)
    requests := session.requests.filter (·.2 != owed)
    heard := session.heard ++ [owed] }

/-- A Stop of every run is kept as a Stop of this card's run, where it is live and not the one resumed. -/
def split (owed : OwedStop) (place : Nat) (resumed : Option String) (session : Session) (card : String × Bool) :
    Session :=
  if some card.1 == resumed || !card.2 then session
  else
    { session with
      stops := session.stops ++ [{ run := some card.1, origin := some (owed.origin.getD place)
                                   time := owed.time, resent := false }]
      unanswered := session.unanswered ++ [session.stops.length] }

def undoStop (resumed : Option String) (session : Session) (place : Nat) : Session :=
  match session.stops[place]? with
  | none => session
  | some owed =>
    if resumed.isSome && owed.run.isSome && owed.run != resumed then session
    else
      let session : Session := { session with unanswered := session.unanswered.filter (· != place) }
      if resumed.isNone || owed.run.isSome then session
      else session.cards.foldl (split owed place resumed) session

/-- A Resume the client answered undoes the Stops it never answered, for the runs the Resume covers.  What
is split from them on the way is of other runs, and passed over. -/
def undoStops (session : Session) (resumed : Option String) : Session :=
  session.unanswered.foldl (undoStop resumed) session

/-- How the wait for an answer ends. -/
inductive Ending
  | ok
  | refused
  | unanswered
  | closed
  deriving DecidableEq

/-- What a command does once its wait has ended. -/
def finish (session : Session) (command : Command) (ending : Ending) : Session :=
  match command.owed, ending with
  | some owed, .ok => (session.answered owed).resolve command.request .done
  | some owed, ending =>
    if session.marked.contains owed then session.resolve command.request .held
    else
      match ending with
      | .refused => (session.answered owed).resolve command.request .failed
      | .unanswered => session.resolve command.request .unconfirmed
      | _ => session.resolve command.request .failed
  | none, .ok =>
    { session.undoStops command.run with resumes := session.resumes ++ [command.request] }
  | none, _ => session

/-- A new Stop of the client's runs, which is owed from here on. -/
def owe (session : Session) (run : Option String) (resent : Bool) : Session :=
  { session with
    stops := session.stops ++ [{ run, origin := none, time := session.clock, resent }]
    unanswered := session.unanswered ++ [session.stops.length]
    told := session.told ++ [{ run, time := session.clock, outcome := none }]
    clock := session.clock + 1 }

/-- Stops the client's runs; `reaches` is whether the link takes the request. -/
def stop (session : Session) (run : Option String) (reaches resent : Bool) : Session :=
  if session.suspended then
    { session.hold run with
      told := session.told ++ [{ run, time := session.clock, outcome := some .held }]
      clock := session.clock + 1 }
  else
    let owed := session.stops.length
    let request := session.clock
    let session := session.owe run resent
    if session.linked && reaches then
      { session with
        controls := session.controls ++ [{ request, action := .stop, run, owed := some owed }]
        requests := session.requests ++ [(request, owed)] }
    else session.resolve request .failed

/-- Resumes the client's runs.  A Resume cannot be promised, so it is refused while the link is down. -/
def resume (session : Session) (run : Option String) (reaches : Bool) : Session :=
  if session.suspended || !session.linked || !reaches then { session with clock := session.clock + 1 }
  else
    { session with
      controls := session.controls ++ [{ request := session.clock, action := .resume, run, owed := none }]
      clock := session.clock + 1 }

/-- The client answers a control, in time or late. -/
def result (session : Session) (request : Nat) (ok : Bool) : Session :=
  let waiting := session.controls.find? (·.request == request)
  let session : Session := { session with controls := session.controls.filter (·.request != request) }
  let session :=
    if session.late.contains request then
      let session : Session := { session with late := session.late.filter (· != request) }
      match session.requests.lookup request with
      | some owed => session.answered owed
      | none => session
    else session
  match waiting with
  | some command => session.finish command (if ok then .ok else .refused)
  | none => session

/-- A control that is remembered, to hear its late answer, and the oldest forgotten past the limit. -/
def remember (session : Session) (request : Nat) : Session :=
  let late := session.late ++ [request]
  { session with late := if MAX_LATE_CONTROLS < late.length then late.drop 1 else late }

/-- The wait for an answer runs out. -/
def timeout (session : Session) (request : Nat) : Session :=
  match session.controls.find? (·.request == request) with
  | none => session
  | some command =>
    let session : Session := { session with controls := session.controls.filter (·.request != request) }
    (session.remember request).finish command .unanswered

/-- A Stop that is owed is held, and marked with the one it stands for. -/
def keep (session : Session) (place : Nat) : Session :=
  match session.stops[place]? with
  | none => session
  | some owed => ({ session with marked := session.marked ++ [place] ++ owed.origin.toList } : Session).hold owed.run

/-- The link dropped unexpectedly and the session waits for its client to come back. -/
def suspend (session : Session) : Session :=
  let session : Session := { session with suspended := session.suspended || !session.stopping }
  let session := session.unanswered.foldl keep session
  { session with unanswered := [], requests := [] }

/-- The link suspends: its sessions first, then the controls that wait on it. -/
def drop (session : Session) : Session :=
  let waiting := session.controls
  let session : Session := { session.suspend with linked := false, controls := [], late := [] }
  waiting.foldl (fun session command ↦ session.finish command .closed) session

/-- The client is back on another link. -/
def rebind (session : Session) : Session := { session with linked := true, suspended := false }

/-- Gives the client each Stop held while its link was down, once. -/
def deliverHeldStops (session : Session) (reaches : Nat → Bool) : Session :=
  session.held.foldl (fun session run ↦ session.stop run (reaches session.clock) true) { session with held := [] }

end Session

end Chopin.Remote
