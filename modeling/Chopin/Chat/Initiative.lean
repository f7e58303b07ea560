import Chopin.Lib.Entries
import Chopin.Lib.Runs

/-!
# When the Planner joins a conversation

A contribution to the chat is one opportunity for the Planner to join in (`chat/initiative-schedule.ts`).
It waits until nobody has typed for a while, is judged, and is dispatched if the judgement says so.  A
newer contribution replaces it, and it lapses after five minutes.

The schedule lives between timers and awaits: a check asks a judge and then waits for the Planner's turn,
and anything else may happen meanwhile.  Opportunities and abort controllers are objects compared by
identity, so each carries the number it was made with.  Synchronous code takes no time.
-/

set_option autoImplicit false

namespace Chopin.Chat

def SOLO_SILENCE_MS : Nat := 1500
def GROUP_SILENCE_MS : Nat := 15000
def TYPING_LEASE_MS : Nat := 6000
def PARTICIPANT_WINDOW_MS : Nat := 120000
def OPPORTUNITY_LIFETIME_MS : Nat := 300000

/-- One ephemeral, replaceable opportunity to join a human conversation. -/
structure Contribution (τ : Type) where
  id : String
  actor : String
  value : τ
  deriving DecidableEq

structure TurnContext where
  group : Bool
  quiet : Bool
  paused : Bool
  deriving DecidableEq

inductive Move
  | respond
  | direct
  deriving DecidableEq

inductive TurnDecision
  | move (move : Move)
  | yield
  deriving DecidableEq

/-- What `admit` answers. -/
inductive Admission
  | ready
  | wait
  | drop
  deriving DecidableEq

structure Opportunity (τ : Type) where
  serial : Nat
  contribution : Contribution τ
  «at» : Nat
  quietSince : Nat
  yielded : Bool
  controller : Option Nat
  running : Bool
  deriving DecidableEq

structure Lease where
  actor : String
  expires : Nat
  deriving DecidableEq

/-- The quiet a contribution waits for: `options.soloMs`, `options.groupMs`. -/
structure Silence where
  soloMs : Nat
  groupMs : Nat

def Silence.default : Silence := { soloMs := SOLO_SILENCE_MS, groupMs := GROUP_SILENCE_MS }

inductive CheckPhase
  /-- It waits for the judge, which was told of this turn. -/
  | judging (turn : TurnContext)
  /-- It waits for the Planner's turn to end. -/
  | dispatching (move : Move)
  deriving DecidableEq

/-- A check that waits for an answer. -/
structure Check where
  opportunity : Nat
  controller : Nat
  phase : CheckPhase
  /-- Its turn was reported to start while it was current. -/
  started : Bool
  deriving DecidableEq

def Check.dispatches (check : Check) : Bool :=
  match check.phase with
  | .dispatching _ => true
  | .judging _ => false

structure Dispatch (τ : Type) where
  opportunity : Nat
  contribution : Contribution τ
  move : Move
  deriving DecidableEq

/-- What happened, for what is said about it. -/
structure Log (τ : Type) where
  /-- The latest contribution taken and when, unless it was withdrawn since. -/
  latest : Option (Contribution τ × Nat)
  /-- When somebody last started or stopped typing as it waited, or else when it came. -/
  heard : Nat
  dispatches : List (Dispatch τ)
  /-- Dispatches whose turn ended well: they resolved `true`, and were not aborted before they began. -/
  succeeded : List Nat
  deriving DecidableEq

structure Schedule (τ : Type) where
  now : Nat
  pending : Option (Opportunity τ)
  /-- The controller of the dispatch at work. -/
  active : Option Nat
  /-- When the timer goes off. -/
  timer : Option Nat
  paused : Bool
  closed : Bool
  seen : List String
  participants : List (String × Nat)
  typing : List (String × Lease)
  /-- The controllers that were aborted. -/
  aborted : List Nat
  checks : List Check
  /-- The number of the next object. -/
  next : Nat
  log : Log τ
  deriving DecidableEq

namespace Schedule

variable {τ : Type}

def create (paused : Bool) (now : Nat) : Schedule τ :=
  { now, pending := none, active := none, timer := none, paused, closed := false, seen := []
    participants := [], typing := [], aborted := [], checks := [], next := 0
    log := { latest := none, heard := now, dispatches := [], succeeded := [] } }

/-! ## Small functions -/

def prune (s : Schedule τ) : Schedule τ :=
  { s with
    participants := s.participants.filter fun entry ↦ s.now - entry.2 < PARTICIPANT_WINDOW_MS
    typing := s.typing.filter fun entry ↦ s.now < entry.2.expires }

/-- Whether more than one person takes part, in a schedule that was pruned. -/
def group (s : Schedule τ) : Bool :=
  1 < (Entries.distinct (s.participants.map (·.1) ++ s.typing.map (·.2.actor))).length

/-- The silence an opportunity waits for. -/
def silence (c : Silence) (s : Schedule τ) (quiet : Bool) : Nat :=
  if quiet && !s.paused then c.groupMs else c.soloMs

/-- When an opportunity has waited long enough, in a schedule that was pruned. -/
def due (c : Silence) (s : Schedule τ) (opportunity : Opportunity τ) (quiet : Bool) : Nat :=
  s.typing.foldl (fun «at» entry ↦ max «at» (entry.2.expires + silence c s quiet))
    (opportunity.quietSince + silence c s quiet)

def clearTimer (s : Schedule τ) : Schedule τ := { s with timer := none }

/-- `arm(delay)`: the timer is set anew, if an opportunity waits for it. -/
def arm (c : Silence) (s : Schedule τ) (delay : Option Nat) : Schedule τ :=
  let s := s.clearTimer
  match s.pending with
  | none => s
  | some opportunity =>
    if s.closed || opportunity.controller.isSome then s
    else
      let expires := opportunity.at + OPPORTUNITY_LIFETIME_MS
      match delay with
      | some delay => { s with timer := some (s.now + max 1 (min expires (s.now + delay) - s.now)) }
      | none =>
        let s := s.prune
        { s with timer := some (s.now + max 1 (min expires (due c s opportunity opportunity.yielded) - s.now)) }

/-- The opportunity a check is still right to act on. -/
def current (s : Schedule τ) (check : Check) : Option (Opportunity τ) :=
  if s.closed then none
  else s.pending.filter fun opportunity ↦
    opportunity.serial == check.opportunity && opportunity.controller == some check.controller
      && !s.aborted.contains check.controller && s.now - opportunity.at < OPPORTUNITY_LIFETIME_MS

/-- `controller?.abort()` -/
def abort (s : Schedule τ) (controller : Option Nat) : Schedule τ :=
  { s with aborted := controller.toList ++ s.aborted }

/-! ## What the chat calls -/

def cancel (s : Schedule τ) : Schedule τ :=
  let s := s.clearTimer
  let s := s.abort (s.pending.bind (·.controller))
  let s := s.abort s.active
  { s with pending := none, log := { s.log with latest := none } }

/-- The set without its first value once it holds more than `size`. -/
def bounded {α : Type} (values : List α) (size : Nat) : List α :=
  if size < values.length then values.tail else values

def receive (c : Silence) (s : Schedule τ) (contribution : Contribution τ) : Schedule τ :=
  if s.closed || s.seen.contains contribution.id then s
  else
    let s := { s with seen := bounded (s.seen ++ [contribution.id]) 128 }.prune
    let participants := Entries.delete s.participants contribution.actor ++ [(contribution.actor, s.now)]
    let s := { s with participants := bounded participants 32 }.cancel
    arm c
      { s with
        pending := some
          { serial := s.next, contribution, «at» := s.now, quietSince := s.now, yielded := false
            controller := none, running := false }
        next := s.next + 1
        log := { s.log with latest := some (contribution, s.now), heard := s.now } }
      none

/-- An opportunity whose turn has not begun waits again, from now. -/
def interrupt (c : Silence) (s : Schedule τ) : Schedule τ :=
  match s.pending with
  | some opportunity =>
    if opportunity.running then s
    else
      let s := s.abort opportunity.controller
      arm c
        { s with
          pending := some { opportunity with quietSince := s.now, controller := none }
          log := { s.log with heard := s.now } }
        none
  | none => s

/-- `typing(client, actor, isTyping)` -/
def hearTyping (c : Silence) (s : Schedule τ) (client actor : String) (isTyping : Bool) : Schedule τ :=
  if s.closed then s
  else
    let s := s.prune
    if isTyping then
      if (s.typing.lookup client).isNone && 64 ≤ s.typing.length then s
      else
        interrupt c
          { s with typing := Entries.set s.typing client { actor, expires := s.now + TYPING_LEASE_MS } }
    else interrupt c { s with typing := Entries.delete s.typing client }

def depart (c : Silence) (s : Schedule τ) (client : String) : Schedule τ :=
  arm c { s with typing := Entries.delete s.typing client } none

def replied (s : Schedule τ) : Schedule τ := { s with participants := [] }

def pause (s : Schedule τ) (value : Bool) : Schedule τ := { s with paused := value }.cancel

def close (s : Schedule τ) : Schedule τ :=
  { { s with closed := true }.cancel with typing := [], participants := [], seen := [] }

/-! ## A check -/

/-- The opportunity is used up. -/
def consume (s : Schedule τ) : Schedule τ := { s with pending := none }

/-- A timer went off: `check()` up to its first await, with what `admit` answers. -/
def begin (c : Silence) (s : Schedule τ) (admission : Admission) : Schedule τ :=
  match s.pending with
  | none => s
  | some opportunity =>
    if s.closed || opportunity.controller.isSome then s
    else if OPPORTUNITY_LIFETIME_MS ≤ s.now - opportunity.at then s.consume
    else
      let s := s.prune
      if s.now < due c s opportunity opportunity.yielded then arm c s none
      else if admission = .drop then s.consume
      else if admission = .wait ∨ s.active.isSome then arm c s (some 1000)
      else
        let turn : TurnContext :=
          { group := s.group, quiet := due c s opportunity true ≤ s.now, paused := s.paused }
        { s with
          pending := some { opportunity with controller := some s.next }
          checks := s.checks ++
            [{ opportunity := opportunity.serial, controller := s.next, phase := .judging turn
               started := false }]
          next := s.next + 1 }

/-- The end of a check, its `finally`. -/
def finish (c : Silence) (s : Schedule τ) (check : Check) : Schedule τ :=
  arm c
    { s with
      checks := s.checks.filter (·.controller != check.controller)
      active := s.active.filter (· != check.controller)
      pending := s.pending.map fun opportunity ↦
        if opportunity.serial = check.opportunity ∧ opportunity.controller = some check.controller then
          { opportunity with controller := none, running := false }
        else opportunity }
    none

/-- The opportunity gives way to others, and waits for the room to be quiet. -/
def yields (s : Schedule τ) : Schedule τ :=
  { s with pending := s.pending.map fun opportunity ↦ { opportunity with yielded := true } }

/-- The dispatch of the opportunity begins. -/
def dispatch (s : Schedule τ) (check : Check) (opportunity : Opportunity τ) (move : Move) : Schedule τ :=
  { s with
    active := some check.controller
    checks := s.checks.map fun other ↦
      if other.controller = check.controller then { other with phase := .dispatching move } else other
    log := { s.log with
      dispatches := s.log.dispatches ++
        [{ opportunity := opportunity.serial, contribution := opportunity.contribution, move }] } }

/-- The judge answered, or threw: `check()` from its first await to the next, with what `admit` answers
then, if it does not throw either. -/
def judge (c : Silence) (s : Schedule τ) (check : Check) (turn : TurnContext)
    (decision : Except Unit (Option TurnDecision)) (fresh : Except Unit Admission) : Schedule τ :=
  match s.current check with
  | none => s.finish c check
  | some opportunity =>
    match decision with
    | .error _ => s.consume.finish c check
    | .ok decision =>
      if decision = some .yield ∧ turn.group ∧ !turn.quiet ∧ !s.paused then s.yields.finish c check
      else
        match decision with
        | none | some .yield => s.consume.finish c check
        | some (.move move) =>
          if s.paused ∧ move ≠ .direct then s.consume.finish c check
          else if s.prune.now < due c s.prune opportunity opportunity.yielded then s.prune.finish c check
          else
            match fresh with
            | .error _ | .ok .drop => s.prune.consume.finish c check
            | .ok .wait => s.prune.finish c check
            | .ok .ready => s.prune.dispatch check opportunity move

/-- The Planner's turn is reported to begin. -/
def started (s : Schedule τ) (check : Check) : Schedule τ :=
  match s.current check with
  | none => s
  | some opportunity =>
    { s with
      pending := some { opportunity with running := true }
      checks := s.checks.map fun other ↦
        if other.controller = check.controller then { other with started := true } else other }

/-- The dispatch is over: it resolved, or threw. -/
def dispatched (c : Silence) (s : Schedule τ) (check : Check) (result : Except Unit Bool) : Schedule τ :=
  let succeeded := result = .ok true ∧ (check.started ∨ check.controller ∉ s.aborted)
  let s := if succeeded then
      { s with log := { s.log with succeeded := check.opportunity :: s.log.succeeded } }
    else s
  if (s.current check).isSome ∧ result ≠ .ok false then s.consume.finish c check
  else s.finish c check

/-! ## Steps -/

inductive Act (τ : Type)
  | pass (ms : Nat)
  | receive (contribution : Contribution τ)
  | typing (client actor : String) (isTyping : Bool)
  | depart (client : String)
  | replied
  | cancel
  | pause (value : Bool)
  | close
  | fire (admission : Admission)
  | judged (controller : Nat) (decision : Except Unit (Option TurnDecision)) (fresh : Except Unit Admission)
  | started (controller : Nat)
  | dispatched (controller : Nat) (result : Except Unit Bool)

/-- The check that waits with this controller. -/
def waiting (s : Schedule τ) (controller : Nat) : Option Check :=
  s.checks.find? (·.controller == controller)

def step (c : Silence) (s : Schedule τ) : Act τ → Option (Schedule τ)
  | .pass ms => some { s with now := s.now + ms }
  | .receive contribution => some (s.receive c contribution)
  | .typing client actor isTyping => some (s.hearTyping c client actor isTyping)
  | .depart client => some (s.depart c client)
  | .replied => some s.replied
  | .cancel => some s.cancel
  | .pause value => some (s.pause value)
  | .close => some s.close
  | .fire admission => if s.timer.isSome then some (s.clearTimer.begin c admission) else none
  | .judged controller decision fresh =>
    match s.waiting controller with
    | some check =>
      match check.phase with
      | .judging turn => some (s.judge c check turn decision fresh)
      | .dispatching _ => none
    | none => none
  | .started controller =>
    match s.waiting controller with
    | some check =>
      match check.phase with
      | .dispatching _ => some (s.started check)
      | .judging _ => none
    | none => none
  | .dispatched controller result =>
    match s.waiting controller with
    | some check =>
      match check.phase with
      | .dispatching _ => some (s.dispatched c check result)
      | .judging _ => none
    | none => none

end Schedule

end Chopin.Chat
