import Mathlib.Algebra.Order.Ring.Rat
import Chopin.Lib.Entries
import Chopin.Lib.Spaces

/-!
# The check of the Planner's replies

The Planner may not ask for input in the chat.  What it writes there is held back until the whole message has
been judged (`chat/reply-policy.ts`); a turn with a withheld message is repeated once, and when that
withholds one as well, a fixed summary of the decisions it captured stands in for it.

The code waits at every part of the stream and at every judgement, and anything may happen meanwhile.
`Await` is what did: the outside signal was aborted, or a judgement arrived.  Both are given by the number of the
wait.  The prompt of the second turn is its data, without the sentences around it.
-/

set_option autoImplicit false

open Script

namespace Chopin.Chat

export Script (Units)

/-- A part of a turn's stream.  `detail` is a tool part's JSON. -/
inductive Part where
  | textStart (id : String)
  | textDelta (id : String) (text : Units)
  | textEnd (id : String)
  | tool (detail : Units)
  | error
  | abort
  | other (type : String)
deriving DecidableEq

/-- What a judge gives: a number, which may not be finite, an answer of another shape, or an exception. -/
inductive Answer where
  | noul (value : Option Rat)
  | other
  | throws
deriving DecidableEq

/-- What happens while the code waits. -/
structure Await where
  stopped : Bool
  answer : Answer

/-- A turn's stream: its parts, and whether it ends with an exception. -/
structure Stream where
  parts : List Part
  fails : Bool

inductive Prompt where
  | original (text : Units)
  | repair (original : Units) (withheld tools : List Units) (truncated : Bool)

structure Options where
  session : Prompt → Stream
  prompt : Units
  /-- The signal that was given is aborted already. -/
  aborted : Bool
  /-- There is a judge. -/
  decide : Bool
  capturedDecisions : Option Nat
  keptDecisions : Option Nat
  uuid : String
  await : Nat → Await

inductive Failure where
  /-- `PlannerReplyError(UNVERIFIED)` -/
  | unverified
  /-- `Error("Chopin's reply failed. Try again.")` -/
  | replyFailed
  /-- What the session or its stream threw. -/
  | session
  /-- `PlannerReplyError("Chopin could not move its questions into inline decisions. Try again.")` -/
  | unmoved
deriving DecidableEq

inductive Effect where
  | publish (part : Part)
  | judge (id : String) (text : Units) (answer : Answer)
  /-- The signal is aborted, from outside or for a failure. -/
  | stop
  | fail (failure : Failure)
deriving DecidableEq

structure State where
  clock : Nat
  stopped : Bool
  log : List Effect
  failure : Option Failure
  rejected : Bool
  messages : List (String × Units)
  withheld : List Units
  withheldLength : Nat
  tools : List Units
  toolsLength : Nat
  toolsTruncated : Bool

def MAX_REPLY : Nat := 24000
def MAX_TOOL : Nat := 4000
def MAX_TOOLS : Nat := 16000

/-- The double `0.1`. -/
def ALLOWED : Rat := 3602879701896397 / 36028797018963968

/-- The units a character of a string takes in JSON. -/
def jsonUnits (point : Nat) : Nat :=
  if point = 0x22 ∨ point = 0x5c ∨ point ∈ [0x8, 0x9, 0xa, 0xc, 0xd] then 2
  else if point < 0x20 ∨ (0xd800 ≤ point ∧ point < 0xe000) then 6
  else pointUnits point

/-- `JSON.stringify({ reply: text }).length` -/
def replyLength (text : Units) : Nat := 12 + ((points text).map jsonUnits).sum

/-- The answer authorizes publication. -/
def Answer.allows : Answer → Bool
  | .noul (some value) => 0 ≤ value && value ≤ 1 && value ≤ ALLOWED
  | _ => false

/-- The answer is one the check understands. -/
def Answer.valid : Answer → Bool
  | .noul (some value) => 0 ≤ value && value ≤ 1
  | _ => false

def State.emit (s : State) (effects : List Effect) : State := { s with log := s.log ++ effects }

/-- `controller.abort()`, or the abort of the signal that was given. -/
def State.stop (s : State) : State :=
  if s.stopped then s else { s with stopped := true, log := s.log ++ [.stop] }

def State.tick (s : State) : State := { s with clock := s.clock + 1 }

def wait (options : Options) (s : State) : State :=
  if (options.await s.clock).stopped then s.tick.stop else s.tick

def checkPlannerReply (options : Options) (id : String) (text : Units) (s : State) :
    Except Failure Bool × State :=
  if s.stopped then (.ok false, s)
  else if options.decide = false ∨ MAX_REPLY < replyLength text then (.error .unverified, s)
  else
    let answer := (options.await s.clock).answer
    let s := wait options (s.emit [.judge id text answer])
    if s.stopped then (.ok false, s)
    else if answer.valid then (.ok answer.allows, s)
    else (.error .unverified, s)

/-- `messages.delete(id)` -/
def State.forget (s : State) (id : String) : State := { s with messages := Entries.delete s.messages id }

/-- A message has ended: it is judged, and then published whole or withheld. -/
def flush (options : Options) (id : String) (s : State) : Except Failure Unit × State :=
  let text := (s.messages.lookup id).getD []
  let s := s.forget id
  if trimUnits text = [] ∨ s.stopped then (.ok (), s)
  else
    let (verdict, s) := checkPlannerReply options id text s
    let s := wait options s
    match verdict with
    | .error failure => (.error failure, s)
    | .ok allowed =>
      if s.stopped then (.ok (), s)
      else if allowed then
        (.ok (), s.emit [.publish (.textStart id), .publish (.textDelta id text), .publish (.textEnd id)])
      else
        let retained := text.take (MAX_REPLY - s.withheldLength)
        (.ok (), { s with
          rejected := true
          withheld := if retained = [] then s.withheld else s.withheld ++ [retained]
          withheldLength := s.withheldLength + retained.length })

/-- A failure aborts the turn; its stream is still consumed. -/
def State.fail (s : State) (failure : Failure) : State :=
  { (s.emit [.fail failure]).stop with failure := s.failure.or (some failure) }

/-- A tool part goes into the bounded transcript. -/
def State.transcribe (s : State) (detail : Units) : State :=
  let retained := detail.take MAX_TOOL
  let s :=
    if s.toolsLength + retained.length ≤ MAX_TOOLS then
      { s with tools := s.tools ++ [retained], toolsLength := s.toolsLength + retained.length }
    else { s with toolsTruncated := true }
  if retained.length < detail.length then { s with toolsTruncated := true } else s

/-- One part of the stream, after the wait for it. -/
def take (options : Options) (s : State) (part : Part) : State :=
  let s := wait options s
  if s.stopped then s
  else
    match part with
    | .textStart id => { s with messages := Entries.set s.messages id [] }
    | .textDelta id text =>
      let text := (s.messages.lookup id).getD [] ++ text
      if MAX_REPLY < text.length then s.fail .unverified
      else { s with messages := Entries.set s.messages id text }
    | .textEnd id =>
      match flush options id s with
      | (.error failure, s) => s.fail failure
      | (.ok _, s) => s
    | .error => s.fail .replyFailed
    | .abort => s.fail .replyFailed
    | .tool detail => (s.transcribe detail).emit [.publish part]
    | .other _ => s.emit [.publish part]

/-- The messages that are open when the stream ends, in the order of the map. -/
def flushAll (options : Options) : List String → State → Except Failure Unit × State
  | [], s => (.ok (), s)
  | id :: rest, s =>
    match flush options id s with
    | (.error failure, s) => (.error failure, s.fail failure)
    | (.ok _, s) => flushAll options rest (wait options s)

/-- A turn: its stream to the end, and then what is still open. -/
def attempt (options : Options) (prompt : Prompt) (s : State) : Except Failure Unit × State :=
  let stream := options.session prompt
  let s := wait options (stream.parts.foldl (take options)
    { s with rejected := false, messages := [], failure := none })
  let s := if stream.fails then s.fail .session else s
  match s.failure with
  | some failure => (.error failure, s)
  | none => if s.stopped then (.ok (), s) else flushAll options (s.messages.map (·.1)) s

/-- The number is a positive safe integer. -/
def counts (number : Option Nat) : Option Nat := number.filter fun value ↦ 0 < value && value ≤ 9007199254740991

/-- The fixed summary of what the Planner captured or repeated. -/
def summary (options : Options) : Option Units :=
  match counts options.capturedDecisions, counts options.keptDecisions with
  | some count, _ =>
    some (utf16 "Added " ++ utf16 (toString count) ++ utf16 " inline " ++
      utf16 (if count = 1 then "decision" else "decisions") ++ utf16 " to the document.")
  | none, some kept =>
    some (utf16 (toString kept) ++ utf16 " inline " ++
      utf16 (if kept = 1 then "decision is" else "decisions are") ++ utf16 " already in the document.")
  | none, none => none

def initial (options : Options) : State :=
  { clock := 0, stopped := options.aborted, log := if options.aborted then [.stop] else [], failure := none,
    rejected := false, messages := [], withheld := [], withheldLength := 0, tools := [], toolsLength := 0,
    toolsTruncated := false }

/-- Neither attempt had every message allowed. -/
def summarize (options : Options) (s : State) : Except Failure Unit × State :=
  if s.stopped then (.ok (), s)
  else
    match summary options with
    | some text =>
      (.ok (), s.emit [.publish (.textStart options.uuid), .publish (.textDelta options.uuid text),
        .publish (.textEnd options.uuid)])
    | none => (.error .unmoved, s.emit [.fail .unmoved])

/-- One pass of the loop, and what follows it unless it returns. -/
def attempted (options : Options) (prompt : Prompt) (next : State → Except Failure Unit × State) (s : State) :
    Except Failure Unit × State :=
  if s.stopped then (.ok (), s)
  else
    match attempt options prompt s with
    | (.error failure, s) => (.error failure, s)
    -- An aborted turn returns; what follows returns at once as well then.
    | (.ok _, s) => if s.rejected then next s else (.ok (), s)

def publishPlannerReplies (options : Options) : Except Failure Unit × State :=
  attempted options (.original options.prompt)
    (fun s ↦ attempted options (.repair options.prompt s.withheld s.tools s.toolsTruncated) (summarize options) s)
    (initial options)

end Chopin.Chat
