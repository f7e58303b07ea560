import Chopin.Lib.Entries
import Mathlib.Algebra.GroupWithZero.Nat
import Mathlib.Data.Set.Defs

/-!
# The browser's outbox of plan updates

A Yjs provider over the room's connection (`packages/editor/src/provider.ts`).  Local updates go into an
outbox, leave it merged and paced, and stay in it until the server acknowledges them.  What the document
and its awareness say is not followed here, only what becomes of the updates.

The timers are whether they are set: the callback of one that is set may run at any time.  The frames that
the wire was given are kept in `sent`, which no code reads.
-/

set_option autoImplicit false

namespace Chopin.Editor

def MAX_OUTBOX_BYTES : Nat := 2 * 1024 * 1024
def MAX_OUTBOX_ITEMS : Nat := 1000
def RESEND_MS : Nat := 2000
def MAX_RESEND_MS : Nat := 30000
def MAX_SENDS : Nat := 5
def MERGE_BYTES : Nat := 64 * 1024

/-- Updates, with the edits each of them holds. -/
structure Yjs (U E : Type) where
  mergeUpdates : List U → U
  byteLength : U → Nat
  edits : U → Set E

/-- The name of an outbox entry: `<time>-<counter>`, or `merged-<counter>`.  No count is used twice. -/
inductive Id
  | made (time : Nat) (counter : Nat)
  | merged (counter : Nat)
  deriving DecidableEq

def Id.counter : Id → Nat
  | .made _ counter => counter
  | .merged counter => counter

structure Provider (U : Type) where
  /-- Updates sent but not yet acknowledged, replayed after a reconnect. -/
  outbox : List (Id × U)
  outboxBytes : Int
  /-- Outbox entries waiting for the current send interval to end. -/
  unsent : List Id
  /-- Outbox entries already outstanding when the resend timer last fired. -/
  overdue : List Id
  /-- How often each outbox entry has been sent since the last open. -/
  sends : List (Id × Nat)
  resendDelay : Nat
  pacing : Bool
  resending : Bool
  epoch : Option String
  synced : Bool
  connected : Bool
  opening : Bool
  counter : Nat
  generation : Nat
  /-- Every frame that was given to the wire. -/
  sent : List (Id × U)

variable {U E : Type}

def Provider.new : Provider U where
  outbox := []
  outboxBytes := 0
  unsent := []
  overdue := []
  sends := []
  resendDelay := RESEND_MS
  pacing := false
  resending := false
  epoch := none
  synced := false
  connected := false
  opening := false
  counter := 0
  generation := 0
  sent := []

namespace Provider

/-- `this.#sends.get(id) ?? 0` -/
def sendsOf (provider : Provider U) (id : Id) : Nat := (provider.sends.lookup id).getD 0

/-- The ids in the outbox. -/
def ids (provider : Provider U) : List Id := provider.outbox.map (·.1)

/-- The backlog has grown past the point of holding it item by item. -/
def saturated (provider : Provider U) : Bool :=
  decide ((MAX_OUTBOX_BYTES : Int) ≤ provider.outboxBytes) || decide (MAX_OUTBOX_ITEMS ≤ provider.outbox.length)

/-! ## Merging -/

/-- One id more: it joins the last group, whose size is beside the groups, or starts one. -/
def group (yjs : Yjs U E) (provider : Provider U) (groups : List (List Id) × Nat) (id : Id) :
    List (List Id) × Nat :=
  match provider.outbox.lookup id with
  | none => groups
  | some update =>
    let bytes := yjs.byteLength update
    match groups.1.getLast? with
    | none => (groups.1 ++ [[id]], bytes)
    | some last =>
      if MERGE_BYTES < groups.2 + bytes then (groups.1 ++ [[id]], bytes)
      else (groups.1.dropLast ++ [last ++ [id]], groups.2 + bytes)

/-- The outbox entries under these ids, in groups of at most `MERGE_BYTES` or of one. -/
def groups (yjs : Yjs U E) (provider : Provider U) (ids : List Id) : List (List Id) :=
  (ids.foldl (group yjs provider) ([], 0)).1

/-- The entries of a group as one under a fresh id, which is waiting when one of them was and counts as sent
as often as any of them. -/
def joined (yjs : Yjs U E) (provider : Provider U) (group : List Id) : Provider U :=
  let updates := group.filterMap fun id ↦ provider.outbox.lookup id
  let merged := yjs.mergeUpdates updates
  let id := Id.merged provider.counter
  let sends := (group.map provider.sendsOf).foldl max 0
  let left := provider.sends.filter fun entry ↦ !group.contains entry.1
  { provider with
    counter := provider.counter + 1
    outbox := Entries.set (provider.outbox.filter fun entry ↦ !group.contains entry.1) id merged
    outboxBytes := provider.outboxBytes - ((updates.map yjs.byteLength).sum : Nat) + yjs.byteLength merged
    unsent := (provider.unsent.filter fun waiting ↦ !group.contains waiting) ++
      if group.any provider.unsent.contains then [id] else []
    overdue := provider.overdue.filter fun due ↦ !group.contains due
    sends := if 0 < sends then Entries.set left id sends else left }

/-- A group of one stays as it is. -/
def mergeGroup (yjs : Yjs U E) (provider : Provider U) (group : List Id) : Provider U × Id :=
  match group with
  | [id] => (provider, id)
  | _ => (joined yjs provider group, .merged provider.counter)

def mergeGroups (yjs : Yjs U E) (provider : Provider U) : List (List Id) → Provider U × List Id
  | [] => (provider, [])
  | group :: rest =>
    let one := mergeGroup yjs provider group
    let others := mergeGroups yjs one.1 rest
    (others.1, one.2 :: others.2)

/-- Replace outbox entries with as few merged ones as stay under `MERGE_BYTES`, with the ids that now hold
them. -/
def merge (yjs : Yjs U E) (provider : Provider U) (ids : List Id) : Provider U × List Id :=
  mergeGroups yjs provider (groups yjs provider ids)

/-- Collapse the backlog. -/
def coalesce (yjs : Yjs U E) (provider : Provider U) : Provider U := (merge yjs provider provider.ids).1

/-! ## Sending -/

def armResend (provider : Provider U) : Provider U := { provider with resending := true }

/-- Send one update. -/
def send (provider : Provider U) (id : Id) : Provider U :=
  match provider.epoch, provider.outbox.lookup id with
  | some _, some update =>
    armResend { provider with
      sent := provider.sent ++ [(id, update)]
      sends := Entries.set provider.sends id (provider.sendsOf id + 1) }
  | _, _ => provider

/-- Send what this interval produced, and hold anything newer until it ends. -/
def flush (yjs : Yjs U E) (provider : Provider U) : Provider U :=
  if provider.epoch.isNone || provider.unsent.isEmpty then provider
  else
    let merged := merge yjs provider provider.unsent
    { merged.2.foldl send { merged.1 with unsent := [] } with pacing := true }

/-- The pacing timer fires. -/
def paced (yjs : Yjs U E) (provider : Provider U) : Provider U := flush yjs { provider with pacing := false }

/-- A new outbox entry, which waits. -/
def add (yjs : Yjs U E) (provider : Provider U) (time : Nat) (update : U) : Provider U :=
  let id := Id.made time provider.counter
  { provider with
    counter := provider.counter + 1
    outbox := Entries.set provider.outbox id update
    outboxBytes := provider.outboxBytes + yjs.byteLength update
    unsent := provider.unsent ++ [id] }

/-- A local update of the document (`#local`), unless the provider is not attached. -/
def note (yjs : Yjs U E) (provider : Provider U) (time : Nat) (update : U) : Provider U :=
  if !provider.connected then provider
  else
    let provider := add yjs provider time update
    let provider := if provider.saturated then coalesce yjs provider else provider
    if provider.pacing then provider else flush yjs provider

/-- `for (let id of this.#merge(ids)) this.#send(id)` -/
def sendMerged (yjs : Yjs U E) (provider : Provider U) (ids : List Id) : Provider U :=
  let merged := merge yjs provider ids
  merged.2.foldl send merged.1

/-- The entries that were outstanding a whole interval ago are sent, merged. -/
def again (yjs : Yjs U E) (provider : Provider U) : Provider U :=
  let overdue := provider.ids.filter fun id ↦
    provider.overdue.contains id && !provider.unsent.contains id && decide (provider.sendsOf id < MAX_SENDS)
  if overdue.isEmpty then provider
  else sendMerged yjs { provider with resendDelay := min (provider.resendDelay * 2) MAX_RESEND_MS } overdue

/-- Send again whatever has gone a whole interval without an acknowledgement. -/
def resend (yjs : Yjs U E) (provider : Provider U) : Provider U :=
  let provider : Provider U := { provider with resending := false }
  if !provider.connected || !provider.synced || provider.epoch.isNone then { provider with overdue := [] }
  else
    let provider := again yjs provider
    let provider : Provider U := { provider with overdue := provider.ids }
    if provider.ids.any fun id ↦ decide (provider.sendsOf id < MAX_SENDS) then armResend provider else provider

/-- Stop resending what is outstanding now. -/
def park (provider : Provider U) : Provider U :=
  { provider with
    sends := provider.ids.foldl (fun sends id ↦
      if provider.unsent.contains id then sends else Entries.set sends id MAX_SENDS) provider.sends }

/-- An acknowledgement. -/
def settle (yjs : Yjs U E) (provider : Provider U) (id : Id) : Provider U :=
  match provider.outbox.lookup id with
  | none => provider
  | some update =>
    { provider with
      outbox := Entries.delete provider.outbox id
      outboxBytes := provider.outboxBytes - yjs.byteLength update
      overdue := provider.overdue.filter (· != id)
      sends := Entries.delete provider.sends id
      resendDelay := RESEND_MS }

/-- Send everything whose acknowledgement never arrived. -/
def replay (yjs : Yjs U E) (provider : Provider U) : Provider U :=
  let provider : Provider U := { provider with unsent := [], sends := [], resendDelay := RESEND_MS }
  sendMerged yjs provider provider.ids

/-! ## Opening -/

def stopTimers (provider : Provider U) : Provider U :=
  { provider with
    pacing := false, resending := false, unsent := [], overdue := [], sends := [], resendDelay := RESEND_MS }

/-- The server replaced the document: local state describes a history that no longer exists. -/
def discard (provider : Provider U) : Provider U :=
  { stopTimers { provider with outbox := [] } with
    generation := provider.generation + 1, outboxBytes := 0, epoch := none, synced := false }

/-- Open the document, or bring it back up to date: the open is asked for, or nothing happens. -/
def resume (provider : Provider U) (wire : Bool) : Provider U × Option Nat :=
  if !provider.connected || provider.opening || !wire then (provider, none)
  else ({ provider with opening := true }, some provider.generation)

def connect (provider : Provider U) (wire : Bool) : Provider U × Option Nat :=
  if provider.connected then (provider, none)
  else resume { provider with connected := true, generation := provider.generation + 1 } wire

def disconnect (provider : Provider U) : Provider U :=
  stopTimers { provider with connected := false, generation := provider.generation + 1, synced := false }

/-- The reply to an open of this generation; applying it to the document may throw. -/
def opened (yjs : Yjs U E) (provider : Provider U) (generation : Nat) (epoch : String) (applies : Bool) :
    Provider U :=
  if !provider.connected || generation != provider.generation then provider
  else if provider.epoch.any (· != epoch) then discard provider
  else
    let provider : Provider U := { provider with epoch := some epoch }
    if applies then { replay yjs provider with synced := true } else provider

end Provider

end Chopin.Editor
