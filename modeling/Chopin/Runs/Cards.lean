import Chopin.Runs.Stages

/-!
# Cards of workflow runs

A run of a workflow shows in Chat as a card: how it stands, and the latest of its stages.  A Planner session reports the
cards of the runs it owns; `mergeRuns` says what becomes of the cards that are shown.
-/

set_option autoImplicit false
set_option linter.dupNamespace false

namespace Chopin.Runs

inductive RunStatus where
  | running
  | waiting
  | paused
  | finished
  | blocked
  | failed
  | stopped
  deriving DecidableEq

/-- `ENDED_RUN[status]`: how the end of a run is told. -/
def RunStatus.endedRun : RunStatus → Option String
  | .finished => some "finished"
  | .blocked => some "ended blocked"
  | .failed => some "failed"
  | .stopped => some "was stopped"
  | _ => none

def RunStatus.ended (status : RunStatus) : Bool := status.endedRun.isSome

/-- `NEEDS_FOLLOW_UP` -/
def RunStatus.needsFollowUp (status : RunStatus) : Bool := status == .blocked || status == .failed

/-- `LIVE_STATUS` -/
def RunStatus.live (status : RunStatus) : Bool := status == .running || status == .waiting || status == .paused

/-- A card; times are in seconds. -/
structure Run where
  id : String
  name : String
  status : RunStatus
  started : Nat := 0
  updated : Nat := 0
  ended : Option Nat := none
  stages : List RunStage := []
  earlierStages : Option Nat := none
  waiting : Nat := 0
  disconnected : Bool := false
  deriving DecidableEq

/-- `run.earlierStages`, where none are none. -/
def Run.earlier (run : Run) : Nat := run.earlierStages.getD 0

def stopped (run : Run) («at» : Nat) : Run :=
  { run with disconnected := false, status := .stopped, ended := some (run.ended.getD «at»), waiting := 0 }

def mergeRuns (previous : List Run) (incoming : Option (List Run)) («at» : Nat) : List Run :=
  match incoming with
  | none => previous.map fun run ↦ if run.status.ended then run else stopped run «at»
  | some incoming =>
    if incoming.any fun run ↦ !(previous.map Run.id).contains run.id then incoming
    else previous.filter (fun run ↦ run.status.ended && !(incoming.map Run.id).contains run.id) ++ incoming

/-- A live card of a session that is disconnected says so, and no other does. -/
def disconnected (run : Run) (down : Bool) : Run := { run with disconnected := down && run.status.live }

/-- Cards restored with the document. -/
def restoreRuns (runs : Option (List Run)) (now : Nat) : Option (List Run) :=
  if (runs.getD []).isEmpty then none else some (mergeRuns (runs.getD []) none now)

/-- `CARD_STAGES` -/
def cardStages : Nat := 12

def cardWindow (run : Run) : Run :=
  if run.stages.length ≤ cardStages then run
  else
    let earlier := run.stages.length - cardStages
    { run with
      stages := (settledStages run.stages).drop earlier
      earlierStages := some (earlier + run.earlier) }

/-- The text of a time in seconds, once it is rounded. -/
def runDuration (seconds : Int) : String :=
  let whole := seconds.toNat
  if whole = 0 then "less than a second"
  else if whole < 60 then s!"{whole} s"
  else s!"{(whole + 30) / 60} min"

/-! ## What stays of a card -/

variable {run : Run} {down : Bool} {«at» : Nat}

@[simp] theorem cardWindow_id : (cardWindow run).id = run.id := by
  rw [cardWindow]
  split <;> rfl

@[simp] theorem cardWindow_status : (cardWindow run).status = run.status := by
  rw [cardWindow]
  split <;> rfl

theorem cardWindow_of_short (h : run.stages.length ≤ cardStages) : cardWindow run = run := if_pos h

theorem cardWindow_short : (cardWindow run).stages.length ≤ cardStages := by
  rw [cardWindow]
  split
  · assumption
  · obtain ⟨marked, hsettled⟩ := settledStages_eq run.stages
    have hlength : ((settledStages run.stages).drop (run.stages.length - cardStages)).length =
        run.stages.length - (run.stages.length - cardStages) := by
      rw [List.length_drop, hsettled, List.length_map]
    exact Nat.le_trans (Nat.le_of_eq hlength) (by omega)

end Chopin.Runs
