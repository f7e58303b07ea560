import Chopin.Lib.Marking

/-!
# The stages of a workflow run

A card of a run shows its stages, and a stage that never finished because something above it failed shows as stopped.
`settledStages` works this out from the links of stages to their parents, which may be missing and may run in circles.

The server settles the stages of a run and keeps the latest of them for its card; whoever shows the card settles
these again.
-/

set_option autoImplicit false
set_option linter.dupNamespace false

namespace Chopin.Runs

inductive StageStatus where
  | pending
  | running
  | awaitingInput
  | paused
  | blocked
  | completed
  | failed
  | skipped
  | stopped
  deriving DecidableEq

/-- A `ctx.tool` step rather than an agent stage. -/
inductive StageKind where
  | tool
  deriving DecidableEq

/-- One stage of a workflow run; times are in seconds. -/
structure RunStage where
  id : String
  name : String
  parentIds : Option (List String) := none
  kind : Option StageKind := none
  status : StageStatus
  started : Option Nat := none
  ended : Option Nat := none
  deriving DecidableEq

/-- `ENDED` -/
def endedStatuses : List StageStatus := [.completed, .failed, .blocked, .skipped, .stopped]

/-- `stage.status !== "completed" && ENDED.has(stage.status)` -/
def RunStage.broken (stage : RunStage) : Bool := stage.status != .completed && endedStatuses.contains stage.status

/-- `!ENDED.has(stage.status)` -/
def RunStage.unfinished (stage : RunStage) : Bool := !endedStatuses.contains stage.status

/-- `stage.parentIds`, none where there are none. -/
def RunStage.parents (stage : RunStage) : List String := stage.parentIds.getD []

/-- The stages that show as stopped at first. -/
def broken (stages : List RunStage) : List String := (stages.filter RunStage.broken).map RunStage.id

/-- A stage as it shows once it is known which are stopped. -/
def settle (runStopped : Bool) (marked : List String) (stage : RunStage) : RunStage :=
  if stage.unfinished && (runStopped || marked.contains stage.id) then { stage with status := .stopped } else stage

/-- `settledStages`, if its loop ends within so many passes. -/
def settledStagesWithin (passes : Nat) (stages : List RunStage) (runStopped : Bool) : Option (List RunStage) :=
  (Marking.saturate RunStage.id RunStage.parents stages passes (broken stages)).map fun marked ↦
    stages.map (settle runStopped marked)

/-- `settledStages`: there are never more passes than stages, and one. -/
def settledStages (stages : List RunStage) : List RunStage :=
  (settledStagesWithin (stages.length + 1) stages false).getD []

/-- A chain of parents leads from a stage to one that ended without completing. -/
def Hangs (stages : List RunStage) : String → Prop :=
  Marking.Reached RunStage.id RunStage.parents stages fun id ↦ ∃ stage ∈ stages, stage.broken = true ∧ stage.id = id

variable {stages : List RunStage} {stage : RunStage} {marked : List String} {runStopped : Bool}

@[simp] theorem settle_id : (settle runStopped marked stage).id = stage.id := by
  rw [settle]
  split <;> rfl

@[simp] theorem settle_parents : (settle runStopped marked stage).parents = stage.parents := by
  rw [settle]
  split <;> rfl

theorem mem_broken {id : String} : id ∈ broken stages ↔ ∃ stage ∈ stages, stage.broken = true ∧ stage.id = id := by
  rw [broken, List.mem_map]
  exact ⟨fun ⟨stage, h, hid⟩ ↦ ⟨stage, (List.mem_filter.1 h).1, (List.mem_filter.1 h).2, hid⟩,
    fun ⟨stage, hmem, hbroken, hid⟩ ↦ ⟨stage, List.mem_filter.2 ⟨hmem, hbroken⟩, hid⟩⟩

/-- The loop ends, and marks the stages that hang from one that ended without completing. -/
theorem saturate_stages (stages : List RunStage) : ∃ marked, (∀ passes, stages.length + 1 ≤ passes →
      Marking.saturate RunStage.id RunStage.parents stages passes (broken stages) = some marked) ∧
    ∀ id, id ∈ marked ↔ Hangs stages id := by
  have hlt : Marking.rest RunStage.id stages (broken stages) < stages.length + 1 :=
    Nat.lt_succ_of_le List.countP_le_length
  obtain ⟨marked, hends⟩ := Marking.saturate_ends RunStage.parents hlt
  refine ⟨marked, hends, fun id ↦ ?_⟩
  rw [Marking.mem_saturate_iff (hends _ (Nat.le_refl _)), Hangs, funext fun id ↦ propext mem_broken]

theorem settledStages_eq (stages : List RunStage) :
    ∃ marked, settledStages stages = stages.map (settle false marked) := by
  obtain ⟨marked, hends, -⟩ := saturate_stages stages
  refine ⟨marked, ?_⟩
  rw [settledStages, settledStagesWithin, hends _ (Nat.le_refl _), Option.map_some, Option.getD_some]

/-! ## Settling again -/

/-- What is settled is stopped: it ended without completing. -/
theorem settle_cases (runStopped : Bool) (marked : List String) (stage : RunStage) :
    (stage.unfinished = true ∧ (runStopped = true ∨ stage.id ∈ marked) ∧
        settle runStopped marked stage = { stage with status := .stopped }) ∨
      (¬(stage.unfinished = true ∧ (runStopped = true ∨ stage.id ∈ marked)) ∧
        settle runStopped marked stage = stage) := by
  rw [settle]
  split
  · rename_i h
    rw [Bool.and_eq_true, Bool.or_eq_true, List.contains_iff_mem] at h
    exact .inl ⟨h.1, h.2, rfl⟩
  · rename_i h
    rw [Bool.and_eq_true, Bool.or_eq_true, List.contains_iff_mem] at h
    exact .inr ⟨h, rfl⟩

variable {part : List RunStage}

/-- In part of the settled stages nothing hangs that did not before. -/
theorem hangs_of_part (hmarked : ∀ id, id ∈ marked ↔ Hangs stages id)
    (hpart : part ⊆ stages.map (settle false marked)) {id : String} (h : Hangs part id) : Hangs stages id := by
  refine Marking.Reached.bind (fun node hnode ↦ ?_) ?_ h
  · obtain ⟨stage, hstage, rfl⟩ := List.mem_map.1 (hpart hnode)
    exact ⟨stage, hstage, settle_id.symm, settle_parents.symm⟩
  · rintro _ ⟨node, hnode, hbroken, rfl⟩
    obtain ⟨stage, hstage, rfl⟩ := List.mem_map.1 (hpart hnode)
    rw [settle_id]
    obtain ⟨-, hid, -⟩ | ⟨-, hsame⟩ := settle_cases false marked stage
    · exact (hmarked _).1 (hid.resolve_left Bool.false_ne_true)
    · exact .seed ⟨stage, hstage, hsame ▸ hbroken, rfl⟩

/-- **Settling any part of the settled stages changes nothing**: a stage that is left unfinished hangs from nothing. -/
theorem settle_part (hmarked : ∀ id, id ∈ marked ↔ Hangs stages id)
    (hpart : part ⊆ stages.map (settle runStopped marked)) {again : List String}
    (hagain : ∀ id, id ∈ again ↔ Hangs part id) : part.map (settle runStopped again) = part := by
  refine (List.map_congr_left fun node hnode ↦ ?_).trans (List.map_id part)
  obtain ⟨stage, hstage, rfl⟩ := List.mem_map.1 (hpart hnode)
  obtain ⟨hopen, hstops, -⟩ | ⟨-, hsame⟩ := settle_cases runStopped again (settle runStopped marked stage)
  · obtain ⟨-, -, hsettled⟩ | ⟨hleft, hkept⟩ := settle_cases runStopped marked stage
    · rw [hsettled] at hopen
      cases hopen
    · rw [hkept] at hopen hstops
      cases runStopped with
      | true => exact (hleft ⟨hopen, .inl rfl⟩).elim
      | false =>
        have hhangs := hangs_of_part hmarked hpart ((hagain _).1 (hstops.resolve_left Bool.false_ne_true))
        exact (hleft ⟨hopen, .inr ((hmarked _).2 hhangs)⟩).elim
  · exact hsame

/-- Settling changes nothing. -/
def Settled (runStopped : Bool) (stages : List RunStage) : Prop :=
  ∃ passes, ∀ more, passes ≤ more → settledStagesWithin more stages runStopped = some stages

theorem settled_part (hmarked : ∀ id, id ∈ marked ↔ Hangs stages id)
    (hpart : part ⊆ stages.map (settle runStopped marked)) : Settled runStopped part := by
  obtain ⟨again, hends, hagain⟩ := saturate_stages part
  refine ⟨part.length + 1, fun more hmore ↦ ?_⟩
  rw [settledStagesWithin, hends more hmore, Option.map_some, settle_part hmarked hpart hagain]

/-- **Settling is a closure that survives truncation.**  The loop ends; an unfinished stage is stopped where the run
was or where it hangs from a stage that ended without completing, and nothing else is changed; and settling the result
again, or the last stages of it, changes nothing. -/
theorem settledStages_closure (stages : List RunStage) (runStopped : Bool) : ∃ settled,
    (∃ passes, ∀ more, passes ≤ more → settledStagesWithin more stages runStopped = some settled) ∧
    settled.length = stages.length ∧
    (∀ (index : Nat) (stage : RunStage), stages[index]? = some stage →
      (stage.unfinished = true ∧ (runStopped = true ∨ Hangs stages stage.id) →
        settled[index]? = some { stage with status := .stopped }) ∧
      (¬(stage.unfinished = true ∧ (runStopped = true ∨ Hangs stages stage.id)) →
        settled[index]? = some stage)) ∧
    Settled runStopped settled ∧ ∀ k, Settled runStopped (settled.drop (settled.length - k)) := by
  obtain ⟨marked, hends, hmarked⟩ := saturate_stages stages
  refine ⟨stages.map (settle runStopped marked), ⟨stages.length + 1, fun more hmore ↦ ?_⟩, List.length_map _,
    fun index stage hstage ↦ ?_, settled_part hmarked (List.Subset.refl _),
    fun k ↦ settled_part hmarked (List.drop_subset _ _)⟩
  · rw [settledStagesWithin, hends more hmore, Option.map_some]
  · rw [List.getElem?_map, hstage, Option.map_some, ← hmarked]
    obtain ⟨hopen, hstops, hsettled⟩ | ⟨hleft, hkept⟩ := settle_cases runStopped marked stage
    · exact ⟨fun _ ↦ congrArg some hsettled, fun h ↦ (h ⟨hopen, hstops⟩).elim⟩
    · exact ⟨fun h ↦ (hleft h).elim, fun _ ↦ congrArg some hkept⟩

end Chopin.Runs
