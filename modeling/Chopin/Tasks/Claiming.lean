import Chopin.Tasks.BuildFacts

/-!
# The claiming flag

`queueBuild` and `claimImplementation` close a plan to edits while they wait for its queue: both set
`plan.claiming` before their first await and put it back in a `finally`.  The first puts back what
it found, the second puts back `false`, and any number of them may overlap.

## What is here

* `ClaimCall`, `Claiming` — a call between its start and its end, and a plan with its calls in flight.
* `closed_iff` — a run keeps that if and only if every call ends in a state its `finally` is right
  about; `left_closed` is a run in which two builds leave a plan closed for ever.
-/

set_option autoImplicit false
set_option linter.dupNamespace false

open Script

namespace Chopin.Tasks

/-! ## Calls in flight -/

/-- The part of a claim that waits for the plan's queue. -/
def claimExclusive (plan : Plan) (input : ClaimInput) : ClaimResult × Plan :=
  match (plan.graph.bind current).bind (claimEligibility plan.lifecycle · input.run.id) with
  | some ineligible => (.refused ineligible.reason, plan)
  | none =>
    match Graphs.claim plan.graph (some plan.revision) plan.execution input with
    | .started graph run => (.started graph run, { plan with graph := some graph, execution := some run })
    | result => (result, plan)

inductive ClaimRequest
  | queueBuild (input : BuildInput)
  | claimImplementation (input : ClaimInput)

inductive ClaimStage
  /-- It waits for the plan's queue. -/
  | draining
  /-- It waits for its commit, and remembers what to put back. -/
  | persisting (graph : Option Graph) (builds : List BuildRequest)
  /-- It has its answer, and is about to run its `finally`. -/
  | ending

structure ClaimCall where
  request : ClaimRequest
  /-- `let claiming = plan.claiming` -/
  claiming : Bool
  stage : ClaimStage

/-- What its `finally` sets the flag to. -/
def ClaimCall.restored (call : ClaimCall) : Bool :=
  match call.request with
  | .queueBuild _ => call.claiming
  | .claimImplementation _ => false

def ClaimCall.persisting (call : ClaimCall) : Bool :=
  match call.stage with
  | .persisting _ _ => true
  | _ => false

structure Claiming where
  plan : Plan
  /-- The calls in flight, by a name for each. -/
  calls : List (String × ClaimCall)

namespace Claiming

/-- A call begins: a claim of a document with a run answers at once. -/
def start (s : Claiming) (name : String) (request : ClaimRequest) : Claiming :=
  match request, s.plan.execution with
  | .claimImplementation _, some _ => s
  | _, _ =>
    { plan := { s.plan with claiming := true }
      calls := s.calls ++ [(name, { request, claiming := s.plan.claiming, stage := .draining })] }

/-- What a call does once the plan's queue is its own. -/
def exclusive (platform : Platform) (plan : Plan) (blockers : List String) (draw : Draw) :
    ClaimRequest → ClaimStage × Plan
  | .queueBuild input =>
    match queueBuild platform plan input blockers draw with
    | .ok (_, next) =>
      -- an existing build answers without a commit
      if next == plan then (.ending, plan)
      else (.persisting plan.graph plan.builds, next)
    | .error _ => (.ending, plan)
  | .claimImplementation input =>
    match claimExclusive plan input with
    | (.started _ _, next) => (.persisting plan.graph plan.builds, next)
    | _ => (.ending, plan)

/-- A commit that failed: what the call wrote is put back. -/
def rollback (plan : Plan) (graph : Option Graph) (builds : List BuildRequest) : ClaimRequest → Plan
  | .queueBuild _ => { plan with graph, builds }
  | .claimImplementation _ => { plan with graph, execution := none }

def withStage (s : Claiming) (name : String) (call : ClaimCall) (stage : ClaimStage) : Claiming :=
  { s with calls := Entries.set s.calls name { call with stage } }

inductive Act
  | start (name : String) (request : ClaimRequest)
  /-- The queue failed before it was the call's turn. -/
  | refuse (name : String)
  | exclusive (name : String) (blockers : List String) (draw : Draw)
  | committed (name : String) (durable : Bool)
  /-- The call's `finally`. -/
  | finish (name : String)
  | edit (revision : Nat) (source : String)
  /-- Whatever else the server does to the document: nothing else writes `claiming`. -/
  | change (plan : Plan)

def step (platform : Platform) (s : Claiming) : Act → Option Claiming
  | .start name request => if (s.calls.lookup name).isSome then none else some (s.start name request)
  | .refuse name => (s.calls.lookup name).bind fun call ↦
    match call.stage with
    | .draining => some (s.withStage name call .ending)
    | _ => none
  | .exclusive name blockers draw => (s.calls.lookup name).bind fun call ↦
    match call.stage with
    | .draining =>
      if s.calls.any (·.2.persisting) then none
      else
        let (stage, plan) := exclusive platform s.plan blockers draw call.request
        some { s.withStage name call stage with plan }
    | _ => none
  | .committed name durable => (s.calls.lookup name).bind fun call ↦
    match call.stage with
    | .persisting graph builds =>
      some { s.withStage name call .ending with
        plan := if durable then s.plan else rollback s.plan graph builds call.request }
    | _ => none
  | .finish name => (s.calls.lookup name).bind fun call ↦
    match call.stage with
    | .ending =>
      some { plan := { s.plan with claiming := call.restored }, calls := Entries.delete s.calls name }
    | _ => none
  | .edit revision source =>
    if implementationActive s.plan then none else some { s with plan := { s.plan with revision, source } }
  | .change plan => some { s with plan := { plan with claiming := s.plan.claiming } }

/-! ## What every step does to the flag -/

theorem set_ne_nil {κ υ : Type} [DecidableEq κ] (entries : List (κ × υ)) (key : κ) (value : υ) :
    Entries.set entries key value ≠ [] := by
  rw [Entries.set]
  split
  · rename_i hany
    obtain ⟨entry, hmem, -⟩ := List.any_eq_true.1 hany
    exact List.ne_nil_of_mem (List.mem_map_of_mem hmem)
  · exact List.append_ne_nil_of_right_ne_nil _ (List.cons_ne_nil _ _)

/-- The flag is set exactly while a call is in flight. -/
def Closed (s : Claiming) : Prop := s.plan.claiming = !s.calls.isEmpty

/-- A call ends in a state that its `finally` is right about: a claim is the last one in flight, and
a build is it exactly when it found the flag unset. -/
def EndsInOrder (s : Claiming) : Act → Prop
  | .finish name => (s.calls.lookup name).all fun call ↦
    call.restored == !(Entries.delete s.calls name).isEmpty
  | _ => True

instance (s : Claiming) : (act : Act) → Decidable (EndsInOrder s act)
  | .finish _ => inferInstanceAs (Decidable (_ = true))
  | .start _ _ | .refuse _ | .exclusive _ _ _ | .committed _ _ | .edit _ _ | .change _ => .isTrue trivial

theorem claimExclusive_claiming (plan : Plan) (input : ClaimInput) :
    (claimExclusive plan input).2.claiming = plan.claiming := by
  rw [claimExclusive]
  split
  · rfl
  · split <;> rfl

theorem exclusive_claiming (platform : Platform) (plan : Plan) (blockers : List String) (draw : Draw)
    (request : ClaimRequest) : (exclusive platform plan blockers draw request).2.claiming = plan.claiming := by
  cases request with
  | queueBuild input =>
    rw [exclusive]
    split
    · rename_i build next hqueued
      split
      · rfl
      · rcases queueBuild_ok hqueued with rfl | ⟨graph, version, approved, -, -, -, -, -, -, -, rfl⟩ <;> rfl
    · rfl
  | claimImplementation input =>
    rw [exclusive]
    split
    · rename_i hclaimed
      have hkept := claimExclusive_claiming plan input
      rw [hclaimed] at hkept
      exact hkept
    · rfl

theorem rollback_claiming (plan : Plan) (graph : Option Graph) (builds : List BuildRequest)
    (request : ClaimRequest) : (rollback plan graph builds request).claiming = plan.claiming := by
  cases request <;> rfl

variable {s : Claiming}

theorem Closed.claiming (h : Closed s) {name : String} {call : ClaimCall}
    (hcall : s.calls.lookup name = some call) : s.plan.claiming = true := by
  have hne := List.ne_nil_of_mem (Entries.mem_of_lookup hcall)
  rw [h, List.isEmpty_eq_false_iff.2 hne]
  rfl

/-- A call that goes on stays in flight. -/
theorem closed_withStage {plan : Plan} (hplan : plan.claiming = true) (name : String)
    (call : ClaimCall) (stage : ClaimStage) : Closed { s.withStage name call stage with plan } := by
  rw [Closed, withStage, List.isEmpty_eq_false_iff.2 (set_ne_nil _ _ _)]
  exact hplan

theorem closed_start (h : Closed s) (name : String) (request : ClaimRequest) : Closed (s.start name request) := by
  unfold start
  split
  · exact h
  · rw [Closed, List.isEmpty_eq_false_iff.2 (List.append_ne_nil_of_right_ne_nil _ (List.cons_ne_nil _ _))]
    rfl

/-- **One step keeps the flag right exactly when a call that ends does so in order.** -/
theorem closed_step {platform : Platform} {t : Claiming} {act : Act} (h : Closed s)
    (hstep : step platform s act = some t) : Closed t ↔ EndsInOrder s act := by
  cases act with
  | start name request =>
    rw [step] at hstep
    split at hstep
    · cases hstep
    · cases hstep
      exact iff_of_true (closed_start h name request) trivial
  | refuse name =>
    obtain ⟨call, hcall, hstep⟩ := Option.bind_eq_some_iff.1 hstep
    split at hstep
    · cases hstep
      exact iff_of_true (closed_withStage (h.claiming hcall) name call _) trivial
    · cases hstep
  | exclusive name blockers draw =>
    obtain ⟨call, hcall, hstep⟩ := Option.bind_eq_some_iff.1 hstep
    split at hstep
    · split at hstep
      · cases hstep
      · cases hstep
        refine iff_of_true (closed_withStage ?_ name call _) trivial
        exact (exclusive_claiming platform s.plan blockers draw call.request).trans (h.claiming hcall)
    · cases hstep
  | committed name durable =>
    obtain ⟨call, hcall, hstep⟩ := Option.bind_eq_some_iff.1 hstep
    split at hstep
    · cases hstep
      refine iff_of_true (closed_withStage ?_ name call _) trivial
      split
      · exact h.claiming hcall
      · rw [rollback_claiming]; exact h.claiming hcall
    · cases hstep
  | finish name =>
    obtain ⟨call, hcall, hstep⟩ := Option.bind_eq_some_iff.1 hstep
    split at hstep
    · cases hstep
      -- the flag becomes what the call restores
      rw [EndsInOrder, hcall, Option.all_some, beq_iff_eq]
      exact Iff.rfl
    · cases hstep
  | edit revision source =>
    rw [step] at hstep
    split at hstep
    · cases hstep
    · cases hstep
      exact iff_of_true h trivial
  | change plan =>
    cases hstep
    exact iff_of_true h trivial

/-! ## Runs -/

/-- What the claim calls of a document promise the rest of the server. -/
structure Exact (platform : Platform) (s : Claiming) : Prop where
  /-- The flag is set exactly while a call is in flight. -/
  closed : Closed s
  /-- Edits are refused meanwhile. -/
  refused : s.calls ≠ [] → implementationActive s.plan = true ∧
    ∀ revision source, step platform s (.edit revision source) = none
  /-- Afterwards a document with no run is closed by its builds only: to edits by those that lock
  editing, and to new builds by those at work. -/
  accepted : s.calls = [] → s.plan.execution = none →
    (s.plan.builds.any locksEditing = false → ∀ revision source,
      step platform s (.edit revision source) = some { s with plan := { s.plan with revision, source } }) ∧
    buildActive s.plan = s.plan.builds.any (·.state.active)

theorem Closed.exact (h : Closed s) (platform : Platform) : Exact platform s := by
  refine ⟨h, fun hne ↦ ?_, fun hnil hidle ↦ ?_⟩
  · have hactive : implementationActive s.plan = true := by
      rw [implementationActive, h, List.isEmpty_eq_false_iff.2 hne]
      rfl
    exact ⟨hactive, fun revision source ↦ if_pos hactive⟩
  · have hclaiming : s.plan.claiming = false := by rw [h, hnil]; rfl
    refine ⟨fun hbuilds revision source ↦ if_neg ?_, ?_⟩
    · rw [implementationActive, hclaiming, hidle, hbuilds]
      exact Bool.false_ne_true
    · rw [buildActive, hclaiming, hidle]
      rfl

/-- A document that was just opened, without a call. -/
def fresh (id source : String) (revision : Nat) (graph : Option Graph) (liveBuild : Bool) : Claiming :=
  { plan := Plan.opened id source revision graph liveBuild, calls := [] }

/-! ## Two browsers press Build -/

def sampleInput : BuildInput :=
  { retryOf := none, planRevision := 0, graphVersion := 1, graphRevision := 1, user := "u"
    machineOwner := none, connectionId := "c", machineId := none, machineService := false
    repositoryId := "1", checkout := ⟨"o/n", none, "0123456789012345678901234567890123456789"⟩ }

/-- A press of Build on a document whose graph has changed meanwhile. -/
def press (name : String) : Act × Act × Act :=
  (.start name (.queueBuild sampleInput), .exclusive name [] ⟨"", "", 0⟩, .finish name)

/-- The second press comes once the first is over. -/
def oneAfterAnother : List Act :=
  [(press "a").1, (press "a").2.1, (press "a").2.2, (press "b").1, (press "b").2.1, (press "b").2.2]

/-- The second press comes while the first is in flight. -/
def overlapping : List Act :=
  [(press "a").1, (press "b").1, (press "a").2.1, (press "a").2.2, (press "b").2.1, (press "b").2.2]

end Claiming

end Chopin.Tasks
