import Chopin.Tasks.Deliveries
import Chopin.Tasks.LandedRebuilds
import Chopin.Tasks.StoredLive

/-!
# Claims and reports without a room

A claim or a report that finds no open room is taken to the stored sidecar (`claimStored` and
`lifecycleStored` of `plan/service.ts`): the records are read, the call is made on what was read, and
what it changed is written back.  An open room makes the same call on the plan it holds
(`tasks/plan-graphs.ts`).  Here both are given the same calls.
-/

set_option autoImplicit false
set_option linter.dupNamespace false

open Script

namespace Chopin.Tasks

/-! ## The stored path -/

/-- The implementation records of a sidecar, as they are stored. -/
structure Sidecar where
  revision : Nat
  builds : List BuildRequest
  graph : Option Json
  execution : Option Json
  lifecycle : Option Json
  live : Option Json

/-- The same records as they are read. -/
structure Restored where
  revision : Nat
  builds : List BuildRequest
  graph : Option Graph
  execution : Option Run
  lifecycle : Option Lifecycle
  live : Option LiveBuild
  deriving DecidableEq

/-- A lifecycle that is not stored must restore as an empty one would. -/
def restoredLifecycle (stored : Option Json) (graph : Option Graph) (execution : Option Run) :
    Option (Option Lifecycle) :=
  match graph, stored with
  | none, none => some none
  | none, some _ => none
  | some graph, none => (restoreLifecycle (Lifecycle.toJson ⟨none, []⟩) graph execution).map fun _ ↦ none
  | some graph, some value => (restoreLifecycle value graph execution).map some

/-- The implementation's part of `restoredState`. -/
def restoredState (platform : Platform) (stored : Sidecar) : Option Restored := do
  let graph := stored.graph.bind Graphs.restore
  let execution ← stored.execution |> Json.optional fun value ↦ restoreRun value graph stored.revision
  let lifecycle ← restoredLifecycle stored.lifecycle graph execution
  let live ← stored.live |> Json.optional fun value ↦
    restoreLive platform value stored.builds lifecycle graph stored.revision
  pure { revision := stored.revision, builds := stored.builds, graph, execution, lifecycle, live }

/-- `JSON.parse(JSON.stringify(sidecar))`. -/
def Restored.stored (sidecar : Restored) : Sidecar :=
  { revision := sidecar.revision, builds := sidecar.builds
    graph := sidecar.graph.map Graph.toJson
    execution := sidecar.execution.map Run.toJson
    lifecycle := sidecar.lifecycle.map Lifecycle.toJson
    live := sidecar.live.map LiveBuild.toJson }

/-- `sidecar.lifecycle ?? { history: [] }` -/
def Restored.log (sidecar : Restored) : Lifecycle := sidecar.lifecycle.getD ⟨none, []⟩

/-- The sidecar half of one claim, and the sidecar to save if it starts a run. -/
def claimStored (platform : Platform) (loaded : Sidecar) (input : ClaimInput) :
    Option (ClaimResult × Option Sidecar) := do
  let sidecar ← restoredState platform loaded
  match (sidecar.graph.bind current).bind (claimEligibility sidecar.log · input.run.id) with
  | some ineligible => pure (.refused ineligible.reason, none)
  | none =>
    match Graphs.claim sidecar.graph (some sidecar.revision) sidecar.execution input with
    | .started graph run =>
      pure (.started graph run,
        some { sidecar with graph := some graph, execution := some run : Restored }.stored)
    | result => pure (result, none)

/-- What a transition of the lifecycle leaves in a sidecar. -/
def Restored.withLifecycle (sidecar : Restored) (next : LifecycleState) : Restored :=
  { sidecar with
    graph := some next.graph, execution := next.execution, lifecycle := some next.lifecycle }

/-- One lifecycle transition of a sidecar, and the sidecar to save if it is accepted. -/
def lifecycleStored (platform : Platform) (loaded : Sidecar) (input : LifecycleInput) :
    Option (LifecycleResult × Option Sidecar) := do
  let sidecar ← restoredState platform loaded
  match sidecar.graph with
  | none => pure (.refused "inactive", none)
  | some graph =>
    match transition ⟨graph, sidecar.execution, sidecar.log⟩ input false with
    | .accepted next => pure (.accepted next, some (sidecar.withLifecycle next).stored)
    | result => pure (result, none)

/-- The document that opens on these records. -/
def Restored.opened (sidecar : Restored) (id source : String) (liveBuild : Bool) : Plan :=
  { id, revision := sidecar.revision, source, graph := sidecar.graph, execution := sidecar.execution
    lifecycle := sidecar.log, builds := sidecar.builds, live := sidecar.live, claiming := false
    liveBuild }

/-! ## Calls on either path -/

/-- The records that both paths keep. -/
structure Records where
  graph : Option Graph
  execution : Option Run
  lifecycle : Lifecycle
  live : Option LiveBuild
  deriving DecidableEq

def Plan.kept (plan : Plan) : Tasks.Records := ⟨plan.graph, plan.execution, plan.lifecycle, plan.live⟩

def Restored.kept (sidecar : Restored) : Tasks.Records :=
  ⟨sidecar.graph, sidecar.execution, sidecar.log, sidecar.live⟩

inductive Call
  | claim (input : ClaimInput)
  | report (input : LifecycleInput)

inductive Answer
  | claim (result : ClaimResult)
  | report (result : LifecycleResult)
  deriving DecidableEq

/-- A call on an open room.  There is no answer when the room throws. -/
def openCall (plan : Plan) : Call → Option (Answer × Plan)
  | .claim input => some ((claimImplementation plan input).map .claim id)
  | .report input => (reportImplementationLifecycle plan input).map (Prod.map .report id)

/-- A call on a stored sidecar, which must restore. -/
def storedCall (platform : Platform) (loaded : Sidecar) : Call → Option (Answer × Sidecar)
  | .claim input => (claimStored platform loaded input).map (Prod.map .claim (·.getD loaded))
  | .report input => (lifecycleStored platform loaded input).map (Prod.map .report (·.getD loaded))

/-- The answers to these calls, each with the records it leaves, up to the first that has none. -/
def answers {σ : Type} (call : σ → Call → Option (Answer × σ)) (read : σ → Option Records) :
    σ → List Call → List (Option (Answer × Option Records))
  | _, [] => []
  | state, first :: rest =>
    match call state first with
    | none => [none]
    | some (answer, next) => some (answer, read next) :: answers call read next rest

/-- What an open room answers. -/
def openAnswers : Plan → List Call → List (Option (Answer × Option Records)) :=
  answers openCall fun plan ↦ some plan.kept

/-- What the stored path answers. -/
def storedAnswers (platform : Platform) : Sidecar → List Call → List (Option (Answer × Option Records)) :=
  answers (storedCall platform) fun loaded ↦ (restoredState platform loaded).map Restored.kept

/-! ## The condition -/

/-- The input is well formed and was not reported before. -/
def fresh (state : LifecycleState) (input : LifecycleInput) : Bool :=
  text input.runId && text input.idempotencyKey && (replay state input).isNone

namespace Plan

/-- The event ends the run at work with every task delivered. -/
def delivers (plan : Plan) (input : LifecycleInput) : Bool :=
  plan.graph.any fun graph ↦ plan.execution.any fun run ↦ (activeVersion graph run).any fun version ↦
    match foldRun version.definition.tasks run (plan.lifecycle.events.getD [] ++ [event input]) false with
    | .ok folded => input.runId == run.id && folded.phase.successful
    | .error _ => false

/-- Without living builds, a browser build is at work and there is no living record yet. -/
def buildsManually (plan : Plan) : Bool :=
  !plan.liveBuild && plan.live.isNone && plan.execution.any fun run ↦
    plan.builds.any fun build ↦ build.id == run.id && build.rebuild.isNone

/-- The two paths take this call alike: a claim finds no run at work, or names none that has ended;
and a new event neither completes the run of a first build nor delivers it. -/
def SamePath (plan : Plan) : Call → Prop
  | .claim input => plan.execution = none ∨ ∀ archived ∈ plan.lifecycle.history,
      archived.run.id ≠ input.run.id
  | .report input => ∀ graph ∈ plan.graph, fresh ⟨graph, plan.execution, plan.lifecycle⟩ input = true →
      (plan.liveRun.isSome = true → plan.completes input = false) ∧
        (plan.buildsManually = true → plan.delivers input = false)

/-- Every one of these calls is, in the state that the ones before it leave. -/
def SamePaths : Plan → List Call → Prop
  | _, [] => True
  | plan, first :: rest => plan.SamePath first ∧
    match openCall plan first with
    | none => True
    | some (_, next) => next.SamePaths rest

instance (plan : Plan) (call : Call) : Decidable (plan.SamePath call) :=
  match call with
  | .claim input => inferInstanceAs (Decidable (plan.execution = none ∨
      ∀ archived ∈ plan.lifecycle.history, archived.run.id ≠ input.run.id))
  | .report input => inferInstanceAs (Decidable (∀ graph ∈ plan.graph,
      fresh ⟨graph, plan.execution, plan.lifecycle⟩ input = true →
        (plan.liveRun.isSome = true → plan.completes input = false) ∧
          (plan.buildsManually = true → plan.delivers input = false)))

/-- The test of every call in its turn. -/
instance samePaths : (plan : Plan) → (calls : List Call) → Decidable (plan.SamePaths calls)
  | _, [] => .isTrue trivial
  | plan, first :: rest =>
    have : Decidable (match openCall plan first with
        | none => True
        | some (_, next) => next.SamePaths rest) :=
      match openCall plan first with
      | none => .isTrue trivial
      | some (_, next) => samePaths next rest
    inferInstanceAs (Decidable (plan.SamePath first ∧ _))

end Plan

/-! ## What a sidecar that restores has -/

/-- The history says that this build was delivered, or went live. -/
def filed (graph : Option Graph) (lifecycle : Option Lifecycle) (buildId : String) : Bool :=
  ((lifecycle.map Lifecycle.history).getD []).any (fun item ↦ item.run.id == buildId && item.live)
    || deliveredIn graph lifecycle buildId

/-- What the reader asks of a run at work. -/
def Claims (graph : Option Graph) (revision : Nat) (run : Run) : Prop :=
  run.valid = true ∧ ∃ latest ∈ graph.bind current, latest.state = .locked ∧
    latest.planRevision = revision ∧ «matches» run latest = true

structure Restored.Sound (platform : Platform) (sidecar : Restored) : Prop where
  wf : ∀ graph ∈ sidecar.graph, graph.Wf
  lifecycle : ∀ graph ∈ sidecar.graph, sidecar.log.Restores graph sidecar.execution
  absent : sidecar.graph = none → sidecar.lifecycle = none
  execution : ∀ run ∈ sidecar.execution, Claims sidecar.graph sidecar.revision run
  storable : ∀ live ∈ sidecar.live, live.Storable platform
  related : ∀ live ∈ sidecar.live,
    live.related sidecar.builds sidecar.lifecycle sidecar.graph sidecar.revision = true

variable {revision : Nat}

theorem restoreRun_ok {value : Json} {graph : Option Graph} {owner : Run}
    (h : restoreRun value graph revision = some owner) : Claims graph revision owner := by
  simp only [restoreRun, Option.then_eq_some] at h
  obtain ⟨restored, hrestored, latest, hlatest, h⟩ := h
  split at h <;> cases h
  rename_i hok
  simp only [Bool.or_eq_true, bne_iff_ne, ne_eq, not_or, not_not, Bool.not_eq_true'] at hok
  exact ⟨run_valid hrestored, latest, hlatest, hok.1.1, hok.1.2, by simpa using hok.2⟩

theorem Claims.restore {graph : Option Graph} {owner : Run}
    (h : Claims graph revision owner) : restoreRun owner.toJson graph revision = some owner := by
  obtain ⟨hvalid, latest, hlatest, hlocked, hrevision, hmatch⟩ := h
  rw [restoreRun, run_toJson hvalid, Option.some_then, Option.mem_def.1 hlatest, Option.some_then,
    if_neg (by simp [hlocked, hrevision, hmatch])]

variable {execution : Option Run}

/-- An empty lifecycle is read as one. -/
theorem restoreLifecycle_empty {graph : Graph} {lifecycle : Lifecycle}
    (h : restoreLifecycle (Lifecycle.toJson ⟨none, []⟩) graph execution = some lifecycle) : lifecycle = ⟨none, []⟩ := by
  simp only [restoreLifecycle, Option.then_eq_some] at h
  obtain ⟨fields, hfields, item, hitem, stored, hstored, history, hhistory, projected, -, events, hevents,
    latest, -, h⟩ := h
  obtain rfl : [("history", Json.arr [])] = fields := Option.some.inj hfields
  obtain rfl : [("history", Json.arr [])] = item := Option.some.inj hitem
  obtain rfl : Json.arr [] = stored := Option.some.inj hstored
  obtain rfl : [] = history := Option.some.inj hhistory
  obtain rfl : none = events := Option.some.inj hevents
  repeat' split at h
  all_goals cases h
  rfl

variable {lifecycle : Option Lifecycle}

theorem restoredLifecycle_ok {stored : Option Json} {graph : Graph} (hwf : graph.Wf)
    (h : restoredLifecycle stored (some graph) execution = some lifecycle) :
    (lifecycle.getD ⟨none, []⟩).Restores graph execution := by
  cases stored with
  | none =>
    obtain ⟨found, hread, rfl⟩ := Option.map_eq_some_iff.1 h
    rw [Option.getD_none, ← restoreLifecycle_empty hread]
    exact restoreLifecycle_ok hwf hread
  | some value =>
    obtain ⟨found, hread, rfl⟩ := Option.map_eq_some_iff.1 h
    exact restoreLifecycle_ok hwf hread

variable {platform : Platform} {sidecar : Restored}

/-- Whatever restores is sound. -/
theorem restoredState_sound {loaded : Sidecar}
    (h : restoredState platform loaded = some sidecar) : sidecar.Sound platform := by
  simp only [restoredState, Option.then_eq_some] at h
  obtain ⟨execution, hexecution, lifecycle, hlifecycle, live, hlive, h⟩ := h
  cases h
  have hwf : ∀ graph ∈ loaded.graph.bind Graphs.restore, graph.Wf := fun graph hgraph ↦ by
    obtain ⟨json, -, hread⟩ := Option.bind_eq_some_iff.1 hgraph
    exact restore_wf hread
  refine ⟨hwf, fun graph hgraph ↦ ?_, fun hgraph ↦ ?_, fun owner hrun ↦ ?_, fun record hrecord ↦ ?_,
    fun record hrecord ↦ ?_⟩
  · simp only [Option.mem_def] at hgraph
    rw [hgraph] at hlifecycle
    exact restoredLifecycle_ok (hwf graph hgraph) hlifecycle
  · simp only at hgraph
    rw [hgraph] at hlifecycle
    cases hstored : loaded.lifecycle with
    | none => rw [hstored] at hlifecycle; exact (Option.some.inj hlifecycle).symm
    | some value => rw [hstored] at hlifecycle; cases hlifecycle
  · obtain ⟨json, hread⟩ := Json.optional_ok hexecution owner hrun
    exact restoreRun_ok hread
  · obtain ⟨json, hread⟩ := Json.optional_ok hlive record hrecord
    exact liveSchema_ok (Option.filter_eq_some_iff.1 hread).1
  · obtain ⟨json, hread⟩ := Json.optional_ok hlive record hrecord
    exact (Option.filter_eq_some_iff.1 hread).2

/-- **What is sound restores from what is stored of it.** -/
theorem Restored.Sound.restored (h : sidecar.Sound platform) :
    restoredState platform sidecar.stored = some sidecar := by
  have hgraph : (sidecar.graph.map Graph.toJson).bind Graphs.restore = sidecar.graph := by
    cases hgraph : sidecar.graph with
    | none => rfl
    | some graph => exact (h.wf graph hgraph).restore
  have hexecution : Json.optional (fun value ↦ restoreRun value sidecar.graph sidecar.revision)
      (sidecar.execution.map Run.toJson) = some sidecar.execution :=
    Json.optional_map fun owner hrun ↦ (h.execution owner hrun).restore
  have hlifecycle : restoredLifecycle (sidecar.lifecycle.map Lifecycle.toJson) sidecar.graph
      sidecar.execution = some sidecar.lifecycle := by
    have hrestores := h.lifecycle
    cases hgraph : sidecar.graph with
    | none => rw [h.absent hgraph]; rfl
    | some graph =>
      have hrestore := (h.lifecycle graph hgraph).restore (h.wf graph hgraph)
      cases hstored : sidecar.lifecycle with
      | none =>
        rw [Restored.log, hstored, Option.getD_none] at hrestore
        simp only [Option.map_none, restoredLifecycle, hrestore, Option.map_some]
      | some lifecycle =>
        rw [Restored.log, hstored, Option.getD_some] at hrestore
        simp only [Option.map_some, restoredLifecycle, hrestore]
  have hlive : Json.optional (fun value ↦ restoreLive platform value sidecar.builds sidecar.lifecycle
      sidecar.graph sidecar.revision) (sidecar.live.map LiveBuild.toJson) = some sidecar.live :=
    Json.optional_map fun live hlive ↦ by
      rw [restoreLive, liveSchema_toJson (h.storable live hlive), Option.filter_some,
        if_pos (h.related live hlive)]
  simp only [restoredState, Restored.stored, hgraph, hexecution, Option.some_then, hlifecycle, hlive,
    Option.pure_def]

/-! ## Calls keep a sidecar sound -/

variable {buildId : String}

/-- The reader's projection finds the success of the run that has this name. -/
theorem deliveredIn_eq {graph : Graph} {lifecycle : Lifecycle}
    (h : ∀ archived ∈ lifecycle.history, archived.Restores graph) : deliveredIn (some graph) (some lifecycle) buildId =
      (lifecycle.history.find? (·.run.id == buildId)).any (·.successful graph) := by
  obtain ⟨projected, hprojected⟩ := projectHistory_exists h
  have hfind := congrArg (List.find? fun item : Run × Bool ↦ item.1.id == buildId)
    (projectHistory_successful hprojected)
  rw [List.find?_map, List.find?_map] at hfind
  simp only [Function.comp_def] at hfind
  simp only [deliveredIn, historyFor, hprojected, Option.getD_some]
  cases hitem : projected.find? (·.run.id == buildId) with
  | none =>
    rw [hitem, Option.map_none, eq_comm, Option.map_eq_none_iff] at hfind
    rw [hfind]; rfl
  | some item =>
    rw [hitem, Option.map_some, eq_comm, Option.map_eq_some_iff] at hfind
    obtain ⟨archived, harchived, heq⟩ := hfind
    rw [harchived]
    exact (congrArg Prod.snd heq).symm

theorem filed_iff {graph : Graph} (h : (lifecycle.getD ⟨none, []⟩).Restores graph execution) :
    filed (some graph) lifecycle buildId = true ↔ ∃ archived ∈ (lifecycle.getD ⟨none, []⟩).history,
      archived.run.id = buildId ∧ (archived.live = true ∨ archived.successful graph = true) := by
  cases lifecycle with
  | none => simp [filed, deliveredIn]
  | some lifecycle =>
    rw [Option.getD_some] at h
    rw [filed, Bool.or_eq_true, deliveredIn_eq h.archived, Option.any_eq_true]
    simp only [Option.map_some, Option.getD_some, List.any_eq_true, Bool.and_eq_true, beq_iff_eq]
    constructor
    · rintro (⟨archived, hmem, hid, hlive⟩ | ⟨archived, hfind, hsuccess⟩)
      · exact ⟨archived, hmem, hid, .inl hlive⟩
      · exact ⟨archived, List.mem_of_find?_eq_some hfind, by simpa using List.find?_some hfind,
          .inr hsuccess⟩
    · rintro ⟨archived, hmem, rfl, hlive | hsuccess⟩
      · exact .inl ⟨archived, hmem, rfl, hlive⟩
      · exact .inr ⟨archived, List.find?_key h.runs hmem, hsuccess⟩

/-- A record stays related to a history that tells as much of its build. -/
theorem related_filed {live : LiveBuild} {builds : List BuildRequest} {next : Option Lifecycle}
    {graph after : Option Graph} (h : live.related builds lifecycle graph revision = true)
    (hfiled : filed graph lifecycle live.buildId = true → filed after next live.buildId = true) :
    live.related builds next after revision = true := by
  unfold LiveBuild.related at *
  split at h
  · cases h
  · rename_i build hbuild
    simp only [Bool.and_eq_true] at h ⊢
    obtain ⟨⟨⟨⟨⟨hfields, hhistory⟩, hbase⟩, hrequests⟩, hcommits⟩, htarget⟩ := h
    exact ⟨⟨⟨⟨⟨hfields, hfiled hhistory⟩, hbase⟩, hrequests⟩, hcommits⟩, htarget⟩

variable {next state : LifecycleState} {input : LifecycleInput}

/-- An accepted input forgets no archived run, and undoes no success. -/
theorem Accepted.keepsHistory {live : Bool}
    (h : state.lifecycle.Restores state.graph state.execution) (haccepted : Accepted state input live next)
    {archived : ArchivedRun} (hmem : archived ∈ state.lifecycle.history) :
    ∃ later ∈ next.lifecycle.history, later.run.id = archived.run.id ∧ later.live = archived.live ∧
      (archived.successful state.graph = true → later.successful next.graph = true) := by
  cases haccepted with
  | @late front back reported version folded reduced hsplit _ _ hversion hfold _ hreduce hsuccess =>
    rw [hsplit] at hmem
    rcases List.mem_cons.1 (List.perm_middle.mem_iff.1 hmem) with rfl | hmem
    · have hfolded : archived.folded state.graph = some folded :=
        ArchivedRun.folded_eq (by rw [hversion]; rfl) hfold
      have hphase : folded.phase ≠ .active := by
        obtain ⟨_, heq, hphase⟩ := (h.archived archived (by simp [hsplit])).finished
        rwa [Option.mem_unique hfolded heq]
      refine ⟨_, List.mem_append_right _ List.mem_cons_self, rfl, rfl, fun _ ↦ ?_⟩
      rw [ArchivedRun.successful, ArchivedRun.folded_eq (by rw [hversion]; rfl)
        (foldRun_finished_snoc hfold hphase hreduce)]
      exact hsuccess
    · exact ⟨archived, List.perm_middle.mem_iff.2 (List.mem_cons_of_mem _ hmem), rfl, rfl, id⟩
  | recorded => exact ⟨archived, hmem, rfl, rfl, id⟩
  | ended _ _ hversion =>
    obtain ⟨prior, hgraph⟩ := current_eq_some.1 (activeVersion_eq_some.1 hversion).1
    refine ⟨archived, List.mem_append_left _ hmem, rfl, rfl, fun hsuccess ↦ ?_⟩
    rw [ArchivedRun.successful] at hsuccess ⊢
    simp only [released, hgraph, unlock_mk_concat] at hsuccess ⊢
    rwa [ArchivedRun.folded_congr (versionFor_withState ..)]

/-- While a run stays at work its graph does not change. -/
theorem Accepted.graph {live : Bool}
    (haccepted : Accepted state input live next) {run : Run} (h : run ∈ next.execution) : next.graph = state.graph := by
  cases haccepted with
  | late => rfl
  | recorded => rfl
  | ended => cases h

namespace Restored.Sound

variable {platform : Platform} {sidecar : Restored}

/-- A run that starts locks the approved version. -/
theorem claimed {input : ClaimInput} {graph : Graph} {owner : Run} (h : sidecar.Sound platform)
    (heligible : (sidecar.graph.bind current).bind (claimEligibility sidecar.log · input.run.id) = none)
    (hclaim : Graphs.claim sidecar.graph (some sidecar.revision) sidecar.execution input = .started graph owner) :
    Sound platform { sidecar with graph := some graph, execution := some owner } := by
  obtain ⟨hidle, rfl, hvalid, prior, latest, hgraph, hplan, happroved, hmatch, rfl⟩ := claim_started hclaim
  have hrestores := h.lifecycle _ hgraph
  rw [hidle] at hrestores
  rw [hgraph, Option.bind_some, current_mk_concat, Option.bind_some] at heligible
  have hsame : ∀ archived ∈ sidecar.log.history, archived.folded
      ⟨prior ++ [{ latest with state := .locked }]⟩ = archived.folded ⟨prior ++ [latest]⟩ :=
    fun archived _ ↦ ArchivedRun.folded_congr (versionFor_withState ..)
  have hlocked := hrestores.claim hsame hmatch heligible
  refine ⟨?_, ?_, by simp, ?_, h.storable, fun live hlive ↦ ?_⟩
  · rintro _ ⟨⟩
    exact (h.wf _ hgraph).withState (by simp [happroved]) (.inr rfl)
  · rintro _ ⟨⟩
    exact hlocked
  · rintro _ ⟨⟩
    exact ⟨hvalid, { latest with state := .locked }, current_mk_concat _ _, rfl, (Option.some.inj hplan).symm,
      hmatch⟩
  · refine related_filed (h.related live hlive) fun hfiled ↦ ?_
    rw [hgraph] at hfiled
    obtain ⟨archived, hmem, hid, htold⟩ := (filed_iff hrestores).1 hfiled
    refine (filed_iff hlocked).2 ⟨archived, hmem, hid, htold.imp_right fun hsuccess ↦ ?_⟩
    rwa [ArchivedRun.successful, hsame archived hmem]

/-- An accepted input that is not live. -/
theorem accepted {graph : Graph} {input : LifecycleInput} {next : LifecycleState}
    (h : sidecar.Sound platform) (hgraph : sidecar.graph = some graph)
    (htransition : transition ⟨graph, sidecar.execution, sidecar.log⟩ input false = .accepted next) :
    (sidecar.withLifecycle next).Sound platform := by
  obtain ⟨-, hkey, hreplay, haccepted⟩ := transition_accepted htransition
  have hrestores := h.lifecycle graph hgraph
  have hnext : next.lifecycle.Restores next.graph next.execution :=
    haccepted.restores (h.wf graph hgraph) hrestores (fun run hrun ↦ (h.execution run hrun).1) hkey
      hreplay (by simp)
  refine ⟨?_, ?_, by simp [withLifecycle], fun run hrun ↦ ?_, h.storable, fun live hlive ↦ ?_⟩
  · rintro _ ⟨⟩
    exact haccepted.wf (h.wf graph hgraph)
  · rintro _ ⟨⟩
    exact hnext
  · have hrun : run ∈ next.execution := hrun
    have hprior := h.execution run (haccepted.execution run hrun)
    rw [hgraph] at hprior
    simp only [withLifecycle, haccepted.graph hrun]
    exact hprior
  · refine related_filed (h.related live hlive) fun hfiled ↦ ?_
    rw [hgraph] at hfiled
    obtain ⟨archived, hmem, hid, htold⟩ := (filed_iff hrestores).1 hfiled
    obtain ⟨later, hlater, hsame, hlive, hsuccess⟩ := haccepted.keepsHistory hrestores hmem
    exact (filed_iff (show ((some next.lifecycle).getD ⟨none, []⟩).Restores _ _ from hnext)).2
      ⟨later, hlater, hsame.trans hid, htold.imp hlive.trans hsuccess⟩

end Restored.Sound

/-! ## Both paths -/

/-- The open plan holds the records that the sidecar restores to. -/
structure Plan.Opens (platform : Platform) (loaded : Sidecar) (plan : Plan) (sidecar : Restored) :
    Prop where
  restored : restoredState platform loaded = some sidecar
  revision : plan.revision = sidecar.revision
  kept : plan.kept = sidecar.kept

section

variable {platform : Platform} {loaded : Sidecar} {plan : Plan} {sidecar : Restored}

theorem Plan.Opens.records (h : plan.Opens platform loaded sidecar) : plan.graph = sidecar.graph ∧
    plan.execution = sidecar.execution ∧ plan.lifecycle = sidecar.log ∧ plan.live = sidecar.live := by
  simpa [Plan.kept, Restored.kept] using h.kept

variable {owner : Run}

/-- The run at work, as the reader takes it. -/
theorem Restored.Sound.working {graph : Graph} (h : sidecar.Sound platform)
    (hgraph : sidecar.graph = some graph) (hrun : sidecar.execution = some owner) :
    ∃ version folded, activeVersion graph owner = some version ∧ current graph = some version ∧
      foldRun version.definition.tasks owner (sidecar.log.events.getD []) false = .ok folded ∧
      folded.phase = .active ∧ (∀ archived ∈ sidecar.log.history,
        archived.successful graph = true → «matches» archived.run version = false) ∧
      ∀ archived ∈ sidecar.log.history, archived.run.id ≠ owner.id := by
  have hrestores := h.lifecycle graph hgraph
  obtain ⟨version, folded, hversion, hfold, hactive, heligible⟩ := hrestores.execution owner hrun
  have hcurrent := (activeVersion_eq_some.1 hversion).1
  obtain ⟨hsuccess, hnew⟩ :=
    (claimEligibility_eq_none (h.wf graph hgraph) (current_mem hcurrent)).1 heligible
  exact ⟨version, folded, hversion, hcurrent, hfold, hactive, hsuccess, hnew⟩

/-- What the claim's eligibility test comes to while a run is at work. -/
theorem Restored.Sound.eligible {graph : Graph} {runId : String} (h : sidecar.Sound platform)
    (hgraph : sidecar.graph = some graph) (hrun : sidecar.execution = some owner) :
    (sidecar.graph.bind current).bind (claimEligibility sidecar.log · runId) = none ↔
      ∀ archived ∈ sidecar.log.history, archived.run.id ≠ runId := by
  obtain ⟨version, -, -, hcurrent, -, -, hsuccess, -⟩ := h.working hgraph hrun
  rw [hgraph, Option.bind_some, hcurrent, Option.bind_some,
    claimEligibility_eq_none (h.wf graph hgraph) (current_mem hcurrent)]
  exact ⟨And.right, fun hnew ↦ ⟨hsuccess, hnew⟩⟩

/-- A run at work is one on a graph. -/
theorem Restored.Sound.graph (h : sidecar.Sound platform)
    (hrun : sidecar.execution = some owner) : ∃ graph, sidecar.graph = some graph := by
  obtain ⟨-, latest, hlatest, -⟩ := h.execution owner hrun
  obtain ⟨graph, hgraph, -⟩ := Option.bind_eq_some_iff.1 hlatest
  exact ⟨graph, hgraph⟩

variable {input : ClaimInput}

/-- A claim that finds no run, or names none that has ended, is answered alike. -/
theorem claim_alike (h : plan.Opens platform loaded sidecar) (hsame : plan.SamePath (.claim input)) :
    ∃ result next saved after, claimImplementation plan input = (result, next) ∧
      claimStored platform loaded input = some (result, saved) ∧ next.Opens platform (saved.getD loaded) after := by
  have hsound := restoredState_sound h.restored
  obtain ⟨hgraph, hexecution, hlog, hlive⟩ := h.records
  cases hrun : sidecar.execution with
  | some owner =>
    have hnew : ∀ archived ∈ sidecar.log.history, archived.run.id ≠ input.run.id := by
      rcases hsame with hnone | hnew
      · rw [hexecution, hrun] at hnone; cases hnone
      · rwa [hlog] at hnew
    obtain ⟨graph, hstored⟩ := hsound.graph hrun
    refine ⟨.active owner, plan, none, sidecar, ?_, ?_, h⟩
    · rw [claimImplementation, hexecution, hrun]; rfl
    · rw [claimStored, h.restored, Option.some_then, (hsound.eligible hstored hrun).2 hnew, hrun]
      rfl
  | none =>
    rw [claimImplementation, claimStored, h.restored, Option.some_then, hexecution, hrun, hgraph, hlog,
      h.revision, if_neg (by simp)]
    cases heligible : (sidecar.graph.bind current).bind
        (claimEligibility sidecar.log · input.run.id) with
    | some ineligible => exact ⟨_, plan, none, sidecar, rfl, rfl, h⟩
    | none =>
      cases hclaim : Graphs.claim sidecar.graph (some sidecar.revision) none input with
      | started graph owner =>
        have hnext := hsound.claimed heligible (hrun ▸ hclaim)
        refine ⟨_, _, _, _, rfl, rfl, hnext.restored, rfl, ?_⟩
        simp only [Plan.kept, Restored.kept, Restored.log, hlive]
      | active owner => exact ⟨_, plan, none, sidecar, rfl, rfl, h⟩
      | refused reason => exact ⟨_, plan, none, sidecar, rfl, rfl, h⟩

/-- Otherwise the open room names the run at work, and the stored path refuses. -/
theorem claim_differs (h : plan.Opens platform loaded sidecar) (hdiffers : ¬ plan.SamePath (.claim input)) :
    ∃ owner reason saved, claimImplementation plan input = (.active owner, plan) ∧
      claimStored platform loaded input = some (.refused reason, saved) := by
  have hsound := restoredState_sound h.restored
  obtain ⟨hgraph, hexecution, hlog, hlive⟩ := h.records
  simp only [Plan.SamePath, not_or] at hdiffers
  obtain ⟨hworking, hended⟩ := hdiffers
  obtain ⟨owner, hrun⟩ := Option.ne_none_iff_exists'.1 hworking
  obtain ⟨graph, hstored⟩ := hsound.graph (hexecution ▸ hrun)
  have hineligible : (sidecar.graph.bind current).bind
      (claimEligibility sidecar.log · input.run.id) ≠ none :=
    mt (hsound.eligible hstored (hexecution ▸ hrun)).1 (hlog ▸ hended)
  obtain ⟨ineligible, hineligible⟩ := Option.ne_none_iff_exists'.1 hineligible
  refine ⟨owner, ineligible.reason, none, ?_, ?_⟩
  · rw [claimImplementation, hrun]; rfl
  · rw [claimStored, h.restored, Option.some_then, hineligible]
    rfl

variable {input : LifecycleInput}

variable {state : LifecycleState}

theorem fresh_iff : fresh state input = true ↔
    text input.runId = true ∧ text input.idempotencyKey = true ∧ replay state input = none := by
  rw [fresh, Bool.and_eq_true, Bool.and_eq_true, Option.isNone_iff_eq_none, and_assoc]

variable {version : Version}

/-- A new event of the run at work, by the phase its log comes to. -/
theorem transition_working {live : Bool} {folded reduced : ReducerState}
    (hfresh : fresh state input = true)
    (hnew : ∀ archived ∈ state.lifecycle.history, archived.run.id ≠ owner.id)
    (hrun : state.execution = some owner) (hid : input.runId = owner.id)
    (hversion : activeVersion state.graph owner = some version)
    (hfold : foldRun version.definition.tasks owner (state.lifecycle.events.getD []) false = .ok folded)
    (hactive : folded.phase = .active) (hreduce : reduceEvent folded (event input) false = .ok reduced) :
    transition state input live =
      if reduced.phase ≠ .active then
        .accepted (released state owner (state.lifecycle.events.getD [] ++ [event input]) false)
      else if live = true ∧ (settled reduced).phase ≠ .active then
        .accepted (released state owner (state.lifecycle.events.getD [] ++ [event input]) true)
      else .accepted { state with lifecycle := { state.lifecycle with
        events := some (state.lifecycle.events.getD [] ++ [event input]) } } := by
  obtain ⟨hrunId, hkey, hreplay⟩ := fresh_iff.1 hfresh
  have hindex : state.lifecycle.history[state.lifecycle.history.findIdx (·.run.id == input.runId)]? =
      none := by
    by_contra hfound
    obtain ⟨archived, hfound⟩ := Option.ne_none_iff_exists'.1 hfound
    obtain ⟨front, back, hsplit, hmatch, -⟩ := List.findIdx_split hfound
    exact hnew archived (by simp [hsplit]) (by simpa [hid] using hmatch)
  rw [transition, if_neg (by simp [hrunId]), if_neg (by simp [hkey]), hreplay]
  simp only [hindex]
  rw [transitionActive, hrun, Option.bind_some, hversion]
  simp only [hid, bne_self_eq_false, Bool.false_eq_true, if_false, hfold, hactive, hreduce, bne_iff_ne,
    Bool.and_eq_true]

/-- The live flag matters to the event that completes the run only. -/
theorem transition_flag {graph : Graph} (hgraph : plan.graph = some graph)
    (h : fresh ⟨graph, plan.execution, plan.lifecycle⟩ input = true → plan.completes input = false) :
    transition ⟨graph, plan.execution, plan.lifecycle⟩ input true =
      transition ⟨graph, plan.execution, plan.lifecycle⟩ input false := by
  unfold transition
  split; · rfl
  rename_i hrunId
  split; · rfl
  rename_i hkey
  split; · rfl
  rename_i hreplay
  dsimp only
  split; · rfl
  have hcompletes := h (fresh_iff.2 ⟨by simpa using hrunId, by simpa using hkey, hreplay⟩)
  unfold transitionActive
  split
  · rename_i owner version hrun hversion
    simp only at hrun hversion
    rw [hrun, Option.bind_some] at hversion
    split; · rfl
    rename_i hid
    rw [bne_iff_ne, ne_eq, not_not] at hid
    dsimp only
    split; · rfl
    rename_i folded hfold
    split; · rfl
    split; · rfl
    rename_i reduced hreduce
    split; · rfl
    rename_i hphase
    rw [bne_iff_ne, ne_eq, not_not] at hphase
    rw [Plan.completes_eq_false hcompletes hgraph hrun hid hversion (foldRun_snoc_ok hfold hreduce) hphase,
      hphase]
    rfl
  · rfl

theorem delivers_eq {graph : Graph}
    {folded : ReducerState} (hgraph : plan.graph = some graph) (hrun : plan.execution = some owner)
    (hid : input.runId = owner.id) (hversion : activeVersion graph owner = some version)
    (hfold : foldRun version.definition.tasks owner (plan.lifecycle.events.getD [] ++ [event input])
      false = .ok folded) : plan.delivers input = folded.phase.successful := by
  rw [Plan.delivers, hgraph, hrun]
  simp [hversion, hfold, hid]

variable {next : LifecycleState}

/-- The browser build of a run that has just ended. -/
theorem manualRun_ok {build : BuildRequest}
    (h : plan.manualRun next = some build) : plan.buildsManually = true ∧ next.execution = none ∧
      ∃ owner ∈ plan.execution, ∃ archived ∈ next.lifecycle.history.getLast?, archived.run.id = owner.id := by
  simp only [Plan.manualRun] at h
  split at h
  · rename_i hready
    simp only [Bool.and_eq_true, Bool.not_eq_true', Option.isNone_iff_eq_none, beq_iff_eq] at hready
    obtain ⟨⟨⟨hserved, hlive⟩, hidle⟩, hlast⟩ := hready
    obtain ⟨archived, harchived, hfind⟩ := Option.bind_eq_some_iff.1 h
    rw [harchived, Option.map_some, eq_comm, Option.map_eq_some_iff] at hlast
    obtain ⟨owner, hrun, hid⟩ := hlast
    have hfound := List.find?_some hfind
    simp only [Bool.and_eq_true, beq_iff_eq] at hfound
    refine ⟨?_, hidle, owner, hrun, archived, harchived, hid.symm⟩
    rw [Plan.buildsManually, hserved, hlive, hrun]
    exact List.any_eq_true.2 ⟨build, List.mem_of_find?_eq_some hfind, by simp [hfound, hid]⟩
  · cases h

/-- No record is filed where no first build has just ended. -/
theorem reportedLive_kept (hmanual : plan.manualLive next = none)
    (hlive : plan.liveRun.isSome = true → next.execution = none →
      ∀ archived ∈ next.lifecycle.history.getLast?, archived.live = false) :
    plan.reportedLive next = some plan.live := by
  rw [Plan.reportedLive, hmanual]
  split
  · rename_i build archived hrun hidle harchived
    rw [hlive (by rw [hrun]; rfl) hidle archived harchived, Bool.and_false, if_neg Bool.false_ne_true]
    rfl
  · rfl

/-- A report that the two paths take alike files no living record. -/
theorem reportedLive_same {graph : Graph}
    (hwf : graph.Wf) (hgraph : plan.graph = some graph) (hsame : plan.SamePath (.report input))
    (htransition : transition ⟨graph, plan.execution, plan.lifecycle⟩ input false = .accepted next) :
    plan.reportedLive next = some plan.live := by
  obtain ⟨hrunId, hkey, hreplay, haccepted⟩ := transition_accepted htransition
  obtain ⟨-, hmanually⟩ := hsame graph hgraph (fresh_iff.2 ⟨hrunId, hkey, hreplay⟩)
  -- a run that goes on is neither delivered nor live
  have hworking : next.execution = plan.execution → plan.reportedLive next = some plan.live := by
    intro hexecution
    have hidle : ∀ owner ∈ plan.execution, next.execution ≠ none := fun owner hrun hidle ↦ by
      rw [hexecution, hrun] at hidle; cases hidle
    refine reportedLive_kept ?_ fun hserved hnone ↦ ?_
    · cases hrun : plan.manualRun next with
      | none => rw [Plan.manualLive, hrun]; rfl
      | some build =>
        obtain ⟨-, hnone, owner, howner, -⟩ := manualRun_ok hrun
        exact absurd hnone (hidle owner howner)
    · obtain ⟨build, hrun⟩ := Option.isSome_iff_exists.1 hserved
      obtain ⟨-, -, -, owner, howner, -⟩ := liveRun_eq_some hrun
      exact absurd hnone (hidle owner howner)
  cases haccepted with
  | late => exact hworking rfl
  | recorded => exact hworking rfl
  | @ended owner version folded reduced flag hrun hid hversion hfold _ hreduce hover =>
    simp only at hrun hid hversion hfold
    obtain rfl : flag = false := by
      cases flag with
      | false => rfl
      | true => cases hover.1
    have hlast : (released ⟨graph, plan.execution, plan.lifecycle⟩ owner
        (plan.lifecycle.events.getD [] ++ [event input]) false).lifecycle.history.getLast? =
          some ⟨owner, plan.lifecycle.events.getD [] ++ [event input], false⟩ := List.getLast?_concat
    refine reportedLive_kept ?_ fun _ _ archived harchived ↦ ?_
    · by_contra hfiled
      obtain ⟨live, hfiled⟩ := Option.ne_none_iff_exists'.1 hfiled
      simp only [Plan.manualLive, Option.then_eq_some] at hfiled
      obtain ⟨build, hbuild, finished, hfinished, houtcome⟩ := hfiled
      obtain ⟨hcurrent, -, hmatch⟩ := activeVersion_eq_some.1 hversion
      obtain ⟨named, told, hnamed, htold, hphase, -⟩ := ended_finished hcurrent hfinished
      obtain rfl := Option.some.inj (hnamed.symm.trans (versionFor_eq hwf (current_mem hcurrent) hmatch))
      have hdelivers := (delivers_eq hgraph hrun hid hversion htold).symm.trans
        (hmanually (manualRun_ok hbuild).1)
      rw [← Phase.outcome_successful hphase] at hdelivers
      cases hdone : finished.outcome <;> simp [hdone, Outcome.successful] at houtcome hdelivers
    · rw [hlast] at harchived
      cases harchived
      rfl

/-- A report that neither completes nor delivers a first build is answered alike. -/
theorem report_alike (h : plan.Opens platform loaded sidecar) (hsame : plan.SamePath (.report input)) :
    ∃ result next saved after, reportImplementationLifecycle plan input = some (result, next) ∧
      lifecycleStored platform loaded input = some (result, saved) ∧ next.Opens platform (saved.getD loaded) after := by
  have hsound := restoredState_sound h.restored
  obtain ⟨hgraph, hexecution, hlog, hlive⟩ := h.records
  rw [reportImplementationLifecycle, lifecycleStored, h.restored, Option.some_then]
  cases hstored : sidecar.graph with
  | none => rw [hgraph, hstored]; exact ⟨_, plan, none, sidecar, rfl, rfl, h⟩
  | some graph =>
    rw [hstored] at hgraph
    have hflag : transition ⟨graph, plan.execution, plan.lifecycle⟩ input plan.liveRun.isSome =
        transition ⟨graph, plan.execution, plan.lifecycle⟩ input false := by
      cases hserved : plan.liveRun.isSome with
      | false => rfl
      | true => exact transition_flag hgraph fun hfresh ↦ (hsame graph hgraph hfresh).1 hserved
    rw [hgraph]
    simp only [hflag, ← hexecution, ← hlog]
    cases htransition : transition ⟨graph, plan.execution, plan.lifecycle⟩ input false with
    | accepted next =>
      simp only [reportedLive_same (hsound.wf graph hstored) hgraph hsame htransition, Option.map_some, Option.pure_def]
      have hnext := hsound.accepted hstored (hexecution ▸ hlog ▸ htransition)
      exact ⟨_, _, _, _, rfl, rfl, hnext.restored, h.revision, by
        simp [Plan.kept, Restored.kept, Restored.log, Plan.withLifecycle, Restored.withLifecycle, hlive]⟩
    | replayed state => exact ⟨_, plan, none, sidecar, rfl, rfl, h⟩
    | refused reason => exact ⟨_, plan, none, sidecar, rfl, rfl, h⟩

/-- The reduction behind one more event of an ordinary log. -/
theorem reduceEvent_of_snoc {tasks : List Task} {run : Run} {events : List ProgressEvent} {stored : ProgressEvent}
    {state next : ReducerState} (h : foldRun tasks run events false = .ok state)
    (hsnoc : foldRun tasks run (events ++ [stored]) false = .ok next) : reduceEvent state stored false = .ok next := by
  rw [foldRun_snoc, h, Except.ok_bind, foldEvent] at hsnoc
  obtain ⟨reduced, hreduce, heq⟩ := Except.bind_eq_ok.1 hsnoc
  cases heq
  exact hreduce

theorem completes_ok {graph : Graph} (h : plan.completes input = true) (hgraph : plan.graph = some graph)
    (hrun : plan.execution = some owner) (hversion : activeVersion graph owner = some version) :
    input.runId = owner.id ∧ ∃ reduced, foldRun version.definition.tasks owner
        (plan.lifecycle.events.getD [] ++ [event input]) false = .ok reduced ∧
      reduced.phase = .active ∧ (settled reduced).phase ≠ .active := by
  rw [Plan.completes, hgraph, hrun] at h
  simp only [hversion] at h
  split at h
  · rename_i reduced hfold
    simp only [Bool.and_eq_true, beq_iff_eq] at h
    obtain ⟨⟨hid, hactive⟩, hdone⟩ := h
    refine ⟨hid, reduced, hfold, hactive, ?_⟩
    rw [settled, if_pos (by simp [hactive, hdone])]
    exact Phase.ne_active (deliveryPhase_successful _)
  · cases h

theorem delivers_ok {graph : Graph} (h : plan.delivers input = true) (hgraph : plan.graph = some graph)
    (hrun : plan.execution = some owner) (hversion : activeVersion graph owner = some version) :
    input.runId = owner.id ∧ ∃ reduced, foldRun version.definition.tasks owner
        (plan.lifecycle.events.getD [] ++ [event input]) false = .ok reduced ∧ reduced.phase.successful = true := by
  rw [Plan.delivers, hgraph, hrun] at h
  simp only [hversion, Option.any_some] at h
  split at h
  · rename_i reduced hfold
    simp only [Bool.and_eq_true, beq_iff_eq] at h
    exact ⟨h.1, reduced, hfold, h.2⟩
  · cases h

/-- The event that completes a first build's run ends it in an open room alone. -/
theorem completing_differs {graph : Graph} (h : plan.Opens platform loaded sidecar) (hgraph : plan.graph = some graph)
    (hfresh : fresh ⟨graph, plan.execution, plan.lifecycle⟩ input = true) (hserved : plan.liveRun.isSome = true)
    (hcompletes : plan.completes input = true) :
    ∃ ended recorded saved, ended ≠ recorded ∧ lifecycleStored platform loaded input =
      some (.accepted recorded, saved) ∧ ∀ result next,
        reportImplementationLifecycle plan input = some (result, next) → result = .accepted ended := by
  obtain ⟨hsame, hexecution, hlog, hlive⟩ := h.records
  obtain ⟨build, hbuild⟩ := Option.isSome_iff_exists.1 hserved
  obtain ⟨-, -, -, owner, hrun, -⟩ := liveRun_eq_some hbuild
  obtain ⟨version, folded, hversion, -, hfold, hactive, -, hnew⟩ :=
    (restoredState_sound h.restored).working (hsame ▸ hgraph) (hexecution ▸ hrun)
  rw [← hlog] at hfold hnew
  obtain ⟨hid, reduced, hsnoc, hgoesOn, hsettled⟩ := completes_ok hcompletes hgraph hrun hversion
  have hreduce := reduceEvent_of_snoc hfold hsnoc
  obtain ⟨ended, hended, hidle⟩ : ∃ ended, transition ⟨graph, plan.execution, plan.lifecycle⟩ input true =
      .accepted ended ∧ ended.execution = none := by
    rw [transition_working hfresh hnew hrun hid hversion hfold hactive hreduce, if_neg (by simpa using hgoesOn),
      if_pos ⟨rfl, hsettled⟩]
    exact ⟨_, rfl, rfl⟩
  obtain ⟨recorded, hrecorded, hworking⟩ : ∃ recorded, transition ⟨graph, plan.execution, plan.lifecycle⟩
      input false = .accepted recorded ∧ recorded.execution = some owner := by
    rw [transition_working hfresh hnew hrun hid hversion hfold hactive hreduce, if_neg (by simpa using hgoesOn),
      if_neg (by simp)]
    exact ⟨_, rfl, hrun⟩
  refine ⟨ended, recorded, some (sidecar.withLifecycle recorded).stored, fun heq ↦ ?_, ?_,
    fun result next hreport ↦ ?_⟩
  · rw [heq, hworking] at hidle
    cases hidle
  · rw [lifecycleStored, h.restored, Option.some_then, ← hsame, hgraph]
    simp only [← hexecution, ← hlog, hrecorded]
    rfl
  · rw [reportImplementationLifecycle, hgraph] at hreport
    simp only [hserved, hended] at hreport
    obtain ⟨live, -, heq⟩ := Option.map_eq_some_iff.1 hreport
    exact (congrArg Prod.fst heq).symm

/-- A delivered first build has a record to file. -/
theorem manualLive_delivered {prior : List ArchivedRun}
    {archived : ArchivedRun} (hmanually : plan.buildsManually = true) (hrun : plan.execution = some owner)
    (hidle : next.execution = none) (hhistory : next.lifecycle.history = prior ++ [archived])
    (hid : archived.run = owner) (hrestores : next.lifecycle.Restores next.graph next.execution)
    (hsuccess : archived.successful next.graph = true) : (plan.manualLive next).isSome = true := by
  simp only [Plan.buildsManually, Bool.and_eq_true, Bool.not_eq_true', Option.isNone_iff_eq_none, hrun,
    Option.any_some, List.any_eq_true] at hmanually
  obtain ⟨⟨hserved, hnone⟩, build, hmem, hbuild⟩ := hmanually
  obtain ⟨first, hfirst⟩ : ∃ first, plan.builds.find? (fun build ↦ build.id == owner.id && build.rebuild.isNone) =
      some first := Option.isSome_iff_exists.1 (List.find?_isSome.2 ⟨build, hmem, by simpa using hbuild⟩)
  have hmanual : plan.manualRun next = some first := by
    rw [Plan.manualRun]
    simp only [hserved, hnone, hidle, hhistory, List.getLast?_concat, hrun, hid, Option.map_some,
      Option.isNone_none, Bool.not_false, Bool.and_self, beq_self_eq_true, if_true, Option.bind_some, hfirst]
  obtain ⟨projected, hprojected⟩ := projectHistory_exists hrestores.archived
  have hlast := congrArg List.getLast? (projectHistory_successful hprojected)
  rw [List.getLast?_map, List.getLast?_map, hhistory, List.getLast?_concat, Option.map_some,
    Option.map_eq_some_iff] at hlast
  obtain ⟨finished, hfinished, heq⟩ := hlast
  have hdone : finished.outcome.successful = true := (congrArg Prod.snd heq).trans hsuccess
  rw [Plan.manualLive, hmanual, Option.some_then, historyFor, hprojected, Option.getD_some, hfinished,
    Option.some_then]
  cases houtcome : finished.outcome with
  | revisionRequested reason => rw [houtcome] at hdone; cases hdone
  | implemented => rfl
  | delivered => rfl

/-- A run that is released leaves the definitions of the versions as they are. -/
theorem versionFor_released (prior : List Version) (latest : Version) (execution : Option Run) (lifecycle : Lifecycle)
    (events : List ProgressEvent) (live : Bool) (owner run : Run) :
    (versionFor (released ⟨⟨prior ++ [latest]⟩, execution, lifecycle⟩ owner events live).graph run).map
      Version.definition = (versionFor ⟨prior ++ [latest]⟩ run).map Version.definition := by
  have hgraph : (released ⟨⟨prior ++ [latest]⟩, execution, lifecycle⟩ owner events live).graph =
      ⟨prior ++ [{ latest with state := .approved }]⟩ := unlock_mk_concat prior latest
  rw [hgraph, versionFor_withState]

/-- The event that delivers one files its living record in an open room alone. -/
theorem delivering_differs {graph : Graph} (h : plan.Opens platform loaded sidecar) (hgraph : plan.graph = some graph)
    (hfresh : fresh ⟨graph, plan.execution, plan.lifecycle⟩ input = true) (hmanually : plan.buildsManually = true)
    (hdelivers : plan.delivers input = true) :
    ∃ result saved, lifecycleStored platform loaded input = some (result, saved) ∧
      (∀ after, restoredState platform (saved.getD loaded) = some after → after.live = none) ∧
      ∀ result next, reportImplementationLifecycle plan input = some (result, next) → next.live.isSome = true := by
  have hsound := restoredState_sound h.restored
  obtain ⟨hsame, hexecution, hlog, hlive⟩ := h.records
  have hready := hmanually
  simp only [Plan.buildsManually, Bool.and_eq_true, Bool.not_eq_true', Option.isNone_iff_eq_none,
    Option.any_eq_true] at hready
  obtain ⟨⟨hserved, hnone⟩, owner, hrun, -⟩ := hready
  obtain ⟨version, folded, hversion, hcurrent, hfold, hactive, -, hnew⟩ :=
    hsound.working (hsame ▸ hgraph) (hexecution ▸ hrun)
  rw [← hlog] at hfold hnew
  obtain ⟨hid, reduced, hsnoc, hsuccess⟩ := delivers_ok hdelivers hgraph hrun hversion
  obtain ⟨next, htransition, hnext⟩ : ∃ next, transition ⟨graph, plan.execution, plan.lifecycle⟩ input
      false = .accepted next ∧ next = released ⟨graph, plan.execution, plan.lifecycle⟩ owner
        (plan.lifecycle.events.getD [] ++ [event input]) false := by
    rw [transition_working hfresh hnew hrun hid hversion hfold hactive (reduceEvent_of_snoc hfold hsnoc),
      if_pos (Phase.ne_active hsuccess)]
    exact ⟨_, rfl, rfl⟩
  have hsaved := hsound.accepted (hsame ▸ hgraph) (hexecution ▸ hlog ▸ htransition)
  have hfiled : (plan.manualLive next).isSome = true := by
    refine manualLive_delivered hmanually hrun (by rw [hnext]; rfl) (by rw [hnext]; rfl) rfl
      (hsaved.lifecycle next.graph rfl) ?_
    obtain ⟨prior, rfl⟩ := current_eq_some.1 hcurrent
    have hdefinition : (versionFor next.graph owner).map Version.definition = some version.definition := by
      have hfound := versionFor_eq (hsound.wf _ (hsame ▸ hgraph)) (current_mem hcurrent)
        (activeVersion_eq_some.1 hversion).2.2
      rw [hnext, versionFor_released, hfound, Option.map_some]
    have hfolded : (⟨owner, plan.lifecycle.events.getD [] ++ [event input], false⟩ : ArchivedRun).folded next.graph =
        some reduced := ArchivedRun.folded_eq hdefinition hsnoc
    rw [ArchivedRun.successful, hfolded]
    exact hsuccess
  refine ⟨.accepted next, some (sidecar.withLifecycle next).stored, ?_, fun after hafter ↦ ?_,
    fun result after hreport ↦ ?_⟩
  · rw [lifecycleStored, h.restored, Option.some_then, ← hsame, hgraph]
    simp only [← hexecution, ← hlog, htransition]
    rfl
  · rw [Option.getD_some, hsaved.restored] at hafter
    cases hafter
    exact hlive.symm.trans hnone
  · have hidle : plan.liveRun = none := by rw [Plan.liveRun, hserved]; rfl
    obtain ⟨live, hlive⟩ := Option.isSome_iff_exists.1 hfiled
    rw [reportImplementationLifecycle, hgraph] at hreport
    simp only [hidle, Option.isSome_none, htransition, Plan.reportedLive, hlive] at hreport
    cases hreport
    rfl

/-- **A call that both paths take alike has one answer and leaves the same records.** -/
theorem call_alike {call : Call} (h : plan.Opens platform loaded sidecar) (hsame : plan.SamePath call) :
    ∃ answer next saved after, openCall plan call = some (answer, next) ∧
      storedCall platform loaded call = some (answer, saved) ∧ next.Opens platform saved after := by
  cases call with
  | claim input =>
    obtain ⟨result, next, saved, after, hopen, hstored, hnext⟩ := claim_alike h hsame
    exact ⟨.claim result, next, saved.getD loaded, after, by rw [openCall, hopen]; rfl,
      by rw [storedCall, hstored]; rfl, hnext⟩
  | report input =>
    obtain ⟨result, next, saved, after, hopen, hstored, hnext⟩ := report_alike h hsame
    exact ⟨.report result, next, saved.getD loaded, after, by rw [openCall, hopen]; rfl,
      by rw [storedCall, hstored]; rfl, hnext⟩

/-- Any other call is answered differently, or leaves other records. -/
theorem call_differs {call : Call} (h : plan.Opens platform loaded sidecar) (hdiffers : ¬ plan.SamePath call) :
    ∃ answer saved, storedCall platform loaded call = some (answer, saved) ∧
      ∀ other next, openCall plan call = some (other, next) →
        other = answer → some next.kept ≠ (restoredState platform saved).map Restored.kept := by
  cases call with
  | claim input =>
    obtain ⟨owner, reason, saved, hopen, hstored⟩ := claim_differs h hdiffers
    refine ⟨_, _, by rw [storedCall, hstored]; rfl, fun other next hcall heq ↦ ?_⟩
    rw [openCall, hopen] at hcall
    cases hcall
    cases heq
  | report input =>
    simp only [Plan.SamePath, not_forall, not_and_or, Bool.not_eq_false] at hdiffers
    obtain ⟨graph, hgraph, hfresh, ⟨hserved, hcompletes⟩ | ⟨hmanually, hdelivers⟩⟩ := hdiffers
    · obtain ⟨ended, recorded, saved, hne, hstored, hopen⟩ :=
        completing_differs h hgraph hfresh hserved hcompletes
      refine ⟨_, _, by rw [storedCall, hstored]; rfl, fun other next hcall heq ↦ ?_⟩
      obtain ⟨⟨result, after⟩, hreport, hpair⟩ := Option.map_eq_some_iff.1 hcall
      cases hpair
      rw [hopen _ _ hreport] at heq
      exact absurd (LifecycleResult.accepted.inj (Answer.report.inj heq)) hne
    · obtain ⟨result, saved, hstored, hnone, hopen⟩ := delivering_differs h hgraph hfresh hmanually hdelivers
      refine ⟨_, _, by rw [storedCall, hstored]; rfl, fun other next hcall _ hkept ↦ ?_⟩
      obtain ⟨⟨answered, after⟩, hreport, hpair⟩ := Option.map_eq_some_iff.1 hcall
      cases hpair
      obtain ⟨read, hread, heq⟩ := Option.map_eq_some_iff.1 hkept.symm
      have hlive := congrArg Records.live heq
      rw [Restored.kept, hnone read hread] at hlive
      have hfiled := hopen _ _ hreport
      rw [← show none = after.live from hlive] at hfiled
      cases hfiled

/-- **The stored path answers and records what an open room would, exactly as long as** each claim finds
no run at work or names none that has ended, and no report is the one that completes or delivers a first
build. -/
theorem paths_agree {platform : Platform} {loaded : Sidecar} {sidecar : Restored}
    (h : restoredState platform loaded = some sidecar) (id source : String) (liveBuild : Bool) (calls : List Call) :
    storedAnswers platform loaded calls = openAnswers (sidecar.opened id source liveBuild) calls ↔
      (sidecar.opened id source liveBuild).SamePaths calls := by
  have hopens : (sidecar.opened id source liveBuild).Opens platform loaded sidecar := ⟨h, rfl, rfl⟩
  generalize sidecar.opened id source liveBuild = plan at *
  clear h
  induction calls generalizing loaded sidecar plan with
  | nil => simp [storedAnswers, openAnswers, answers, Plan.SamePaths]
  | cons call rest ih =>
    by_cases hsame : plan.SamePath call
    · obtain ⟨answer, next, saved, after, hopen, hstored, hnext⟩ := call_alike hopens hsame
      have hrest := ih next hnext
      simp only [storedAnswers, openAnswers] at hrest
      simp only [storedAnswers, openAnswers, answers, hstored, hopen, Plan.SamePaths, hsame, true_and,
        ← hrest, List.cons.injEq, hnext.restored, hnext.kept, Option.map_some]
    · obtain ⟨answer, saved, hstored, hdiffers⟩ := call_differs hopens hsame
      simp only [storedAnswers, openAnswers, answers, hstored, Plan.SamePaths, hsame, false_and, iff_false]
      intro heq
      split at heq
      · cases heq
      · rename_i other next hopen
        simp only [List.cons.injEq, Option.some.injEq, Prod.mk.injEq] at heq
        exact hdiffers other next hopen heq.1.1.symm heq.1.2.symm

end

/-! ## A build that no browser watches -/

/-- The sidecar while a first build is at work on its last task. -/
def sampleSidecar : Restored :=
  { revision := 0, builds := Plan.sampleWorking.builds, graph := Plan.sampleWorking.graph
    execution := Plan.sampleWorking.execution, lifecycle := some Plan.sampleWorking.lifecycle
    live := none }

/-- Its build completes that task. -/
def sampleComplete : Call := .report ⟨.complete "t" "Done" none, "done", Plan.sampleRun.id⟩

/-- Its build stops for a revision, and another agent claims the graph and delivers it. -/
def sampleCalls : List Call :=
  [.report ⟨.requestRevision "Unclear", "stop", Plan.sampleRun.id⟩,
    .claim ⟨0, 1, Implementation.oneRun⟩, .report ⟨.start "t", "again", "r"⟩,
    .report ⟨.reportPr "t" "https://github.com/o/n/pull/2" .open, "pr-2", "r"⟩,
    .report ⟨.complete "t" "Done" none, "done", "r"⟩]

theorem paths_agree_sample : restoredState .ascii sampleSidecar.stored = some sampleSidecar ∧
    storedAnswers .ascii sampleSidecar.stored sampleCalls =
      openAnswers (sampleSidecar.opened "p" "source" true) sampleCalls :=
  have h : restoredState .ascii sampleSidecar.stored = some sampleSidecar := by decide +kernel
  ⟨h, (paths_agree h "p" "source" true sampleCalls).2 (by decide +kernel)⟩

/-- **An open room changes what a report does**: the event that completes a first build's run ends the
run in the room, and leaves it at work in the stored sidecar. -/
theorem paths_disagree : restoredState .ascii sampleSidecar.stored = some sampleSidecar ∧
    storedAnswers .ascii sampleSidecar.stored [sampleComplete] ≠
      openAnswers (sampleSidecar.opened "p" "source" true) [sampleComplete] := by
  decide +kernel

end Chopin.Tasks
