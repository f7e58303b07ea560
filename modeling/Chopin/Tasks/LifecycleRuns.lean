import Chopin.Lib.Runs
import Chopin.Tasks.Transitions

/-!
# Lifecycles restore exactly

A document's implementation is its graph, the run at work and the lifecycle, at the revision its
plan has reached.  This file runs the operations of `tasks/graphs.ts` and `tasks/lifecycle.ts`
against each other in any order: claims, reported events, planner revisions and approvals, and
edits that raise the plan revision.
-/

set_option autoImplicit false
set_option linter.dupNamespace false

open Script

namespace Chopin.Tasks

/-- What a document holds of its implementation.  `live` is the flag of the run at work. -/
structure Implementation where
  revision : Nat
  graph : Graph
  execution : Option Run
  lifecycle : Lifecycle
  live : Bool
  deriving DecidableEq

namespace Implementation

inductive Act
  /-- A claim, and whether the run it starts is a live one. -/
  | claim (input : ClaimInput) (live : Bool)
  | report (input : LifecycleInput)
  /-- The plan is edited up to this revision. -/
  | edit (revision : Nat)
  | revise (change : Revision)
  | approve

/-- A graph that was just restored, with nothing done on it. -/
def start (graph : Graph) (revision : Nat) : Implementation :=
  { revision, graph, execution := none, lifecycle := ⟨none, []⟩, live := false }

/-- A claim that is eligible and starts an execution. -/
def claim (s : Implementation) (input : ClaimInput) (live : Bool) : Option Implementation :=
  match current s.graph with
  | none => none
  | some version =>
    if (claimEligibility s.lifecycle version input.run.id).isSome then none
    else
      match Graphs.claim (some s.graph) (some s.revision) s.execution input with
      | .started graph run => some { s with graph, execution := some run, live }
      | _ => none

/-- The flag is the same for every report on a run. -/
def report (s : Implementation) (input : LifecycleInput) : Option Implementation :=
  match transition ⟨s.graph, s.execution, s.lifecycle⟩ input s.live with
  | .accepted next | .replayed next =>
    some { s with graph := next.graph, execution := next.execution, lifecycle := next.lifecycle }
  | .refused _ => none

/-- A refused operation is no step. -/
def step (s : Implementation) : Act → Option Implementation
  | .claim input live => s.claim input live
  | .report input => s.report input
  | .edit revision => if s.revision ≤ revision then some { s with revision } else none
  | .revise change =>
    (Graphs.revise (some s.graph) (some s.revision) change).toOption.map ({ s with graph := · })
  | .approve => (approveGraph (some s.graph) (some s.revision)).toOption.map ({ s with graph := · })

/-! ## The invariant -/

structure Sound (s : Implementation) : Prop where
  wf : s.graph.Wf
  restores : s.lifecycle.Restores s.graph s.execution
  valid : ∀ run ∈ s.execution, run.valid = true
  held : ∀ archived ∈ s.lifecycle.history, ∃ definition, s.graph.Holds archived.run definition
  revision : ∀ latest ∈ current s.graph, latest.planRevision ≤ s.revision
  live : s.live = true → ∀ run ∈ s.execution, ∀ version ∈ activeVersion s.graph run,
    foldRun version.definition.tasks run (s.lifecycle.events.getD []) true =
      foldRun version.definition.tasks run (s.lifecycle.events.getD []) false

variable {latest : Version}

variable {graph : Graph}

theorem start_sound {revision : Nat} (hwf : graph.Wf)
    (hlatest : current graph = some latest) (hstate : latest.state ≠ .locked)
    (hrevision : latest.planRevision ≤ revision) : (start graph revision).Sound where
  wf := hwf
  restores := ⟨by simp [start], by simp [start], ⟨latest, hlatest, by simp [start, hstate]⟩,
    by simp [start], by simp [start], by simp [start, Lifecycle.allEvents], by simp [start]⟩
  valid := by simp [start]
  held := by simp [start]
  revision := by
    intro other hother
    rwa [← Option.mem_unique hlatest hother]
  live := by simp [start]

/-- What a kept graph makes of the history is what it made of it before. -/
theorem folded_kept {next : Graph} {archived : ArchivedRun} (hwf : graph.Wf) (hnext : next.Wf)
    (hkept : graph.Kept next) (hheld : ∃ definition, graph.Holds archived.run definition) :
    archived.folded next = archived.folded graph := by
  obtain ⟨definition, hholds⟩ := hheld
  obtain ⟨v, -, hv, -, hvdef⟩ := hholds.versionFor hwf
  obtain ⟨w, -, hw, -, hwdef⟩ := (hkept archived.run definition hholds).versionFor hnext
  exact ArchivedRun.folded_congr (by rw [versionFor, versionFor, hv, hw, Option.map_some,
    Option.map_some, hvdef, hwdef])

variable {s : Implementation}

/-- The last version is locked whenever a run is at work. -/
theorem Sound.idle (h : s.Sound) (hlatest : current s.graph = some latest) (hstate : latest.state ≠ .locked) :
    s.execution = none := by
  obtain ⟨last, hlast, hlocked⟩ := h.restores.locked
  obtain rfl := Option.mem_unique hlatest hlast
  exact Option.not_isSome_iff_eq_none.1 (mt hlocked.2 hstate)

/-- While no run is at work the graph may move on to one that keeps what was claimed. -/
theorem Sound.regraph (h : s.Sound) (hexecution : s.execution = none) (hwf : graph.Wf)
    (hkept : s.graph.Kept graph) (hlatest : ∀ latest ∈ current graph, latest.state ≠ .locked ∧
      latest.planRevision ≤ s.revision) : Sound { s with graph } := by
  obtain ⟨revision, prior, execution, lifecycle, live⟩ := s
  simp only at *
  subst hexecution
  obtain ⟨versions, last, hsplit⟩ := hwf.split
  have hlast : current graph = some last := current_eq_some.2 ⟨versions, by cases graph; simp_all⟩
  refine ⟨hwf, ?_, by simp, fun archived hmem ↦ ?_, fun latest hmem ↦ (hlatest latest hmem).2, by simp⟩
  · exact h.restores.regraph (fun archived hmem ↦ folded_kept h.wf hwf hkept (h.held archived hmem))
      ⟨last, hlast, (hlatest last hlast).1⟩
  · exact (h.held archived hmem).imp fun definition ↦ hkept archived.run definition

/-- An eligible run takes the approved version that it names. -/
theorem Sound.locked (h : s.Sound) {prior : List Version} {run : Run} (live : Bool)
    (hgraph : s.graph = ⟨prior ++ [latest]⟩) (hidle : s.execution = none) (hplan : s.revision = latest.planRevision)
    (happroved : latest.state = .approved) (hmatch : «matches» run latest = true) (hvalid : run.valid = true)
    (helig : claimEligibility s.lifecycle latest run.id = none) : Sound { s with
      graph := ⟨prior ++ [{ latest with state := .locked }]⟩, execution := some run, live } := by
  obtain ⟨revision, graph, execution, lifecycle, flag⟩ := s
  simp only at *
  subst hgraph hidle hplan
  have hwf : Graph.Wf ⟨prior ++ [{ latest with state := .locked }]⟩ :=
    h.wf.withState (by simp [happroved]) (.inr rfl)
  have hkept : Graph.Kept ⟨prior ++ [latest]⟩ ⟨prior ++ [{ latest with state := .locked }]⟩ :=
    .withState (by simp)
  have hrestores := h.restores.claim
    (fun archived _ ↦ ArchivedRun.folded_congr (versionFor_withState prior latest .locked _)) hmatch
    helig
  refine ⟨hwf, hrestores, ?_, fun archived hmem ↦ ?_, ?_, ?_⟩
  · rintro _ ⟨⟩; exact hvalid
  · exact (h.held archived hmem).imp fun definition ↦ hkept archived.run definition
  · intro other hother
    obtain rfl := Option.some.inj ((current_mk_concat _ _).symm.trans hother)
    exact le_rfl
  · -- nothing has been reported yet, so both folds are where every run begins
    have hevents : lifecycle.events = none := Option.eq_none_iff_forall_not_mem.2 fun events hmem ↦ by
      simpa using (h.restores.events events hmem).1
    rintro - run - version -
    simp only [hevents, Option.getD_none, foldRun_nil]

variable {t : Implementation}

/-- A claim starts a run on an approved version and locks it. -/
theorem claim_sound {input : ClaimInput} {live : Bool} (h : s.Sound)
    (hstep : s.claim input live = some t) : t.Sound := by
  unfold claim at hstep
  split at hstep; · cases hstep
  rename_i version hversion
  split at hstep; · cases hstep
  rename_i helig
  split at hstep <;> cases hstep
  rename_i graph run hstarted
  obtain ⟨hidle, rfl, hvalid, prior, latest, hgraph, hplan, happroved, hmatch, rfl⟩ :=
    claim_started hstarted
  have hgraph := Option.some.inj hgraph
  obtain rfl : latest = version := by
    rw [hgraph, current_mk_concat] at hversion
    exact Option.some.inj hversion
  exact h.locked live hgraph hidle (Option.some.inj hplan) happroved hmatch hvalid (by simpa using helig)

/-- An accepted input; one that is not live does not complete a live run. -/
theorem Sound.accepted {input : LifecycleInput} {live : Bool}
    {next : LifecycleState} (h : s.Sound) (hlive : live = true → s.live = true)
    (hunsettled : s.live = true → live = false → ∀ run ∈ s.execution, input.runId = run.id →
      ∀ version ∈ activeVersion s.graph run, ∀ reduced,
        foldRun version.definition.tasks run (s.lifecycle.events.getD [] ++ [event input]) false =
          .ok reduced → reduced.phase = .active → settled reduced = reduced)
    (hstep : transition ⟨s.graph, s.execution, s.lifecycle⟩ input live = .accepted next) : Sound { s with
      graph := next.graph, execution := next.execution, lifecycle := next.lifecycle } := by
  obtain ⟨revision, graph, execution, lifecycle, flag⟩ := s
  obtain ⟨-, hkey, hreplay, haccepted⟩ := transition_accepted hstep
  refine ⟨haccepted.wf h.wf, haccepted.restores h.wf h.restores h.valid hkey hreplay
    fun hflag ↦ h.live (hlive hflag), fun run hrun ↦ h.valid run (haccepted.execution run hrun),
    haccepted.held h.held, fun latest hlatest ↦ ?_,
    fun hflag ↦ haccepted.liveLog (h.live hflag) (hunsettled hflag)⟩
  have hplan := haccepted.planRevision
  rw [hlatest, Option.map_some, eq_comm, Option.map_eq_some_iff] at hplan
  obtain ⟨earlier, hearlier, heq⟩ := hplan
  exact heq ▸ h.revision earlier hearlier

/-- A reported event is replayed, which changes nothing, or accepted. -/
theorem report_sound {input : LifecycleInput} (h : s.Sound) (hstep : s.report input = some t) : t.Sound := by
  unfold report at hstep
  split at hstep
  · rename_i next haccepted
    cases hstep
    exact h.accepted id (fun hlive hflag ↦ absurd (hlive.symm.trans hflag) (by simp)) haccepted
  · rename_i next hreplayed
    cases hstep
    rw [(transition_replayed hreplayed).2]
    exact h
  · cases hstep

theorem revise_sound {change : Revision} (h : s.Sound)
    (hrevise : Graphs.revise (some s.graph) (some s.revision) change = .ok graph) : Sound { s with graph } := by
  obtain ⟨revision, ⟨versions⟩, execution, lifecycle, live⟩ := s
  obtain ⟨prior, latest, hsplit⟩ := h.wf.split
  simp only at hsplit hrevise
  subst hsplit
  obtain ⟨checked, hvalid, hcases⟩ := revise_ok hrevise
  have hrevision : latest.planRevision ≤ revision := h.revision latest (current_mk_concat _ _)
  have hexecution : execution = none := h.idle (current_mk_concat _ _) (by
    rcases hcases with ⟨hstate, -⟩ | ⟨hstate, -⟩ <;> simp [hstate])
  subst hexecution
  rcases hcases with ⟨hstate, rfl⟩ | ⟨hstate, rfl⟩
  · refine h.regraph rfl (h.wf.redraft hrevision hvalid) (.redraft hstate) fun last hlast ↦ ?_
    obtain rfl := Option.some.inj ((current_mk_concat _ _).symm.trans hlast)
    exact ⟨by simp [hstate], le_rfl⟩
  · refine h.regraph rfl (h.wf.pushDraft hstate hrevision hvalid) (.push _ _) fun last hlast ↦ ?_
    obtain rfl := Option.some.inj ((current_mk_concat _ _).symm.trans hlast)
    exact ⟨by simp, le_rfl⟩

theorem approve_sound (h : s.Sound) (happrove : approveGraph (some s.graph) (some s.revision) = .ok graph) :
    Sound { s with graph } := by
  obtain ⟨revision, ⟨versions⟩, execution, lifecycle, live⟩ := s
  obtain ⟨prior, latest, hsplit⟩ := h.wf.split
  simp only at hsplit happrove
  subst hsplit
  obtain ⟨hstate, hplan, rfl⟩ := approve_ok happrove
  have hexecution : execution = none := h.idle (current_mk_concat _ _) (by simp [hstate])
  subst hexecution
  refine h.regraph rfl (h.wf.approve hstate) (.approve hstate) fun last hlast ↦ ?_
  obtain rfl := Option.some.inj ((current_mk_concat _ _).symm.trans hlast)
  exact ⟨by simp, (Option.some.inj hplan).ge⟩

/-- Every operation keeps the invariant. -/
theorem step_sound {act : Act} (h : s.Sound) (hstep : s.step act = some t) : t.Sound := by
  cases act with
  | claim input live => exact claim_sound h hstep
  | report input =>
    rw [step] at hstep
    exact report_sound h hstep
  | edit revision =>
    rw [step] at hstep
    split at hstep <;> cases hstep
    rename_i hle
    exact ⟨h.wf, h.restores, h.valid, h.held, fun latest hmem ↦ (h.revision latest hmem).trans hle,
      h.live⟩
  | revise change =>
    obtain ⟨graph, hgraph, rfl⟩ := Option.map_eq_some_iff.1 hstep
    exact revise_sound h (Except.toOption_eq_some.1 hgraph)
  | approve =>
    obtain ⟨graph, hgraph, rfl⟩ := Option.map_eq_some_iff.1 hstep
    exact approve_sound h (Except.toOption_eq_some.1 hgraph)

/-- **The implementation lifecycle restores exactly.**  Whatever is claimed, reported, revised and
approved on a restored graph with an approved version, both stored records are read back as they
are. -/
theorem lifecycle_restores {json : Json} {graph : Graph} {latest : Version} {revision : Nat}
    {acts : List Act} {s : Implementation} (hgraph : Graphs.restore json = some graph)
    (hlatest : current graph = some latest) (happroved : latest.state = .approved)
    (hrevision : latest.planRevision ≤ revision) (run : Runs step (start graph revision) acts s) :
    Graphs.restore s.graph.toJson = some s.graph ∧
      restoreLifecycle s.lifecycle.toJson s.graph s.execution = some s.lifecycle := by
  have hsound : s.Sound := run.invariant
    (start_sound (restore_wf hgraph) hlatest (by simp [happroved]) hrevision) fun _ _ _ h hstep ↦
      step_sound h hstep
  exact ⟨hsound.wf.restore, hsound.restores.restore hsound.wf⟩

/-! ## One task claimed and finished -/

def oneTask : Task :=
  { id := "t", title := "Title", context := "Context", goal := "Goal"
    acceptance := ["First", "Second"], dependsOn := [] }

def oneGraph : Graph :=
  ⟨[{ number := 1, revision := 1, planRevision := 0, state := .approved, definition := ⟨[oneTask]⟩ }]⟩

def oneRun : Run :=
  { id := "r", user := "u", client := ⟨"agent", "1"⟩, session := "s", planRevision := 0
    graphVersion := 1, graphRevision := 1, repository := "o/n", branch := "b", commit := "c"
    startedAt := "2026" }

/-- A live run that delivers its task, then a revised graph. -/
def oneDelivery : List Act :=
  [.claim ⟨0, 1, oneRun⟩ true,
    .report ⟨.start "t", "start", "r"⟩,
    .report ⟨.reportPr "t" "https://github.com/o/n/pull/1" .open, "pr", "r"⟩,
    .report ⟨.complete "t" "Done" none, "done", "r"⟩,
    .edit 2,
    .revise ⟨2, 1, [.add { oneTask with id := "u" }]⟩,
    .approve]

theorem lifecycle_restores_oneDelivery :
    ∃ s, Runs step (start oneGraph 0) oneDelivery s ∧ s.lifecycle.history.length = 1 ∧
      Graphs.restore s.graph.toJson = some s.graph ∧
        restoreLifecycle s.lifecycle.toJson s.graph s.execution = some s.lifecycle := by
  have hend : (oneDelivery.foldlM step (start oneGraph 0)).any
      (·.lifecycle.history.length == 1) = true := by decide
  obtain ⟨s, hs, hlength⟩ := Option.any_eq_true _ _ |>.1 hend
  have hrun := runs_iff_foldlM.2 hs
  have hgraph : Graphs.restore oneGraph.toJson = some oneGraph := by decide
  exact ⟨s, hrun, by simpa using hlength, lifecycle_restores hgraph rfl rfl (by decide) hrun⟩

end Implementation

end Chopin.Tasks
