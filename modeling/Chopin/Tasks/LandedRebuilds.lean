import Chopin.Tasks.LandedImplementations
import Chopin.Tasks.ReplayRuns

/-!
# Landed rebuilds keep a document restorable

The runs of a document again, with everything that `tasks/builds.ts` does to a graph and a lifecycle
without `transition`.  After every step the stored graph and lifecycle are read back as they are,
provided that each step meets `LandsRestorably`.

The condition is not idle.  `reportRebuild` compares addresses without regard to case where the fold
does not, and it takes what the reader refuses in other ways too.
-/

set_option autoImplicit false
set_option linter.dupNamespace false

open Script

namespace Chopin.Tasks

namespace Plan

/-! ## The condition -/

/-- With this report every task of the run at work is complete, and the run goes on. -/
def completes (plan : Plan) (input : LifecycleInput) : Bool :=
  match plan.graph, plan.execution with
  | some graph, some run =>
    match activeVersion graph run with
    | some version =>
      match foldRun version.definition.tasks run (plan.lifecycle.events.getD [] ++ [event input])
          false with
      | .ok folded => input.runId == run.id && folded.phase == .active
          && folded.progress.all TaskProgress.completed
      | .error _ => false
    | none => false
  | _, _ => false

/-- What a rebuild has to meet to land on a document that stays restorable.  Its keys are new; the
first build's run is alone where the report completes it; and where a version is appended, it and its
run are of the kind that is read back. -/
structure Restorably (plan : Plan) (live : LiveBuild) (buildId : String) (report : RebuildReport) :
    Prop where
  fresh : plan.FreshKeys buildId report
  alone : ∀ graph ∈ plan.graph, plan.lifecycle.AllDone graph live.buildId report →
    plan.lifecycle.Alone graph plan.execution live.buildId
  appended : ∀ target ∈ live.target, ∀ build ∈ plan.builds.getLast?, ∀ latest ∈ plan.graph.bind current,
    report.tasks ≠ [] → latest.state = .approved →
      Appendable plan.lifecycle live target build latest report

/-- The steps after which a document is restorable.  A report that finds no room ends no run live, so
it must not be the one that completes a live build's run. -/
def LandsRestorably (plan : Plan) : Act → Prop
  | .reportStored input => plan.liveRun.isSome = true → plan.completes input = false
  | .land buildId report _ => ∀ live ∈ plan.live, plan.Restorably live buildId report
  | _ => True

/-! ## The invariant -/

/-- What the plan's graph, if it has one, implements. -/
def implementation (plan : Plan) (graph : Graph) : Implementation :=
  { revision := plan.revision, graph, execution := plan.execution, lifecycle := plan.lifecycle
    live := plan.liveRun.isSome }

structure Sound (platform : Platform) (plan : Plan) : Prop where
  implementation : ∀ graph ∈ plan.graph, (plan.implementation graph).Sound
  empty : plan.graph = none → plan.execution = none ∧ plan.lifecycle = ⟨none, []⟩
  builds : ∀ build ∈ plan.builds, build.valid platform = true
  checkout : ∀ live ∈ plan.live, live.checkout.valid = true
  target : ∀ live ∈ plan.live, ∀ target ∈ live.target,
    target.revision ≤ plan.revision ∧ target.revision ≤ Json.maxSafe

variable {plan : Plan}

theorem liveRun_isSome : plan.liveRun.isSome = true ↔ plan.liveBuild = true ∧
    plan.live = none ∧ ∃ run ∈ plan.execution, ∃ build ∈ plan.builds, build.id = run.id := by
  rw [liveRun]
  split
  · rename_i h
    simp only [Bool.and_eq_true, Option.isNone_iff_eq_none] at h
    cases plan.execution <;> simp [h]
  · rename_i h
    simp only [Bool.and_eq_true, Option.isNone_iff_eq_none, not_and] at h
    simp only [Option.isSome_none, Bool.false_eq_true, false_iff, not_and]
    exact fun hserved hlive ↦ absurd hlive (h hserved)

/-- The living build of the run at work is the one it had. -/
theorem liveRun_of {next : Plan} (hserved : next.liveBuild = plan.liveBuild)
    (hlive : next.live = none → plan.live = none) (hexecution : ∀ run ∈ next.execution, plan.execution = some run)
    (hbuilds : next.execution.isSome → next.builds.map BuildRequest.id = plan.builds.map BuildRequest.id)
    (h : next.liveRun.isSome = true) : plan.liveRun.isSome = true := by
  obtain ⟨hserves, hnone, run, hrun, build, hbuild, hid⟩ := liveRun_isSome.1 h
  have hmem : build.id ∈ plan.builds.map BuildRequest.id := by
    rw [← hbuilds (Option.isSome_iff_exists.2 ⟨run, hrun⟩)]
    exact List.mem_map_of_mem hbuild
  obtain ⟨before, hbefore, hsame⟩ := List.mem_map.1 hmem
  exact liveRun_isSome.2 ⟨hserved ▸ hserves, hlive hnone, run, hexecution run hrun, before, hbefore,
    hsame.trans hid⟩

variable {platform : Platform}

theorem Sound.keyed (h : plan.Sound platform) : plan.Keyed := by
  cases hgraph : plan.graph with
  | none =>
    obtain ⟨hexecution, hlifecycle⟩ := h.empty hgraph
    exact ⟨by simp [hlifecycle], by simp [hlifecycle, Lifecycle.Keyed, Lifecycle.allEvents]⟩
  | some graph =>
    have hrestores := (h.implementation graph hgraph).restores
    exact ⟨fun events hmem ↦ (hrestores.events events hmem).1, hrestores.keys⟩

/-- Steps that leave the implementation alone. -/
theorem Sound.still {next : Plan} (h : plan.Sound platform)
    (hgraph : next.graph = plan.graph) (hexecution : next.execution = plan.execution)
    (hlifecycle : next.lifecycle = plan.lifecycle) (hrevision : plan.revision ≤ next.revision)
    (hserved : next.liveBuild = plan.liveBuild) (hlive : next.live = none → plan.live = none)
    (hids : next.execution.isSome → next.builds.map BuildRequest.id = plan.builds.map BuildRequest.id)
    (hbuilds : ∀ build ∈ next.builds, build.valid platform = true)
    (hcheckout : ∀ live ∈ next.live, live.checkout.valid = true) (htarget : ∀ live ∈ next.live, ∀ target ∈ live.target,
      target.revision ≤ next.revision ∧ target.revision ≤ Json.maxSafe) : next.Sound platform := by
  refine ⟨fun graph hmem ↦ ?_, ?_, hbuilds, hcheckout, htarget⟩
  · have hsound := h.implementation graph (hgraph ▸ hmem)
    have hraised : Implementation.Sound { plan.implementation graph with revision := next.revision } :=
      ⟨hsound.wf, hsound.restores, hsound.valid, hsound.held,
        fun latest hlatest ↦ (hsound.revision latest hlatest).trans hrevision, hsound.live⟩
    have hflag := hraised.withLive next.liveRun.isSome fun hflag ↦
      .inl (liveRun_of hserved hlive (fun run hrun ↦ hexecution ▸ hrun) hids hflag)
    simpa only [Plan.implementation, hexecution, hlifecycle] using hflag
  · rw [hgraph, hexecution, hlifecycle]
    exact h.empty

/-- The implementation after a step, with the flag of the plan it belongs to. -/
theorem sound_of {graph : Graph} {s : Implementation} (h : s.Sound) (hrevision : s.revision = plan.revision)
    (hgraph : s.graph = graph) (hexecution : s.execution = plan.execution) (hlifecycle : s.lifecycle = plan.lifecycle)
    (hlive : plan.liveRun.isSome = true → s.live = true ∨ s.execution = none) : (plan.implementation graph).Sound := by
  have hflag := h.withLive plan.liveRun.isSome hlive
  rwa [hrevision, hgraph, hexecution, hlifecycle] at hflag

/-! ## Every step keeps it -/

section Steps

variable {platform : Platform} {plan next : Plan}

theorem Sound.regraph {result : Result Graph} (h : plan.Sound platform) (hstep : plan.withGraph result = some next)
    (hsome : ∀ before ∈ plan.graph, ∀ graph, result = .ok graph →
      Implementation.Sound { plan.implementation before with graph })
    (hnone : plan.graph = none → ∀ graph, result = .ok graph →
      (Implementation.start graph plan.revision).Sound) : next.Sound platform := by
  obtain ⟨graph, hresult, rfl⟩ := withGraph_ok hstep
  refine ⟨fun after hafter ↦ ?_, by simp, h.builds, h.checkout, h.target⟩
  cases hafter
  cases hgraph : plan.graph with
  | some before => exact hsome before hgraph graph hresult
  | none =>
    obtain ⟨hexecution, hlifecycle⟩ := h.empty hgraph
    exact sound_of (hnone hgraph graph hresult) rfl rfl hexecution.symm hlifecycle.symm
      fun _ ↦ .inr rfl

theorem Sound.queueBuild {input : BuildInput} {blockers : List String} {draw : Draw} {build : BuildRequest}
    (h : plan.Sound platform) (hstep : Tasks.queueBuild platform plan input blockers draw = .ok (build, next)) :
    next.Sound platform := by
  rcases queueBuild_ok hstep with
    rfl | ⟨graph, version, approved, hgraph, hversion, hidle, happroved, -, hvalid, -, rfl⟩
  · exact h
  have hsound := h.implementation graph hgraph
  have hnext : Implementation.Sound { plan.implementation graph with graph := approved } := by
    rcases happroved with ⟨-, rfl⟩ | happroved
    · exact hsound
    · exact Implementation.approve_sound hsound happroved
  refine ⟨fun after hafter ↦ ?_, by simp, ?_, h.checkout, h.target⟩
  · cases hafter
    exact sound_of hnext rfl rfl rfl rfl fun _ ↦ .inr hidle
  · intro other hmem
    rcases List.mem_append.1 hmem with hmem | hmem
    · exact h.builds other hmem
    · exact List.mem_singleton.1 hmem ▸ hvalid

theorem Sound.claimed {input : ClaimInput} (h : plan.Sound platform)
    (hstep : plan.claimed input = some next) : next.Sound platform := by
  obtain ⟨prior, latest, hgraph, hidle, hrevision, hstate, hmatch, hvalid, helig, rfl⟩ := claimed_ok hstep
  refine ⟨fun after hafter ↦ ?_, by simp, h.builds, h.checkout, h.target⟩
  cases hafter
  exact (h.implementation _ hgraph).locked _ rfl hidle hrevision hstate hmatch hvalid helig

variable {input : LifecycleInput}

theorem completes_eq_false {graph : Graph} {run : Run} {version : Version} {reduced : ReducerState} (h : plan.completes input = false) (hgraph : plan.graph = some graph)
    (hrun : plan.execution = some run) (hid : input.runId = run.id) (hversion : activeVersion graph run = some version)
    (hfold : foldRun version.definition.tasks run (plan.lifecycle.events.getD [] ++ [event input])
      false = .ok reduced) (hphase : reduced.phase = .active) : settled reduced = reduced := by
  rw [completes, hgraph, hrun] at h
  simp only [hversion, hfold, hid, hphase, beq_self_eq_true, Bool.true_and] at h
  rw [settled, if_neg (by simp [h])]

/-- What a report leaves, whichever way it came. -/
theorem Sound.withLifecycle {graph : Graph} {state : LifecycleState}
    {live : Bool} {record : Option LiveBuild} (h : plan.Sound platform) (hgraph : plan.graph = some graph)
    (hflag : live = true → plan.liveRun.isSome = true)
    (hunsettled : live = false → plan.liveRun.isSome = true → plan.completes input = false)
    (hstep : transition ⟨graph, plan.execution, plan.lifecycle⟩ input live = .accepted state)
    (hrecord : record = plan.live ∨ plan.live = none ∧
      ∃ build ∈ plan.builds, ∃ requests, record = some (plan.goLive build requests none)) :
    Sound platform { plan.withLifecycle state with live := record } := by
  have hsound := (h.implementation graph hgraph).accepted hflag
    (fun hlive hnot run hrun hid version hversion reduced hfold hphase ↦
      completes_eq_false (hunsettled hnot hlive) hgraph hrun hid hversion hfold hphase) hstep
  have hexecution := (transition_accepted hstep).2.2.2.execution
  refine ⟨fun after hafter ↦ ?_, by simp [Plan.withLifecycle], h.builds, ?_, ?_⟩
  · cases hafter
    have hrecordNone : record = none → plan.live = none := by
      rintro rfl
      exact hrecord.elim Eq.symm And.left
    refine sound_of hsound rfl rfl rfl rfl fun hnext ↦ .inl ?_
    refine liveRun_of ?_ hrecordNone hexecution ?_ hnext
    · rfl
    · exact fun _ ↦ rfl
  · rintro found rfl
    rcases hrecord with hsame | ⟨-, build, hmem, requests, hlive⟩
    · exact h.checkout found hsame.symm
    · cases hlive
      exact BuildRequest.valid_checkout (h.builds build hmem)
  · rintro found rfl
    rcases hrecord with hsame | ⟨-, build, hmem, requests, hlive⟩
    · exact h.target found hsame.symm
    · cases hlive
      simp [goLive]

/-- A build that stops goes live, or nothing happens to the implementation. -/
theorem Sound.liveFromStopped {build : BuildRequest} (h : plan.Sound platform)
    (hbuild : build ∈ plan.builds) (hkeys : (Tasks.liveFromStopped plan build).Keyed) :
    (Tasks.liveFromStopped plan build).Sound platform := by
  rcases liveFromStopped_cases plan build with hsame | ⟨graph, run, version, folded, hgraph, hrun,
    hserved, hlive, -, hid, htext, -, -, -, -, -, hnext⟩
  · rw [hsame]; exact h
  · rw [hnext] at hkeys ⊢
    have hflag : plan.liveRun.isSome = true :=
      liveRun_isSome.2 ⟨hserved, hlive, run, hrun, build, hbuild, hid.symm⟩
    have hstopped := (h.implementation graph hgraph).stopped hrun hflag htext hkeys.keys false
    refine ⟨fun after hafter ↦ ?_, by simp, h.builds, ?_, by simp [goLive]⟩
    · cases hafter
      exact sound_of hstopped rfl rfl rfl rfl fun _ ↦ .inr rfl
    · rintro _ ⟨⟩
      exact BuildRequest.valid_checkout (h.builds build hbuild)

/-- **A rebuild lands on a sound document.** -/
theorem Sound.landed {buildId now : String} {report : RebuildReport} (h : plan.Sound platform)
    (hreport : report.valid platform = true)
    (hmet : ∀ live ∈ plan.live, plan.Restorably live buildId report) (hkeyed : next.Keyed)
    (hstep : reportRebuild platform plan buildId report now = .ok next) : next.Sound platform := by
  obtain ⟨live, target, prior, build, graph, lifecycle, hlive, htarget, hbuilds, rfl, -, -, -, -, happend,
    hvalid, rfl⟩ := reportRebuild_ok hstep
  have hbuild : build.valid platform = true := h.builds build (by simp [hbuilds])
  have hcheckout := h.checkout live hlive
  obtain ⟨htargetLe, htargetSafe⟩ := h.target live hlive target htarget
  have hmet := hmet live hlive
  refine ⟨fun after hafter ↦ ?_, fun hnone ↦ ?_, fun other hmem ↦ ?_, ?_, ?_⟩
  · rcases happend with ⟨-, rfl, -⟩ | ⟨before, after', hgraph, rfl, happend⟩
    · cases hafter
    cases hafter
    have hsound := h.implementation before hgraph
    have hresuming : Resuming before plan.execution plan.lifecycle live.buildId report
        (resumedLifecycle plan live build.id report) := by
      rw [resumedLifecycle, resumed, hgraph, Option.bind_some]
      cases hresumed : resumeOutstanding before plan.lifecycle live build.id report with
      | none => exact .start hsound.restores _ _
      | some resumption =>
        exact hsound.restores.resumeOutstanding hsound.wf (platform.uuid_text _
          (BuildRequest.valid_id hbuild)) (hmet.alone before hgraph) hresumed
    have hresumed := hsound.resumed hresuming
    rcases appendRebuild_ok happend with ⟨rfl, rfl⟩ | ⟨versions, latest, rfl, htasks, hstate, hchecked,
      rfl, rfl⟩
    · exact sound_of hresumed rfl rfl rfl rfl fun hflag ↦ by simp [liveRun_isSome] at hflag
    · have happendable := hmet.appended target htarget build (by simp [hbuilds]) latest
        (by simp [hgraph]) htasks hstate
      have happended := hresumed.appended rfl hstate hchecked hbuild hcheckout htargetLe htargetSafe
        htasks hreport (happendable.resumed hresuming.runs) hkeyed.keys
      exact sound_of happended rfl rfl rfl rfl fun hflag ↦ by simp [liveRun_isSome] at hflag
  · rcases happend with ⟨hgraph, -, rfl⟩ | ⟨_, _, -, rfl, -⟩
    · exact h.empty hgraph
    · cases hnone
  · rcases List.mem_append.1 hmem with hmem | hmem
    · exact h.builds other (by simp [hbuilds, hmem])
    · exact List.mem_singleton.1 hmem ▸ hvalid
  · rintro _ ⟨⟩; exact hcheckout
  · rintro _ ⟨⟩ _ ⟨⟩

theorem LandsRestorably.landsFresh {act : Act} (h : plan.LandsRestorably act)
    (hstep : step platform plan act = some next) : plan.LandsFresh act := by
  cases act with
  | land buildId report now =>
    rw [step] at hstep
    split at hstep <;> try cases hstep
    obtain ⟨live, _, _, _, _, _, hlive, -⟩ := reportRebuild_ok (Except.toOption_eq_some.1 hstep)
    exact (h live hlive).fresh
  | _ => trivial

/-- **Every step keeps the invariant.** -/
theorem step_sound {act : Act} (h : plan.Sound platform) (hmet : plan.LandsRestorably act)
    (hstep : step platform plan act = some next) : next.Sound platform := by
  cases act with
  | edit revision source =>
    rw [step] at hstep
    split at hstep <;> cases hstep
    rename_i hle
    exact h.still rfl rfl rfl hle.1 rfl (fun hnone ↦ hnone) (fun _ ↦ rfl) h.builds h.checkout fun live hlive target ht ↦
      ⟨(h.target live hlive target ht).1.trans hle.1, (h.target live hlive target ht).2⟩
  | revise change =>
    refine h.regraph hstep (fun before hgraph graph hresult ↦ ?_) fun hgraph graph hresult ↦ ?_
    · rw [Option.mem_def.1 hgraph] at hresult
      exact Implementation.revise_sound (h.implementation before hgraph) hresult
    · rw [hgraph] at hresult
      exact Implementation.revise_none hresult
  | approve =>
    refine h.regraph hstep (fun before hgraph graph hresult ↦ ?_) fun hgraph graph hresult ↦ ?_
    · rw [Option.mem_def.1 hgraph] at hresult
      exact Implementation.approve_sound (h.implementation before hgraph) hresult
    · rw [hgraph] at hresult
      cases hresult
  | queueBuild input blockers draw =>
    rw [step] at hstep
    split at hstep <;> try cases hstep
    obtain ⟨⟨build, next⟩, hqueued, rfl⟩ := Option.map_eq_some_iff.1 hstep
    exact h.queueBuild (Except.toOption_eq_some.1 hqueued)
  | claim input => exact h.claimed hstep
  | report input =>
    rw [step] at hstep
    obtain ⟨graph, state, live, hgraph, haccepted, hlive, rfl⟩ := reported_ok hstep
    refine h.withLifecycle hgraph (fun hflag ↦ hflag) (fun hflag hlive ↦ absurd (hflag.symm.trans hlive) (by simp))
      haccepted ?_
    refine (reportedLive_ok hlive).imp_right fun hfiles ↦ ?_
    obtain ⟨hnone, build, hmem, finished, -, hfiled⟩ := hfiles
    exact ⟨hnone, build, hmem, _, hfiled⟩
  | reportStored input =>
    rw [step] at hstep
    obtain ⟨graph, state, hgraph, haccepted, rfl⟩ := reportedStored_ok hstep
    exact h.withLifecycle hgraph (by simp) (fun _ ↦ hmet) haccepted (.inl rfl)
  | pick user connectionId resumable clock =>
    rw [step] at hstep
    split at hstep <;> try cases hstep
    rename_i hclock
    obtain ⟨prior, build, hbuilds, -, rfl⟩ := pickBuild_ok hstep
    refine h.still rfl rfl rfl le_rfl rfl (fun hnone ↦ hnone) (fun _ ↦ by simp [hbuilds])
      (fun other hmem ↦ ?_) h.checkout h.target
    rcases List.mem_append.1 hmem with hmem | hmem
    · exact h.builds other (by simp [hbuilds, hmem])
    · have hvalid := h.builds build (by simp [hbuilds])
      rw [List.mem_singleton.1 hmem]
      simp only [BuildRequest.valid, Bool.and_eq_true, decide_eq_true_eq] at hvalid ⊢
      grind
  | reportBuild user connectionId id report draw =>
    have hfresh : plan.LandsFresh (.reportBuild user connectionId id report draw) := trivial
    have hkeyed := (step_moved hfresh hstep).keyed h.keyed
    rw [step] at hstep
    split at hstep <;> try cases hstep
    obtain ⟨prior, build, hbuilds, -, hvalid, hnext⟩ := reportBuild_ok (Except.toOption_eq_some.1 hstep)
    have hreported : Sound platform
        { plan with builds := prior ++ [build.reported report plan.revision draw.now] } := by
      refine h.still rfl rfl rfl le_rfl rfl (fun hnone ↦ hnone) (fun _ ↦ ?_)
        (fun other hmem ↦ ?_) h.checkout h.target
      · simp [hbuilds, BuildRequest.reported]
      · rcases List.mem_append.1 hmem with hmem | hmem
        · exact h.builds other (by simp [hbuilds, hmem])
        · exact List.mem_singleton.1 hmem ▸ hvalid
    rcases hnext with rfl | ⟨-, -, rfl⟩
    · exact hreported
    · exact hreported.liveFromStopped (by simp) hkeyed
  | queueRebuild connections options blockers draw =>
    rw [step] at hstep
    split at hstep <;> try cases hstep
    obtain ⟨⟨result, next⟩, hqueued, rfl⟩ := Option.map_eq_some_iff.1 hstep
    rcases queueRebuild_ok (Except.toOption_eq_some.1 hqueued) with
      rfl | ⟨live, original, owner, connection, hlive, hidle, -, -, hvalid, rfl⟩
    · exact h
    have hexecution : plan.execution = none := by
      simp only [buildActive, Bool.or_eq_false_iff, Option.isSome_eq_false_iff,
        Option.isNone_iff_eq_none] at hidle
      exact hidle.1.2
    refine h.still rfl rfl rfl le_rfl rfl (by simp) (by simp [hexecution]) (fun other hmem ↦ ?_) ?_ ?_
    · rcases List.mem_append.1 hmem with hmem | hmem
      · exact h.builds other (mem_trimBuilds.1.subset hmem)
      · exact List.mem_singleton.1 hmem ▸ hvalid
    · rintro _ ⟨⟩; exact h.checkout live hlive
    · rintro _ ⟨⟩ _ ⟨⟩
      refine ⟨le_rfl, ?_⟩
      simp only [BuildRequest.valid, rebuildOn, Bool.and_eq_true, Option.all_some, decide_eq_true_eq]
        at hvalid
      exact hvalid.2.2
  | settle baseSource revision source draw =>
    rw [step] at hstep
    split at hstep <;> try cases hstep
    rcases settleLive_ok plan ⟨baseSource, revision, source, noCodeSummary⟩ draw with
      heq | ⟨live, hlive, -, -, -, heq⟩ <;> rw [heq]
    · exact h
    · refine h.still rfl rfl rfl le_rfl rfl (by simp) (fun _ ↦ rfl) h.builds ?_ ?_
      · rintro _ ⟨⟩; exact h.checkout live hlive
      · rintro _ ⟨⟩; exact h.target live hlive
  | land buildId report now =>
    have hfresh : plan.LandsFresh (.land buildId report now) := hmet.landsFresh hstep
    have hkeyed := (step_moved hfresh hstep).keyed h.keyed
    rw [step] at hstep
    split at hstep <;> try cases hstep
    rename_i hready
    exact h.landed hready.1 hmet hkeyed (Except.toOption_eq_some.1 hstep)

end Steps

theorem opened_sound {id source : String} {revision : Nat} {graph : Option Graph} {liveBuild : Bool}
    (hgraph : ∀ before ∈ graph, ∃ json, Graphs.restore json = some before)
    (hlatest : ∀ before ∈ graph, ∀ latest ∈ current before, latest.state ≠ .locked ∧ latest.planRevision ≤ revision) :
    (opened id source revision graph liveBuild).Sound platform := by
  refine ⟨fun before hbefore ↦ ?_, fun _ ↦ ⟨rfl, rfl⟩, by simp [opened], by simp [opened],
    by simp [opened]⟩
  obtain ⟨json, hrestore⟩ := hgraph before hbefore
  have hwf := restore_wf hrestore
  obtain ⟨prior, latest, hsplit⟩ := hwf.split
  have hcurrent : current before = some latest :=
    current_eq_some.2 ⟨prior, by cases before; simpa using hsplit⟩
  obtain ⟨hstate, hrevision⟩ := hlatest before hbefore latest hcurrent
  exact sound_of (Implementation.start_sound hwf hcurrent hstate hrevision) rfl rfl rfl rfl
    fun _ ↦ .inr rfl

/-- **Landed rebuilds keep a document restorable.**  In every state that a document reaches by steps
that meet the condition, both stored records are read back as they are, and no version was
implemented twice. -/
theorem landed_restores {platform : Platform} {id source : String} {revision : Nat}
    {graph : Option Graph} {liveBuild : Bool} {acts : List Act} {plan : Plan}
    (hgraph : ∀ before ∈ graph, ∃ json, Graphs.restore json = some before)
    (hlatest : ∀ before ∈ graph, ∀ latest ∈ current before, latest.state ≠ .locked ∧ latest.planRevision ≤ revision)
    (run : Guarded LandsRestorably (step platform) (opened id source revision graph liveBuild) acts plan) :
    ∀ after ∈ plan.graph, Graphs.restore after.toJson = some after ∧
      restoreLifecycle plan.lifecycle.toJson after plan.execution = some plan.lifecycle ∧
      plan.lifecycle.history.Pairwise (Apart after) := by
  have hsound : plan.Sound platform :=
    run.invariant (opened_sound hgraph hlatest) fun _ _ _ h hmet hstep ↦ step_sound h hmet hstep
  intro after hafter
  obtain ⟨hwf, hrestores, -⟩ := hsound.implementation after hafter
  exact ⟨hwf.restore, hrestores.restore hwf, once_iff.1 hrestores.once⟩

/-! ## A rebuild that nobody can read back -/

/-- A rebuild that did one task of its own, on the pull request at this address. -/
def sampleLanding (url : String) : Act :=
  .land (sampleId "2")
    { summary := "Done.", commits := [], tasks := [⟨"Title", "Goal", url⟩], outstanding := none }
    sampleTime

/-- **A landed rebuild may leave a document that cannot be read back**: it is accepted with the address
of a pull request in another case, which the fold refuses. -/
theorem landed_unrestorable : ∃ acts plan graph, Runs (step .ascii) sample acts plan ∧ plan.graph = some graph ∧
      restoreLifecycle plan.lifecycle.toJson graph plan.execution = none := by
  have h : (step .ascii sampleRebuilding (sampleLanding "https://github.com/O/N/pull/1")).any (fun plan ↦
      plan.graph.any fun graph ↦
        (restoreLifecycle plan.lifecycle.toJson graph plan.execution).isNone) = true := by
    decide +kernel
  obtain ⟨plan, hstep, h⟩ := Option.any_eq_true _ _ |>.1 h
  obtain ⟨graph, hgraph, h⟩ := Option.any_eq_true _ _ |>.1 h
  exact ⟨_, plan, graph, sampleRebuild_run.snoc hstep, hgraph, by simpa using h⟩

/-- Spelled as the repository is, the same rebuild lands restorably. -/
theorem sampleLanding_restorably :
    sampleRebuilding.LandsRestorably (sampleLanding "https://github.com/o/n/pull/1") := by
  rintro live ⟨⟩
  have hid : sampleId "1" ≠ sampleId "2" := by decide
  refine ⟨?_, ?_, ?_⟩
  · rintro latest ⟨⟩ -
    decide +kernel
  · rintro graph ⟨⟩ -
    simp only [Lifecycle.Alone, sampleRebuilding, sampleStopped, sample, opened, List.mem_singleton,
      forall_eq]
    exact fun hsame ↦ ⟨fun hother ↦ absurd hsame hother, by simp⟩
  · rintro target ⟨⟩ build ⟨⟩ latest ⟨⟩ - -
    exact ⟨by decide +kernel, by decide, by simp [rebuildOn], by decide, by decide, by
      simpa [sampleRebuilding, sampleStopped, sampleRun, rebuildOn, sampleDraw] using hid⟩

theorem landed_restores_sample : ∃ plan graph,
    step .ascii sampleRebuilding (sampleLanding "https://github.com/o/n/pull/1") = some plan ∧
      plan.graph = some graph ∧ Graphs.restore graph.toJson = some graph ∧
      restoreLifecycle plan.lifecycle.toJson graph plan.execution = some plan.lifecycle ∧
      plan.lifecycle.history.Pairwise (Apart graph) := by
  have h : (step .ascii sampleRebuilding (sampleLanding "https://github.com/o/n/pull/1")).any
      (·.graph.isSome) = true := by decide +kernel
  obtain ⟨plan, hstep, h⟩ := Option.any_eq_true _ _ |>.1 h
  obtain ⟨graph, hgraph⟩ := Option.isSome_iff_exists.1 h
  have hguarded : Guarded LandsRestorably (step .ascii) sample
      (sampleClaim ++ [sampleStop] ++ sampleRebuild) sampleRebuilding :=
    sampleRebuild_run.guarded (by simp [sampleClaim, sampleStop, sampleRebuild, LandsRestorably])
  have hrestore : Graphs.restore Implementation.oneGraph.toJson = some Implementation.oneGraph := by
    decide
  refine ⟨plan, graph, hstep, hgraph, landed_restores ?_ ?_
    (hguarded.snoc sampleLanding_restorably hstep) graph hgraph⟩
  · rintro _ ⟨⟩; exact ⟨_, hrestore⟩
  · rintro _ ⟨⟩ _ ⟨⟩; decide

end Plan

end Chopin.Tasks
