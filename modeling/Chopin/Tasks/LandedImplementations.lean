import Chopin.Tasks.Landings
import Chopin.Tasks.LifecycleRuns

/-!
# Implementations that builds change

`Implementation.Sound` is kept by what `tasks/builds.ts` does to a graph and a lifecycle without
`transition`: a live build that stops is archived, its run is resumed, and a rebuild appends a version
together with the run that did it.  For the appended run to be one that the reader takes, the build's
own record has to supply the strings a run is made of; the first section says what its schema promises
of them.
-/

set_option autoImplicit false
set_option linter.dupNamespace false

open Script

namespace Chopin.Tasks

/-! ## What the schemas promise -/

variable {value : String}

theorem hex_text {min max : Nat} (hmin : 0 < min) (h : hex min max value = true) : text value = true := by
  simp only [hex, Bool.and_eq_true, decide_eq_true_eq, List.all_eq_true, Bool.or_eq_true] at h
  obtain ⟨c, hc⟩ := List.exists_mem_of_length_pos (hmin.trans_le h.1.1)
  refine (text_iff value).2 ⟨c, hc, isSpace_graphic (UInt32.lt_iff_toNat_lt.2 ?_)
    (UInt32.lt_iff_toNat_lt.2 ?_)⟩ <;>
  rcases h.2 c hc with ⟨hlow, hhigh⟩ | ⟨hlow, hhigh⟩ <;>
  rw [Char.le_def, UInt32.le_iff_toNat_le] at hlow hhigh
  · exact lt_of_lt_of_le (by decide) hlow
  · exact lt_of_lt_of_le (by decide) hlow
  · exact lt_of_le_of_lt hhigh (by decide)
  · exact lt_of_le_of_lt hhigh (by decide)

theorem repositoryName_text (h : repositoryName value = true) : text value = true := by
  rw [repositoryName] at h
  split at h
  · rename_i owner name hsplit
    have hjoin : ['/'].intercalate (value.toList.splitOn '/') = value.toList :=
      List.intercalate_splitOn '/'
    have hslash : '/' ∈ value.toList := by
      rw [← hjoin, hsplit]
      simp [List.intercalate, List.intersperse]
    exact (text_iff value).2 ⟨'/', hslash, by decide⟩
  · cases h

variable {platform : Platform}

variable {build : BuildRequest}

theorem BuildRequest.valid_id (h : build.valid platform = true) : platform.uuid build.id = true := by
  simp only [BuildRequest.valid, Bool.and_eq_true] at h
  grind

theorem BuildRequest.valid_checkout (h : build.valid platform = true) : build.checkout.valid = true := by
  simp only [BuildRequest.valid, Bool.and_eq_true] at h
  grind

theorem BuildRequest.valid_created (h : build.valid platform = true) : platform.datetime build.createdAt = true := by
  simp only [BuildRequest.valid, Bool.and_eq_true] at h
  grind

theorem trimmed_text {limit : Nat} (h : trimmed limit value = true) : text value = true := by
  simp only [trimmed, bounded, Bool.and_eq_true, beq_iff_eq, decide_eq_true_eq] at h
  obtain ⟨htrim, hlength, -⟩ := h
  rw [text, htrim, bne_iff_ne]
  rintro rfl
  exact absurd hlength (by decide)

theorem RebuildReport.valid_summary {report : RebuildReport}
    (h : report.valid platform = true) : text report.summary = true := by
  simp only [RebuildReport.valid, Bool.and_eq_true] at h
  exact trimmed_text h.1.1.1.1.1

/-- The run of a rebuild can be stored. -/
theorem rebuildRun_valid {lifecycle : Lifecycle} {live : LiveBuild} {target : Target}
    {latest : Version} {report : RebuildReport} (hbuild : build.valid platform = true)
    (hcheckout : live.checkout.valid = true) (htarget : target.revision ≤ Json.maxSafe)
    (h : Appendable lifecycle live target build latest report) :
    (rebuildRun live target build (latest.number + 1)).valid = true := by
  have hid := platform.uuid_text _ (BuildRequest.valid_id hbuild)
  have hsession : text (build.session.getD build.id) = true := by
    cases hstored : build.session with
    | none => exact hid
    | some session => exact h.session session hstored
  have hbranch : text ("chopin/rebuild-" ++ String.ofList (build.id.toList.take 8)) = true :=
    text_append _ (by decide)
  have hcommit : text build.checkout.commit = true := by
    have := BuildRequest.valid_checkout hbuild
    simp only [Checkout.valid, Bool.and_eq_true] at this
    exact hex_text (by decide) this.2
  have hrepository : text live.checkout.repository = true := by
    simp only [Checkout.valid, Bool.and_eq_true] at hcheckout
    exact repositoryName_text hcheckout.1.1
  have hcreated := platform.datetime_text _ (BuildRequest.valid_created hbuild)
  have hnumber := h.number
  have hclient : text "chopin-acp" = true ∧ text "0.1.0" = true := by decide
  simp only [Run.valid, Run.strings, rebuildRun, List.all_cons, List.all_nil, hid, h.user, hsession,
    hrepository, hbranch, hcommit, hcreated, hclient, Bool.and_true, Bool.true_and, Bool.and_eq_true]
  exact ⟨⟨decide_eq_true htarget, decide_eq_true (by omega), decide_eq_true (by omega)⟩, rfl, rfl⟩

namespace Implementation

/-! ## Landing on a sound implementation -/

variable {s : Implementation}

/-- The flag may drop, or change while no run is at work. -/
theorem Sound.withLive (h : s.Sound) (live : Bool)
    (hlive : live = true → s.live = true ∨ s.execution = none) : Sound { s with live } := by
  refine ⟨h.wf, h.restores, h.valid, h.held, h.revision, fun hflag run hrun ↦ ?_⟩
  rcases hlive hflag with hlive | hidle
  · exact h.live hlive run hrun
  · simp only at hrun
    rw [hidle] at hrun
    cases hrun

theorem Sound.resumed (h : s.Sound) {runId : String} {report : RebuildReport} {lifecycle : Lifecycle}
    (hresuming : Resuming s.graph s.execution s.lifecycle runId report lifecycle) : Sound { s with lifecycle } := by
  refine ⟨h.wf, hresuming.restores, h.valid, fun archived hmem ↦ ?_, h.revision, ?_⟩
  · have hrun : archived.run ∈ s.lifecycle.history.map ArchivedRun.run :=
      hresuming.runs ▸ List.mem_map_of_mem hmem
    obtain ⟨earlier, hearlier, heq⟩ := List.mem_map.1 hrun
    exact heq ▸ h.held earlier hearlier
  · simp only [hresuming.events]
    exact h.live

theorem Sound.appended (h : s.Sound) {prior : List Version} {latest : Version}
    {live : LiveBuild} {target : Target} {build : BuildRequest} {report : RebuildReport}
    (hgraph : s.graph = ⟨prior ++ [latest]⟩) (hstate : latest.state = .approved)
    (hchecked : validate (rebuildDefinition platform live target (latest.number + 1) report) =
      .ok (rebuildDefinition platform live target (latest.number + 1) report)) (hbuild : build.valid platform = true)
    (hcheckout : live.checkout.valid = true) (htarget : target.revision ≤ s.revision)
    (hsafe : target.revision ≤ Json.maxSafe) (htasks : report.tasks ≠ []) (hreport : report.valid platform = true)
    (happend : Appendable s.lifecycle live target build latest report)
    (hkeys : Lifecycle.Keyed { s.lifecycle with history := s.lifecycle.history ++
      [rebuildArchived live target build (latest.number + 1) report] }) :
    Sound { s with
      graph := ⟨(prior ++ [{ latest with state := .superseded }]) ++
        [rebuildVersion platform live target (latest.number + 1) report]⟩
      lifecycle := { s.lifecycle with history := s.lifecycle.history ++
        [rebuildArchived live target build (latest.number + 1) report] } } := by
  obtain ⟨revision, graph, execution, lifecycle, flag⟩ := s
  simp only at *
  subst hgraph
  have hidle : execution = none := h.idle (current_mk_concat _ _) (by simp [hstate])
  subst hidle
  have hevents : lifecycle.events = none := Option.eq_none_iff_forall_not_mem.2 fun events hmem ↦ by
    simpa using (h.restores.events events hmem).1
  rw [hevents] at hkeys ⊢
  have hwf := h.wf.land hstate happend.revision hchecked
  have hkept := @Graph.Kept.land latest prior
    [rebuildVersion platform live target (latest.number + 1) report]
  have hids := validate_ids hchecked
  -- the run that did it
  have hrestores : (rebuildArchived live target build (latest.number + 1) report).Restores
      ⟨(prior ++ [{ latest with state := .superseded }]) ++
        [rebuildVersion platform live target (latest.number + 1) report]⟩ := by
    obtain ⟨folded, hfold, hsuccess⟩ := foldRun_rebuildEvents
      (rebuildRun live target build (latest.number + 1)) build.id hids htasks
      (RebuildReport.valid_summary hreport) happend.own
    refine ArchivedRun.restores_of_folded hwf (rebuildRun_valid hbuild hcheckout hsafe happend)
      (ArchivedRun.folded_eq ?_ hfold) (Phase.ne_active hsuccess) fun stored hmem ↦ ?_
    · exact congrArg (Option.map Version.definition)
        (versionFor_eq hwf List.mem_concat_self
          (by simp [«matches», rebuildArchived, rebuildRun]))
    · obtain ⟨index, -, suffix, -, hkey⟩ := rebuildEvents_mem hmem
      rw [hkey, String.append_assoc, String.append_assoc]
      exact text_append _ (platform.uuid_text _ (BuildRequest.valid_id hbuild))
  have hsame : ∀ other ∈ lifecycle.history, other.folded
      ⟨(prior ++ [{ latest with state := .superseded }]) ++
        [rebuildVersion platform live target (latest.number + 1) report]⟩ =
      other.folded ⟨prior ++ [latest]⟩ := fun other hmem ↦
    folded_kept h.wf hwf hkept (h.held other hmem)
  refine ⟨hwf, h.restores.archive hsame hrestores (fun other hmem ↦ ⟨fun _ heq ↦ ?_, ?_⟩) hkeys
    ⟨_, current_mk_concat _ _, by simp [rebuildVersion]⟩, by simp, fun other hmem ↦ ?_, ?_, by simp⟩
  · -- whatever was implemented before has a lower number
    obtain ⟨definition, version, hversion, hmatch, -⟩ := h.held other hmem
    have hle := h.wf.number_le version hversion
    have hnumber := congrArg Prod.fst heq
    simp only [Run.reference, rebuildArchived, rebuildRun, matches_number hmatch] at hnumber
    omega
  · exact happend.id other hmem
  · rcases List.mem_append.1 hmem with hmem | hmem
    · exact (h.held other hmem).imp fun definition ↦ hkept other.run definition
    · rw [List.mem_singleton.1 hmem]
      exact ⟨_, rebuildVersion platform live target (latest.number + 1) report,
        List.mem_concat_self,
        by simp [«matches», rebuildArchived, rebuildRun, rebuildVersion], by simp [rebuildVersion], rfl⟩
  · intro other hother
    obtain rfl := Option.some.inj ((current_mk_concat _ _).symm.trans hother)
    exact htarget

/-- A live build that stops is archived with the revision that the server requests. -/
theorem Sound.stopped (h : s.Sound) {run : Run} (hrun : s.execution = some run) (hlive : s.live = true)
    (htext : text run.id = true) (hkeys : Lifecycle.Keyed ⟨none, s.lifecycle.history ++
      [⟨run, s.lifecycle.events.getD [] ++ [event (liveStop run)], true⟩]⟩) (live : Bool) :
    Sound { s with
      graph := unlockLast s.graph, execution := none, live
      lifecycle := ⟨none, s.lifecycle.history ++
        [⟨run, s.lifecycle.events.getD [] ++ [event (liveStop run)], true⟩]⟩ } := by
  obtain ⟨revision, graph, execution, lifecycle, flag⟩ := s
  simp only at hrun hlive hkeys ⊢
  subst hrun hlive
  obtain ⟨version, folded, hversion, hfold, hphase, -⟩ := h.restores.execution run rfl
  obtain ⟨hcurrent, hlocked, hmatch⟩ := activeVersion_eq_some.1 hversion
  obtain ⟨prior, rfl⟩ := current_eq_some.1 hcurrent
  have hlivefold := (h.live rfl run rfl version hversion).trans hfold
  have hwf : Graph.Wf ⟨prior ++ [{ version with state := .approved }]⟩ :=
    h.wf.withState (by simp [hlocked]) (.inl rfl)
  have hkept : Graph.Kept ⟨prior ++ [version]⟩ ⟨prior ++ [{ version with state := .approved }]⟩ :=
    .withState (by simp)
  have hdefinition : (versionFor ⟨prior ++ [{ version with state := .approved }]⟩ run).map
      Version.definition = some version.definition := by
    rw [versionFor_withState, versionFor_eq h.wf (current_mem hcurrent) hmatch]; rfl
  have hrestores : ArchivedRun.Restores ⟨prior ++ [{ version with state := .approved }]⟩
      ⟨run, lifecycle.events.getD [] ++ [event (liveStop run)], true⟩ := by
    refine ArchivedRun.restores_of_folded hwf (h.valid run rfl) (ArchivedRun.folded_eq hdefinition
      ((foldRun_revision rfl).2 ⟨by decide, folded, hlivefold, hphase, rfl⟩)) (by simp) ?_
    intro stored hmem
    rcases List.mem_append.1 hmem with hmem | hmem
    · exact (h.restores.storable stored hmem).1
    · rw [List.mem_singleton.1 hmem]
      exact text_append _ htext
  rw [unlock_mk_concat]
  refine ⟨hwf, h.restores.archive (fun other _ ↦ ArchivedRun.folded_congr (versionFor_withState ..))
    hrestores ((h.restores.execution run rfl).apart h.wf) hkeys ⟨_, current_mk_concat _ _, by simp⟩,
    by simp, fun other hmem ↦ ?_, ?_, by simp⟩
  · rcases List.mem_append.1 hmem with hmem | hmem
    · exact (h.held other hmem).imp fun definition ↦ hkept other.run definition
    · rw [List.mem_singleton.1 hmem]
      exact ⟨version.definition, { version with state := .approved },
        List.mem_concat_self, hmatch, by simp, rfl⟩
  · intro other hother
    obtain rfl := Option.some.inj ((current_mk_concat _ _).symm.trans hother)
    exact h.revision version hcurrent

/-- The Planner's first revision of a document. -/
theorem revise_none {revision : Nat} {change : Revision} {graph : Graph}
    (h : Graphs.revise none (some revision) change = .ok graph) : (start graph revision).Sound := by
  simp only [Graphs.revise, Option.bind_none, Option.map_none, Option.getD_none] at h
  split at h; · cases h
  split at h; · cases h
  split at h; · cases h
  split at h; · cases h
  split at h; · cases h
  obtain ⟨checked, hchecked, h⟩ := Except.bind_eq_ok.1 h
  rw [revise] at hchecked
  obtain ⟨tasks, -, hvalidate⟩ := Except.bind_eq_ok.1 hchecked
  have hvalid : validate checked = .ok checked := by
    rw [← (validate_ok hvalidate).1] at hvalidate
    exact hvalidate
  cases h
  have hwf : Graph.Wf ⟨[] ++ [⟨1, 1, revision, .draft, checked⟩]⟩ :=
    Graph.wf_concat.2 ⟨⟨trivial, rfl⟩, ⟨by simp, by simp, hvalid⟩, by simp, rfl,
      by simp [PriorOk, draftPrior]⟩
  exact start_sound hwf (current_mk_concat [] _) (by simp) le_rfl

end Implementation

end Chopin.Tasks
