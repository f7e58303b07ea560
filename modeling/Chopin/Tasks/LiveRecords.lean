import Chopin.Tasks.Deliveries
import Chopin.Tasks.LandedRebuilds
import Chopin.Tasks.StoredLive

/-!
# The living record is read back

After every step of a document's run that meets `KeepsLive`, its living record is one that
`restoreLive` takes and gives back.  The reader asks for relations that no writer checks as a whole:
the record, the builds, the history and the plan's revision have to agree.
-/

set_option autoImplicit false
set_option linter.dupNamespace false

open Script

namespace Chopin.Tasks

namespace Plan

/-! ## The condition -/

/-- Whether a live check's answer is taken over. -/
def settles (plan : Plan) (live : LiveBuild) (baseSource : String) (revision : Nat) : Bool :=
  live.baseSource == baseSource && !live.outstanding.any (·.length > 0) && !buildActive plan
    && revision ≤ plan.revision && !stoppedForRevision plan revision

/-- The steps after which the living record is read back.

A record is no larger than the schema lets it be; a check does not settle past the target that an
earlier rebuild left behind; a commit names its pull request as the record spells it; and where
living builds are not served, the document's history has to be readable. -/
def KeepsLive (platform : Platform) (plan : Plan) : Act → Prop
  | .report input => ∀ tasks ∈ plan.delivering input, (deliveredRequests tasks).length ≤ 100
  | .reportBuild _ _ id report _ => ∀ tasks ∈ plan.stopping id report,
    (startedRequests tasks).length ≤ 100 ∧ (unfinishedTasks tasks).length ≤ 100 ∧
      ∀ id ∈ unfinishedTasks tasks, bounded 128 id = true
  | .settle baseSource revision _ _ => ∀ live ∈ plan.live, ∀ target ∈ live.target,
    plan.settles live baseSource revision = true → revision ≤ target.revision
  | .land buildId report _ => ∀ live ∈ plan.live,
    (∀ commit ∈ report.commits, live.pullRequests.any (sameUrl platform · commit.pullRequest) = true →
      commit.pullRequest ∈ live.pullRequests) ∧
    live.pullRequests.length + (openedRequests platform live report).length ≤ 100 ∧
    (plan.liveBuild = false → plan.Restorably live buildId report)
  | _ => True

end Plan

/-! ## The record and the document -/

/-- The record is of this build. -/
def LiveBuild.Of (live : LiveBuild) (build : BuildRequest) : Prop :=
  build.id = live.buildId ∧ build.user = live.user ∧ build.repositoryId = live.repositoryId ∧
    build.checkout = live.checkout

namespace Plan

/-- What the reader asks of a living record of this document. -/
structure Records (platform : Platform) (plan : Plan) (live : LiveBuild) : Prop where
  storable : live.Storable platform
  build : ∃ build ∈ plan.builds, live.Of build
  files : plan.lifecycle.Files plan.liveBuild live.buildId
  base : live.baseRevision ≤ plan.revision
  requests : live.pullRequests.Nodup
  commits : ∀ commits ∈ live.commits, ∀ commit ∈ commits, commit.pullRequest ∈ live.pullRequests
  target : ∀ target ∈ live.target, target.revision ≤ plan.revision ∧
    live.baseRevision ≤ target.revision ∧
    ∃ build ∈ plan.builds, build.id = target.buildId ∧ build.rebuild.isSome = true

/-- The invariant: whatever record there is, its builds are of one id each. -/
structure Recorded (platform : Platform) (plan : Plan) : Prop where
  valid : ∀ build ∈ plan.builds, build.valid platform = true
  ids : (plan.builds.map BuildRequest.id).Nodup
  revision : plan.revision ≤ Json.maxSafe
  records : ∀ live ∈ plan.live, plan.Records platform live

/-- A build as the living record knows it. -/
structure SameBuild (build next : BuildRequest) : Prop where
  id : next.id = build.id
  user : next.user = build.user
  repositoryId : next.repositoryId = build.repositoryId
  checkout : next.checkout = build.checkout
  rebuild : next.rebuild = build.rebuild

theorem SameBuild.refl (build : BuildRequest) : SameBuild build build := ⟨rfl, rfl, rfl, rfl, rfl⟩

variable {platform : Platform} {plan : Plan}

variable {live : LiveBuild}

/-- A record outlives any step that leaves it and its builds alone. -/
theorem Records.mono {next : Plan} (h : plan.Records platform live)
    (hbuilds : ∀ build ∈ plan.builds, ∃ kept ∈ next.builds, SameBuild build kept)
    (hfiles : plan.lifecycle.Files plan.liveBuild live.buildId → next.lifecycle.Files next.liveBuild live.buildId)
    (hrevision : plan.revision ≤ next.revision) : next.Records platform live := by
  refine ⟨h.storable, ?_, hfiles h.files, h.base.trans hrevision, h.requests, h.commits,
    fun target hmem ↦ ?_⟩
  · obtain ⟨build, hmem, hid, huser, hrepository, hcheckout⟩ := h.build
    obtain ⟨kept, hkept, hsame⟩ := hbuilds build hmem
    exact ⟨kept, hkept, hsame.id.trans hid, hsame.user.trans huser,
      hsame.repositoryId.trans hrepository, hsame.checkout.trans hcheckout⟩
  · obtain ⟨hle, hbase, build, hbuild, hid, hrebuild⟩ := h.target target hmem
    obtain ⟨kept, hkept, hsame⟩ := hbuilds build hbuild
    exact ⟨hle.trans hrevision, hbase, kept, hkept, hsame.id.trans hid, hsame.rebuild ▸ hrebuild⟩

section Steps

variable {platform : Platform} {plan next : Plan}

variable {build : BuildRequest}

variable {changed : BuildRequest}

/-- The last build changes, but not in what the record knows of it. -/
theorem sameBuild_last (prior : List BuildRequest) (hsame : SameBuild build changed) :
    (∀ other ∈ prior ++ [build], ∃ kept ∈ prior ++ [changed], SameBuild other kept) ∧
      (prior ++ [changed]).map BuildRequest.id = (prior ++ [build]).map BuildRequest.id := by
  refine ⟨fun other hmem ↦ ?_, by simp [hsame.id]⟩
  rcases List.mem_append.1 hmem with hmem | hmem
  · exact ⟨other, List.mem_append_left _ hmem, .refl other⟩
  · rw [List.mem_singleton.1 hmem]
    exact ⟨changed, List.mem_concat_self, hsame⟩

theorem Recorded.still (h : plan.Recorded platform) (hbuilds : next.builds = plan.builds)
    (hserved : next.liveBuild = plan.liveBuild) (hlive : next.live = plan.live)
    (hfiles : ∀ buildId, plan.lifecycle.Files plan.liveBuild buildId → next.lifecycle.Files plan.liveBuild buildId)
    (hrevision : plan.revision ≤ next.revision) (hsafe : next.revision ≤ Json.maxSafe) : next.Recorded platform := by
  refine ⟨hbuilds ▸ h.valid, hbuilds ▸ h.ids, hsafe, fun live hmem ↦ ?_⟩
  exact (h.records live (hlive ▸ hmem)).mono (fun build hbuild ↦ ⟨build, hbuilds ▸ hbuild, .refl build⟩)
    (hserved ▸ hfiles live.buildId) hrevision

/-- The last build changes as a report or a pickup changes it. -/
theorem Recorded.withLast {prior : List BuildRequest}
    (h : plan.Recorded platform) (hbuilds : plan.builds = prior ++ [build])
    (hsame : SameBuild build changed) (hvalid : changed.valid platform = true) :
    Recorded platform { plan with builds := prior ++ [changed] } := by
  obtain ⟨hkept, hids⟩ := sameBuild_last prior hsame
  refine ⟨fun other hmem ↦ ?_, ?_, h.revision, fun live hmem ↦ ?_⟩
  · rcases List.mem_append.1 hmem with hmem | hmem
    · exact h.valid other (by simp [hbuilds, hmem])
    · exact List.mem_singleton.1 hmem ▸ hvalid
  · simp only [hids, ← hbuilds]
    exact h.ids
  · exact (h.records live hmem).mono (by rw [hbuilds]; exact hkept) (fun hfiles ↦ hfiles) le_rfl

variable {draw : Draw}

/-- A build with a new identifier is appended, to what is kept of the history. -/
theorem Recorded.ids_append {kept : List BuildRequest} (h : plan.Recorded platform)
    (hkept : kept.Sublist plan.builds) (hdrawn : plan.drawn platform draw = true) (hid : build.id = draw.id) :
    ((kept ++ [build]).map BuildRequest.id).Nodup := by
  simp only [drawn, Bool.and_eq_true, Bool.not_eq_true', List.any_eq_false, beq_iff_eq] at hdrawn
  rw [List.map_append, List.nodup_append]
  refine ⟨h.ids.sublist (hkept.map _), by simp, ?_⟩
  intro id hmem other hother heq
  obtain ⟨before, hbefore, rfl⟩ := List.mem_map.1 hmem
  simp only [List.map_cons, List.map_nil, List.mem_singleton] at hother
  exact hdrawn.2 before (hkept.subset hbefore) (heq.trans (hother.trans hid))

/-- A record that has just been filed restores. -/
theorem Recorded.goLive {requests : List String} {outstanding : Option (List String)}
    (h : plan.Recorded platform) (hbuild : build ∈ plan.builds) (hrevision : next.revision = plan.revision)
    (hbuilds : next.builds = plan.builds) (hfiles : next.lifecycle.Files next.liveBuild build.id)
    (hnodup : requests.Nodup) (haddress : ∀ url ∈ requests, platform.address url = some url)
    (hlength : requests.length ≤ 100) (houtstanding : ∀ ids ∈ outstanding, ids ≠ [] ∧ ids.length ≤ 100 ∧
      ∀ id ∈ ids, bounded 128 id = true) : next.Records platform (plan.goLive build requests outstanding) := by
  have hvalid := h.valid build hbuild
  have huser : bounded 128 build.user = true ∧ bounded 128 build.repositoryId = true := by
    simp only [BuildRequest.valid, Bool.and_eq_true] at hvalid
    grind
  refine ⟨⟨BuildRequest.valid_id hvalid, huser.1, huser.2, BuildRequest.valid_checkout hvalid,
    h.revision, haddress, hlength, by simp [Plan.goLive], houtstanding, by simp [Plan.goLive],
    by simp [Plan.goLive]⟩, ⟨build, hbuilds ▸ hbuild, rfl, rfl, rfl, rfl⟩, hfiles, hrevision.ge,
    hnodup, by simp [Plan.goLive], by simp [Plan.goLive]⟩

/-- A report keeps the record, or files the first one. -/
theorem Recorded.reported {input : LifecycleInput} (h : plan.Recorded platform)
    (hmet : plan.KeepsLive platform (.report input)) (hstep : plan.reported input = some next) :
    next.Recorded platform := by
  obtain ⟨graph, state, live, hgraph, htransition, hlive, rfl⟩ := reported_ok hstep
  have haccepted := (transition_accepted htransition).2.2.2
  have hkept : ∀ buildId, plan.lifecycle.Files plan.liveBuild buildId →
      state.lifecycle.Files plan.liveBuild buildId := fun _ ↦ haccepted.files
  rcases reportedLive_filed hgraph haccepted hlive with rfl | ⟨build, tasks, hdelivers, rfl⟩
  · exact h.still rfl rfl rfl hkept le_rfl h.revision
  · refine ⟨h.valid, h.ids, h.revision, ?_⟩
    rintro _ ⟨⟩
    obtain ⟨repository, hown⟩ := hdelivers.own
    exact h.goLive hdelivers.mem rfl rfl hdelivers.files (Entries.nodup_distinct _)
      (deliveredRequests_address hown) (hmet tasks hdelivers.delivering) (by simp)

/-- A build's report may change the build, and stop it live. -/
theorem Recorded.reportBuild {user connectionId id : String} {report : BuildReport} (h : plan.Recorded platform)
    (hmet : plan.KeepsLive platform (.reportBuild user connectionId id report draw))
    (hstep : Tasks.reportBuild platform plan user connectionId id report draw = .ok next) : next.Recorded platform := by
  obtain ⟨prior, build, hbuilds, rfl, hvalid, hnext⟩ := reportBuild_ok hstep
  have hreported : Recorded platform
      { plan with builds := prior ++ [build.reported report plan.revision draw.now] } :=
    h.withLast hbuilds ⟨rfl, rfl, rfl, rfl, rfl⟩ hvalid
  rcases hnext with rfl | ⟨hstate, hstopped, rfl⟩
  · exact hreported
  rcases liveFromStopped_cases _ (build.reported report plan.revision draw.now) with hsame | ⟨graph, run,
    version, folded, hgraph, hrun, hserved, hlive, hrebuild, hid, -, hversion, hfold, hphase, hshort, -,
    hnext⟩
  · rw [hsame]; exact hreported
  have hprogress : progressFor graph plan.lifecycle (some run) =
      some (projectRun folded (plan.lifecycle.events.getD [])) := by
    simp only at hfold
    simp [progressFor, hversion, hfold, hphase]
  have hstopping : plan.stopping build.id report = some folded.progress := by
    simp only at hgraph hrun hserved hlive hrebuild hid
    have hkind : build.rebuild = none := hrebuild
    have hrunId : run.id = build.id := hid
    rw [stopping, hgraph, hrun, hbuilds, List.getLast?_concat]
    have hready : (plan.liveBuild && plan.live.isNone && run.id == build.id && build.rebuild.isNone
        && build.state != .stopped && report.state == .stopped) = true := by
      simp [hserved, hlive, hrunId, hkind, hstate, hstopped]
    have hlives : (unfinishedTasks folded.progress != []
        && (startedRequests folded.progress != [] || folded.progress.any TaskProgress.blocked)) = true := by
      simpa [bne_iff_ne] using hshort
    simp only [hready, if_true, hprogress, Option.map_some, projectRun]
    rw [Option.filter_some, if_pos hlives]
  obtain ⟨hrequests, hlength, hids⟩ := hmet folded.progress hstopping
  rw [hnext]
  refine ⟨hreported.valid, hreported.ids, hreported.revision, ?_⟩
  rintro _ ⟨⟩
  refine hreported.goLive (by simp) rfl rfl ⟨_, List.mem_concat_self, hid,
    .inl rfl⟩ (Entries.nodup_distinct _) (requests_address (foldRun_own hfold)) hrequests ?_
  rintro _ ⟨⟩
  exact ⟨hshort.1, hlength, hids⟩

variable {blockers : List String}

theorem Recorded.queueBuild {input : BuildInput} (h : plan.Recorded platform) (hdrawn : plan.drawn platform draw = true)
    (hstep : Tasks.queueBuild platform plan input blockers draw = .ok (build, next)) : next.Recorded platform := by
  rcases queueBuild_ok hstep with rfl | ⟨_, _, approved, -, -, -, -, rfl, hvalid, -, rfl⟩
  · exact h
  refine ⟨fun other hmem ↦ ?_, h.ids_append (List.Sublist.refl _) hdrawn rfl, h.revision,
    fun live hlive ↦ ?_⟩
  · rcases List.mem_append.1 hmem with hmem | hmem
    · exact h.valid other hmem
    · exact List.mem_singleton.1 hmem ▸ hvalid
  · exact (h.records live hlive).mono
      (fun build hbuild ↦ ⟨build, List.mem_append_left _ hbuild, .refl build⟩) (fun hfiles ↦ hfiles) le_rfl

/-- A rebuild takes the record's target over. -/
theorem Recorded.queueRebuild {connections : RebuildConnections} {options : RebuildOptions}
    {result : RebuildResult} (h : plan.Recorded platform) (hdrawn : plan.drawn platform draw = true)
    (hstep : Tasks.queueRebuild platform plan connections options blockers draw = .ok (result, next)) :
    next.Recorded platform := by
  rcases queueRebuild_ok hstep with
    rfl | ⟨live, original, owner, connection, hlive, -, -, -, hvalid, rfl⟩
  · exact h
  obtain ⟨hsublist, hkept⟩ :=
    @mem_trimBuilds live.buildId plan.builds (plan.builds.length - 99)
  refine ⟨fun other hmem ↦ ?_, h.ids_append hsublist hdrawn rfl, h.revision, ?_⟩
  · rcases List.mem_append.1 hmem with hmem | hmem
    · exact h.valid other (hsublist.subset hmem)
    · exact List.mem_singleton.1 hmem ▸ hvalid
  rintro _ ⟨⟩
  have hrecord := h.records live hlive
  obtain ⟨build, hbuild, hof⟩ := hrecord.build
  have hid : platform.uuid draw.id = true := by
    simp only [drawn, Bool.and_eq_true] at hdrawn
    exact hdrawn.1.1
  refine ⟨{ hrecord.storable with target := ?_ },
    ⟨build, List.mem_append_left _ (hkept build hbuild hof.1), hof⟩, hrecord.files, hrecord.base,
    hrecord.requests, hrecord.commits, ?_⟩
  · rintro _ ⟨⟩; exact ⟨hid, h.revision⟩
  · rintro _ ⟨⟩
    exact ⟨le_rfl, hrecord.base, _, List.mem_concat_self, rfl, rfl⟩

theorem lastOf_length_le {α : Type} (limit : Nat) (values : List α) : (lastOf limit values).length ≤ limit := by
  rw [lastOf, List.length_drop]
  omega

theorem mem_of_mem_lastOf {α : Type} {limit : Nat} {values : List α} {value : α}
    (h : value ∈ lastOf limit values) : value ∈ values := List.mem_of_mem_drop h

variable {live : LiveBuild}

/-- One more sync that needed no code. -/
theorem noChange_snoc {settlement : Settlement} (h : live.Storable platform)
    (hsettlement : settlement.Storable platform) :
    ∀ settled ∈ some (lastOf 50 (live.noChange.getD [] ++ [settlement])), settled.length ≤ 50 ∧
      ∀ entry ∈ settled, entry.Storable platform := by
  rintro _ ⟨⟩
  refine ⟨lastOf_length_le 50 _, fun entry hmem ↦ ?_⟩
  rcases List.mem_append.1 (mem_of_mem_lastOf hmem) with hmem | hmem
  · cases hsettled : live.noChange with
    | none => simp [hsettled] at hmem
    | some settled => exact (h.noChange settled hsettled).2 entry (by simpa [hsettled] using hmem)
  · exact List.mem_singleton.1 hmem ▸ hsettlement

theorem Recorded.settle {baseSource source : String} {revision : Nat} (h : plan.Recorded platform)
    (hmet : plan.KeepsLive platform (.settle baseSource revision source draw))
    (hdrawn : plan.drawn platform draw = true) :
    (settleLive plan ⟨baseSource, revision, source, noCodeSummary⟩ draw).2.Recorded platform := by
  rcases settleLive_ok plan ⟨baseSource, revision, source, noCodeSummary⟩ draw with
    heq | ⟨live, hlive, hrevision, hidle, ⟨hbase, houtstanding, hstopped⟩, heq⟩ <;> rw [heq]
  · exact h
  simp only at hrevision hbase hstopped
  have hrecord := h.records live hlive
  have hsettles : plan.settles live baseSource revision = true := by
    simp [settles, hbase, houtstanding, hidle, hrevision, hstopped]
  simp only [drawn, Bool.and_eq_true] at hdrawn
  refine ⟨h.valid, h.ids, h.revision, ?_⟩
  rintro _ ⟨⟩
  refine ⟨{ hrecord.storable with baseRevision := hrevision.trans h.revision, noChange := ?_ },
    hrecord.build, hrecord.files, hrevision, hrecord.requests, hrecord.commits, fun target hmem ↦ ?_⟩
  · exact noChange_snoc hrecord.storable
      ⟨hdrawn.1.1, hrevision.trans h.revision, (by decide : bounded 2000 noCodeSummary = true), hdrawn.1.2⟩
  · obtain ⟨hle, -, hbuild⟩ := hrecord.target target hmem
    exact ⟨hle, hmet live hlive target hmem hsettles, hbuild⟩

/-! ### Landing -/

theorem sameUrl_refl (platform : Platform) (url : String) : sameUrl platform url url = true := by
  rw [sameUrl, beq_self_eq_true]

variable {report : RebuildReport}

theorem mem_openedRequests {url : String} :
    url ∈ openedRequests platform live report ↔ url ∈ report.pullRequests ∧ url ≠ "" ∧
      live.pullRequests.any (sameUrl platform · url) = false := by
  rw [openedRequests, Entries.mem_distinct, List.mem_filter]
  simp

/-- Every address that a report names is one that the schema keeps. -/
theorem reported_address (h : report.valid platform = true) :
    ∀ url ∈ report.pullRequests, platform.address url = some url := by
  simp only [RebuildReport.valid, Bool.and_eq_true, List.all_eq_true, beq_iff_eq] at h
  obtain ⟨⟨⟨⟨-, hcommits⟩, -⟩, htasks⟩, houtstanding⟩ := h
  intro url hmem
  simp only [RebuildReport.pullRequests, List.mem_append, List.mem_map, List.mem_filterMap] at hmem
  rcases hmem with (⟨commit, hcommit, rfl⟩ | ⟨task, htask, rfl⟩) | ⟨outcome, houtcome, hurl⟩
  · exact (hcommits commit hcommit).1.1
  · exact (htasks task htask).2
  · cases houtcomes : report.outstanding with
    | none => simp [houtcomes] at houtcome
    | some outcomes =>
      simp only [houtcomes, Option.getD_some, Option.all_some, Bool.and_eq_true, List.all_eq_true]
        at houtcome houtstanding
      have hvalid := (houtstanding.2 outcome houtcome).2
      rw [TaskOutcome.pullRequest] at hurl
      split at hurl
      · rename_i pullRequest hdone
        rw [hdone, Outstanding.valid, hurl] at hvalid
        simpa using hvalid
      · cases hurl

variable {buildId : String}

theorem landed_outstanding (h : live.Storable platform) : (resumedOutstanding plan live buildId report).length ≤ 100 ∧
      ∀ id ∈ resumedOutstanding plan live buildId report, bounded 128 id = true := by
  have hbefore : (live.outstanding.getD []).length ≤ 100 ∧
      ∀ id ∈ live.outstanding.getD [], bounded 128 id = true := by
    cases houtstanding : live.outstanding with
    | none => simp
    | some ids => exact (h.outstanding ids houtstanding).2
  rw [resumedOutstanding]
  cases hresumed : resumed plan live buildId report with
  | none => exact hbefore
  | some resumption =>
    obtain ⟨graph, -, hresume⟩ := Option.bind_eq_some_iff.1 hresumed
    obtain ⟨ids, hids, hsublist⟩ := resumeOutstanding_remaining hresume
    rw [hids, Option.getD_some] at hbefore
    rw [Option.map_some, Option.getD_some]
    exact ⟨(hsublist.length_le.trans (Entries.length_distinct_le ids)).trans hbefore.1,
      fun id hmem ↦ hbefore.2 id (Entries.mem_distinct.1 (hsublist.subset hmem))⟩

/-- The commits of a landed record: those it had, and the report's at the target's revision. -/
theorem landed_commits {target : Target} {now : String}
    (h : live.Storable platform) (hreport : report.valid platform = true)
    (htarget : target.revision ≤ Json.maxSafe) (hnow : platform.datetime now = true) :
    ∀ commit ∈ live.commits.getD [] ++ report.commits.map (fun commit ↦
      { pullRequest := commit.pullRequest, sha := platform.toLowerCase commit.sha
        message := commit.message, revision := target.revision, «at» := now }),
      commit.Storable platform := by
  intro commit hmem
  rcases List.mem_append.1 hmem with hmem | hmem
  · cases hcommits : live.commits with
    | none => simp [hcommits] at hmem
    | some commits => exact (h.commits commits hcommits).2 commit (by simpa [hcommits] using hmem)
  · obtain ⟨reported, hreported, rfl⟩ := List.mem_map.1 hmem
    simp only [RebuildReport.valid, Bool.and_eq_true, List.all_eq_true, beq_iff_eq] at hreport
    obtain ⟨⟨haddress, hsha⟩, hmessage⟩ := hreport.1.1.1.2 reported hreported
    simp only [trimmed, Bool.and_eq_true] at hmessage
    exact ⟨haddress, platform.hex_toLowerCase hsha, hmessage.2, htarget, hnow⟩

/-- **A rebuild lands on a record that restores.** -/
theorem Recorded.landed {now : String} (h : plan.Recorded platform)
    (hreport : report.valid platform = true) (hnow : platform.datetime now = true)
    (hmet : plan.KeepsLive platform (.land buildId report now))
    (hstep : reportRebuild platform plan buildId report now = .ok next) : next.Recorded platform := by
  obtain ⟨live, target, prior, build, graph, lifecycle, hlive, htarget, hbuilds, rfl, -, -, -, -, happend,
    hvalid, rfl⟩ := reportRebuild_ok hstep
  obtain ⟨hspelled, hlength, -⟩ := hmet live hlive
  have hrecord := h.records live hlive
  have hstorable := hrecord.storable
  obtain ⟨hrevision, -, -⟩ := hrecord.target target htarget
  have hstopped : Recorded platform { plan with
      builds := prior ++ [{ build with state := .stopped, finishedAt := some now }] } :=
    h.withLast hbuilds ⟨rfl, rfl, rfl, rfl, rfl⟩ hvalid
  refine ⟨hstopped.valid, hstopped.ids, hstopped.revision, ?_⟩
  rintro _ ⟨⟩
  have hnewRequests : ∀ commit ∈ report.commits, commit.pullRequest ∈
      live.pullRequests ++ openedRequests platform live report := by
    intro commit hmem
    by_cases hknown : live.pullRequests.any (sameUrl platform · commit.pullRequest) = true
    · exact List.mem_append_left _ (hspelled commit hmem hknown)
    · have hnamed : commit.pullRequest ∈ report.pullRequests := by
        simp only [RebuildReport.pullRequests, List.append_assoc]
        exact List.mem_append_left _ (List.mem_map_of_mem hmem)
      refine List.mem_append_right _ (mem_openedRequests.2 ⟨hnamed, ?_, by simpa using hknown⟩)
      intro hempty
      have haddress := reported_address hreport _ hnamed
      rw [hempty, Platform.address, show trim "" = "" from rfl, platform.url_empty] at haddress
      cases haddress
  have hcommits := landed_commits hstorable hreport (hstorable.target target htarget).2 hnow
  refine ⟨⟨hstorable.buildId, hstorable.user, hstorable.repositoryId, hstorable.checkout,
    (hstorable.target target htarget).2, ?_, ?_, ?_, ?_, ?_, by rintro _ ⟨⟩⟩, ?_, ?_, hrevision, ?_, ?_,
    by rintro _ ⟨⟩⟩
  · intro url hmem
    rcases List.mem_append.1 hmem with hmem | hmem
    · exact hstorable.addresses url hmem
    · exact reported_address hreport url (mem_openedRequests.1 hmem).1
  · simpa [LiveBuild.landed] using hlength
  · intro commits hmem
    obtain rfl := Option.some.inj hmem
    exact ⟨lastOf_length_le 200 _, fun commit hmem ↦ hcommits commit (mem_of_mem_lastOf hmem)⟩
  · intro ids hmem
    simp only [LiveBuild.landed] at hmem
    split at hmem
    · cases hmem
    · rename_i hsome
      cases hmem
      exact ⟨by simpa [List.length_eq_zero_iff] using hsome, landed_outstanding hstorable⟩
  · simp only [LiveBuild.landed]
    split
    · have hid := BuildRequest.valid_id hvalid
      refine noChange_snoc hstorable ⟨hid, (hstorable.target target htarget).2,
        ?_, hnow⟩
      simp only [RebuildReport.valid, trimmed, Bool.and_eq_true] at hreport
      exact hreport.1.1.1.1.1.2
    · exact hstorable.noChange
  · exact (hstopped.records live hlive).build
  · have hresumed : (resumedLifecycle plan live build.id report).Files plan.liveBuild live.buildId := by
      rw [resumedLifecycle]
      cases hresumed : resumed plan live build.id report with
      | none => exact hrecord.files
      | some resumption =>
        obtain ⟨before, -, hresume⟩ := Option.bind_eq_some_iff.1 hresumed
        exact resumeOutstanding_invariant (P := (·.Files plan.liveBuild live.buildId)) hresume
          hrecord.files fun _ _ _ _ _ hfiles _ _ _ hresumes ↦ Lifecycle.Files.resume hfiles hresumes
    rcases happend with ⟨-, -, rfl⟩ | ⟨before, after, -, -, happend⟩
    · exact hrecord.files
    · rcases appendRebuild_ok happend with ⟨-, rfl⟩ | ⟨_, _, -, -, -, -, -, rfl⟩
      · exact hresumed
      · exact hresumed.append _
  · refine List.nodup_append.2 ⟨hrecord.requests, Entries.nodup_distinct _, ?_⟩
    rintro url hmem other hother rfl
    have hunknown := (mem_openedRequests.1 hother).2.2
    simp only [List.any_eq_false, Bool.not_eq_true] at hunknown
    exact absurd (sameUrl_refl platform url) (by simp [hunknown url hmem])
  · intro commits hcommits commit hmem
    obtain rfl := Option.some.inj hcommits
    rcases List.mem_append.1 (mem_of_mem_lastOf hmem) with hmem | hmem
    · cases hold : live.commits with
      | none => simp [hold] at hmem
      | some commits =>
        exact List.mem_append_left _ (hrecord.commits commits hold commit (by simpa [hold] using hmem))
    · obtain ⟨reported, hreported, rfl⟩ := List.mem_map.1 hmem
      exact hnewRequests reported hreported

/-! ### Every step -/

/-- **Every step keeps the invariant.** -/
theorem step_recorded {act : Act} (h : plan.Recorded platform) (hmet : plan.KeepsLive platform act)
    (hstep : step platform plan act = some next) : next.Recorded platform := by
  cases act with
  | edit revision source =>
    rw [step] at hstep
    split at hstep <;> cases hstep
    rename_i hle
    exact h.still rfl rfl rfl (fun _ hfiles ↦ hfiles) hle.1 hle.2
  | revise change =>
    obtain ⟨graph, -, rfl⟩ := withGraph_ok hstep
    exact h.still rfl rfl rfl (fun _ hfiles ↦ hfiles) le_rfl h.revision
  | approve =>
    obtain ⟨graph, -, rfl⟩ := withGraph_ok hstep
    exact h.still rfl rfl rfl (fun _ hfiles ↦ hfiles) le_rfl h.revision
  | queueBuild input blockers draw =>
    rw [step] at hstep
    split at hstep <;> try cases hstep
    rename_i hdrawn
    obtain ⟨⟨build, next⟩, hqueued, rfl⟩ := Option.map_eq_some_iff.1 hstep
    exact h.queueBuild hdrawn (Except.toOption_eq_some.1 hqueued)
  | claim input =>
    obtain ⟨prior, latest, -, -, -, -, -, -, -, rfl⟩ := claimed_ok hstep
    exact h.still rfl rfl rfl (fun _ hfiles ↦ hfiles) le_rfl h.revision
  | report input => exact h.reported hmet hstep
  | reportStored input =>
    rw [step] at hstep
    obtain ⟨graph, state, -, haccepted, rfl⟩ := reportedStored_ok hstep
    exact h.still rfl rfl rfl (fun _ ↦ (transition_accepted haccepted).2.2.2.files) le_rfl h.revision
  | pick user connectionId resumable clock =>
    rw [step] at hstep
    split at hstep <;> try cases hstep
    rename_i hclock
    obtain ⟨prior, build, hbuilds, -, rfl⟩ := pickBuild_ok hstep
    refine h.withLast hbuilds ⟨rfl, rfl, rfl, rfl, rfl⟩ ?_
    have hvalid := h.valid build (by simp [hbuilds])
    simp only [BuildRequest.valid, Bool.and_eq_true, decide_eq_true_eq] at hvalid ⊢
    grind
  | reportBuild user connectionId id report draw =>
    rw [step] at hstep
    split at hstep <;> try cases hstep
    exact h.reportBuild hmet (Except.toOption_eq_some.1 hstep)
  | queueRebuild connections options blockers draw =>
    rw [step] at hstep
    split at hstep <;> try cases hstep
    rename_i hdrawn
    obtain ⟨⟨result, next⟩, hqueued, rfl⟩ := Option.map_eq_some_iff.1 hstep
    exact h.queueRebuild hdrawn (Except.toOption_eq_some.1 hqueued)
  | settle baseSource revision source draw =>
    rw [step] at hstep
    split at hstep <;> try cases hstep
    rename_i hdrawn
    exact h.settle hmet hdrawn
  | land buildId report now =>
    rw [step] at hstep
    split at hstep <;> try cases hstep
    rename_i hready
    exact h.landed hready.1 hready.2 hmet (Except.toOption_eq_some.1 hstep)

end Steps

/-! ## The reader takes it -/

/-- Where living builds are not served, the build's run is one that delivered. -/
theorem Sound.delivered {archived : ArchivedRun} (h : plan.Sound platform) (hmem : archived ∈ plan.lifecycle.history)
    (hevents : ∀ stored ∈ archived.events, stored.command.requestsRevision = false) :
    deliveredIn plan.graph (some plan.lifecycle) archived.run.id = true := by
  cases hgraph : plan.graph with
  | none => simp [(h.empty hgraph).2] at hmem
  | some graph =>
    have hrestores : Lifecycle.Restores graph plan.execution plan.lifecycle :=
      (h.implementation graph hgraph).restores
    obtain ⟨projected, hprojected⟩ := projectHistory_exists hrestores.archived
    obtain ⟨folded, hfolded, hover⟩ := (hrestores.archived archived hmem).finished
    have hsuccess : archived.successful graph = true := by
      rw [ArchivedRun.successful, hfolded, Option.any_some]
      obtain ⟨version, -, hfold⟩ := Option.bind_eq_some_iff.1 hfolded
      exact foldRun_successful (Except.toOption_eq_some.1 hfold) hover
        fun last hlast ↦ hevents last (List.mem_of_getLast? hlast)
    have hfind := List.find?_key hrestores.runs hmem
    have hsame := congrArg (List.find? fun item : Run × Bool ↦ item.1.id == archived.run.id)
      (projectHistory_successful hprojected)
    rw [List.find?_map, List.find?_map] at hsame
    simp only [Function.comp_def] at hsame
    obtain ⟨item, hitem, houtcome⟩ := Option.map_eq_some_iff.1
      (hsame.trans (congrArg (Option.map _) hfind))
    simp only [deliveredIn, historyFor, hprojected, Option.getD_some, hitem]
    exact (congrArg Prod.snd houtcome).trans hsuccess

/-- **A record that fits its document is read back.** -/
theorem Records.restore (h : plan.Records platform live)
    (hids : (plan.builds.map BuildRequest.id).Nodup) (hmanual : plan.liveBuild = false → plan.Sound platform) :
    restoreLive platform live.toJson plan.builds (some plan.lifecycle) plan.graph plan.revision = some live := by
  obtain ⟨build, hbuild, hid, huser, hrepository, hcheckout⟩ := h.build
  have hfind : plan.builds.find? (·.id == live.buildId) = some build :=
    hid ▸ List.find?_key hids hbuild
  obtain ⟨archived, harchived, hrun, hbuilt⟩ := h.files
  have hfiled : (plan.lifecycle.history.any (fun item ↦ item.run.id == live.buildId && item.live)
      || deliveredIn plan.graph (some plan.lifecycle) live.buildId) = true := by
    rw [Bool.or_eq_true]
    rcases hbuilt with hlive | ⟨hserved, hevents⟩
    · exact .inl (List.any_eq_true.2 ⟨archived, harchived, by simp [hrun, hlive]⟩)
    · exact .inr (hrun ▸ (hmanual hserved).delivered harchived hevents)
  have hcommits : (live.commits.getD []).all
      (fun commit ↦ live.pullRequests.contains commit.pullRequest) = true := by
    cases hstored : live.commits with
    | none => rfl
    | some commits =>
      exact List.all_eq_true.2 fun commit hmem ↦
        List.contains_iff_mem.2 (h.commits commits hstored commit hmem)
  have htarget : live.target.all (fun target ↦ target.revision ≤ plan.revision
      && live.baseRevision ≤ target.revision
      && plan.builds.any fun item ↦ item.id == target.buildId && item.rebuild.isSome) = true := by
    refine (Option.all_eq_true _ _).2 fun target hmem ↦ ?_
    obtain ⟨hle, hbase, rebuild, hrebuild, htargetId, hkind⟩ := h.target target hmem
    simp only [Bool.and_eq_true, decide_eq_true_eq, List.any_eq_true, beq_iff_eq]
    exact ⟨⟨hle, hbase⟩, rebuild, hrebuild, htargetId, hkind⟩
  rw [restoreLive, liveSchema_toJson h.storable, Option.filter_some, if_pos]
  rw [LiveBuild.related, hfind]
  simp only [huser, hrepository, hcheckout, beq_self_eq_true, Option.map_some, Option.getD_some, hfiled,
    h.base, decide_true, h.requests, hcommits, htarget, Bool.and_self]

/-- What is served stays what it was. -/
theorem step_serves {next : Plan} {act : Act}
    (h : step platform plan act = some next) : next.liveBuild = plan.liveBuild := by
  cases act with
  | edit revision source => rw [step] at h; split at h <;> cases h; rfl
  | revise change => obtain ⟨graph, -, rfl⟩ := withGraph_ok h; rfl
  | approve => obtain ⟨graph, -, rfl⟩ := withGraph_ok h; rfl
  | queueBuild input blockers draw =>
    rw [step] at h
    split at h <;> try cases h
    obtain ⟨⟨build, next⟩, hqueued, rfl⟩ := Option.map_eq_some_iff.1 h
    rcases queueBuild_ok (Except.toOption_eq_some.1 hqueued) with
      rfl | ⟨_, _, _, -, -, -, -, -, -, -, rfl⟩ <;> rfl
  | claim input => obtain ⟨prior, latest, -, -, -, -, -, -, -, rfl⟩ := claimed_ok h; rfl
  | report input => rw [step] at h; obtain ⟨graph, state, live, -, -, -, rfl⟩ := reported_ok h; rfl
  | reportStored input => rw [step] at h; obtain ⟨graph, state, -, -, rfl⟩ := reportedStored_ok h; rfl
  | pick user connectionId resumable clock =>
    rw [step] at h
    split at h <;> try cases h
    obtain ⟨prior, build, -, -, rfl⟩ := pickBuild_ok h
    rfl
  | reportBuild user connectionId id report draw =>
    rw [step] at h
    split at h <;> try cases h
    obtain ⟨prior, build, -, -, -, hnext⟩ := reportBuild_ok (Except.toOption_eq_some.1 h)
    rcases hnext with rfl | ⟨-, -, rfl⟩
    · rfl
    rcases liveFromStopped_cases { plan with
        builds := prior ++ [build.reported report plan.revision draw.now] }
        (build.reported report plan.revision draw.now) with
      hsame | ⟨_, _, _, _, -, -, -, -, -, -, -, -, -, -, -, -, hnext⟩
    · rw [hsame]
    · rw [hnext]
  | queueRebuild connections options blockers draw =>
    rw [step] at h
    split at h <;> try cases h
    obtain ⟨⟨result, next⟩, hqueued, rfl⟩ := Option.map_eq_some_iff.1 h
    rcases queueRebuild_ok (Except.toOption_eq_some.1 hqueued) with
      rfl | ⟨_, _, _, _, -, -, -, -, -, rfl⟩ <;> rfl
  | settle baseSource revision source draw =>
    rw [step] at h
    split at h <;> try cases h
    rcases settleLive_ok plan ⟨baseSource, revision, source, noCodeSummary⟩ draw with
      heq | ⟨_, -, -, -, -, heq⟩ <;> rw [heq]
  | land buildId report now =>
    rw [step] at h
    split at h <;> try cases h
    obtain ⟨_, _, _, _, _, _, -, -, -, -, -, -, -, -, -, -, rfl⟩ :=
      reportRebuild_ok (Except.toOption_eq_some.1 h)
    rfl

/-- Where living builds are not served, the condition is also that of a restorable document. -/
theorem KeepsLive.landsRestorably {act : Act} (h : plan.KeepsLive platform act) (hserved : plan.liveBuild = false) :
    plan.LandsRestorably act := by
  cases act with
  | land buildId report now => exact fun live hlive ↦ (h live hlive).2.2 hserved
  | reportStored input =>
    intro hlive
    rw [liveRun, hserved] at hlive
    cases hlive
  | _ => trivial

/-- The invariant of a run: the reader also asks for the history where no living builds are served. -/
structure Readable (platform : Platform) (plan : Plan) : Prop where
  recorded : plan.Recorded platform
  sound : plan.liveBuild = false → plan.Sound platform

/-- **The living record always restores**, in every state that a document reaches by steps that meet
the condition. -/
theorem live_restores {platform : Platform} {id source : String} {revision : Nat} {graph : Option Graph}
    {liveBuild : Bool} {acts : List Act} {plan : Plan} (hrevision : revision ≤ Json.maxSafe)
    (hgraph : ∀ before ∈ graph, ∃ json, Graphs.restore json = some before)
    (hlatest : ∀ before ∈ graph, ∀ latest ∈ current before, latest.state ≠ .locked ∧ latest.planRevision ≤ revision)
    (run : Guarded (KeepsLive platform) (step platform) (opened id source revision graph liveBuild) acts plan) :
    ∀ live ∈ plan.live, restoreLive platform live.toJson plan.builds (some plan.lifecycle) plan.graph
      plan.revision = some live := by
  have hopened : (opened id source revision graph liveBuild).Recorded platform :=
    ⟨by simp [opened], by simp [opened], hrevision, by simp [opened]⟩
  have hreadable : plan.Readable platform := by
    refine run.invariant ⟨hopened, fun _ ↦ opened_sound hgraph hlatest⟩ fun before act after h hmet hstep ↦ ?_
    refine ⟨step_recorded h.recorded hmet hstep, fun hserved ↦ ?_⟩
    rw [step_serves hstep] at hserved
    exact step_sound (h.sound hserved) (hmet.landsRestorably hserved) hstep
  exact fun live hlive ↦
    (hreadable.recorded.records live hlive).restore hreadable.recorded.ids hreadable.sound

/-! ## A record that nobody can read back -/

/-- The rebuild finishes the work, the next one fails, and a check settles a later edit. -/
def sampleStale : List Act :=
  [sampleCompleted, .edit 2 "again", .queueRebuild sampleConnections ⟨false, none⟩ [] (sampleDraw "3"),
    .reportBuild "u" "c" (sampleId "3") (sampleReport .failed) (sampleDraw "0"), .edit 3 "later",
    .settle "edited" 3 "later" (sampleDraw "4")]

/-- A rebuild that pushed a commit to the pull request at this address. -/
def sampleCommit (url : String) : Act :=
  .land (sampleId "2")
    { summary := "Done.", commits := [⟨url, "0123456", "Commit"⟩], tasks := [], outstanding := none }
    sampleTime

/-- **An accepted step may leave a living record that cannot be read back**: a check settles past the
target that a failed rebuild left, or a commit names its pull request in another case. -/
theorem live_unrestorable : (∃ acts plan live, Runs (step .ascii) sample acts plan ∧ plan.live = some live ∧
      live.target.any (·.revision < live.baseRevision) = true ∧
      restoreLive .ascii live.toJson plan.builds (some plan.lifecycle) plan.graph plan.revision = none) ∧
    ∃ acts plan live, Runs (step .ascii) sample acts plan ∧ plan.live = some live ∧
      (live.commits.getD []).any (!live.pullRequests.contains ·.pullRequest) = true ∧
      restoreLive .ascii live.toJson plan.builds (some plan.lifecycle) plan.graph plan.revision = none := by
  constructor
  · have h : (sampleStale.foldlM (step .ascii) sampleRebuilding).any (fun plan ↦
        plan.live.any fun live ↦ live.target.any (·.revision < live.baseRevision) &&
          (restoreLive .ascii live.toJson plan.builds (some plan.lifecycle) plan.graph
            plan.revision).isNone) = true := by decide +kernel
    obtain ⟨plan, hrun, h⟩ := Option.any_eq_true _ _ |>.1 h
    obtain ⟨live, hlive, h⟩ := Option.any_eq_true _ _ |>.1 h
    rw [Bool.and_eq_true, Option.isNone_iff_eq_none] at h
    exact ⟨_, plan, live, sampleRebuild_run.append (runs_iff_foldlM.2 hrun), hlive, h⟩
  · have h : (step .ascii sampleRebuilding (sampleCommit "https://github.com/O/N/pull/1")).any
        (fun plan ↦ plan.live.any fun live ↦
          (live.commits.getD []).any (!live.pullRequests.contains ·.pullRequest) &&
            (restoreLive .ascii live.toJson plan.builds (some plan.lifecycle) plan.graph
              plan.revision).isNone) = true := by decide +kernel
    obtain ⟨plan, hstep, h⟩ := Option.any_eq_true _ _ |>.1 h
    obtain ⟨live, hlive, h⟩ := Option.any_eq_true _ _ |>.1 h
    rw [Bool.and_eq_true, Option.isNone_iff_eq_none] at h
    exact ⟨_, plan, live, sampleRebuild_run.snoc hstep, hlive, h⟩

/-- The reports that the sample makes, tested as they arrive. -/
def sampleKeeps (plan : Plan) : Act → Bool
  | .report input => (plan.delivering input).all fun tasks ↦ (deliveredRequests tasks).length ≤ 100
  | .reportBuild _ _ id report _ => (plan.stopping id report).all fun tasks ↦
    (startedRequests tasks).length ≤ 100 && (unfinishedTasks tasks).length ≤ 100
      && (unfinishedTasks tasks).all (bounded 128)
  | .settle .. | .land .. => false
  | _ => true

theorem sampleKeeps_keepsLive (plan : Plan) (act : Act) (h : sampleKeeps plan act = true) :
    plan.KeepsLive .ascii act := by
  cases act with
  | report input =>
    exact fun tasks hmem ↦ of_decide_eq_true ((Option.all_eq_true _ _).1 h tasks hmem)
  | reportBuild user connectionId id report draw =>
    intro tasks hmem
    have hall := (Option.all_eq_true _ _).1 h tasks hmem
    simp only [Bool.and_eq_true, decide_eq_true_eq, List.all_eq_true] at hall
    exact ⟨hall.1.1, hall.1.2, hall.2⟩
  | settle => cases h
  | land => cases h
  | _ => trivial

theorem live_restores_sample : ∃ live, sampleRebuilding.live = some live ∧
    restoreLive .ascii live.toJson sampleRebuilding.builds (some sampleRebuilding.lifecycle)
      sampleRebuilding.graph sampleRebuilding.revision = some live := by
  have hrestore : Graphs.restore Implementation.oneGraph.toJson = some Implementation.oneGraph := by
    decide
  have hrun : Guarded (KeepsLive .ascii) (step .ascii) sample
      (sampleClaim ++ [sampleStop] ++ sampleRebuild) sampleRebuilding :=
    Guarded.of_foldlM sampleKeeps_keepsLive (by decide +kernel)
  refine ⟨_, rfl, live_restores (Nat.zero_le _) ?_ ?_ hrun _ rfl⟩
  · rintro _ ⟨⟩; exact ⟨_, hrestore⟩
  · rintro _ ⟨⟩ _ ⟨⟩; decide

end Plan

end Chopin.Tasks
