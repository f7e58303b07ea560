import Chopin.Jobs.RunnerLimits
import Chopin.Storage.JobSteps

/-!
# The runner's claims

What an attempt knows of its job is a copy that others may have left behind: its claim may have expired and been
taken again, the job may be paused, cancelled or superseded.  The copy still says enough.  While the job runs
under the attempt's claim its failures are those of the copy, and nothing took it out of that claim; a job that
has the copy's revision is as it was when the copy was made.
-/

set_option autoImplicit false
set_option linter.dupNamespace false

open Script (Call Instant)
open Script.Call (Ensures)
open Chopin.Storage

namespace Chopin.Jobs

variable {Lease : Type} {config : Config} {s t : Store} {owner : String} {job new claimed saved : BackgroundJob}
variable {live : Prop} {made : Nat}

/-! ## Tracking a job -/

/-- A job in the store, and what an attempt knows of it that took it out of its claim so often. -/
structure Tracks (owner : String) (job claimed : BackgroundJob) (live : Prop) (made : Nat) : Prop where
  id : job.id = claimed.id
  type : job.type = claimed.type
  version : job.version = claimed.version
  claimGeneration : claimed.claimGeneration ≤ job.claimGeneration
  held : job.claimGeneration = claimed.claimGeneration → job.state = .running →
    job.claimOwner = some owner ∧ job.failures = claimed.failures ∧ made = 0
  revision : claimed.revision ≤ job.revision
  /-- What may still take it out of its claim by its revision knows the claim. -/
  current : live → job.revision = claimed.revision →
    job.state = .running ∧ job.claimGeneration = claimed.claimGeneration

def TracksIn (owner : String) (store : Store) (claimed : BackgroundJob) (live : Prop) (made : Nat) : Prop :=
  ∃ job ∈ store.jobs, Tracks owner job claimed live made

theorem Tracks.mono (h : Tracks owner job claimed live made) {other : Prop} (hother : other → live) :
    Tracks owner job claimed other made :=
  ⟨h.id, h.type, h.version, h.claimGeneration, h.held, h.revision, fun hlive ↦ h.current (hother hlive)⟩

theorem TracksIn.mono (h : TracksIn owner s claimed live made) {other : Prop} (hother : other → live) :
    TracksIn owner s claimed other made :=
  h.imp fun _ ↦ And.imp_right fun htracks ↦ htracks.mono hother

/-- A call by anyone leaves the job tracked. -/
theorem Tracks.step {request : Request Lease} (h : Tracks owner job claimed live made) (hstep : Steps request job new)
    (hchange : new = job ∨ job.state.active = true ∧ job.revision < new.revision) :
    Tracks owner new claimed live made where
  id := hstep.id.trans h.id
  type := hstep.type.trans h.type
  version := hstep.version.trans h.version
  claimGeneration := Nat.le_trans h.claimGeneration hstep.claimGeneration
  held hgeneration hrunning := by
    have hold : job.claimGeneration = claimed.claimGeneration :=
      Nat.le_antisymm (hgeneration ▸ hstep.claimGeneration) h.claimGeneration
    obtain ⟨hrun, howner, hfailures⟩ := hstep.claim (hgeneration.trans hold.symm) hrunning
    obtain ⟨howner', hfailures', hmade⟩ := h.held hold hrun
    exact ⟨howner.trans howner', hfailures.trans hfailures', hmade⟩
  revision := by
    obtain rfl | ⟨_, hlater⟩ := hchange
    · exact h.revision
    · exact Nat.le_of_lt (Nat.lt_of_le_of_lt h.revision hlater)
  current hlive hrevision := by
    obtain rfl | ⟨_, hlater⟩ := hchange
    · exact h.current hlive hrevision
    · exact absurd hrevision (Nat.ne_of_gt (Nat.lt_of_le_of_lt h.revision hlater))

theorem TracksIn.step {request : Request Lease} (h : TracksIn owner s claimed live made)
    (hstepped : Stepped request s t) : TracksIn owner t claimed live made := by
  obtain ⟨job, hjob, htracks⟩ := h
  obtain ⟨new, hnew, hstep, hchange⟩ := hstepped.steps job hjob
  exact ⟨new, hnew, htracks.step hstep hchange⟩

/-! ## An attempt's own calls -/

/-- A call that leaves the attempt its claim. -/
def Reports (s : Store) (claimed : BackgroundJob) (answer : Option BackgroundJob) (t : Store) : Prop :=
  ∃ found saved, answer = some saved ∧ found.id = claimed.id ∧ found.state = .running ∧
    found.claimGeneration = claimed.claimGeneration ∧ Reported s t found saved

/-- A call that takes the job out of the attempt's claim, or, while the attempt is live, out of the state in which
the attempt saw it. -/
def Leaves (s : Store) (claimed : BackgroundJob) (live : Prop) (answer : Option BackgroundJob) (t : Store) : Prop :=
  ∃ found saved, (∀ job, answer = some job → job = saved) ∧ found.id = claimed.id ∧ saved.state ≠ .running ∧
    (found.state = .running ∧ found.claimGeneration = claimed.claimGeneration ∨
      live ∧ found.revision = claimed.revision) ∧
    Changed s t found saved ∧ Chopin.Storage.Alike found saved

theorem Reports.tracks (h : Reports s claimed (some saved) t) (hfenced : Fenced s)
    (htracks : TracksIn owner s claimed live made) : saved.id = claimed.id ∧ TracksIn owner t saved live made := by
  obtain ⟨found, _, heq, hid, hrunning, hgeneration, hreported⟩ := h
  cases heq
  obtain ⟨job, hjob, htracked⟩ := htracks
  obtain rfl := hfenced.eq_of_id hjob hreported.changed.mem (htracked.id.trans hid.symm)
  obtain ⟨howner, hfailures, hmade⟩ := htracked.held hgeneration hrunning
  refine ⟨hreported.changed.follows.id.trans hid, saved, hreported.changed.mem_after, rfl, rfl, rfl, Nat.le_refl _,
    fun _ _ ↦ ⟨hreported.claimOwner.trans howner, rfl, hmade⟩, Nat.le_refl _,
      fun _ _ ↦ ⟨hreported.state.trans hrunning, rfl⟩⟩

theorem Leaves.tracks {answer : Option BackgroundJob} (h : Leaves s claimed live answer t) (hfenced : Fenced s)
    (htracks : TracksIn owner s claimed live made) : made = 0 ∧ (∀ count other, TracksIn owner t claimed other count) ∧
      ∀ job, answer = some job → job.id = claimed.id ∧ ∀ count, TracksIn owner t job False count := by
  obtain ⟨found, saved, hanswer, hid, hstate, hbefore, hchanged, halike⟩ := h
  obtain ⟨job, hjob, htracked⟩ := htracks
  obtain rfl := hfenced.eq_of_id hjob hchanged.mem (htracked.id.trans hid.symm)
  have hrunning : job.state = .running ∧ job.claimGeneration = claimed.claimGeneration :=
    hbefore.elim id fun hseen ↦ htracked.current hseen.1 hseen.2
  have hlater : claimed.revision < saved.revision := by
    refine Nat.lt_of_le_of_lt htracked.revision ?_
    rw [hchanged.follows.revision]
    exact Nat.lt_of_le_of_lt (hfenced.revision job hjob) hchanged.follows.later
  refine ⟨(htracked.held hrunning.2 hrunning.1).2.2, fun count other ↦ ⟨saved, hchanged.mem_after, ?_⟩, fun given hgiven ↦ ?_⟩
  · exact ⟨hchanged.follows.id.trans hid, halike.type.trans htracked.type, halike.version.trans htracked.version,
      Nat.le_of_eq (halike.claimGeneration.trans hrunning.2).symm, fun _ hrun ↦ absurd hrun hstate, Nat.le_of_lt hlater,
      fun _ hrevision ↦ absurd hrevision (Nat.ne_of_gt hlater)⟩
  · obtain rfl := hanswer given hgiven
    exact ⟨hchanged.follows.id.trans hid, fun count ↦ ⟨given, hchanged.mem_after, rfl, rfl, rfl, Nat.le_refl _,
      fun _ hrun ↦ absurd hrun hstate, Nat.le_refl _, False.elim⟩⟩

/-! ## What is asked of the store -/

variable {options : Options Lease} {moment : Moment Lease} {attempt : Attempt} {request : Request Lease}
  {report : Report}

/-- What an attempt is answered with, the store leaves as any call of the kind does. -/
theorem ensures_answered {R : Store → Prop} (h : Ensures (invoke options request) s fun _ t ↦ R t) :
    Ensures (answered options request) s fun _ t ↦ R t := by
  cases request with
  | renew input => exact Ensures.map (g := some) h.unmap
  | requeue input => exact Ensures.map (g := some) h.unmap
  | appendProgress input => exact Ensures.map (g := some) h.unmap
  | pause input => exact Ensures.map (g := some) h.unmap
  | fail input => exact Ensures.map (g := some) h.unmap
  | enqueue input => exact Ensures.map (g := fun _ ↦ none) h
  | claim input => exact Ensures.map (g := fun _ ↦ none) h
  | settle input => exact Ensures.map (g := fun _ ↦ none) h
  | resume input => exact Ensures.map (g := fun _ ↦ none) h
  | cancel input => exact Ensures.map (g := fun _ ↦ none) h
  | supersede input => exact Ensures.map (g := fun _ ↦ none) h

variable {found : BackgroundJob}

theorem Held.of_claimed (h : Held s (attempt.claimed config moment) found) :
    found.id = attempt.job.id ∧ found.state = .running ∧ found.claimGeneration = attempt.job.claimGeneration := by
  have hheld := h.held
  simp only [BackgroundJob.heldBy, Bool.and_eq_true, beq_iff_eq] at hheld
  exact ⟨h.id, h.running, hheld.1.2⟩

theorem ensures_renewRequest (h : Fenced s) :
    Ensures (answered options (attempt.renewRequest config moment)) s (Reports s attempt.job) :=
  Ensures.map (g := some) ((ensures_renewed h _).mono fun saved _ ⟨found, hheld, hreported⟩ ↦
    have hclaim := Held.of_claimed hheld
    ⟨found, saved, rfl, hclaim.1, hclaim.2.1, hclaim.2.2, hreported⟩)

theorem ensures_progressRequest (h : Fenced s) {input : AppendBackgroundJobProgress Lease}
    (hinput : input.toClaimedBackgroundJob = attempt.claimed config moment) :
    Ensures (answered options (.appendProgress input)) s (Reports s attempt.job) :=
  Ensures.map (g := some) ((ensures_appended h input).mono fun saved _ ⟨found, hheld, hreported⟩ ↦
    have hclaim := Held.of_claimed (hinput ▸ hheld)
    ⟨found, saved, rfl, hclaim.1, hclaim.2.1, hclaim.2.2, hreported⟩)

/-- A job that leaves its claim for the attempt that holds it. -/
theorem leaves_of_transitioned {state : BackgroundJobState} {count : Nat}
    (h : Transitioned s t found saved state count) (hheld : Held s (attempt.claimed config moment) found)
    (hstate : state ≠ .running) : Leaves s attempt.job live (some saved) t :=
  have hclaim := Held.of_claimed hheld
  ⟨found, saved, fun _ heq ↦ (Option.some.inj heq).symm, hclaim.1, fun hrunning ↦ hstate (h.state.symm.trans hrunning),
    .inl ⟨hclaim.2.1, hclaim.2.2⟩, h.changed, h.alike⟩

theorem ensures_failRequest (h : Fenced s) (reason : String) :
    Ensures (answered options (.fail { attempt.claimed config moment with reason })) s (Leaves s attempt.job live) :=
  Ensures.map (g := some) ((ensures_failed h _).mono fun _ _ ⟨_, hheld, hleft⟩ ↦
        leaves_of_transitioned hleft hheld (by decide))

theorem ensures_endRequest (h : Fenced s) (exhausted : Bool) (reason : String) (delay : Nat) (countFailure : Bool) :
    Ensures (answered options (attempt.endRequest config moment exhausted reason delay countFailure)) s
      (Leaves s attempt.job live) := by
  rw [Attempt.endRequest]
  split
  · exact ensures_failRequest h _
  · exact Ensures.map (g := some) ((ensures_requeued h _).mono fun _ _ ⟨_, hheld, hleft⟩ ↦
        leaves_of_transitioned hleft hheld (by decide))

theorem ensures_exitRequest (h : Fenced s) (hlive : live) (settled : Bool) (exit : Exit) :
    Ensures (answered options (attempt.exitRequest config moment settled exit)) s (Leaves s attempt.job live) := by
  cases exit with
  | pause reason =>
    exact Ensures.map (g := some) ((ensures_paused h _).mono fun saved _ ⟨found, hid, hrevision, hleft⟩ ↦
      ⟨found, saved, fun _ heq ↦ (Option.some.inj heq).symm, hid, fun hrunning ↦ (nomatch hleft.state.symm.trans hrunning),
        .inr ⟨hlive, hrevision _ rfl⟩, hleft.changed, hleft.alike⟩)
  | fail reason => exact ensures_failRequest h reason
  | retry reason countFailure => exact ensures_endRequest h _ _ _ _
  | timeout => exact ensures_endRequest h _ _ _ _
  | heartbeatLost => exact ensures_endRequest h _ _ _ _
  | shutdown => exact ensures_endRequest h _ _ _ _

theorem ensures_settleRequest (h : Fenced s) {input : SettleBackgroundJob Lease}
    (hinput : input.toClaimedBackgroundJob = attempt.claimed config moment) :
    Ensures (answered options (.settle input)) s fun answer t ↦ answer = none ∧ Leaves s attempt.job live none t := by
  have hsettled : Ensures (invoke options (.settle input)) s fun _ t ↦ Leaves s attempt.job live none t := by
    refine Ensures.map (g := fun _ ↦ []) ((ensures_settled h input).mono ?_)
    rintro _ left ⟨_, found, saved, hheld, hchanged, halike, hstate, _⟩
    have hclaim := Held.of_claimed (hinput ▸ hheld)
    exact ⟨found, saved, fun _ heq ↦ (nomatch heq), hclaim.1, fun hrunning ↦ (nomatch hstate.symm.trans hrunning),
      .inl ⟨hclaim.2.1, hclaim.2.2⟩, hchanged, halike⟩
  exact Ensures.map (g := fun _ ↦ none) (hsettled.mono fun _ _ hleaves ↦ ⟨rfl, hleaves⟩)

/-- What an attempt's report does, once the store made the change. -/
theorem ensures_report (h : Fenced s) (hrequest : attempt.request config moment report = some (some request)) :
    Ensures (answered options request) s fun answer t ↦ (report.counts true = 0 ∧ Reports s attempt.job answer t) ∨
        report.counts true = 1 ∧ Leaves s attempt.job attempt.Live answer t ∧
          ∀ after, report = .commit after → answer = none := by
  cases report with
  | renewal =>
    rw [Attempt.request] at hrequest
    split at hrequest
    · obtain rfl := Option.some.inj (Option.some.inj hrequest)
      exact (ensures_renewRequest h).mono fun _ _ hreports ↦ .inl ⟨rfl, hreports⟩
    · cases hrequest
  | heartbeat active =>
    rw [Attempt.request] at hrequest
    split at hrequest
    · obtain rfl := Option.some.inj (Option.some.inj hrequest)
      exact (ensures_renewRequest h).mono fun _ _ hreports ↦ .inl ⟨rfl, hreports⟩
    · cases hrequest
  | progress stage state =>
    rw [Attempt.request] at hrequest
    split at hrequest
    · obtain ⟨label, _, heq⟩ := Option.map_eq_some_iff.1 hrequest
      cases heq
      exact (ensures_progressRequest h rfl).mono fun _ _ hreports ↦ .inl ⟨rfl, hreports⟩
    · cases hrequest
  | interrupt =>
    rw [Attempt.request] at hrequest
    split at hrequest
    · obtain ⟨active, _, heq⟩ := Option.map_eq_some_iff.1 (Option.some.inj hrequest)
      obtain rfl := heq
      exact (ensures_progressRequest h rfl).mono fun _ _ hreports ↦ .inl ⟨rfl, hreports⟩
    · cases hrequest
  | commit after =>
    rw [Attempt.request] at hrequest
    split at hrequest
    · rename_i artifact _
      obtain rfl := Option.some.inj (Option.some.inj hrequest)
      have hsettle : Ensures (answered options (.settle { attempt.claimed config moment with artifact })) s
          fun answer t ↦ answer = none ∧ Leaves s attempt.job attempt.Live none t := ensures_settleRequest h rfl
      refine hsettle.mono ?_
      rintro answer left ⟨rfl, hleaves⟩
      exact .inr ⟨rfl, hleaves, fun _ _ ↦ rfl⟩
    · cases hrequest
  | leave settled =>
    rw [Attempt.request] at hrequest
    split at hrequest
    · rename_i hleaving
      obtain rfl := Option.some.inj (Option.some.inj hrequest)
      have hlive : attempt.Live := .inr (hleaving ▸ rfl)
      exact (ensures_exitRequest h hlive settled _).mono fun _ _ hleaves ↦ .inr ⟨rfl, hleaves, fun _ heq ↦ by cases heq⟩
    · cases hrequest

/-- The attempt is answered, or its answer is lost, and goes on. -/
theorem hear_tracks {answer : Option BackgroundJob} (hfenced : Fenced s) (hstepped : Stepped request s t)
    (hrequest : attempt.request config moment report = some (some request)) (hexits : attempt.Exits)
    (htracks : TracksIn owner s attempt.job attempt.Live attempt.transitions)
    (hreport : (report.counts true = 0 ∧ Reports s attempt.job answer t) ∨
      report.counts true = 1 ∧ Leaves s attempt.job attempt.Live answer t ∧ ∀ after, report = .commit after → answer = none)
    {given : Except Failure (Option BackgroundJob)} (hgiven : given = .ok answer ∨ ∃ failure, given = .error failure) :
    let after := attempt.hear given true report
    attempt.Alike after ∧ after.Exits ∧ (after.transitions = attempt.transitions ∨ after.transitions = 1) ∧
      TracksIn owner t after.job after.Live after.transitions := by
  have hcommit : ∀ after, report = .commit after → ∀ job, given ≠ .ok (some job) := by
    intro after heq job hjob
    obtain ⟨hzero, _⟩ | ⟨_, _, hnone⟩ := hreport
    · rw [heq] at hzero
      cases hzero
    · obtain hgiven | ⟨_, hgiven⟩ := hgiven
      · rw [hnone after heq, hjob] at hgiven
        cases Except.ok.inj hgiven
      · cases hjob.symm.trans hgiven
  have hgoes := Attempt.goes_hear hrequest true hcommit
  obtain ⟨hlisted, hslot, hlive, hexits', hpaid⟩ := attempt.noted_same given (report.counts true)
  have hlive' : (attempt.hear given true report).Live → attempt.Live := fun h ↦ hlive (hgoes.live h)
  have hjob : (attempt.hear given true report).job = ((given.toOption).join).getD attempt.job := by
    rw [hgoes.job, Attempt.noted, Attempt.record_eq]
  have htransitions : (attempt.hear given true report).transitions = attempt.transitions + report.counts true := hgoes.transitions
  -- What the attempt knows afterwards is what it was answered, or what it knew before.
  have hknows : (attempt.hear given true report).job = attempt.job ∨
      ∃ saved, answer = some saved ∧ (attempt.hear given true report).job = saved := by
    obtain rfl | ⟨failure, rfl⟩ := hgiven
    · cases answer with
      | none => exact .inl hjob
      | some saved => exact .inr ⟨saved, rfl, hjob⟩
    · exact .inl hjob
  have halike (hid : (attempt.hear given true report).job.id = attempt.job.id) :
      attempt.Alike (attempt.hear given true report) :=
    ⟨hgoes.listed.trans hlisted, hgoes.slot.trans hslot, hid, fun h ↦ hgoes.paid (hpaid h)⟩
  have hstill := hgoes.exits (hexits' hexits)
  dsimp only
  obtain ⟨hcounts, hreports⟩ | ⟨hcounts, hleaves, hnone⟩ := hreport
  · rw [hcounts, Nat.add_zero] at htransitions
    rw [htransitions]
    obtain hknows | ⟨saved, rfl, hknows⟩ := hknows
    · exact ⟨halike (hknows ▸ rfl), hstill, .inl rfl, hknows ▸ (htracks.step hstepped).mono hlive'⟩
    · obtain ⟨hid, hsaved⟩ := hreports.tracks hfenced htracks
      exact ⟨halike (hknows ▸ hid), hstill, .inl rfl, hknows ▸ hsaved.mono hlive'⟩
  · obtain ⟨hmade, hbefore, hafter⟩ := hleaves.tracks hfenced htracks
    rw [hcounts, hmade] at htransitions
    rw [htransitions]
    obtain hknows | ⟨saved, rfl, hknows⟩ := hknows
    · exact ⟨halike (hknows ▸ rfl), hstill, .inr rfl, hknows ▸ hbefore _ _⟩
    · obtain ⟨hid, hsaved⟩ := hafter saved rfl
      have hover : ¬(attempt.hear given true report).Live := by
        cases report with
        | leave settled => exact Attempt.not_live_leave hexits ((Attempt.phase_of_request hrequest).2.2 settled rfl) _ _ _
        | commit after => cases hnone after rfl
        | _ => cases hcounts
      exact ⟨halike (hknows ▸ hid), hstill, .inr rfl, hknows ▸ (hsaved 1).mono hover⟩

/-! ## Failures -/

/-- A job that used up its failures has failed for good. -/
def Budget (config : Config) (store : Store) : Prop :=
  ∀ job ∈ store.jobs, ∀ definition, config.definition job = some definition →
    definition.maxAttempts ≤ job.failures → job.state = .failed

theorem Budget.step (h : Budget config s) (hstepped : Stepped request s t)
    (hcounted : ∀ input, request = .requeue input → input.countFailure = true →
      ∀ old ∈ s.jobs, old.id = input.jobId → old.heldBy input.toClaimedBackgroundJob = true →
        ∀ definition, config.definition old = some definition → old.failures + 1 < definition.maxAttempts) :
    Budget config t := by
  intro job hjob definition hdefinition hmax
  obtain ⟨old, hold, hid⟩ | hfresh := hstepped.known job hjob
  · obtain ⟨new, hnew, hstep, hchange⟩ := hstepped.steps old hold
    obtain rfl := hstepped.fenced.eq_of_id hnew hjob (hstep.id.trans hid)
    have hsame : config.definition old = some definition := by
      rw [← hdefinition, Config.definition, Config.definition, hstep.type, hstep.version]
    obtain hfailures | hfailed | ⟨input, heq, hcount, hinput, hheld, hfailures⟩ := hstep.failures
    · have hfailed := h old hold definition hsame (hfailures ▸ hmax)
      obtain rfl | ⟨hactive, _⟩ := hchange
      · exact hfailed
      · rw [hfailed] at hactive
        cases hactive
    · exact hfailed
    · have hless := hcounted input heq hcount old hold hinput hheld definition hsame
      omega
  · have hpositive := definition.positive
    omega

variable {input : RequeueBackgroundJob Lease}

theorem endRequest_requeue {exhausted countFailure : Bool} {reason : String} {delay : Nat}
    (h : attempt.endRequest config moment exhausted reason delay countFailure = .requeue input) :
    exhausted = false ∧ input.toClaimedBackgroundJob = attempt.claimed config moment ∧
      input.countFailure = countFailure := by
  rw [Attempt.endRequest] at h
  split at h
  · cases h
  · rename_i hleft
    obtain rfl := Request.requeue.inj h
    exact ⟨Bool.eq_false_iff.2 hleft, rfl, rfl⟩

/-- An attempt gives its job back as failed only when there are failures left. -/
theorem counted_exit {settled : Bool} {exit : Exit}
    (h : attempt.exitRequest config moment settled exit = .requeue input) (hcount : input.countFailure = true) :
    input.toClaimedBackgroundJob = attempt.claimed config moment ∧
      ∀ definition, config.definition attempt.job = some definition →
        attempt.job.failures + 1 < definition.maxAttempts := by
  cases exit with
  | pause reason => cases h
  | fail reason => cases h
  | retry reason countFailure =>
    obtain ⟨hexhausted, hinput, hsame⟩ := endRequest_requeue h
    refine ⟨hinput, fun definition hdefinition ↦ ?_⟩
    rw [← hsame, hcount, hdefinition] at hexhausted
    simpa using hexhausted
  | timeout =>
    obtain ⟨hexhausted, hinput, _⟩ := endRequest_requeue h
    refine ⟨hinput, fun definition hdefinition ↦ ?_⟩
    rw [hdefinition] at hexhausted
    simpa using hexhausted
  | heartbeatLost =>
    obtain ⟨hexhausted, hinput, _⟩ := endRequest_requeue h
    refine ⟨hinput, fun definition hdefinition ↦ ?_⟩
    rw [hdefinition, Bool.or_eq_false_iff] at hexhausted
    simpa using hexhausted.2
  | shutdown =>
    obtain ⟨_, _, hsame⟩ := endRequest_requeue h
    exact nomatch hcount.symm.trans hsame

theorem counted_request (hrequest : attempt.request config moment report = some (some (.requeue input)))
    (hcount : input.countFailure = true) : input.toClaimedBackgroundJob = attempt.claimed config moment ∧
      ∀ definition, config.definition attempt.job = some definition →
        attempt.job.failures + 1 < definition.maxAttempts := by
  cases report with
  | leave settled =>
    rw [Attempt.request] at hrequest
    split at hrequest
    · exact counted_exit (Option.some.inj (Option.some.inj hrequest)) hcount
    · cases hrequest
  | progress stage state =>
    rw [Attempt.request] at hrequest
    split at hrequest
    · obtain ⟨_, _, heq⟩ := Option.map_eq_some_iff.1 hrequest
      cases Option.some.inj heq
    · cases hrequest
  | interrupt =>
    rw [Attempt.request] at hrequest
    split at hrequest
    · obtain ⟨_, _, heq⟩ := Option.map_eq_some_iff.1 (Option.some.inj hrequest)
      cases heq
    · cases hrequest
  | _ =>
    rw [Attempt.request] at hrequest
    split at hrequest
    · cases Option.some.inj (Option.some.inj hrequest)
    · cases hrequest

end Chopin.Jobs
