import Chopin.Jobs.RunnerClaims

/-!
# The runner respects its limits and settles each attempt once

Over every run, whatever the store is told by others, whenever a heartbeat fires or an owner is revoked, and
whichever answers are lost: the attempts that run are no more than the runner's concurrency, and those that hold
a slot of one owner no more than the owner's; no job has two of them; the store moved a job out of its claim at
most once for each attempt, and wrote an artifact only for one that held the claim; and a job that used up its
failures has failed for good.
-/

set_option autoImplicit false
set_option linter.dupNamespace false

open Script (Call Instant)
open Script.Call (Ensures)
open Chopin.Storage

namespace Chopin.Jobs

variable {Lease : Type} {config : Config} {runner next : JobRunner} {store : Store}

namespace JobRunner

/-- What an attempt knows of its job is right. -/
structure Knows (config : Config) (store : Store) (attempt : Attempt) : Prop where
  exits : attempt.Exits
  once : attempt.transitions ≤ 1
  tracks : TracksIn config.claimOwner store attempt.job attempt.Live attempt.transitions

structure Sound (config : Config) (runner : JobRunner) : Prop where
  limits : Limited config runner
  fenced : Fenced runner.store
  budget : Budget config runner.store
  knows : ∀ attempt ∈ runner.attempts, Knows config runner.store attempt
  claimed : ∀ jobs, runner.pump = .claimed jobs → ∀ job ∈ jobs, TracksIn config.claimOwner runner.store job True 0

theorem Knows.goes {before after : Attempt} (h : Knows config store before) (hgoes : before.Goes after) :
    Knows config store after := by
  refine ⟨hgoes.exits h.exits, hgoes.transitions ▸ h.once, ?_⟩
  rw [hgoes.job, hgoes.transitions]
  exact h.tracks.mono hgoes.live

variable {request : Request Lease}

theorem Knows.step {attempt : Attempt} {later : Store} (h : Knows config store attempt)
    (hstepped : Stepped request store later) : Knows config later attempt :=
  ⟨h.exits, h.once, h.tracks.step hstepped⟩

/-! ## What does not touch the attempts -/

/-- The runner's own flags, and a pump that will start less, change nothing that is said. -/
theorem Sound.same (h : Sound config runner) (hstore : next.store = runner.store)
    (hattempts : next.attempts = runner.attempts) (howners : next.owners = runner.owners)
    (hpump : next.pump = runner.pump ∨ next.pump = .idle ∨ ∃ duplicates, next.pump = .waiting duplicates) :
    Sound config next := by
  refine ⟨h.limits.of_alike (hattempts ▸ forall₂_refl _) howners ?_, hstore ▸ h.fenced, hstore ▸ h.budget, ?_, ?_⟩
  · obtain hpump | hpump | ⟨_, hpump⟩ := hpump
    · exact Nat.le_of_eq (congrArg Pump.pending hpump)
    · rw [hpump]
      exact Nat.zero_le _
    · rw [hpump]
      exact Nat.zero_le _
  · rw [hstore, hattempts]
    exact h.knows
  · intro jobs hjobs
    rw [hstore]
    obtain hpump | hpump | ⟨_, hpump⟩ := hpump
    · exact h.claimed jobs (hpump.symm.trans hjobs)
    · exact nomatch hpump.symm.trans hjobs
    · exact nomatch hpump.symm.trans hjobs

theorem woken_sound (h : Sound config runner) : Sound config runner.woken := by
  rw [woken]
  split
  · exact h.same rfl rfl rfl (.inl rfl)
  · exact h

/-- The store is told something, by the runner or by others. -/
theorem Sound.stepped (h : Sound config runner)
    (hstepped : Stepped request runner.store store)
    (hcounted : ∀ input, request = .requeue input → input.countFailure = true →
      ∀ old ∈ runner.store.jobs, old.id = input.jobId → old.heldBy input.toClaimedBackgroundJob = true →
        ∀ definition, config.definition old = some definition → old.failures + 1 < definition.maxAttempts) :
    Sound config { runner with store } where
  limits := h.limits.of_alike (forall₂_refl _) rfl (Nat.le_refl _)
  fenced := hstepped.fenced
  budget := h.budget.step hstepped hcounted
  knows attempt hmem := (h.knows attempt hmem).step hstepped
  claimed jobs hjobs job hmem := (h.claimed jobs hjobs job hmem).step hstepped

/-! ## Attempts go on -/

/-- Attempts go on, one by one, between their calls on the store. -/
theorem Sound.went {attempts : List Attempt} (h : Sound config runner)
    (hall : List.Forall₂ Attempt.Goes runner.attempts attempts) : Sound config { runner with attempts } where
  limits := h.limits.of_alike (hall.imp fun _ _ ↦ Attempt.Goes.alike) rfl (Nat.le_refl _)
  fenced := h.fenced
  budget := h.budget
  knows after hmem := by
    obtain ⟨before, hbefore, hgoes⟩ := hall.exists_of_mem hmem
    exact (h.knows before hbefore).goes hgoes
  claimed := h.claimed

variable {index : Nat}

theorem Sound.set (h : Sound config runner) {before after : Attempt}
    (hbefore : runner.attempts[index]? = some before) (hgoes : before.Goes after) :
    Sound config (runner.setAttempt index after) :=
  h.went (List.forall₂_set Attempt.Goes.refl hbefore hgoes)

theorem reserve_sound (h : Sound config runner) {attempt : Attempt}
    (hattempt : runner.attempts[index]? = some attempt) (hphase : attempt.phase = .renewed) :
    Sound config (runner.reserve config index attempt) := by
  have hlimits := reserve_limited h.limits hattempt hphase
  have hbefore : attempt.phase ≠ .returned := fun heq ↦ nomatch hphase.symm.trans heq
  have hknows := h.knows attempt (List.mem_of_getElem? hattempt)
  have hset : ∀ after : Attempt, after.job = attempt.job → after.transitions = attempt.transitions →
      (after.Live → attempt.Live) → after.Exits →
      ∀ other ∈ (runner.setAttempt index after).attempts, Knows config runner.store other := by
    intro after hjob htransitions hlive hexits other hother
    obtain hother | rfl := List.mem_or_eq_of_mem_set hother
    · exact h.knows other hother
    · refine ⟨hexits, htransitions ▸ hknows.once, ?_⟩
      rw [hjob, htransitions]
      exact hknows.tracks.mono hlive
  revert hlimits
  rw [reserve.eq_def]
  split
  · exact fun _ ↦ h.set hattempt (Attempt.goes_returned attempt)
  split
  · exact fun hlimits ↦ ⟨hlimits, h.fenced, h.budget, hset _ rfl rfl id hknows.exits, h.claimed⟩
  · dsimp only
    split
    · exact fun _ ↦ h.set hattempt (Attempt.goes_leaveBy attempt _ hbefore)
    · exact fun hlimits ↦ ⟨hlimits, h.fenced, h.budget, hset _ rfl rfl id hknows.exits, h.claimed⟩

theorem finish_sound (h : Sound config runner) {attempt : Attempt}
    (hattempt : runner.attempts[index]? = some attempt) (hlisted : attempt.listed = true)
    (hphase : attempt.phase = .returned) : Sound config (runner.finish index attempt) := by
  have hlimits := finish_limited h.limits hattempt hlisted hphase
  have hknows := h.knows attempt (List.mem_of_getElem? hattempt)
  have hset : ∀ other ∈ (runner.setAttempt index { attempt with listed := false }).attempts,
      Knows config runner.store other := by
    intro other hother
    obtain hother | rfl := List.mem_or_eq_of_mem_set hother
    · exact h.knows other hother
    · exact ⟨hknows.exits, hknows.once, hknows.tracks⟩
  revert hlimits
  rw [finish, woken]
  split
  · exact fun hlimits ↦ ⟨hlimits, h.fenced, h.budget, hset, h.claimed⟩
  · exact fun hlimits ↦ ⟨hlimits, h.fenced, h.budget, hset, h.claimed⟩

/-! ## Calls on the store -/

variable {moment : Moment Lease}

theorem ensures_advances (options : Options Lease) (h : Fenced store) (request : Request Lease) :
    Ensures (invoke options request) store fun _ later ↦ Advances store request later :=
  (ensures_invoke options h request).mono fun _ _ ⟨haccepted, hwrites⟩ ↦ haccepted.advances hwrites

/-- The store is asked: it refuses and is as it was, or it makes the change, and its answer may be lost. -/
theorem ask_cases (moment : Moment Lease) (h : Fenced runner.store) (request : Request Lease) :
    (∃ failure, runner.ask moment request = (.error failure, false, runner)) ∨
      ∃ answer given store, runner.ask moment request = (given, true, { runner with store }) ∧
        (given = .ok answer ∨ ∃ failure, given = .error failure) ∧
        (answered moment.options request).run runner.store = (.ok answer, store) ∧
        Stepped request runner.store store ∧ Advances runner.store request store := by
  have hstepped := ensures_answered (ensures_stepped moment.options h request)
  have hadvances := ensures_answered (ensures_advances moment.options h request)
  rw [ask]
  rcases hrun : (answered moment.options request).run runner.store with ⟨e | answer, store⟩
  · obtain rfl := hstepped.refused hrun
    exact .inl ⟨_, rfl⟩
  · refine .inr ⟨answer, _, store, rfl, ?_, rfl, hstepped.answered hrun, hadvances.answered hrun⟩
    split
    · exact .inr ⟨_, rfl⟩
    · exact .inl rfl

theorem ask_sound (h : Sound config runner)
    (hcounted : ∀ input, request = .requeue input → input.countFailure = false) :
    Sound config (runner.ask moment request).2.2 := by
  obtain ⟨_, heq⟩ | ⟨_, _, _, heq, _, _, hstepped, _⟩ := ask_cases _ h.fenced request
  · rw [heq]
    exact h
  · rw [heq]
    exact h.stepped hstepped fun input hrequest hcount ↦ (nomatch (hcounted input hrequest).symm.trans hcount)

theorem giveBack_sound (h : Sound config runner) (duplicate : Duplicate) :
    Sound config (runner.giveBack config moment duplicate) := by
  refine ask_sound h fun input hrequest ↦ ?_
  split at hrequest
  · cases hrequest
  · obtain rfl := Request.requeue.inj hrequest
    rfl

variable {report : Report}

variable {given : Except Failure (Option BackgroundJob)}

/-- A report that asks nothing of the store. -/
theorem unasked_sound (h : Sound config runner) {attempt : Attempt}
    {request : Option (Request Lease)} (hattempt : runner.attempts[index]? = some attempt)
    (hrequest : attempt.request config moment report = some request) (hgiven : ∀ job, given ≠ .ok (some job)) :
    Sound config (runner.setAttempt index (attempt.hear given false report)) := by
  refine h.set hattempt ?_
  have hgoes : Attempt.Goes (attempt.noted given (report.counts false)) (attempt.hear given false report) :=
    Attempt.goes_hear hrequest false fun _ _ ↦ hgiven
  have hnoted : attempt.noted given (report.counts false) = attempt := by
    rw [Attempt.noted, Attempt.record_eq]
    rcases given with failure | _ | job
    · cases report <;> rfl
    · cases report <;> rfl
    · exact absurd rfl (hgiven job)
  rwa [hnoted] at hgoes

/-- A report that the store made a change for. -/
theorem asked_sound (h : Sound config runner) {attempt : Attempt} (hattempt : runner.attempts[index]? = some attempt)
    (hrequest : attempt.request config moment report = some (some request)) {answer : Option BackgroundJob}
    (hanswered : (answered moment.options request).run runner.store = (.ok answer, store))
    (hstepped : Stepped request runner.store store) (hgiven : given = .ok answer ∨ ∃ failure, given = .error failure) :
    Sound config ({ runner with store }.setAttempt index (attempt.hear given true report)) := by
  have hknows := h.knows attempt (List.mem_of_getElem? hattempt)
  have hreport := (ensures_report h.fenced hrequest).answered hanswered
  obtain ⟨halike, hexits, honce, htracks⟩ :=
    hear_tracks h.fenced hstepped hrequest hknows.exits hknows.tracks hreport hgiven
  have hsound : Sound config { runner with store } := by
    refine h.stepped hstepped fun input heq hcount old hold hid hheld definition hdefinition ↦ ?_
    obtain ⟨hinput, hleft⟩ := counted_request (heq ▸ hrequest) hcount
    obtain ⟨job, hjob, htracked⟩ := hknows.tracks
    rw [hinput] at hid hheld
    obtain rfl := h.fenced.eq_of_id hjob hold (htracked.id.trans hid.symm)
    simp only [BackgroundJob.heldBy, Bool.and_eq_true, beq_iff_eq] at hheld
    rw [(htracked.held hheld.1.2 hheld.1.1.1).2.1]
    refine hleft definition ?_
    rw [← hdefinition, Config.definition, Config.definition, htracked.type, htracked.version]
  refine ⟨hsound.limits.of_alike (List.forall₂_set Attempt.Alike.refl hattempt halike) rfl (Nat.le_refl _),
    hsound.fenced, hsound.budget, fun other hother ↦ ?_, hsound.claimed⟩
  obtain hother | rfl := List.mem_or_eq_of_mem_set hother
  · exact hsound.knows other hother
  · exact ⟨hexits, honce.elim (fun hsame ↦ hsame ▸ hknows.once) Nat.le_of_eq, htracks⟩

/-! ## Starting -/

/-- A pump that may start no more than before. -/
theorem Sound.pumped (h : Sound config runner) {pump : Pump} (hpending : pump.pending ≤ runner.pump.pending)
    (hclaimed : ∀ jobs, pump = .claimed jobs → ∀ job ∈ jobs, TracksIn config.claimOwner runner.store job True 0) :
    Sound config { runner with pump } where
  limits := h.limits.of_alike (forall₂_refl _) rfl hpending
  fenced := h.fenced
  budget := h.budget
  knows := h.knows
  claimed := hclaimed

theorem drain_sound (h : Sound config runner) (dirty : Bool) :
    Sound config { runner with dirty, pump := .claiming (config.globalConcurrency - runner.running.length) } := by
  refine ⟨⟨?_, h.limits.owners, h.limits.ownerCapacity, h.limits.unique, h.limits.paid⟩, h.fenced, h.budget, h.knows,
    fun _ hjobs ↦ (nomatch hjobs)⟩
  have hcapacity := h.limits.capacity
  show runner.running.length + (config.globalConcurrency - runner.running.length) ≤ config.globalConcurrency
  omega

variable {job : BackgroundJob}

variable {input : ClaimBackgroundJobs Lease}

/-- A claimed job is tracked from the start. -/
theorem Claims.tracks {jobs : List BackgroundJob} {before : Store}
    (h : Claims before input jobs store) (hjob : job ∈ jobs) : TracksIn input.claimOwner store job True 0 := by
  obtain ⟨hmem, old, _, revision, rfl⟩ := h.mem job hjob
  exact ⟨_, hmem, rfl, rfl, rfl, Nat.le_refl _, fun _ _ ↦ ⟨rfl, rfl, rfl⟩, Nat.le_refl _, fun _ _ ↦ ⟨rfl, rfl⟩⟩

theorem claim_sound (h : Sound config runner) {count : Nat} (hpump : runner.pump = .claiming count) (howner : input.claimOwner = config.claimOwner) (hcount : input.count = count) :
    Sound config (match (Storage.claim moment.options input).run runner.store with
      | (.ok jobs, store) => { runner with store, pump := if moment.lost then .idle else .claimed jobs }
      | (.error _, store) => { runner with store, pump := .idle }) := by
  have hclaims : Ensures (Storage.claim moment.options input) runner.store _ := ensures_claims h.fenced input
  have hstepped := (ensures_stepped moment.options h.fenced (.claim input)).unmap
  rcases hrun : (Storage.claim moment.options input).run runner.store with ⟨e | jobs, store⟩
  · obtain rfl := hclaims.refused hrun
    exact h.pumped (Nat.zero_le _) fun _ hjobs ↦ nomatch hjobs
  · have hclaimed := (hclaims.answered hrun).2
    have hafter := h.stepped (hstepped.answered hrun) fun _ hrequest ↦ nomatch hrequest
    dsimp only
    split
    · exact hafter.pumped (Nat.zero_le _) fun _ hjobs ↦ nomatch hjobs
    · refine hafter.pumped ?_ fun given hgiven job hjob ↦ ?_
      · show jobs.length ≤ runner.pump.pending
        have hlength := hclaimed.length
        rw [hcount, Int.toNat_natCast] at hlength
        rw [hpump]
        exact hlength
      · obtain rfl := Pump.claimed.inj hgiven
        exact howner ▸ Claims.tracks hclaimed hjob

theorem attempt_exits (config : Config) (job : BackgroundJob) :
    (attempt config job).Exits ∧ (attempt config job).transitions = 0 := by
  rw [attempt.eq_def]
  dsimp only
  split
  · exact ⟨fun _ ↦ rfl, rfl⟩
  · split
    · exact ⟨fun _ ↦ rfl, rfl⟩
    · split
      · exact ⟨fun hsome ↦ (by cases hsome), rfl⟩
      · exact ⟨fun hsome ↦ (by cases hsome), rfl⟩

/-- One of the claimed jobs is started, given back or cancelled. -/
theorem begin_sound {duplicates : List Duplicate} {rest : List BackgroundJob}
    (h : Sound config { runner with pump := .claimed (job :: rest) }) :
    Sound config { (begin config (runner, duplicates) job).1 with pump := .claimed rest } := by
  have hlimits : Limited config { (begin config (runner, duplicates) job).1 with pump := .claimed rest } :=
    begin_limited h.limits
  have htracks := h.claimed _ rfl
  have hrest : ∀ jobs, Pump.claimed rest = .claimed jobs →
      ∀ job ∈ jobs, TracksIn config.claimOwner runner.store job True 0 := by
    rintro jobs hjobs other hother
    obtain rfl := Pump.claimed.inj hjobs
    exact htracks other (List.mem_cons_of_mem _ hother)
  revert hlimits
  rw [begin]
  dsimp only
  split
  · exact fun hlimits ↦ ⟨hlimits, h.fenced, h.budget, h.knows, hrest⟩
  split
  · refine fun hlimits ↦ ⟨hlimits, h.fenced, h.budget, fun after hafter ↦ ?_, hrest⟩
    obtain ⟨before, hbefore, rfl⟩ := List.mem_map.1 hafter
    split
    · exact (h.knows before hbefore).goes (Attempt.goes_detach before)
    · exact h.knows before hbefore
  · refine fun hlimits ↦ ⟨hlimits, h.fenced, h.budget, fun other hother ↦ ?_, hrest⟩
    obtain hother | hother := List.mem_append.1 hother
    · exact h.knows other hother
    · rw [List.mem_singleton.1 hother]
      obtain ⟨hexits, htransitions⟩ := attempt_exits config job
      refine ⟨hexits, Nat.le_of_lt (Nat.lt_one_iff.2 htransitions), ?_⟩
      rw [(attempt_paid config job).2.1, htransitions]
      exact (htracks job List.mem_cons_self).mono fun _ ↦ trivial

theorem beginAll_sound : ∀ (jobs : List BackgroundJob) {started : JobRunner × List Duplicate},
    Sound config { started.1 with pump := .claimed jobs } →
      Sound config { (jobs.foldl (begin config) started).1 with pump := .claimed [] } := by
  intro jobs
  induction jobs with
  | nil => exact fun h ↦ h
  | cons job rest ih => exact fun h ↦ ih (begin_sound h)

/-! ## Every step -/

theorem others_sound (h : Sound config runner) {options : Options Lease} (hfair : fair config runner request = true) :
    Sound config { runner with store := ((invoke options request).run runner.store).2 } := by
  have hstepped := ensures_stepped options h.fenced request
  rcases hrun : (invoke options request).run runner.store with ⟨e | claims, store⟩
  · obtain rfl := hstepped.refused hrun
    exact h
  · refine h.stepped (hstepped.answered hrun) ?_
    rintro input rfl hcount old hold hid - definition hdefinition
    rw [fair, hcount, Bool.and_eq_true] at hfair
    have hjob := List.all_eq_true.1 hfair.2 old hold
    simpa [hid, hdefinition] using hjob

variable {act : Act Lease}

theorem step_sound (h : Sound config runner) (hstep : runner.step config act = some next) : Sound config next := by
  cases act with
  | start =>
    rw [step] at hstep
    split at hstep
    · cases hstep
    · cases hstep
      exact woken_sound (h.same rfl rfl rfl (.inl rfl))
  | wake =>
    cases hstep
    exact woken_sound h
  | drain =>
    rw [step] at hstep
    split at hstep
    · split at hstep
      · cases hstep
      · cases hstep
        split
        · exact h.same rfl rfl rfl (.inr (.inl rfl))
        · exact drain_sound h false
    · cases hstep
  | claim moment =>
    rw [step] at hstep
    split at hstep
    · rename_i count hpump
      cases hstep
      exact claim_sound h hpump rfl rfl
    · cases hstep
  | begin =>
    rw [step] at hstep
    split at hstep
    · rename_i jobs hpump
      split at hstep
      · cases hstep
        exact h.pumped (Nat.zero_le _) fun _ hjobs ↦ nomatch hjobs
      · cases hstep
        have hbegun : Sound config { (jobs.foldl (begin config) (runner, [])).1 with pump := .claimed [] } :=
          beginAll_sound jobs (h.pumped (Nat.le_of_eq (congrArg _ hpump.symm)) fun given hgiven ↦
            h.claimed given (hpump.trans hgiven))
        exact hbegun.pumped (Nat.zero_le _) fun _ hjobs ↦ nomatch hjobs
    · cases hstep
  | giveBack index moment =>
    rw [step] at hstep
    split at hstep
    · split at hstep
      · split at hstep
        · cases hstep
          exact h.same rfl rfl rfl (.inr (.inl rfl))
        · cases hstep
      · cases hstep
        exact (giveBack_sound h _).same rfl rfl rfl (.inr (.inr ⟨_, rfl⟩))
    · cases hstep
  | move index event =>
    obtain ⟨before, hbefore, hafter⟩ := Option.bind_eq_some_iff.1 hstep
    obtain ⟨after, hmove, rfl⟩ := Option.map_eq_some_iff.1 hafter
    exact h.set hbefore (Attempt.goes_move hmove)
  | reserve index =>
    obtain ⟨attempt, hattempt, hafter⟩ := Option.bind_eq_some_iff.1 hstep
    split at hafter
    · rename_i hphase
      cases hafter
      exact reserve_sound h hattempt hphase
    · cases hafter
  | report index report moment =>
    obtain ⟨attempt, hattempt, hafter⟩ := Option.bind_eq_some_iff.1 hstep
    obtain ⟨request, hrequest, rfl⟩ := Option.map_eq_some_iff.1 hafter
    cases request with
    | none => exact unasked_sound h hattempt hrequest fun _ hok ↦ nomatch Except.ok.inj hok
    | some request =>
      obtain ⟨failure, heq⟩ | ⟨answer, given, store, heq, hgiven, hanswered, hstepped, _⟩ :=
        ask_cases moment h.fenced request
      · simp only [heq]
        exact unasked_sound h hattempt hrequest fun _ hok ↦ nomatch hok
      · simp only [heq]
        exact asked_sound h hattempt hrequest hanswered hstepped hgiven
  | finish index =>
    obtain ⟨attempt, hattempt, hafter⟩ := Option.bind_eq_some_iff.1 hstep
    split at hafter
    · cases hafter
    · rename_i hphase _
      split at hafter
      · rename_i hlisted
        cases hafter
        exact finish_sound h hattempt hlisted hphase
      · cases hafter
    · cases hafter
  | notify job =>
    cases hstep
    have hall : ∀ attempt : Attempt, attempt.Goes (notified job attempt) := by
      intro attempt
      rw [notified]
      split
      · exact Attempt.goes_detach attempt
      · exact .refl attempt
    split
    · exact (woken_sound h).went (List.forall₂_map hall _)
    · exact h.went (List.forall₂_map hall _)
  | cancelChannel channelId =>
    cases hstep
    refine (h.went (List.forall₂_map (fun attempt ↦ ?_) _)).same rfl rfl rfl (.inl rfl)
    split
    · exact Attempt.goes_detach attempt
    · exact .refl attempt
  | unblockChannel channelId =>
    cases hstep
    exact woken_sound (h.same rfl rfl rfl (.inl rfl))
  | shutdown =>
    rw [step] at hstep
    split at hstep
    · cases hstep
    · cases hstep
      refine (h.went (List.forall₂_map (fun attempt ↦ ?_) _)).same rfl rfl rfl (.inl rfl)
      split
      · exact Attempt.goes_exitBy attempt _
      · exact .refl attempt
  | others options request =>
    rw [step] at hstep
    split at hstep
    · cases hstep
    · rename_i hfair
      cases hstep
      exact others_sound h (by simpa using hfair)

/-! ## Who writes an artifact -/

/-- An attempt of the runner asks with its claim for an artifact to be written, or another worker with its own. -/
def Settles (config : Config) (runner : JobRunner) (act : Act Lease) (input : SettleBackgroundJob Lease) : Prop :=
  (∃ index after moment attempt, act = .report index (.commit after) moment ∧ runner.attempts[index]? = some attempt ∧
    attempt.phase = .committing input.artifact ∧ input.toClaimedBackgroundJob = attempt.claimed config moment) ∨
  ∃ options, act = .others options (.settle input)

variable {input : SettleBackgroundJob Lease}

theorem not_settle_endRequest {attempt : Attempt} {exhausted countFailure : Bool} {reason : String} {delay : Nat} :
    attempt.endRequest config moment exhausted reason delay countFailure ≠ .settle input := by
  rw [Attempt.endRequest]
  split
  · exact fun heq ↦ by cases heq
  · exact fun heq ↦ by cases heq

theorem not_settle_exitRequest {attempt : Attempt} {settled : Bool} {exit : Exit} :
    attempt.exitRequest config moment settled exit ≠ .settle input := by
  cases exit with
  | pause reason => exact fun heq ↦ nomatch heq
  | fail reason => exact fun heq ↦ nomatch heq
  | _ => exact not_settle_endRequest

theorem settle_request {attempt : Attempt} (h : attempt.request config moment report = some (some (.settle input))) :
    (∃ after, report = .commit after) ∧ attempt.phase = .committing input.artifact ∧
      input.toClaimedBackgroundJob = attempt.claimed config moment := by
  cases report with
  | commit after =>
    rw [Attempt.request] at h
    split at h
    · rename_i artifact hphase
      obtain rfl := Request.settle.inj (Option.some.inj (Option.some.inj h))
      exact ⟨⟨after, rfl⟩, hphase, rfl⟩
    · cases h
  | leave settled =>
    rw [Attempt.request] at h
    split at h
    · exact absurd (Option.some.inj (Option.some.inj h)) not_settle_exitRequest
    · cases h
  | progress stage state =>
    rw [Attempt.request] at h
    split at h
    · obtain ⟨_, _, heq⟩ := Option.map_eq_some_iff.1 h
      cases Option.some.inj heq
    · cases h
  | interrupt =>
    rw [Attempt.request] at h
    split at h
    · obtain ⟨_, _, heq⟩ := Option.map_eq_some_iff.1 (Option.some.inj h)
      cases heq
    · cases h
  | _ =>
    rw [Attempt.request] at h
    split at h
    · cases Option.some.inj (Option.some.inj h)
    · cases h

/-- A step leaves the store, or advances it; an artifact is written by who asked for it. -/
def Recorded (config : Config) (runner : JobRunner) (act : Act Lease) (store : Store) : Prop :=
  store = runner.store ∨ ∃ request, Advances runner.store request store ∧
    ∀ input, request = .settle input → Settles config runner act input

theorem ask_recorded (h : Fenced runner.store)
    (hsettles : ∀ input, request = .settle input → Settles config runner act input) :
    Recorded config runner act (runner.ask moment request).2.2.store := by
  obtain ⟨_, heq⟩ | ⟨_, _, _, heq, _, _, _, hadvances⟩ := ask_cases moment h request
  · rw [heq]
    exact .inl rfl
  · rw [heq]
    exact .inr ⟨request, hadvances, hsettles⟩

theorem woken_store (runner : JobRunner) : runner.woken.store = runner.store := by
  rw [woken]
  split <;> rfl

theorem begin_store (config : Config) (started : JobRunner × List Duplicate) (job : BackgroundJob) :
    (begin config started job).1.store = started.1.store := by
  rw [begin]
  split
  · rfl
  · split <;> rfl

theorem beginAll_store (config : Config) (jobs : List BackgroundJob) (started : JobRunner × List Duplicate) :
    (jobs.foldl (begin config) started).1.store = started.1.store := by
  induction jobs generalizing started with
  | nil => rfl
  | cons job rest ih => exact (ih _).trans (begin_store config started job)

theorem reserve_store (runner : JobRunner) (index : Nat) (attempt : Attempt) :
    (runner.reserve config index attempt).store = runner.store := by
  rw [reserve]
  split
  · rfl
  split
  · rfl
  · dsimp only
    split <;> rfl

theorem claim_recorded (h : Fenced runner.store) (hstep : runner.step config (.claim moment) = some next) :
    Recorded config runner (.claim moment) next.store ∧
      ∀ jobs, next.pump = .claimed jobs → ∀ job ∈ jobs, job ∈ next.store.jobs ∧ job.state = .running := by
  rw [step] at hstep
  split at hstep
  · cases hstep
    have hclaims := fun input ↦ show Ensures (Storage.claim moment.options input) runner.store _ from
      ensures_claims h input
    have hadvances := fun input ↦ (ensures_advances moment.options h (.claim input)).unmap
    split
    · rename_i jobs store hrun
      refine ⟨.inr ⟨_, (hadvances _).answered hrun, fun _ heq ↦ (nomatch heq)⟩, fun given hgiven job hjob ↦ ?_⟩
      dsimp only at hgiven
      split at hgiven
      · cases hgiven
      · obtain rfl := Pump.claimed.inj hgiven
        obtain ⟨hmem, _, _, _, rfl⟩ := ((hclaims _).answered hrun).2.mem job hjob
        exact ⟨hmem, rfl⟩
    · rename_i hrun
      exact ⟨.inl ((hclaims _).refused hrun), fun _ hgiven ↦ (nomatch hgiven)⟩
  · cases hstep

theorem step_recorded (h : Sound config runner) (hstep : runner.step config act = some next) :
    Recorded config runner act next.store := by
  cases act with
  | start =>
    rw [step] at hstep
    split at hstep
    · cases hstep
    · cases hstep
      exact .inl (woken_store _)
  | wake =>
    cases hstep
    exact .inl (woken_store _)
  | drain =>
    rw [step] at hstep
    split at hstep
    · split at hstep
      · cases hstep
      · cases hstep
        exact .inl rfl
    · cases hstep
  | claim moment => exact (claim_recorded h.fenced hstep).1
  | begin =>
    rw [step] at hstep
    split at hstep
    · split at hstep
      · cases hstep
        exact .inl rfl
      · cases hstep
        exact .inl (beginAll_store config _ _)
    · cases hstep
  | giveBack index moment =>
    rw [step] at hstep
    split at hstep
    · split at hstep
      · split at hstep
        · cases hstep
          exact .inl rfl
        · cases hstep
      · cases hstep
        refine ask_recorded h.fenced fun input hrequest ↦ ?_
        split at hrequest
        · cases hrequest
        · cases hrequest
    · cases hstep
  | move index event =>
    obtain ⟨_, _, hafter⟩ := Option.bind_eq_some_iff.1 hstep
    obtain ⟨_, _, rfl⟩ := Option.map_eq_some_iff.1 hafter
    exact .inl rfl
  | reserve index =>
    obtain ⟨_, _, hafter⟩ := Option.bind_eq_some_iff.1 hstep
    split at hafter
    · cases hafter
      exact .inl (reserve_store _ _ _)
    · cases hafter
  | report index report moment =>
    obtain ⟨attempt, hattempt, hafter⟩ := Option.bind_eq_some_iff.1 hstep
    obtain ⟨request, hrequest, rfl⟩ := Option.map_eq_some_iff.1 hafter
    cases request with
    | none => exact .inl rfl
    | some request =>
      refine ask_recorded h.fenced ?_
      rintro input rfl
      obtain ⟨⟨after, rfl⟩, hphase, hinput⟩ := settle_request hrequest
      exact .inl ⟨index, after, moment, attempt, rfl, hattempt, hphase, hinput⟩
  | finish index =>
    obtain ⟨_, _, hafter⟩ := Option.bind_eq_some_iff.1 hstep
    split at hafter
    · cases hafter
    · split at hafter
      · cases hafter
        exact .inl (woken_store _)
      · cases hafter
    · cases hafter
  | notify job =>
    cases hstep
    refine .inl ?_
    dsimp only
    split
    · exact woken_store runner
    · rfl
  | cancelChannel channelId =>
    cases hstep
    exact .inl rfl
  | unblockChannel channelId =>
    cases hstep
    exact .inl (woken_store _)
  | shutdown =>
    rw [step] at hstep
    split at hstep
    · cases hstep
    · cases hstep
      exact .inl rfl
  | others options request =>
    rw [step] at hstep
    split at hstep
    · cases hstep
    · cases hstep
      have hadvances := ensures_advances options h.fenced request
      rcases hrun : (invoke options request).run runner.store with ⟨e | claims, store⟩
      · exact .inl (hadvances.refused hrun)
      · refine .inr ⟨request, hadvances.answered hrun, ?_⟩
        rintro input rfl
        exact .inr ⟨options, rfl⟩

/-! ## Every run -/

theorem new_sound (config : Config) : Sound config new where
  limits := ⟨Nat.zero_le _, fun _ ↦ rfl, fun _ ↦ Nat.zero_le _, .nil, fun _ hmem ↦ nomatch hmem⟩
  fenced := Counted.empty.fenced
  budget _ hmem := nomatch hmem
  knows _ hmem := nomatch hmem
  claimed _ hjobs := nomatch hjobs

variable {acts : List (Act Lease)}

theorem runs_sound (h : Sound config runner) (run : Runs (step config) runner acts next) : Sound config next :=
  run.invariant h fun _ _ _ hsound hstep ↦ step_sound hsound hstep

theorem Recorded.final (h : Recorded config runner act store)
    (hjob : job ∈ runner.store.jobs) (hfinal : job.state.active = false) : job ∈ store.jobs := by
  obtain rfl | ⟨_, hadvances, _⟩ := h
  · exact hjob
  · exact hadvances.final job hjob hfinal

/-- A job that has failed stays as it is. -/
theorem runs_final (h : Sound config runner) (run : Runs (step config) runner acts next)
    (hjob : job ∈ runner.store.jobs) (hfinal : job.state.active = false) : job ∈ next.store.jobs := by
  let kept (runner : JobRunner) : Prop := Sound config runner ∧ job ∈ runner.store.jobs
  have hkept : kept next := by
    refine run.invariant ⟨h, hjob⟩ ?_
    rintro _ _ _ ⟨hsound, hmem⟩ hstep
    exact ⟨step_sound hsound hstep, (step_recorded hsound hstep).final hmem hfinal⟩
  exact hkept.2

end JobRunner

/-- What holds of the runner after every run. -/
structure Bounded (config : Config) (runner : JobRunner) : Prop where
  running : runner.running.length ≤ config.globalConcurrency
  owners : ∀ key, runner.slots key ≤ config.ownerConcurrency
  /-- The runner counts the slots as they are held: none is released twice, and none is kept. -/
  counted : ∀ key, (runner.owners.lookup key).getD 0 = runner.slots key
  /-- What executes for an owner holds one of the owner's slots. -/
  paid : ∀ attempt ∈ runner.running, attempt.phase.holds = true → ∀ key, attempt.owner = some key →
    attempt.slot = some key
  unique : (runner.running.map (·.job.id)).Nodup
  /-- The store moved the job out of its claim at most once for each attempt. -/
  settled : ∀ attempt ∈ runner.attempts, attempt.transitions ≤ 1
  failed : ∀ job ∈ runner.store.jobs, ∀ definition, config.definition job = some definition →
    definition.maxAttempts ≤ job.failures → job.state = .failed

theorem JobRunner.Sound.bounded (h : Sound config runner) : Bounded config runner where
  running := Nat.le_of_add_right_le h.limits.capacity
  owners := h.limits.ownerCapacity
  counted := h.limits.owners
  paid attempt hmem := (h.limits.paid attempt (mem_running.1 hmem).1).holds
  unique := h.limits.unique
  settled attempt hmem := (h.knows attempt hmem).once
  failed := h.budget

/-- **The runner respects its limits and settles each attempt once.**  After every run the limits hold.  One
more step writes an artifact only for who asks with the claim that the job is under at that moment; and a job
that used up its failures stays as it is in every run from there, and no later claim takes it. -/
theorem runner_bounded {acts : List (Act Lease)} (run : Runs (JobRunner.step config) .new acts runner) :
    Bounded config runner ∧
      (∀ (act : Act Lease) next, runner.step config act = some next → ∀ artifact ∈ next.store.artifacts,
        artifact ∈ runner.store.artifacts ∨ ∃ input found, JobRunner.Settles config runner act input ∧
          Held runner.store input.toClaimedBackgroundJob found ∧ artifact.jobId = found.id ∧
            artifact.value = input.artifact) ∧
      ∀ (more : List (Act Lease)) last, Runs (JobRunner.step config) runner more last →
        ∀ job ∈ runner.store.jobs, ∀ definition, config.definition job = some definition →
          definition.maxAttempts ≤ job.failures →
            job ∈ last.store.jobs ∧ ∀ (moment : Moment Lease) next jobs, last.step config (.claim moment) = some next →
              next.pump = .claimed jobs → ∀ claimed ∈ jobs, claimed.id ≠ job.id := by
  have hsound := JobRunner.runs_sound (JobRunner.new_sound config) run
  refine ⟨hsound.bounded, fun act next hstep artifact hartifact ↦ ?_, fun more last hmore job hjob definition hdefinition hmax ↦ ?_⟩
  · obtain hstore | ⟨request, hadvances, hsettles⟩ := JobRunner.step_recorded hsound hstep
    · exact .inl (hstore ▸ hartifact)
    · refine (hadvances.writer artifact hartifact).imp_right ?_
      rintro ⟨input, found, rfl, hheld, hid, hvalue⟩
      exact ⟨input, found, hsettles input rfl, hheld, hid, hvalue⟩
  · have hfailed := hsound.budget job hjob definition hdefinition hmax
    have hfinal : job.state.active = false := by rw [hfailed]; rfl
    have hlast := JobRunner.runs_sound hsound hmore
    have hmem := JobRunner.runs_final hsound hmore hjob hfinal
    refine ⟨hmem, fun moment next jobs hstep hpump claimed hclaimed hid ↦ ?_⟩
    obtain ⟨hrecorded, hrunning⟩ := JobRunner.claim_recorded hlast.fenced hstep
    obtain ⟨hthere, hstate⟩ := hrunning jobs hpump claimed hclaimed
    have hsame := (JobRunner.step_sound hlast hstep).fenced.eq_of_id hthere (hrecorded.final hmem hfinal) hid
    rw [hsame, hfailed] at hstate
    exact nomatch hstate

/-! ## An attempt -/

/-- One kind of job, which runs for the owner of a channel. -/
def drafts : Config where
  claimOwner := "runner"
  globalConcurrency := 2
  ownerConcurrency := 1
  claimTtlMs := 60000
  heartbeatMs := 15000
  retryBaseMs := 1000
  retryMaxMs := 60000
  registry type version :=
    if type == "draft" && version == 1 then
      some { credential := .activePlanner, maxAttempts := 3, parses := fun _ ↦ true, progress := fun _ ↦ none, positive := by decide }
    else none
  owners := by decide
  heartbeat := by decide

/-- A member asks for a draft; the runner claims it, executes it and settles it. -/
def drafted : List (Act Unit) :=
  let options : Options Unit :=
    { channelExists := (· == "c1"), channelActive := (· == "c1"), assertLease := fun _ ↦ .ok () }
  let moment : Moment Unit := { options, lease := (), now := some 10, lost := false }
  [.others options (.enqueue {
      id := "j1", channelId := "c1", type := "draft", version := 1, origin := .user, targetKey := "t1"
      idempotencyKey := "k1", fingerprint := "f1", input := .null, availableAt := some 0, now := some 0
      lease := () }),
    .start, .drain, .claim moment, .begin,
    .move 0 (.resolved (.ok (some ({ kind := .activePlanner, ownerKey := some "owner", binding := none }, false)))),
    .report 0 .renewal moment, .reserve 0, .move 0 .launched, .move 0 (.executed (.ok (.str "done"))),
    .move 0 (.revalidated (.ok true)), .move 0 (.guarded (.ok true)), .report 0 (.commit none) moment]

theorem runner_bounded_sample : ∃ runner, Runs (JobRunner.step drafts) .new drafted runner ∧ Bounded drafts runner ∧
    runner.slots "owner" = 1 ∧ runner.store.artifacts.any (·.jobId == "j1") = true := by
  have hrun : (drafted.foldlM (JobRunner.step drafts) .new).any
      (fun runner ↦ runner.slots "owner" == 1 && runner.store.artifacts.any (·.jobId == "j1")) = true := by
    decide +kernel
  obtain ⟨runner, hrunner, hafter⟩ := (Option.any_eq_true _ _).1 hrun
  have run := runs_iff_foldlM.2 hrunner
  obtain ⟨hslots, hartifacts⟩ := Bool.and_eq_true_iff.1 hafter
  exact ⟨runner, run, (runner_bounded run).1, beq_iff_eq.1 hslots, hartifacts⟩

end Chopin.Jobs
