import Chopin.Jobs.Runner

/-!
# The runner's limits

A slot is taken before an await and given back once nothing of the attempt is awaited any more.  However an
attempt ends, it stays in the runner's sets until then, so that what is counted is what is running.
-/

set_option autoImplicit false
set_option linter.dupNamespace false

open Script (Call Instant)
open Chopin.Storage

namespace Chopin.Jobs

variable {Lease : Type} {config : Config} {runner next : JobRunner}

/-! ## An attempt goes on -/

/-- From the slot being taken until the settlement is answered. -/
def Phase.holds : Phase → Bool
  | .reserved | .executing | .revalidating _ | .settling _ | .committing _ => true
  | .resolving | .renewing | .renewed | .failing _ | .leaving | .returned => false

/-- Before the slot is taken. -/
def Phase.early : Phase → Bool
  | .resolving | .renewing | .renewed => true
  | _ => false

/-- What a report counts when the store made the change. -/
def Report.counts (applied : Bool) : Report → Nat
  | .commit _ | .leave _ => if applied then 1 else 0
  | .renewal | .heartbeat _ | .progress _ _ | .interrupt => 0

namespace Attempt

variable {attempt before after : Attempt}

/-- The key of the owner whose slot the attempt needs. -/
def owner (attempt : Attempt) : Option String := (attempt.credential.bind (·.ownerKey)).filter (· != "")

/-- What executes for an owner holds a slot of that owner, which it did not hold before, and what is not listed
any more has returned. -/
structure Paid (attempt : Attempt) : Prop where
  holds : attempt.phase.holds = true → ∀ key, attempt.owner = some key → attempt.slot = some key
  early : attempt.phase.early = true → attempt.slot = none
  ended : attempt.listed = false → attempt.phase = .returned

/-- The attempt may still be what takes the job out of its claim. -/
def Live (attempt : Attempt) : Prop := attempt.accepting = true ∨ attempt.leaving.isSome = true

def Exits (attempt : Attempt) : Prop := attempt.leaving.isSome = true → attempt.accepting = false

/-- What an attempt keeps between its calls on the store. -/
structure Goes (before after : Attempt) : Prop where
  job : after.job = before.job
  listed : after.listed = before.listed
  slot : after.slot = before.slot
  transitions : after.transitions = before.transitions
  live : after.Live → before.Live
  exits : before.Exits → after.Exits
  paid : before.Paid → after.Paid

theorem Goes.refl (attempt : Attempt) : Goes attempt attempt := ⟨rfl, rfl, rfl, rfl, id, id, id⟩

theorem Goes.trans {last : Attempt} (first : Goes before after) (second : Goes after last) : Goes before last :=
  ⟨second.job.trans first.job, second.listed.trans first.listed, second.slot.trans first.slot,
    second.transitions.trans first.transitions, fun h ↦ first.live (second.live h), fun h ↦ second.exits (first.exits h),
    fun h ↦ second.paid (first.paid h)⟩

/-- An attempt whose phase changes, before it has returned. -/
theorem goes_phase (attempt : Attempt) {phase : Phase} (hbefore : attempt.phase ≠ .returned)
    (hearly : phase.early = false)
    (hholds : phase.holds = true → attempt.phase.holds = true) : Goes attempt { attempt with phase } where
  job := rfl
  listed := rfl
  slot := rfl
  transitions := rfl
  live := id
  exits := id
  paid h := ⟨fun hafter ↦ h.holds (hholds hafter), fun hafter ↦ (nomatch hearly.symm.trans hafter),
    fun hlisted ↦ absurd (h.ended hlisted) hbefore⟩

theorem goes_returned (attempt : Attempt) : Goes attempt { attempt with phase := .returned } :=
  ⟨rfl, rfl, rfl, rfl, id, id, fun _ ↦ ⟨nofun, nofun, fun _ ↦ rfl⟩⟩

theorem goes_detach (attempt : Attempt) : Goes attempt attempt.detach :=
  ⟨rfl, rfl, rfl, rfl, fun h ↦ .inr (h.resolve_left nofun), fun _ _ ↦ rfl, fun h ↦ ⟨h.holds, h.early, h.ended⟩⟩

theorem goes_exitBy (attempt : Attempt) (exit : Exit) : Goes attempt (attempt.exitBy exit) := by
  rw [exitBy]
  split
  · exact ⟨rfl, rfl, rfl, rfl, fun _ ↦ .inl ‹_›, fun _ _ ↦ rfl, fun h ↦ ⟨h.holds, h.early, h.ended⟩⟩
  · exact .refl attempt

theorem phase_exitBy (attempt : Attempt) (exit : Exit) : (attempt.exitBy exit).phase = attempt.phase := by
  rw [exitBy]
  split <;> rfl

theorem goes_leaveBy (attempt : Attempt) (exit : Exit) (h : attempt.phase ≠ .returned) :
    Goes attempt (attempt.leaveBy exit) := by
  refine (goes_exitBy attempt exit).trans ?_
  rw [leaveBy]
  split
  · exact goes_phase _ (by rw [phase_exitBy]; exact h) rfl nofun
  · exact goes_returned _

theorem goes_caught (attempt : Attempt) (failure : Failure) (h : attempt.phase ≠ .returned) :
    Goes attempt (attempt.caught failure) := by
  rw [caught.eq_def]
  split
  · exact goes_returned attempt
  split
  · exact (goes_detach attempt).trans (goes_returned _)
  split
  · exact goes_leaveBy attempt _ h
  dsimp only
  split
  · exact goes_phase attempt h rfl nofun
  · exact goes_leaveBy attempt _ h

/-- A credential is resolved before a slot is taken. -/
theorem goes_credential (attempt : Attempt) {credential : ResolvedJobCredential} (h : attempt.phase = .resolving) :
    Goes attempt { attempt with credential := some credential, phase := .renewing } :=
  ⟨rfl, rfl, rfl, rfl, id, id, fun hpaid ↦ ⟨nofun, fun _ ↦ hpaid.early (h ▸ rfl), fun hlisted ↦
    nomatch h.symm.trans (hpaid.ended hlisted)⟩⟩

/-- On with a phase in which the slot is held, unless the attempt is over. -/
theorem goes_on (attempt : Attempt) {phase : Phase} {on : Bool} (hbefore : attempt.phase.holds = true)
    (hearly : phase.early = false) : Goes attempt { attempt with phase := if on then phase else .returned } := by
  cases on with
  | true => exact goes_phase attempt (fun h ↦ by rw [h] at hbefore; exact nomatch hbefore) hearly fun _ ↦ hbefore
  | false => exact goes_returned attempt

theorem goes_move {stopped : Bool} {event : Event} (h : before.move stopped event = some after) :
    Goes before after := by
  cases event with
  | resolved credential =>
    rw [move.eq_def] at h
    dsimp only at h
    split at h
    · rename_i hphase
      have hbefore : before.phase ≠ .returned := fun heq ↦ nomatch hphase.symm.trans heq
      cases h
      split
      · exact goes_caught before _ hbefore
      · split
        · exact goes_leaveBy before _ hbefore
        · exact goes_returned before
      · split
        · exact goes_returned before
        · split
          · exact (goes_credential before hphase).trans (goes_leaveBy _ _ nofun)
          · exact goes_credential before hphase
    · cases h
  | launched =>
    rw [move] at h
    split at h
    · rename_i hphase
      cases h
      exact goes_on before (hphase ▸ rfl) rfl
    · cases h
  | executed result =>
    rw [move.eq_def] at h
    dsimp only at h
    split at h
    · rename_i hphase
      cases h
      split
      · exact goes_caught before _ fun heq ↦ nomatch hphase.symm.trans heq
      · exact goes_on before (hphase ▸ rfl) rfl
    · cases h
  | revalidated active =>
    rw [move.eq_def] at h
    dsimp only at h
    split at h
    · rename_i hphase
      have hbefore : before.phase ≠ .returned := fun heq ↦ nomatch hphase.symm.trans heq
      cases h
      split
      · exact goes_caught before _ hbefore
      · exact goes_leaveBy before _ hbefore
      · exact goes_on before (hphase ▸ rfl) rfl
    · cases h
  | guarded active =>
    rw [move.eq_def] at h
    dsimp only at h
    split at h
    · rename_i hphase
      have hbefore : before.phase ≠ .returned := fun heq ↦ nomatch hphase.symm.trans heq
      cases h
      split
      · exact goes_caught before _ hbefore
      · split
        · exact goes_phase before hbefore rfl fun _ ↦ hphase ▸ rfl
        · exact goes_caught before _ hbefore
    · cases h
  | failed active =>
    rw [move] at h
    split at h
    · rename_i hphase
      cases h
      exact goes_leaveBy before _ fun heq ↦ nomatch hphase.symm.trans heq
    · cases h
  | beat =>
    rw [move] at h
    split at h
    · cases h
      exact ⟨rfl, rfl, rfl, rfl, id, id, fun h ↦ ⟨h.holds, h.early, h.ended⟩⟩
    · cases h
  | revoked =>
    rw [move] at h
    split at h
    · cases h
      exact goes_exitBy before _
    · cases h
  | rotated =>
    rw [move] at h
    split at h
    · cases h
      exact goes_exitBy before _
    · cases h

/-! ### Answers -/

/-- The attempt with the job that was answered, and what its report counts. -/
def noted (attempt : Attempt) (answer : Except Failure (Option BackgroundJob)) (count : Nat) : Attempt :=
  { attempt.record answer with transitions := attempt.transitions + count }

theorem record_eq (attempt : Attempt) (answer : Except Failure (Option BackgroundJob)) :
    attempt.record answer = { attempt with job := ((answer.toOption).join).getD attempt.job } := by
  rcases answer with failure | _ | job <;> rfl

/-- The attempt's own fields are as they were. -/
theorem noted_same (attempt : Attempt) (answer : Except Failure (Option BackgroundJob)) (count : Nat) :
    (attempt.noted answer count).listed = attempt.listed ∧ (attempt.noted answer count).slot = attempt.slot ∧
      ((attempt.noted answer count).Live → attempt.Live) ∧ (attempt.Exits → (attempt.noted answer count).Exits) ∧
      (attempt.Paid → (attempt.noted answer count).Paid) := by
  rw [noted, record_eq]
  exact ⟨rfl, rfl, id, id, fun h ↦ ⟨h.holds, h.early, h.ended⟩⟩

variable {moment : Moment Lease}

/-- A report that may be made comes from its own phase. -/
theorem phase_of_request {attempt : Attempt} {request : Option (Request Lease)}
    {report : Report} (h : attempt.request config moment report = some request) :
    (report = .renewal → attempt.phase = .renewing) ∧ (∀ after, report = .commit after → attempt.phase.running = true) ∧
      ∀ settled, report = .leave settled → attempt.leaving.isSome = true := by
  refine ⟨?_, fun after heq ↦ ?_, fun settled heq ↦ ?_⟩
  · rintro rfl
    rw [Attempt.request] at h
    split at h
    · assumption
    · cases h
  · subst heq
    rw [Attempt.request] at h
    split at h
    · rename_i hphase
      rw [hphase]
      rfl
    · cases h
  · subst heq
    rw [Attempt.request] at h
    split at h
    · rename_i hleaving
      rw [hleaving]
      rfl
    · cases h

/-- A report that is answered leaves the attempt with what was answered. -/
theorem goes_hear {attempt : Attempt} {request : Option (Request Lease)} {report : Report}
    (h : attempt.request config moment report = some request) {answer : Except Failure (Option BackgroundJob)}
    (applied : Bool) (hcommit : ∀ after, report = .commit after → ∀ job, answer ≠ .ok (some job)) :
    Goes (attempt.noted answer (report.counts applied)) (attempt.hear answer applied report) := by
  obtain ⟨hrenewal, hrunning, _⟩ := phase_of_request h
  cases report with
  | renewal =>
    have hphase := hrenewal rfl
    cases answer with
    | ok job =>
      rw [hear, noted, record_eq]
      refine ⟨rfl, rfl, rfl, rfl, id, id, fun hpaid ↦ ⟨nofun, fun _ ↦ hpaid.early (hphase ▸ rfl), fun hlisted ↦ ?_⟩⟩
      exact nomatch hphase.symm.trans (hpaid.ended hlisted)
    | error failure => exact goes_caught attempt failure fun heq ↦ nomatch hphase.symm.trans heq
  | heartbeat active =>
    have hbeat : Goes (attempt.noted answer 0) { attempt.record answer with beating := false } := by
      rw [noted, record_eq]
      exact ⟨rfl, rfl, rfl, rfl, id, id, fun h ↦ ⟨h.holds, h.early, h.ended⟩⟩
    rw [hear.eq_def]
    dsimp only
    split
    · exact hbeat.trans (goes_exitBy _ _)
    · split
      · exact hbeat
      · split
        · exact hbeat
        · exact hbeat.trans (goes_exitBy _ _)
        · exact hbeat.trans (goes_exitBy _ _)
  | progress stage state =>
    rw [hear, noted, record_eq]
    exact ⟨rfl, rfl, rfl, rfl, id, id, fun h ↦ ⟨h.holds, h.early, h.ended⟩⟩
  | interrupt =>
    have hsame : (attempt.leaving.map fun leaving ↦ { leaving with interrupted := true }).isSome = attempt.leaving.isSome :=
      Option.isSome_map
    rw [hear, noted, record_eq]
    exact ⟨rfl, rfl, rfl, rfl, fun hlive ↦ hlive.imp_right fun hsome ↦ hsame.symm.trans hsome,
      fun hexits hsome ↦ hexits (hsame.symm.trans hsome), fun h ↦ ⟨h.holds, h.early, h.ended⟩⟩
  | commit after =>
    have hnone : (answer.toOption).join = none := by
      rcases answer with failure | _ | job
      · rfl
      · rfl
      · exact absurd rfl (hcommit after rfl job)
    have hbefore : attempt.phase ≠ .returned := fun heq ↦ nomatch (heq ▸ hrunning after rfl : Phase.returned.running = true)
    rw [noted, record_eq, hnone, hear.eq_def]
    dsimp only [Option.getD_none]
    split
    · exact (goes_detach _).trans (goes_returned _)
    · exact goes_caught _ _ hbefore
    · exact goes_caught _ _ hbefore
  | leave settled =>
    rw [hear, noted, record_eq]
    refine ⟨rfl, rfl, rfl, rfl, fun hlive ↦ .inl (hlive.resolve_right nofun), fun _ hsome ↦ (nomatch hsome), fun h ↦ ?_⟩
    dsimp only
    split
    · exact ⟨nofun, nofun, fun _ ↦ rfl⟩
    · exact ⟨h.holds, h.early, h.ended⟩

/-- Once its exit is answered the attempt is over. -/
theorem not_live_leave {attempt : Attempt} (hexits : attempt.Exits) (hleaving : attempt.leaving.isSome = true)
    (answer : Except Failure (Option BackgroundJob)) (applied settled : Bool) :
    ¬(attempt.hear answer applied (.leave settled)).Live := by
  rw [hear, record_eq]
  rintro (haccepting | hsome)
  · exact nomatch (hexits hleaving).symm.trans haccepting
  · cases hsome

end Attempt

/-! ## The limits -/

/-- What the pump may still start. -/
def Pump.pending : Pump → Nat
  | .idle => 0
  | .claiming count => count
  | .claimed jobs => jobs.length
  | .waiting _ => 0

/-- What the limits read of an attempt that changes. -/
structure Attempt.Alike (before after : Attempt) : Prop where
  listed : after.listed = before.listed
  slot : after.slot = before.slot
  id : after.job.id = before.job.id
  paid : before.Paid → after.Paid

theorem Attempt.Goes.alike {before after : Attempt} (h : before.Goes after) : before.Alike after :=
  ⟨h.listed, h.slot, h.job ▸ rfl, h.paid⟩

theorem Attempt.Alike.refl (attempt : Attempt) : attempt.Alike attempt :=
  ⟨rfl, rfl, rfl, fun hpaid ↦ hpaid⟩

namespace JobRunner

/-- The running attempts that hold a slot of the owner. -/
def slots (runner : JobRunner) (key : String) : Nat := (runner.running.filter (·.slot == some key)).length

structure Limited (config : Config) (runner : JobRunner) : Prop where
  capacity : runner.running.length + runner.pump.pending ≤ config.globalConcurrency
  owners : ∀ key, (runner.owners.lookup key).getD 0 = runner.slots key
  ownerCapacity : ∀ key, runner.slots key ≤ config.ownerConcurrency
  unique : (runner.running.map (·.job.id)).Nodup
  paid : ∀ attempt ∈ runner.attempts, attempt.Paid

variable {after : List Attempt}

variable {before : List Attempt}

/-- Attempts that changed, one by one, are listed as they were, under the same jobs and in the same slots. -/
theorem forall₂_running (h : List.Forall₂ Attempt.Alike before after) :
    List.Forall₂ Attempt.Alike (before.filter (·.listed)) (after.filter (·.listed)) := by
  induction h with
  | nil => exact .nil
  | @cons first first' rest rest' hfirst _ ih =>
    rw [List.filter_cons, List.filter_cons, hfirst.listed]
    split
    · exact .cons hfirst ih
    · exact ih

theorem forall₂_slots (h : List.Forall₂ Attempt.Alike before after) (key : String) :
    (after.filter (·.slot == some key)).length = (before.filter (·.slot == some key)).length := by
  induction h with
  | nil => rfl
  | @cons first first' rest rest' hfirst _ ih =>
    rw [List.filter_cons, List.filter_cons, hfirst.slot]
    split
    · rw [List.length_cons, List.length_cons, ih]
    · exact ih

theorem forall₂_ids (h : List.Forall₂ Attempt.Alike before after) : after.map (·.job.id) = before.map (·.job.id) := by
  induction h with
  | nil => rfl
  | cons hfirst _ ih => rw [List.map_cons, List.map_cons, hfirst.id, ih]

/-- The limits are kept while attempts go on and nothing more is started. -/
theorem Limited.of_alike (h : Limited config runner)
    (hattempts : List.Forall₂ Attempt.Alike runner.attempts next.attempts)
    (howners : next.owners = runner.owners) (hpump : next.pump.pending ≤ runner.pump.pending) :
    Limited config next := by
  have hrunning := forall₂_running hattempts
  have hslots : ∀ key, next.slots key = runner.slots key := forall₂_slots hrunning
  refine ⟨?_, fun key ↦ ?_, fun key ↦ ?_, ?_, fun after hafter ↦ ?_⟩
  · have hlength : next.running.length = runner.running.length := hrunning.length_eq.symm
    have hcapacity := h.capacity
    omega
  · rw [howners, hslots]
    exact h.owners key
  · rw [hslots]
    exact h.ownerCapacity key
  · rw [running, forall₂_ids hrunning]
    exact h.unique
  · obtain ⟨before, hbefore, halike⟩ := hattempts.exists_of_mem hafter
    exact halike.paid (h.paid before hbefore)

theorem forall₂_refl (attempts : List Attempt) : List.Forall₂ Attempt.Alike attempts attempts :=
  List.forall₂_same.2 fun attempt _ ↦ .refl attempt

/-! ### Starting -/

theorem mem_running {attempt : Attempt} : attempt ∈ runner.running ↔ attempt ∈ runner.attempts ∧ attempt.listed = true :=
  List.mem_filter

/-- A new attempt, up to its first await. -/
theorem attempt_paid (config : Config) (job : BackgroundJob) : (attempt config job).Paid ∧
    (attempt config job).job = job ∧ (attempt config job).listed = true ∧ (attempt config job).slot = none := by
  rw [attempt.eq_def]
  dsimp only
  split
  · exact ⟨⟨nofun, fun _ ↦ rfl, nofun⟩, rfl, rfl, rfl⟩
  · split
    · exact ⟨⟨nofun, fun _ ↦ rfl, nofun⟩, rfl, rfl, rfl⟩
    · split
      · exact ⟨⟨nofun, fun _ ↦ rfl, nofun⟩, rfl, rfl, rfl⟩
      · exact ⟨⟨nofun, fun _ ↦ rfl, nofun⟩, rfl, rfl, rfl⟩

/-- One of the claimed jobs is started, given back or cancelled. -/
theorem begin_limited {duplicates : List Duplicate} {job : BackgroundJob} {rest : List BackgroundJob}
    (h : Limited config { runner with pump := .claimed (job :: rest) }) :
    Limited config { (begin config (runner, duplicates) job).1 with pump := .claimed rest } := by
  have hless : Limited config { runner with pump := .claimed rest } :=
    h.of_alike (forall₂_refl _) rfl (Nat.le_succ _)
  rw [begin]
  dsimp only
  split
  · exact hless
  split
  · refine hless.of_alike (List.forall₂_map (fun previous ↦ ?_) _) rfl (Nat.le_refl _)
    split
    · exact (Attempt.goes_detach previous).alike
    · exact .refl previous
  · rename_i hnone
    obtain ⟨hpaid, hjob, hlisted, hslot⟩ := attempt_paid config job
    have hrunning : (runner.attempts ++ [attempt config job]).filter (·.listed) = runner.running ++ [attempt config job] := by
      rw [List.filter_append, List.filter_singleton, hlisted]
      rfl
    have hslots : ∀ key, ((runner.running ++ [attempt config job]).filter (·.slot == some key)).length =
        runner.slots key := by
      intro key
      rw [List.filter_append, List.filter_singleton, hslot, List.length_append]
      rfl
    have hcapacity : runner.running.length + (rest.length + 1) ≤ config.globalConcurrency := h.capacity
    refine ⟨?_, fun key ↦ ?_, fun key ↦ ?_, ?_, fun other hother ↦ ?_⟩
    · rw [running, hrunning, List.length_append]
      show runner.running.length + 1 + rest.length ≤ config.globalConcurrency
      omega
    · rw [slots, running, hrunning, hslots]
      exact h.owners key
    · rw [slots, running, hrunning, hslots]
      exact h.ownerCapacity key
    · rw [running, hrunning, List.map_append, List.map_singleton, hjob, List.nodup_append]
      refine ⟨h.unique, List.nodup_singleton _, fun id hid other hother ↦ ?_⟩
      obtain ⟨previous, hprevious, rfl⟩ := List.mem_map.1 hid
      rw [List.mem_singleton.1 hother]
      exact fun heq ↦ hnone (List.any_eq_true.2 ⟨previous, hprevious, beq_iff_eq.2 heq⟩)
    · obtain hother | hother := List.mem_append.1 hother
      · exact h.paid other hother
      · rw [List.mem_singleton.1 hother]
        exact hpaid

/-! ### Slots -/

variable {index : Nat}

/-- One attempt among those listed. -/
theorem running_split {attempt : Attempt} (h : runner.attempts[index]? = some attempt) :
    ∃ front back, runner.running = front ++ [attempt].filter (·.listed) ++ back ∧
      ∀ after, (runner.setAttempt index after).running = front ++ [after].filter (·.listed) ++ back := by
  obtain ⟨before, rest, hsplit, hset⟩ := List.set_split h
  refine ⟨before.filter (·.listed), rest.filter (·.listed), ?_, fun after ↦ ?_⟩
  · rw [running, hsplit, ← List.filter_append, ← List.filter_append, List.append_assoc]
    rfl
  · rw [running, setAttempt, hset, ← List.filter_append, ← List.filter_append, List.append_assoc]
    rfl

theorem reserve_limited (h : Limited config runner) {attempt : Attempt}
    (hattempt : runner.attempts[index]? = some attempt) (hphase : attempt.phase = .renewed) :
    Limited config (runner.reserve config index attempt) := by
  have hpaid := h.paid attempt (List.mem_of_getElem? hattempt)
  have hbefore : attempt.phase ≠ .returned := fun heq ↦ nomatch hphase.symm.trans heq
  have hlisted : attempt.listed = true := by
    cases hlisted : attempt.listed with
    | true => rfl
    | false => exact absurd (hpaid.ended hlisted) hbefore
  have hset : ∀ after : Attempt, attempt.Alike after → Limited config (runner.setAttempt index after) :=
    fun after halike ↦ h.of_alike (List.forall₂_set Attempt.Alike.refl hattempt halike) rfl (Nat.le_refl _)
  rw [reserve]
  split
  · exact hset _ (Attempt.goes_returned attempt).alike
  split
  · rename_i hnone
    refine hset _ ⟨rfl, rfl, rfl, fun hpaid ↦ ⟨fun _ key hkey ↦ ?_, nofun, fun hended ↦ ?_⟩⟩
    · exact nomatch hnone.symm.trans hkey
    · exact absurd (hpaid.ended hended) hbefore
  · rename_i key hkey
    dsimp only
    split
    · exact hset _ (Attempt.goes_leaveBy attempt _ hbefore).alike
    · rename_i hroom
      -- The slot is counted for this attempt from now on.
      obtain ⟨front, back, hrunning, hafter⟩ := running_split hattempt
      have hslot : attempt.slot = none := hpaid.early (hphase ▸ rfl)
      have hcount : ∀ other, ((runner.setAttempt index { attempt with phase := .reserved, slot := some key }).slots other) =
          if other = key then runner.slots key + 1 else runner.slots other := by
        intro other
        rw [slots, hafter, slots, slots, hrunning]
        by_cases hother : other = key
        · simp [hlisted, hslot, hother]
          omega
        · simp [hlisted, hslot, hother, Ne.symm hother]
      have hlookup : ∀ other, ((Entries.set runner.owners key ((runner.owners.lookup key).getD 0 + 1)).lookup other).getD 0 =
          if other = key then runner.slots key + 1 else runner.slots other := by
        intro other
        rw [Entries.lookup_set]
        split
        · rw [Option.getD_some, h.owners]
        · exact h.owners other
      have hids : (runner.setAttempt index { attempt with phase := .reserved, slot := some key }).running.map (·.job.id) =
          runner.running.map (·.job.id) := by
        rw [hafter, hrunning]
        simp [hlisted]
      refine ⟨?_, fun other ↦ (hlookup other).trans (hcount other).symm, fun other ↦ ?_, ?_, fun other hother ↦ ?_⟩
      · have hlength := congrArg List.length hids
        rw [List.length_map, List.length_map] at hlength
        exact Nat.le_trans (Nat.le_of_eq (congrArg (· + runner.pump.pending) hlength)) h.capacity
      · refine Nat.le_trans (Nat.le_of_eq (hcount other)) ?_
        split
        · have howners := h.owners key
          omega
        · exact h.ownerCapacity other
      · exact hids ▸ h.unique
      · obtain hother | rfl := List.mem_or_eq_of_mem_set hother
        · exact h.paid other hother
        · exact ⟨fun _ other hother ↦ hkey.symm.trans hother, nofun, fun hended ↦ absurd (hpaid.ended hended) hbefore⟩

theorem lookup_releaseOwner (owners : List (String × Nat)) (key other : String) :
    ((releaseOwner owners key).lookup other).getD 0 =
      if other = key then (owners.lookup key).getD 0 - 1 else (owners.lookup other).getD 0 := by
  have hsame : (owners.lookup key).getD 1 - 1 = (owners.lookup key).getD 0 - 1 := by
    cases owners.lookup key <;> rfl
  rw [releaseOwner]
  split
  · rename_i hzero
    rw [Entries.lookup_delete]
    split
    · rw [← hsame, hzero]
      rfl
    · rfl
  · rw [Entries.lookup_set]
    split
    · exact hsame
    · rfl

theorem finish_limited (h : Limited config runner) {attempt : Attempt}
    (hattempt : runner.attempts[index]? = some attempt) (hlisted : attempt.listed = true)
    (hphase : attempt.phase = .returned) : Limited config (runner.finish index attempt) := by
  obtain ⟨front, back, hrunning, hafter⟩ := running_split hattempt
  have hbefore : runner.running = front ++ [attempt] ++ back := by
    rw [hrunning, List.filter_singleton, hlisted]
    rfl
  have hgone : (runner.setAttempt index { attempt with listed := false }).running = front ++ back :=
    (hafter _).trans (by simp)
  have hcount : ∀ key, (runner.setAttempt index { attempt with listed := false }).slots key =
      if attempt.slot = some key then runner.slots key - 1 else runner.slots key := by
    intro key
    rw [slots, hgone, slots, hbefore]
    by_cases hslot : attempt.slot = some key
    · simp [hslot]
    · simp [hslot]
  have howners : ∀ key, (((attempt.slot.map (releaseOwner runner.owners)).getD runner.owners).lookup key).getD 0 =
      (runner.setAttempt index { attempt with listed := false }).slots key := by
    intro key
    rw [hcount]
    cases hslot : attempt.slot with
    | none => exact h.owners key
    | some other =>
      rw [Option.map_some, Option.getD_some, lookup_releaseOwner, h.owners, h.owners]
      by_cases hother : key = other
      · simp [hother]
      · simp [hother, Ne.symm hother]
  have hlimited : Limited config { runner.setAttempt index { attempt with listed := false } with
      owners := (attempt.slot.map (releaseOwner runner.owners)).getD runner.owners } := by
    refine ⟨?_, howners, fun key ↦ ?_, ?_, fun other hother ↦ ?_⟩
    · have hcapacity : runner.running.length + runner.pump.pending ≤ config.globalConcurrency := h.capacity
      have hlength : (runner.setAttempt index { attempt with listed := false }).running.length + 1 =
          runner.running.length := by
        rw [hgone, hbefore]
        simp
        omega
      show (runner.setAttempt index { attempt with listed := false }).running.length + runner.pump.pending ≤ _
      omega
    · refine Nat.le_trans (Nat.le_of_eq (hcount key)) (Nat.le_trans ?_ (h.ownerCapacity key))
      split
      · exact Nat.sub_le _ _
      · exact Nat.le_refl _
    · have hunique : (runner.running.map (·.job.id)).Nodup := h.unique
      have hsub : List.Sublist (front ++ back) runner.running := by
        rw [hbefore, List.append_assoc]
        exact (List.Sublist.refl front).append (List.sublist_append_right _ _)
      show ((runner.setAttempt index { attempt with listed := false }).running.map (·.job.id)).Nodup
      rw [hgone]
      exact hunique.sublist (hsub.map _)
    · obtain hother | rfl := List.mem_or_eq_of_mem_set hother
      · exact h.paid other hother
      · have hpaid := h.paid attempt (List.mem_of_getElem? hattempt)
        exact ⟨hpaid.holds, hpaid.early, fun _ ↦ hphase⟩
  rw [finish, woken]
  split
  · exact hlimited.of_alike (forall₂_refl _) rfl (Nat.le_refl _)
  · exact hlimited

end JobRunner

end Chopin.Jobs
