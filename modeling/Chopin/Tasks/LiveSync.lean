import Chopin.Tasks.PlanRuns

/-!
# The live check

A living document is checked once its editors have been quiet (`tasks/live-sync.ts`).  A check reads
the document, asks whether the edits need code, and either settles them or queues a rebuild.  It
finds a build at work at one of three moments: as it reads, as it settles, and as it queues.

Between its awaits everything else may happen: plans change, builds start and stop, checks of other
channels run, and more checks of its own are asked for, which wait for it.
-/

set_option autoImplicit false
set_option linter.dupNamespace false

open Script

namespace Chopin.Tasks

/-! ## The coordinator -/

structure LiveDelta where
  channelId : String
  baseRevision : Nat
  targetRevision : Nat
  baseSource : String
  source : String
  pullRequests : List String
  deriving DecidableEq

/-- Where a check is. -/
inductive CheckPhase
  /-- It waits to read the document, with the live record it found. -/
  | reading (live : LiveBuild)
  | checked (delta : LiveDelta) (outstanding : Bool)
  | classifying (delta : LiveDelta)
  | settling (delta : LiveDelta)
  | queueing
  deriving DecidableEq

/-- What a check came to. -/
inductive Ending
  | closed
  /-- The document is not a living one, or was not edited, or its work was stopped. -/
  | idle
  /-- A build stood in the way. -/
  | active
  | settled
  | rebuilt
  | blocked
  /-- Another reason, or a commit that failed. -/
  | dropped
  deriving DecidableEq

structure Ended where
  channelId : String
  ending : Ending
  /-- The channel was left in the waiting set. -/
  waiting : Bool
  deriving DecidableEq

structure Builder where
  repositoryId : String
  user : String
  deriving DecidableEq

structure Coordinator where
  /-- The plan of each channel. -/
  plans : String → Plan
  /-- Channels with a timer. -/
  pending : List String
  waiting : List String
  blocked : List String
  /-- Checks that were asked for and have not begun. -/
  chains : List String
  /-- The check that is at work on a channel. -/
  checks : List (String × CheckPhase)
  builders : List (String × Builder)
  closed : Bool
  endings : List Ended

namespace Coordinator

def empty (plans : String → Plan) : Coordinator :=
  { plans, pending := [], waiting := [], blocked := [], chains := [], checks := [], builders := []
    closed := false, endings := [] }

/-- `set.add(value)` -/
def add (values : List String) (value : String) : List String :=
  if values.contains value then values else values ++ [value]

/-- `set.delete(value)` -/
def remove (values : List String) (value : String) : List String := values.filter (· != value)

def setPlan (s : Coordinator) (channelId : String) (plan : Plan) : Coordinator :=
  { s with plans := fun other ↦ if other = channelId then plan else s.plans other }

/-- The check of a channel goes on. -/
def withPhase (s : Coordinator) (channelId : String) (phase : CheckPhase) : Coordinator :=
  { s with checks := Entries.set s.checks channelId phase }

/-- The check of a channel is over. -/
def finish (s : Coordinator) (channelId : String) (ending : Ending) : Coordinator :=
  { s with
    checks := Entries.delete s.checks channelId
    endings := s.endings ++ [{ channelId, ending, waiting := s.waiting.contains channelId }] }

/-! ## What is asked for -/

def schedule (s : Coordinator) (channelId : String) : Coordinator :=
  if s.closed then s else { s with pending := add s.pending channelId }

def check (s : Coordinator) (channelId : String) : Coordinator :=
  { s with chains := s.chains ++ [channelId] }

/-- A timer that was not replaced meanwhile. -/
def fire (s : Coordinator) (channelId : String) : Coordinator :=
  if s.pending.contains channelId then
    { s with pending := remove s.pending channelId }.check channelId
  else s

/-- A build stopped; run a check deferred behind it unless newer edits are still settling. -/
def stopped (s : Coordinator) (channelId : String) : Coordinator :=
  let waited := s.waiting.contains channelId
  let s := { s with waiting := remove s.waiting channelId }
  if !waited || s.closed then s
  else if s.pending.contains channelId then s
  else s.check channelId

/-- A sidecar blocker cleared, and the plan was found ready. -/
def blockersChanged (s : Coordinator) (channelId : String) : Coordinator :=
  if s.closed || !s.blocked.contains channelId || s.pending.contains channelId then s
  else { s with blocked := remove s.blocked channelId }.check channelId

/-- A local agent connected to a repository, or to every one its owner can push to. -/
def connected (s : Coordinator) (repositoryId : Option String) (owner : String) : Coordinator :=
  if s.closed then s
  else
    (s.builders.filter fun entry ↦ repositoryId.all (entry.2.repositoryId == ·) && entry.2.user == owner
        && !s.pending.contains entry.1).foldl (fun s entry ↦ s.check entry.1) s

def close (s : Coordinator) : Coordinator :=
  { s with closed := true, pending := [], waiting := [], blocked := [], builders := [] }

/-! ## A check -/

/-- A check begins, once the one before it is over. -/
def begin (s : Coordinator) (channelId : String) : Coordinator :=
  let s := { s with chains := s.chains.erase channelId }
  if s.closed then s.finish channelId .closed
  else
    match (s.plans channelId).live with
    | some live =>
      if !(s.plans channelId).liveBuild then
        { s with builders := Entries.delete s.builders channelId }.finish channelId .idle
      else
        { s with builders := Entries.set s.builders channelId ⟨live.repositoryId, live.user⟩ }.withPhase
          channelId (.reading live)
    | none => { s with builders := Entries.delete s.builders channelId }.finish channelId .idle

/-- The document is read, and compared with the live record found before. -/
def read (s : Coordinator) (channelId : String) (live : LiveBuild) : Coordinator :=
  let plan := s.plans channelId
  if stoppedForRevision plan plan.revision then s.finish channelId .idle
  else if plan.source == live.baseSource then s.finish channelId .idle
  else if buildActive plan then
    { s with waiting := add s.waiting channelId }.finish channelId .active
  else
    s.withPhase channelId (.checked
      { channelId, baseRevision := live.baseRevision, targetRevision := plan.revision
        baseSource := live.baseSource, source := plan.source, pullRequests := live.pullRequests }
      (live.outstanding.any (·.length > 0)))

/-- Outstanding tasks always rebuild; an edit alone is judged. -/
def proceed (s : Coordinator) (channelId : String) (delta : LiveDelta) (outstanding : Bool) : Coordinator :=
  if s.closed then s.finish channelId .closed
  else s.withPhase channelId (if outstanding then .queueing else .classifying delta)

def classified (s : Coordinator) (channelId : String) (delta : LiveDelta) (rebuild : Bool) : Coordinator :=
  s.withPhase channelId (if rebuild then .queueing else .settling delta)

def LiveDelta.settled (delta : LiveDelta) : Checked :=
  { baseSource := delta.baseSource, revision := delta.targetRevision, source := delta.source
    summary := noCodeSummary }

/-- `settleLive` refuses because of a build: the tests before that one pass. -/
def settleBusy (plan : Plan) (delta : LiveDelta) : Bool :=
  (plan.live.any fun live ↦ live.baseSource == delta.baseSource && !live.outstanding.any (·.length > 0))
    && buildActive plan

/-- No code is needed, and the live base advances if it still may. -/
def settle (s : Coordinator) (channelId : String) (delta : LiveDelta) (draw : Draw) (durable : Bool) :
    Coordinator :=
  match settleLive (s.plans channelId) (LiveDelta.settled delta) draw with
  | (true, plan) =>
    if durable then (s.setPlan channelId plan).finish channelId .settled
    else s.finish channelId .dropped
  | (false, _) =>
    s.finish channelId (if settleBusy (s.plans channelId) delta then .active else .dropped)

/-- A rebuild is queued, if it may be. -/
def queue (platform : Platform) (connections : RebuildConnections) (s : Coordinator) (channelId : String)
    (blockers : List String) (draw : Draw) (durable : Bool) : Coordinator :=
  let plan := s.plans channelId
  match queueRebuild platform plan connections { automatic := true, «by» := none } blockers draw with
  | .error _ => s.finish channelId .dropped
  | .ok (.queued _, next) =>
    if durable then
      { s.setPlan channelId next with blocked := remove s.blocked channelId }.finish channelId .rebuilt
    else s.finish channelId .dropped
  | .ok (.busy, _) =>
    { s with waiting := add s.waiting channelId, blocked := remove s.blocked channelId }.finish
      channelId .active
  | .ok (.blocked _, _) => { s with blocked := add s.blocked channelId }.finish channelId .blocked
  | .ok (_, _) => { s with blocked := remove s.blocked channelId }.finish channelId .dropped

/-! ## Steps -/

inductive Act
  | schedule (channelId : String)
  | fire (channelId : String)
  | stopped (channelId : String)
  | blockersChanged (channelId : String)
  | connected (repositoryId : Option String) (owner : String)
  | close
  | begin (channelId : String)
  | read (channelId : String)
  | proceed (channelId : String)
  | classified (channelId : String) (rebuild : Bool)
  | settle (channelId : String) (draw : Draw) (durable : Bool)
  | queue (channelId : String) (blockers : List String) (draw : Draw) (durable : Bool)
  /-- Whatever happens to a plan meanwhile. -/
  | change (channelId : String) (plan : Plan)

def step (platform : Platform) (connections : RebuildConnections) (s : Coordinator) : Act → Option Coordinator
  | .schedule channelId => some (s.schedule channelId)
  | .fire channelId => some (s.fire channelId)
  | .stopped channelId => some (s.stopped channelId)
  | .blockersChanged channelId => some (s.blockersChanged channelId)
  | .connected repositoryId owner => some (s.connected repositoryId owner)
  | .close => some s.close
  | .begin channelId =>
    if s.chains.contains channelId && (s.checks.lookup channelId).isNone then some (s.begin channelId)
    else none
  | .read channelId =>
    match s.checks.lookup channelId with
    | some (.reading live) => some (s.read channelId live)
    | _ => none
  | .proceed channelId =>
    match s.checks.lookup channelId with
    | some (.checked delta outstanding) => some (s.proceed channelId delta outstanding)
    | _ => none
  | .classified channelId rebuild =>
    match s.checks.lookup channelId with
    | some (.classifying delta) => some (s.classified channelId delta rebuild)
    | _ => none
  | .settle channelId draw durable =>
    match s.checks.lookup channelId with
    | some (.settling delta) => some (s.settle channelId delta draw durable)
    | _ => none
  | .queue channelId blockers draw durable =>
    match s.checks.lookup channelId with
    | some .queueing => some (queue platform connections s channelId blockers draw durable)
    | _ => none
  | .change channelId plan => some (s.setPlan channelId plan)

/-! ## Waiting for a build -/

theorem mem_add {values : List String} {value other : String} :
    other ∈ add values value ↔ other ∈ values ∨ other = value := by
  rw [add]
  split
  · rename_i hmem
    rw [List.contains_iff_mem] at hmem
    exact ⟨.inl, fun h ↦ h.elim id (· ▸ hmem)⟩
  · rw [List.mem_append, List.mem_singleton]

/-- What was left waiting as every check ended that a build stood in the way of. -/
def Remembered (s : Coordinator) : Prop :=
  ∀ ended ∈ s.endings, ended.ending = .active → ended.waiting = true

/-- No build stands in the way of settling, or the channel waits already. -/
def settlesIdle (s : Coordinator) (channelId : String) : CheckPhase → Bool
  | .settling delta => !settleBusy (s.plans channelId) delta || s.waiting.contains channelId
  | _ => true

/-- A check does not settle against a build that started since it read the document, unless its
channel waits already. -/
def SettlesIdle (s : Coordinator) : Act → Prop
  | .settle channelId _ _ => (s.checks.lookup channelId).all (s.settlesIdle channelId) = true
  | _ => True

instance (s : Coordinator) : (act : Act) → Decidable (SettlesIdle s act)
  | .settle _ _ _ => inferInstanceAs (Decidable (_ = true))
  | .schedule _ | .fire _ | .stopped _ | .blockersChanged _ | .connected _ _ | .close | .begin _
  | .read _ | .proceed _ | .classified _ _ | .queue _ _ _ _ | .change _ _ => .isTrue trivial

variable {s : Coordinator}

variable {channelId : String}

theorem remembered_finish {ending : Ending} :
    Remembered (s.finish channelId ending) ↔ Remembered s ∧ (ending = .active → channelId ∈ s.waiting) := by
  rw [Remembered, Remembered, finish]
  simp only [List.mem_append, List.mem_singleton, or_imp, forall_and, forall_eq, List.contains_iff_mem]

/-- A step that leaves no check behind: what was remembered is, and who waits does. -/
structure Keeps (s t : Coordinator) : Prop where
  remembered : Remembered t ↔ Remembered s
  waiting : s.waiting ⊆ t.waiting

variable {t : Coordinator}

theorem Keeps.still (hendings : t.endings = s.endings) (hwaiting : s.waiting ⊆ t.waiting) :
    Keeps s t := ⟨by rw [Remembered, Remembered, hendings], hwaiting⟩

/-- A check that ends for another reason, or because of a build and with its channel waiting. -/
theorem keeps_finish {ending : Ending} (hending : ending ≠ .active ∨ channelId ∈ t.waiting)
    (hendings : t.endings = s.endings) (hwaiting : s.waiting ⊆ t.waiting) : Keeps s (t.finish channelId ending) := by
  have h := Keeps.still hendings hwaiting
  refine ⟨?_, h.waiting⟩
  rw [remembered_finish, h.remembered]
  exact and_iff_left fun heq ↦ hending.resolve_left (not_not_intro heq)

theorem keeps_begin (s : Coordinator) (channelId : String) : Keeps s (s.begin channelId) := by
  rw [begin]
  dsimp only
  split
  · exact keeps_finish (.inl (by decide)) rfl fun _ h ↦ h
  · split
    · split
      · exact keeps_finish (.inl (by decide)) rfl fun _ h ↦ h
      · exact .still rfl fun _ h ↦ h
    · exact keeps_finish (.inl (by decide)) rfl fun _ h ↦ h

theorem keeps_read (s : Coordinator) (channelId : String) (live : LiveBuild) : Keeps s (s.read channelId live) := by
  rw [read]
  split
  · exact keeps_finish (.inl (by decide)) rfl fun _ h ↦ h
  · split
    · exact keeps_finish (.inl (by decide)) rfl fun _ h ↦ h
    · split
      · exact keeps_finish (.inr (mem_add.2 (.inr rfl))) rfl fun _ h ↦ mem_add.2 (.inl h)
      · exact .still rfl fun _ h ↦ h

theorem keeps_proceed (s : Coordinator) (channelId : String) (delta : LiveDelta) (outstanding : Bool) :
    Keeps s (s.proceed channelId delta outstanding) := by
  rw [proceed]
  split
  · exact keeps_finish (.inl (by decide)) rfl fun _ h ↦ h
  · exact .still rfl fun _ h ↦ h

theorem keeps_classified (s : Coordinator) (channelId : String) (delta : LiveDelta) (rebuild : Bool) :
    Keeps s (s.classified channelId delta rebuild) := .still rfl fun _ h ↦ h

theorem keeps_setPlan (s : Coordinator) (channelId : String) (plan : Plan) : Keeps s (s.setPlan channelId plan) :=
  .still rfl fun _ h ↦ h

theorem keeps_queue (platform : Platform) (connections : RebuildConnections) (s : Coordinator)
    (channelId : String) (blockers : List String) (draw : Draw) (durable : Bool) :
    Keeps s (queue platform connections s channelId blockers draw durable) := by
  rw [queue]
  dsimp only
  split
  · exact keeps_finish (.inl (by decide)) rfl fun _ h ↦ h
  · split
    · exact keeps_finish (.inl (by decide)) rfl fun _ h ↦ h
    · exact keeps_finish (.inl (by decide)) rfl fun _ h ↦ h
  · exact keeps_finish (.inr (mem_add.2 (.inr rfl))) rfl fun _ h ↦ mem_add.2 (.inl h)
  · exact keeps_finish (.inl (by decide)) rfl fun _ h ↦ h
  · exact keeps_finish (.inl (by decide)) rfl fun _ h ↦ h

/-- A record that is settled is of a plan no build is active on. -/
theorem settleLive_idle {plan next : Plan} {checked : Checked} {draw : Draw}
    (h : settleLive plan checked draw = (true, next)) : buildActive plan = false := by
  rw [settleLive] at h
  split at h
  · cases h
  · split at h
    · cases h
    · rename_i hrefused
      simp only [Bool.or_eq_true, not_or, Bool.not_eq_true] at hrefused
      exact hrefused.1.1.2

/-- Settling leaves its channel behind exactly when a build stands in the way and it does not wait. -/
theorem remembered_settle (s : Coordinator) (channelId : String) (delta : LiveDelta) (draw : Draw)
    (durable : Bool) : Remembered (s.settle channelId delta draw durable) ↔
      Remembered s ∧ (settleBusy (s.plans channelId) delta = false ∨ channelId ∈ s.waiting) := by
  rw [settle]
  split
  · rename_i next hsettled
    have hidle : settleBusy (s.plans channelId) delta = false := by
      rw [settleBusy, settleLive_idle hsettled, Bool.and_false]
    rw [and_iff_left (.inl hidle)]
    split
    · exact (keeps_finish (.inl (by decide)) rfl fun _ h ↦ h).remembered
    · exact (keeps_finish (.inl (by decide)) rfl fun _ h ↦ h).remembered
  · rw [remembered_finish]
    by_cases hbusy : settleBusy (s.plans channelId) delta = true
    · simp [hbusy]
    · simp [hbusy]

theorem waiting_settle (s : Coordinator) (channelId : String) (delta : LiveDelta) (draw : Draw)
    (durable : Bool) : (s.settle channelId delta draw durable).waiting = s.waiting := by
  rw [settle]
  split
  · split <;> rfl
  · rfl

theorem keeps_connected (s : Coordinator) (repositoryId : Option String) (owner : String) :
    Keeps s (s.connected repositoryId owner) := by
  rw [connected]
  split
  · exact .still rfl fun _ h ↦ h
  · generalize s.builders.filter _ = builders
    refine List.foldlRecOn builders _ (.still rfl fun _ h ↦ h) fun t h entry _ ↦ ?_
    exact ⟨h.remembered, h.waiting⟩

theorem keeps_blockersChanged (s : Coordinator) (channelId : String) : Keeps s (s.blockersChanged channelId) := by
  rw [blockersChanged]
  split
  · exact .still rfl fun _ h ↦ h
  · exact .still rfl fun _ h ↦ h

theorem keeps_schedule (s : Coordinator) (channelId : String) : Keeps s (s.schedule channelId) := by
  rw [schedule]
  split <;> exact .still rfl fun _ h ↦ h

theorem keeps_fire (s : Coordinator) (channelId : String) : Keeps s (s.fire channelId) := by
  rw [fire]
  split <;> exact .still rfl fun _ h ↦ h

theorem endings_stopped (s : Coordinator) (channelId : String) : (s.stopped channelId).endings = s.endings := by
  rw [stopped]
  dsimp only
  split
  · rfl
  · split <;> rfl

/-- **A build that stops wakes the check that waits for it**, unless newer edits are still settling. -/
theorem stopped_wakes (s : Coordinator) (channelId other : String) (hmem : other ∈ s.waiting) :
    other ∈ (s.stopped channelId).waiting ∨ other = channelId ∧
      (s.closed = true ∨ channelId ∈ (s.stopped channelId).chains ∨ channelId ∈ (s.stopped channelId).pending) := by
  by_cases hother : other = channelId
  · refine .inr ⟨hother, ?_⟩
    subst hother
    rw [stopped]
    dsimp only
    by_cases hclosed : s.closed = true
    · exact .inl hclosed
    · rw [if_neg (by simpa [hclosed] using hmem)]
      split
      · rename_i hpending
        exact .inr (.inr (List.contains_iff_mem.1 hpending))
      · exact .inr (.inl List.mem_concat_self)
  · refine .inl ?_
    have hkept : other ∈ remove s.waiting channelId := List.mem_filter.2 ⟨hmem, bne_iff_ne.2 hother⟩
    rw [stopped]
    dsimp only
    split
    · exact hkept
    · split <;> exact hkept

/-- Who waits goes on waiting until a build of the channel stops, which asks for a check. -/
def WaitsOn (s : Coordinator) (act : Act) (t : Coordinator) : Prop :=
  ∀ channelId ∈ s.waiting, channelId ∈ t.waiting ∨ act = .close ∨ act = .stopped channelId ∧
    (s.closed = true ∨ channelId ∈ t.chains ∨ channelId ∈ t.pending)

variable {platform : Platform} {connections : RebuildConnections}

theorem Keeps.step {act : Act} (h : Keeps s t) (hidle : SettlesIdle s act) :
    (Remembered t ↔ Remembered s ∧ SettlesIdle s act) ∧ WaitsOn s act t :=
  ⟨h.remembered.trans (and_iff_left hidle).symm, fun _ hmem ↦ .inl (h.waiting hmem)⟩

/-- **One step leaves a check behind exactly when it settles against a build.** -/
theorem step_remembers {act : Act} (hstep : step platform connections s act = some t) :
    (Remembered t ↔ Remembered s ∧ SettlesIdle s act) ∧ WaitsOn s act t := by
  cases act with
  | schedule channelId => obtain rfl := Option.some.inj hstep; exact (keeps_schedule s channelId).step trivial
  | fire channelId => obtain rfl := Option.some.inj hstep; exact (keeps_fire s channelId).step trivial
  | stopped channelId =>
    cases hstep
    refine ⟨?_, fun other hmem ↦ ?_⟩
    · rw [Remembered, endings_stopped, Remembered]
      exact (and_iff_left trivial).symm
    · refine (stopped_wakes s channelId other hmem).imp_right fun hwoken ↦ .inr ?_
      obtain ⟨rfl, hwoken⟩ := hwoken
      exact ⟨rfl, hwoken⟩
  | blockersChanged channelId =>
    obtain rfl := Option.some.inj hstep; exact (keeps_blockersChanged s channelId).step trivial
  | connected repositoryId owner =>
    obtain rfl := Option.some.inj hstep; exact (keeps_connected s repositoryId owner).step trivial
  | close =>
    cases hstep
    exact ⟨(and_iff_left trivial).symm, fun _ _ ↦ .inr (.inl rfl)⟩
  | begin channelId =>
    rw [step] at hstep
    split at hstep
    · obtain rfl := Option.some.inj hstep; exact (keeps_begin s channelId).step trivial
    · cases hstep
  | read channelId =>
    rw [step] at hstep
    split at hstep
    · obtain rfl := Option.some.inj hstep; exact (keeps_read s channelId _).step trivial
    · cases hstep
  | proceed channelId =>
    rw [step] at hstep
    split at hstep
    · obtain rfl := Option.some.inj hstep; exact (keeps_proceed s channelId _ _).step trivial
    · cases hstep
  | classified channelId rebuild =>
    rw [step] at hstep
    split at hstep
    · cases hstep
      exact (keeps_classified s channelId _ rebuild).step trivial
    · cases hstep
  | settle channelId draw durable =>
    rw [step] at hstep
    split at hstep
    · rename_i delta hphase
      cases hstep
      refine ⟨?_, fun other hmem ↦ .inl (by rw [waiting_settle]; exact hmem)⟩
      rw [remembered_settle, SettlesIdle, hphase, Option.all_some, settlesIdle, Bool.or_eq_true,
        Bool.not_eq_true', List.contains_iff_mem]
    · cases hstep
  | queue channelId blockers draw durable =>
    rw [step] at hstep
    split at hstep
    · cases hstep
      exact (keeps_queue platform connections s channelId blockers draw durable).step trivial
    · cases hstep
  | change channelId plan =>
    cases hstep
    exact (keeps_setPlan s channelId plan).step trivial

/-- **A check that a build stood in the way of leaves its channel waiting, and the build's end wakes
it**: in a run, exactly when no check settles against a build that started since it read. -/
theorem checks_wait {plans : String → Plan} {acts : List Act} {s : Coordinator}
    (run : Runs (step platform connections) (empty plans) acts s) :
    (Remembered s ↔ Guarded SettlesIdle (step platform connections) (empty plans) acts s) ∧
    ∀ act t, step platform connections s act = some t → WaitsOn s act t := by
  refine ⟨?_, fun act t hstep ↦ (step_remembers hstep).2⟩
  induction run with
  | nil => exact iff_of_true (fun _ hmem ↦ nomatch hmem) (.nil _)
  | snoc run last ih => rw [(step_remembers last).1, guarded_snoc_iff run last, ih]

/-! ## A build that starts during a check -/

/-- A living document with an edit that was not built. -/
def living : Plan :=
  { Plan.opened "p" "edited" 1 none true with
    live := some {
      buildId := "b", user := "u", repositoryId := "1", baseRevision := 0, baseSource := "built"
      checkout := ⟨"o/n", none, "0123456789012345678901234567890123456789"⟩, pullRequests := []
      commits := none, outstanding := none, noChange := none, target := none } }

/-- The same while a build is queued. -/
def building : Plan :=
  { living with
    builds := [BuildInput.build {
      retryOf := none, planRevision := 1, graphVersion := 1, graphRevision := 1, user := "u"
      machineOwner := none, connectionId := "c", machineId := none, machineService := false
      repositoryId := "1", checkout := ⟨"o/n", none, "0123456789012345678901234567890123456789"⟩ } ⟨"b", "", 0⟩] }

/-- One paired machine, which is away. -/
def noConnections : RebuildConnections :=
  { get := fun _ ↦ none, list := fun _ _ ↦ [], assigned := fun _ ↦ none, allows := none
    favoriteShared := none }

/-- A check reads the document, and its edit needs no code. -/
def judged : List Act := [.schedule "p", .fire "p", .begin "p", .read "p", .proceed "p", .classified "p" false]

theorem checks_wait_sample : ∃ s, Remembered s ∧ s.endings.map Ended.ending = [.settled] := by
  have hrun : ((judged ++ [Act.settle "p" ⟨"s", "", 0⟩ true]).foldlM
      (fun s act ↦ if decide (SettlesIdle s act) then step .ascii noConnections s act else none)
      (empty fun _ ↦ living)).any (fun s ↦ s.endings.map Ended.ending == [.settled]) = true := by
    decide +kernel
  obtain ⟨s, hs, hsettled⟩ := (Option.any_eq_true _ _).1 hrun
  have guarded := Guarded.of_foldlM (fun _ _ ↦ of_decide_eq_true) hs
  exact ⟨s, (checks_wait guarded.runs).1.2 guarded, beq_iff_eq.1 hsettled⟩

/-- **A check that is lost.**  A build is queued while the edit is judged; the edit is not settled,
and when that build stops nothing runs the check again. -/
theorem check_lost : ∃ s, Runs (step .ascii noConnections) (empty fun _ ↦ living)
    (judged ++ [Act.change "p" building, .settle "p" ⟨"s", "", 0⟩ true]) s ∧
    s.endings = [{ channelId := "p", ending := .active, waiting := false }] ∧
    (s.stopped "p").chains = [] ∧ (s.stopped "p").pending = [] ∧ (s.stopped "p").closed = false := by
  have hrun : ((judged ++ [Act.change "p" building, .settle "p" ⟨"s", "", 0⟩ true]).foldlM
      (step .ascii noConnections) (empty fun _ ↦ living)).any (fun s ↦
        decide (s.endings = [{ channelId := "p", ending := .active, waiting := false }] ∧
          (s.stopped "p").chains = [] ∧ (s.stopped "p").pending = [] ∧
          (s.stopped "p").closed = false)) = true := by decide +kernel
  obtain ⟨s, hs, hlost⟩ := (Option.any_eq_true _ _).1 hrun
  exact ⟨s, runs_iff_foldlM.2 hs, of_decide_eq_true hlost⟩

end Coordinator

end Chopin.Tasks
