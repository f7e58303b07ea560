import Mathlib.Data.List.Nodup
import Chopin.Chat.Initiative

/-!
# The initiative fires once, late enough, and never gets stuck

What a schedule keeps in every run is `Sound`: a check that is current belongs to the opportunity that
waits, the only dispatch at work is the active one, and an opportunity that no check works on has a timer.
The checks that an interruption or a newer contribution left behind are still in flight; what is kept of
them is that they were aborted before their turn began, or that their opportunity is gone.
-/

set_option autoImplicit false

namespace Chopin.Chat.Schedule

variable {τ : Type} {c : Silence} {s t : Schedule τ} {opportunity : Opportunity τ} {check : Check}

/-! ## The invariant -/

/-- What is kept of the opportunity that waits. -/
structure Held (s : Schedule τ) (opportunity : Opportunity τ) : Prop where
  serial : opportunity.serial < s.next
  arrived : opportunity.at ≤ s.now
  latest : s.log.latest = some (opportunity.contribution, opportunity.at)
  heard : opportunity.quietSince = s.log.heard
  /-- Its controller is that of a check in flight, and was not aborted. -/
  owned : ∀ n, opportunity.controller = some n →
    n ∉ s.aborted ∧ ∃ check ∈ s.checks, check.controller = n ∧ check.opportunity = opportunity.serial
  /-- While its judge is asked nothing is dispatched. -/
  judging : ∀ check ∈ s.checks, opportunity.controller = some check.controller → check.dispatches = false →
    s.active = none
  running : ∀ check ∈ s.checks, opportunity.controller = some check.controller → check.started = true →
    opportunity.running = true
  /-- A check that typing took it from was aborted before its turn began. -/
  stale : ∀ check ∈ s.checks, check.opportunity = opportunity.serial →
    opportunity.controller ≠ some check.controller → check.controller ∈ s.aborted ∧ check.started = false
  /-- One that was dispatched well and still waits has lapsed. -/
  spent : opportunity.serial ∈ s.log.succeeded → opportunity.at + OPPORTUNITY_LIFETIME_MS ≤ s.now

structure Core (s : Schedule τ) : Prop where
  controllers : (s.checks.map (·.controller)).Nodup
  checks : ∀ check ∈ s.checks, check.controller < s.next ∧ check.opportunity < s.next
  aborted : ∀ n ∈ s.aborted, n < s.next
  active : ∀ n, s.active = some n → n < s.next
  dispatching : ∀ check ∈ s.checks, check.dispatches = true → s.active = some check.controller
  succeeded : ∀ serial ∈ s.log.succeeded, serial < s.next
  closed : s.closed = true → s.pending = none
  held : ∀ opportunity, s.pending = some opportunity → Held s opportunity

structure Sound (s : Schedule τ) : Prop extends Core s where
  armed : ∀ opportunity, s.pending = some opportunity → opportunity.controller = none → s.timer.isSome = true

/-- Timers, leases and who takes part are no part of it. -/
theorem Core.same (h : Core s) (timer : Option Nat) (paused : Bool) (seen : List String)
    (participants : List (String × Nat)) (typing : List (String × Lease)) :
    Core { s with timer, paused, seen, participants, typing } :=
  { h with held := fun opportunity hpending ↦ { h.held opportunity hpending with } }

theorem Core.prune (h : Core s) : Core s.prune := h.same _ _ _ _ _

/-- With no opportunity there is nothing to keep of it. -/
theorem Core.dropped (h : Core s) (latest : Option (Contribution τ × Nat)) (heard : Nat) :
    Core { s with pending := none, log := { s.log with latest, heard } } :=
  { h with closed := fun _ ↦ rfl, held := nofun }

theorem Core.consume (h : Core s) : Core s.consume := h.dropped s.log.latest s.log.heard

theorem Core.abort (h : Core s) {controller : Option Nat} (hcontroller : ∀ n, controller = some n → n < s.next)
    (hpending : s.pending = none) : Core (s.abort controller) where
  controllers := h.controllers
  checks := h.checks
  aborted := fun n hn ↦ (List.mem_append.1 hn).elim (fun hn ↦ hcontroller n (Option.mem_toList.1 hn)) (h.aborted n)
  active := h.active
  dispatching := h.dispatching
  succeeded := h.succeeded
  closed := h.closed
  held := fun opportunity ho ↦ by cases hpending.symm.trans ho

/-! ## The timer -/

/-- Arming changes the timer, and prunes. -/
theorem arm_same (c : Silence) (s : Schedule τ) (delay : Option Nat) :
    arm c s delay = { s with
      timer := (arm c s delay).timer
      participants := (arm c s delay).participants
      typing := (arm c s delay).typing } := by
  cases hpending : s.pending with
  | none => simp only [arm, clearTimer, hpending]
  | some opportunity =>
    by_cases hbusy : (s.closed || opportunity.controller.isSome) = true
    · simp only [arm, clearTimer, hpending, if_pos hbusy]
    · cases delay <;> simp only [arm, clearTimer, hpending, if_neg hbusy, prune]

/-- An opportunity that no check works on gets a timer. -/
theorem arm_timer (hpending : s.pending = some opportunity) (hcontroller : opportunity.controller = none)
    (hclosed : s.closed = false) (delay : Option Nat) : (arm c s delay).timer.isSome = true := by
  simp only [arm, clearTimer, hpending, hcontroller, hclosed, Option.isSome_none, Bool.or_false,
    Bool.false_eq_true, if_false]
  split <;> rfl

theorem Core.arm (h : Core s) (delay : Option Nat) : Sound (arm c s delay) := by
  rw [arm_same]
  refine ⟨h.same _ s.paused s.seen _ _, fun opportunity ho hcontroller ↦
    arm_timer (s := s) ho hcontroller ?_ delay⟩
  cases hclosed : s.closed with
  | false => rfl
  | true => cases (h.closed hclosed).symm.trans ho

/-! ## What the chat calls -/

theorem Core.cancel (h : Core s) : Core s.cancel := by
  have hfirst : Core { s.clearTimer with pending := none } := (h.same none _ _ _ _).dropped s.log.latest s.log.heard
  have howner : ∀ n, s.pending.bind (·.controller) = some n → n < s.next := by
    intro n hn
    obtain ⟨opportunity, ho, hcontroller⟩ := Option.bind_eq_some_iff.1 hn
    obtain ⟨-, check, hmem, rfl, -⟩ := (h.held opportunity ho).owned n hcontroller
    exact (h.checks check hmem).1
  exact ((hfirst.abort howner rfl).abort h.active rfl).dropped none s.log.heard

theorem Sound.cancel (h : Core s) : Sound s.cancel := ⟨h.cancel, nofun⟩

/-- A new contribution waits. -/
theorem Core.take (h : Core s) (hopen : s.closed = false) (contribution : Contribution τ) :
    Core { s with
      pending := some
        { serial := s.next, contribution, «at» := s.now, quietSince := s.now, yielded := false
          controller := none, running := false }
      next := s.next + 1
      log := { s.log with latest := some (contribution, s.now), heard := s.now } } where
  controllers := h.controllers
  checks := fun check hmem ↦ (h.checks check hmem).imp Nat.lt_succ_of_lt Nat.lt_succ_of_lt
  aborted := fun n hn ↦ Nat.lt_succ_of_lt (h.aborted n hn)
  active := fun n hn ↦ Nat.lt_succ_of_lt (h.active n hn)
  dispatching := h.dispatching
  succeeded := fun serial hserial ↦ Nat.lt_succ_of_lt (h.succeeded serial hserial)
  closed := fun hclosed ↦ absurd hclosed (by simp [hopen])
  held := by
    rintro opportunity ⟨⟩
    exact {
      serial := Nat.lt_succ_self _
      arrived := Nat.le_refl _
      latest := rfl
      heard := rfl
      owned := nofun
      judging := nofun
      running := nofun
      stale := fun check hmem heq ↦ absurd heq (Nat.ne_of_lt (h.checks check hmem).2)
      spent := fun hserial ↦ absurd (h.succeeded _ hserial) (Nat.lt_irrefl _) }

theorem Sound.receive (h : Sound s) (contribution : Contribution τ) : Sound (receive c s contribution) := by
  rw [Schedule.receive]
  split
  · exact h
  · rename_i hopen
    simp only [Bool.or_eq_true, not_or, Bool.not_eq_true] at hopen
    exact ((Core.cancel (h.same s.timer _ _ _ _)).take hopen.1 contribution).arm none

theorem Sound.interrupt (h : Sound s) : Sound (interrupt c s) := by
  rw [Schedule.interrupt]
  split
  · rename_i opportunity hpending
    have held := h.held opportunity hpending
    split
    · exact h
    · rename_i hwaits
      refine Core.arm ?_ none
      refine {
        controllers := h.controllers
        checks := h.checks
        aborted := fun n hn ↦ ?_
        active := h.active
        dispatching := h.dispatching
        succeeded := h.succeeded
        closed := fun hclosed ↦ by cases (h.closed hclosed).symm.trans hpending
        held := ?_ }
      · refine (List.mem_append.1 hn).elim (fun hn ↦ ?_) (h.aborted n)
        obtain ⟨-, check, hmem, rfl, -⟩ := held.owned n (Option.mem_toList.1 hn)
        exact (h.checks check hmem).1
      · rintro other ⟨⟩
        refine {
          serial := held.serial
          arrived := held.arrived
          latest := held.latest
          heard := rfl
          owned := nofun
          judging := nofun
          running := nofun
          stale := fun check hmem hserial _ ↦ ?_
          spent := held.spent }
        by_cases hcontroller : opportunity.controller = some check.controller
        · -- The check that was current is aborted, and its turn has not begun.
          refine ⟨List.mem_append_left _ (Option.mem_toList.2 hcontroller), ?_⟩
          cases hstarted : check.started with
          | false => rfl
          | true => exact absurd (held.running check hmem hcontroller hstarted) hwaits
        · exact (held.stale check hmem hserial hcontroller).imp_left (List.mem_append_right _)
  · exact h

theorem Sound.same (h : Sound s) (paused : Bool) (seen : List String) (participants : List (String × Nat))
    (typing : List (String × Lease)) : Sound { s with paused, seen, participants, typing } :=
  ⟨h.toCore.same s.timer _ _ _ _, h.armed⟩

theorem Sound.hearTyping (h : Sound s) (client actor : String) (isTyping : Bool) :
    Sound (hearTyping c s client actor isTyping) := by
  have hpruned : Sound s.prune := h.same _ _ _ _
  rw [Schedule.hearTyping]
  split
  · exact h
  · dsimp only
    split
    · split
      · exact hpruned
      · exact (hpruned.same _ _ _ _).interrupt
    · exact (hpruned.same _ _ _ _).interrupt

theorem Sound.close (h : Core s) : Sound s.close := by
  have hclosing : Core { s with closed := true }.cancel :=
    { h.cancel with closed := fun _ ↦ rfl, held := nofun }
  exact ⟨hclosing.same _ _ _ _ _, nofun⟩

theorem Core.pass (h : Core s) (ms : Nat) : Core { s with now := s.now + ms } :=
  { h with
    held := fun opportunity ho ↦
      { h.held opportunity ho with
        arrived := Nat.le_add_right_of_le (h.held opportunity ho).arrived
        spent := fun hserial ↦ Nat.le_add_right_of_le ((h.held opportunity ho).spent hserial) } }

/-! ## A check -/

/-- Whoever waits is current for the only check that has its controller. -/
theorem current_eq_some : s.current check = some opportunity ↔
    s.closed = false ∧ s.pending = some opportunity ∧ opportunity.serial = check.opportunity ∧
      opportunity.controller = some check.controller ∧ check.controller ∉ s.aborted ∧
      s.now - opportunity.at < OPPORTUNITY_LIFETIME_MS := by
  rw [current]
  cases s.closed with
  | true => simp
  | false =>
    simp only [Bool.false_eq_true, if_false, Option.filter_eq_some_iff, Bool.and_eq_true, beq_iff_eq,
      Bool.not_eq_true', decide_eq_true_eq, true_and]
    rw [Bool.eq_false_iff, Ne, List.contains_iff_mem]
    grind

theorem Core.eq_of_controller (h : Core s) {other : Check} (hmem : check ∈ s.checks)
    (hother : other ∈ s.checks) (heq : check.controller = other.controller) : check = other :=
  List.inj_on_of_nodup_map h.controllers hmem hother heq

/-- A check asks its judge, with nothing dispatched. -/
theorem Core.judging (h : Core s) (hpending : s.pending = some opportunity)
    (hcontroller : opportunity.controller = none) (hactive : s.active = none) (turn : TurnContext) :
    Core { s with
      pending := some { opportunity with controller := some s.next }
      checks := s.checks ++
        [{ opportunity := opportunity.serial, controller := s.next, phase := .judging turn, started := false }]
      next := s.next + 1 } := by
  have held := h.held opportunity hpending
  have hnew (check : Check) (hmem : check ∈ s.checks) : s.next ≠ check.controller :=
    (Nat.ne_of_lt (h.checks check hmem).1).symm
  refine {
    controllers := ?_
    checks := fun check hmem ↦ ?_
    aborted := fun n hn ↦ Nat.lt_succ_of_lt (h.aborted n hn)
    active := fun n hn ↦ Nat.lt_succ_of_lt (h.active n hn)
    dispatching := fun check hmem hphase ↦ ?_
    succeeded := fun serial hserial ↦ Nat.lt_succ_of_lt (h.succeeded serial hserial)
    closed := fun hclosed ↦ by cases (h.closed hclosed).symm.trans hpending
    held := ?_ }
  · rw [List.map_append, List.nodup_append]
    refine ⟨h.controllers, List.nodup_singleton _, fun n hn other hother ↦ ?_⟩
    obtain rfl := List.mem_singleton.1 hother
    obtain ⟨check, hmem, rfl⟩ := List.mem_map.1 hn
    exact (hnew check hmem).symm
  · rcases List.mem_append.1 hmem with hmem | hmem
    · exact (h.checks check hmem).imp Nat.lt_succ_of_lt Nat.lt_succ_of_lt
    · obtain rfl := List.mem_singleton.1 hmem
      exact ⟨Nat.lt_succ_self _, Nat.lt_succ_of_lt held.serial⟩
  · rcases List.mem_append.1 hmem with hmem | hmem
    · exact h.dispatching check hmem hphase
    · obtain rfl := List.mem_singleton.1 hmem
      cases hphase
  · rintro other ⟨⟩
    refine {
      serial := Nat.lt_succ_of_lt held.serial
      arrived := held.arrived
      latest := held.latest
      heard := held.heard
      owned := ?_
      judging := fun _ _ _ _ ↦ hactive
      running := fun check hmem heq hstarted ↦ ?_
      stale := fun check hmem hserial hother ↦ ?_
      spent := held.spent }
    · rintro n ⟨⟩
      exact ⟨fun hn ↦ Nat.lt_irrefl _ (h.aborted _ hn), _, List.mem_append_right _ List.mem_cons_self, rfl, rfl⟩
    · rcases List.mem_append.1 hmem with hmem | hmem
      · exact absurd (Option.some.inj heq) (hnew check hmem)
      · obtain rfl := List.mem_singleton.1 hmem
        cases hstarted
    · rcases List.mem_append.1 hmem with hmem | hmem
      · exact held.stale check hmem hserial (by simp [hcontroller])
      · obtain rfl := List.mem_singleton.1 hmem
        exact absurd rfl hother

theorem Sound.begin (h : Core s) (admission : Admission) : Sound (begin c s admission) := by
  rw [Schedule.begin]
  split
  · rename_i hpending
    exact ⟨h, fun opportunity ho ↦ by cases hpending.symm.trans ho⟩
  · rename_i opportunity hpending
    split
    · rename_i hbusy
      refine ⟨h, fun other ho hcontroller ↦ ?_⟩
      obtain rfl := Option.mem_unique hpending ho
      rw [hcontroller, Option.isSome_none, Bool.or_false] at hbusy
      cases (h.closed hbusy).symm.trans hpending
    · rename_i hidle
      simp only [Bool.or_eq_true, not_or, Option.not_isSome_iff_eq_none] at hidle
      split
      · exact ⟨h.consume, nofun⟩
      · dsimp only
        split
        · exact h.prune.arm none
        · split
          · exact ⟨h.prune.consume, nofun⟩
          · split
            · exact h.prune.arm _
            · rename_i hready
              simp only [not_or, Option.not_isSome_iff_eq_none] at hready
              refine ⟨h.prune.judging hpending hidle.2 hready.2 _, ?_⟩
              rintro other ⟨⟩ ⟨⟩

/-- The end of a check: what it worked on waits again. -/
theorem Core.finish (h : Core s) (hcheck : check ∈ s.checks) : Sound (finish c s check) := by
  have hkept {other : Check} (hmem : other ∈ s.checks.filter (·.controller != check.controller)) :
      other ∈ s.checks ∧ other.controller ≠ check.controller :=
    (List.mem_filter.1 hmem).imp_right bne_iff_ne.1
  have hactive {n : Nat} (hn : s.active = some n) (hne : n ≠ check.controller) :
      s.active.filter (· != check.controller) = some n := by
    rw [hn, Option.filter_some, if_pos (bne_iff_ne.2 hne)]
  refine Core.arm ?_ none
  refine {
    controllers := h.controllers.sublist (List.filter_sublist.map _)
    checks := fun other hmem ↦ h.checks other (hkept hmem).1
    aborted := h.aborted
    active := fun n hn ↦ h.active n (Option.filter_eq_some_iff.1 hn).1
    dispatching := fun other hmem hphase ↦ hactive (h.dispatching other (hkept hmem).1 hphase) (hkept hmem).2
    succeeded := h.succeeded
    closed := fun hclosed ↦ by rw [h.closed hclosed]; rfl
    held := fun other hother ↦ ?_ }
  obtain ⟨opportunity, hpending, rfl⟩ := Option.map_eq_some_iff.1 hother
  have held := h.held opportunity hpending
  split
  · rename_i hmine
    refine {
      serial := held.serial
      arrived := held.arrived
      latest := held.latest
      heard := held.heard
      owned := nofun
      judging := nofun
      running := nofun
      stale := fun other hmem hserial _ ↦ held.stale other (hkept hmem).1 hserial fun hcontroller ↦ ?_
      spent := held.spent }
    exact (hkept hmem).2 (Option.mem_unique hcontroller hmine.2)
  · rename_i hother
    refine { held with
      owned := fun n hn ↦ ?_
      judging := fun other hmem hcontroller hphase ↦ ?_
      running := fun other hmem ↦ held.running other (hkept hmem).1
      stale := fun other hmem ↦ held.stale other (hkept hmem).1 }
    · obtain ⟨haborted, owner, hmem, rfl, hserial⟩ := held.owned n hn
      refine ⟨haborted, owner, List.mem_filter.2 ⟨hmem, bne_iff_ne.2 fun heq ↦ ?_⟩, rfl, hserial⟩
      obtain rfl := h.eq_of_controller hmem hcheck heq
      exact hother ⟨hserial.symm, hn⟩
    · change s.active.filter _ = none
      rw [held.judging other (hkept hmem).1 hcontroller hphase]
      rfl

theorem Core.yields (h : Core s) : Core s.yields := by
  refine { h with
    closed := fun hclosed ↦ ?_
    held := fun other hother ↦ ?_ }
  · change s.pending.map _ = none
    rw [h.closed hclosed]
    rfl
  · obtain ⟨opportunity, hpending, rfl⟩ := Option.map_eq_some_iff.1 hother
    exact { h.held opportunity hpending with }

/-- The dispatch of the opportunity begins, with no other at work. -/
theorem Core.dispatch (h : Core s) (hcheck : check ∈ s.checks) (hphase : check.dispatches = false)
    (hpending : s.pending = some opportunity) (hcontroller : opportunity.controller = some check.controller)
    (move : Move) : Core (s.dispatch check opportunity move) := by
  have held := h.held opportunity hpending
  have hidle := held.judging check hcheck hcontroller hphase
  have hchanged {other : Check} (hmem : other ∈ (s.dispatch check opportunity move).checks) :
      ∃ old ∈ s.checks, other.controller = old.controller ∧ other.opportunity = old.opportunity ∧
        other.started = old.started ∧
        other.dispatches = (if old.controller = check.controller then true else old.dispatches) := by
    obtain ⟨old, hold, rfl⟩ := List.mem_map.1 hmem
    refine ⟨old, hold, ?_⟩
    split <;> exact ⟨rfl, rfl, rfl, rfl⟩
  have hkept {old : Check} (hold : old ∈ s.checks) : ∃ other ∈ (s.dispatch check opportunity move).checks,
      other.controller = old.controller ∧ other.opportunity = old.opportunity := by
    refine ⟨_, List.mem_map_of_mem hold, ?_⟩
    split <;> exact ⟨rfl, rfl⟩
  refine {
    controllers := ?_
    checks := fun other hmem ↦ ?_
    aborted := h.aborted
    active := ?_
    dispatching := fun other hmem hother ↦ ?_
    succeeded := h.succeeded
    closed := h.closed
    held := fun other hother ↦ ?_ }
  · have hsame : (s.dispatch check opportunity move).checks.map (·.controller) = s.checks.map (·.controller) := by
      rw [Schedule.dispatch, List.map_map]
      refine List.map_congr_left fun old _ ↦ ?_
      rw [Function.comp_apply]
      split <;> rfl
    rw [hsame]
    exact h.controllers
  · obtain ⟨old, hold, hn, hserial, -, -⟩ := hchanged hmem
    rw [hn, hserial]
    exact h.checks old hold
  · rintro n ⟨⟩
    exact (h.checks check hcheck).1
  · obtain ⟨old, hold, hn, -, -, hdispatches⟩ := hchanged hmem
    rw [hdispatches] at hother
    split at hother
    · rename_i heq
      rw [hn, heq]
      rfl
    · cases hidle.symm.trans (h.dispatching old hold hother)
  · obtain rfl := Option.mem_unique hpending hother
    refine {
      serial := held.serial
      arrived := held.arrived
      latest := held.latest
      heard := held.heard
      owned := fun n hn ↦ ?_
      judging := fun other hmem heq hjudging ↦ ?_
      running := fun other hmem heq hstarted ↦ ?_
      stale := fun other hmem hserial hne ↦ ?_
      spent := held.spent }
    · obtain ⟨haborted, old, hold, rfl, hserial⟩ := held.owned n hn
      obtain ⟨other, hmem, hn, hsame⟩ := hkept hold
      exact ⟨haborted, other, hmem, hn, hsame.trans hserial⟩
    · obtain ⟨old, hold, hn, -, -, hdispatches⟩ := hchanged hmem
      have heq : old.controller = check.controller := hn.symm.trans (Option.mem_unique heq hcontroller)
      rw [hdispatches, if_pos heq] at hjudging
      cases hjudging
    · obtain ⟨old, hold, hn, -, hsame, -⟩ := hchanged hmem
      exact held.running old hold (hn ▸ heq) (hsame ▸ hstarted)
    · obtain ⟨old, hold, hn, hsame, hstarted, -⟩ := hchanged hmem
      rw [hn, hstarted]
      exact held.stale old hold (hsame ▸ hserial) (hn ▸ hne)

theorem Core.started (h : Core s) (check : Check) : Core (s.started check) := by
  rw [Schedule.started]
  split
  · exact h
  · rename_i opportunity hcurrent
    obtain ⟨-, hpending, -, hcontroller, -, -⟩ := current_eq_some.1 hcurrent
    have held := h.held opportunity hpending
    let f (other : Check) : Check := if other.controller = check.controller then { other with started := true } else other
    have hf (other : Check) : (f other).controller = other.controller ∧
        (f other).opportunity = other.opportunity ∧ (f other).dispatches = other.dispatches := by
      dsimp only [f]
      split <;> exact ⟨rfl, rfl, rfl⟩
    change Core { s with pending := some { opportunity with running := true }, checks := s.checks.map f }
    refine {
      controllers := ?_
      checks := List.forall_mem_map.2 fun other hmem ↦ ?_
      aborted := h.aborted
      active := h.active
      dispatching := List.forall_mem_map.2 fun other hmem hphase ↦ ?_
      succeeded := h.succeeded
      closed := fun hclosed ↦ by cases (h.closed hclosed).symm.trans hpending
      held := ?_ }
    · rw [List.map_map]
      exact List.map_congr_left (fun other _ ↦ (hf other).1) ▸ h.controllers
    · rw [(hf other).1, (hf other).2.1]
      exact h.checks other hmem
    · rw [(hf other).1]
      exact h.dispatching other hmem ((hf other).2.2 ▸ hphase)
    · rintro _ ⟨⟩
      refine {
        serial := held.serial
        arrived := held.arrived
        latest := held.latest
        heard := held.heard
        owned := fun n hn ↦ ?_
        judging := List.forall_mem_map.2 fun other hmem heq hphase ↦ ?_
        running := fun _ _ _ _ ↦ rfl
        stale := List.forall_mem_map.2 fun other hmem hserial hne ↦ ?_
        spent := held.spent }
      · obtain ⟨haborted, other, hmem, rfl, hserial⟩ := held.owned n hn
        exact ⟨haborted, f other, List.mem_map_of_mem hmem, (hf other).1, (hf other).2.1.trans hserial⟩
      · exact held.judging other hmem ((hf other).1 ▸ heq) ((hf other).2.2 ▸ hphase)
      · -- A check that is not current is left as it was.
        have hother : other.controller ≠ check.controller := fun heq ↦
          hne ((hf other).1 ▸ heq ▸ hcontroller)
        have hsame : f other = other := if_neg hother
        rw [hsame] at hserial hne ⊢
        exact held.stale other hmem hserial hne

theorem Sound.started (h : Sound s) (check : Check) : Sound (s.started check) := by
  refine ⟨h.toCore.started check, ?_⟩
  rw [Schedule.started]
  split
  · exact h.armed
  · rename_i opportunity hcurrent
    rintro _ ⟨⟩ hcontroller
    cases hcontroller.symm.trans (current_eq_some.1 hcurrent).2.2.2.1

theorem Sound.judge (h : Core s) (hcheck : check ∈ s.checks) (hphase : check.dispatches = false)
    (turn : TurnContext) (decision : Except Unit (Option TurnDecision)) (fresh : Except Unit Admission) :
    Sound (s.judge c check turn decision fresh) := by
  rw [Schedule.judge]
  split
  · exact h.finish hcheck
  · rename_i opportunity hcurrent
    obtain ⟨-, hpending, -, hcontroller, -, -⟩ := current_eq_some.1 hcurrent
    split
    · exact h.consume.finish hcheck
    · split
      · exact h.yields.finish hcheck
      · split
        · exact h.consume.finish hcheck
        · exact h.consume.finish hcheck
        · split
          · exact h.consume.finish hcheck
          · split
            · exact h.prune.finish hcheck
            · split
              · exact h.prune.consume.finish hcheck
              · exact h.prune.consume.finish hcheck
              · exact h.prune.finish hcheck
              · refine ⟨h.prune.dispatch hcheck hphase hpending hcontroller _, fun other ho hnone ↦ ?_⟩
                obtain rfl := Option.mem_unique hpending ho
                cases hnone.symm.trans hcontroller

/-- A dispatch ended well whose opportunity is gone, or has lapsed. -/
theorem Core.succeed (h : Core s) (hcheck : check ∈ s.checks)
    (hspent : ∀ opportunity, s.pending = some opportunity → opportunity.serial = check.opportunity →
      opportunity.at + OPPORTUNITY_LIFETIME_MS ≤ s.now) :
    Core { s with log := { s.log with succeeded := check.opportunity :: s.log.succeeded } } := by
  refine { h with
    succeeded := List.forall_mem_cons.2 ⟨(h.checks check hcheck).2, h.succeeded⟩
    held := fun opportunity hpending ↦ { h.held opportunity hpending with
      spent := fun hserial ↦ ?_ } }
  rcases List.mem_cons.1 hserial with hserial | hserial
  · exact hspent opportunity hpending hserial
  · exact (h.held opportunity hpending).spent hserial

/-- A dispatch that ended well and is not current has lapsed, if it is not gone. -/
theorem Core.lapsed (h : Core s) (hcheck : check ∈ s.checks) (hcurrent : s.current check = none)
    (hgood : check.started = true ∨ check.controller ∉ s.aborted) (hpending : s.pending = some opportunity)
    (hserial : opportunity.serial = check.opportunity) : opportunity.at + OPPORTUNITY_LIFETIME_MS ≤ s.now := by
  have held := h.held opportunity hpending
  by_contra hlive
  by_cases hcontroller : opportunity.controller = some check.controller
  · have hopen : s.closed = false := by
      cases hclosed : s.closed with
      | false => rfl
      | true => cases (h.closed hclosed).symm.trans hpending
    have hsome : s.current check = some opportunity := current_eq_some.2
      ⟨hopen, hpending, hserial, hcontroller, (held.owned _ hcontroller).1, by have := held.arrived; omega⟩
    cases hcurrent.symm.trans hsome
  · obtain ⟨haborted, hstarted⟩ := held.stale check hcheck hserial.symm hcontroller
    rcases hgood with hgood | hgood
    · cases hstarted.symm.trans hgood
    · exact hgood haborted

theorem current_log (log : Log τ) : ({ s with log } : Schedule τ).current check = s.current check := rfl

theorem Sound.dispatched (h : Core s) (hcheck : check ∈ s.checks) (result : Except Unit Bool) :
    Sound (s.dispatched c check result) := by
  rw [Schedule.dispatched]
  dsimp only
  split
  · rename_i hgood
    rw [current_log]
    cases hcurrent : s.current check with
    | none =>
      rw [if_neg (by simp)]
      exact (h.succeed hcheck fun opportunity ↦ h.lapsed hcheck hcurrent hgood.2).finish hcheck
    | some opportunity =>
      split
      · exact (h.consume.succeed hcheck nofun).finish hcheck
      · rename_i hfailed
        exact absurd ⟨rfl, by rw [hgood.1]; nofun⟩ hfailed
  · split
    · exact h.consume.finish hcheck
    · exact h.finish hcheck

/-! ## What a dispatch meets -/

theorem foldl_max_le {α : Type} (f : α → Nat) (values : List α) (first bound : Nat) :
    values.foldl (fun most value ↦ max most (f value)) first ≤ bound ↔
      first ≤ bound ∧ ∀ value ∈ values, f value ≤ bound := by
  induction values generalizing first with
  | nil => simp
  | cons value rest ih =>
    rw [List.foldl_cons, ih, Nat.max_le, List.forall_mem_cons, and_assoc]

/-- **A contribution is due** once it was quiet for long enough and nobody's typing lease is live. -/
theorem due_le_iff (quiet : Bool) : due c s.prune opportunity quiet ≤ s.now ↔
    opportunity.quietSince + silence c s quiet ≤ s.now ∧ ∀ entry ∈ s.typing, entry.2.expires ≤ s.now := by
  rw [due, foldl_max_le]
  refine and_congr_right fun _ ↦ ⟨fun h entry hmem ↦ ?_, fun h entry hmem ↦ ?_⟩
  · by_contra hlive
    have hkept : entry ∈ s.prune.typing :=
      List.mem_filter.2 ⟨hmem, decide_eq_true (Nat.lt_of_not_le hlive)⟩
    exact hlive (Nat.le_trans (Nat.le_add_right _ _) (h entry hkept))
  · obtain ⟨hmem, hlive⟩ := List.mem_filter.1 hmem
    exact absurd (h entry hmem) (Nat.not_le.2 (of_decide_eq_true hlive))

/-- What holds as a contribution is dispatched. -/
structure Due (c : Silence) (s : Schedule τ) (dispatch : Dispatch τ) : Prop where
  unclosed : s.closed = false
  /-- It is the latest one, and was not withdrawn; it came less than its lifetime ago; and since it came,
  or since anybody last started or stopped typing, it was quiet for as long as is asked of it. -/
  latest : ∃ opportunity, s.pending = some opportunity ∧ dispatch.opportunity = opportunity.serial ∧
    dispatch.contribution = opportunity.contribution ∧
    s.log.latest = some (dispatch.contribution, opportunity.at) ∧
    s.now < opportunity.at + OPPORTUNITY_LIFETIME_MS ∧
    s.log.heard + silence c s opportunity.yielded ≤ s.now
  leases : ∀ entry ∈ s.typing, entry.2.expires ≤ s.now
  /-- Nothing else is dispatched. -/
  idle : s.active = none
  /-- It was not dispatched well before. -/
  first : dispatch.opportunity ∉ s.log.succeeded

@[simp] theorem log_arm (delay : Option Nat) : (arm c s delay).log = s.log := by rw [arm_same]

/-- A step dispatches nothing, or what is due. -/
def Fires (c : Silence) (s t : Schedule τ) : Prop :=
  t.log.dispatches = s.log.dispatches ∨
    ∃ dispatch, t.log.dispatches = s.log.dispatches ++ [dispatch] ∧ Due c s dispatch

theorem log_finish (check : Check) : (finish c s check).log = s.log := log_arm none

theorem dispatches_interrupt : (interrupt c s).log.dispatches = s.log.dispatches := by
  rw [interrupt]
  split
  · split
    · rfl
    · rw [log_arm]
      rfl
  · rfl

theorem dispatches_hearTyping (client actor : String) (isTyping : Bool) :
    (hearTyping c s client actor isTyping).log.dispatches = s.log.dispatches := by
  rw [hearTyping]
  split
  · rfl
  · dsimp only
    split
    · split
      · rfl
      · exact dispatches_interrupt
    · exact dispatches_interrupt

theorem dispatches_receive (contribution : Contribution τ) :
    (receive c s contribution).log.dispatches = s.log.dispatches := by
  rw [receive]
  split
  · rfl
  · rw [log_arm]
    rfl

theorem dispatches_begin (admission : Admission) : (begin c s admission).log.dispatches = s.log.dispatches := by
  rw [begin]
  split
  · rfl
  · split
    · rfl
    · split
      · rfl
      · dsimp only
        split
        · rw [log_arm]
          rfl
        · split
          · rfl
          · split
            · rw [log_arm]
              rfl
            · rfl

theorem dispatches_dispatched (result : Except Unit Bool) :
    (s.dispatched c check result).log.dispatches = s.log.dispatches := by
  rw [dispatched]
  dsimp only
  split <;> split <;> rw [log_finish] <;> rfl

theorem Sound.fires_judge (h : Sound s) (hcheck : check ∈ s.checks) (hphase : check.dispatches = false)
    (turn : TurnContext) (decision : Except Unit (Option TurnDecision)) (fresh : Except Unit Admission) :
    Fires c s (s.judge c check turn decision fresh) := by
  rw [Schedule.judge]
  split
  · exact .inl (by rw [log_finish])
  · rename_i opportunity hcurrent
    obtain ⟨hopen, hpending, -, hcontroller, -, hlive⟩ := current_eq_some.1 hcurrent
    have held := h.held opportunity hpending
    have hlive : s.now < opportunity.at + OPPORTUNITY_LIFETIME_MS := by omega
    split
    · exact .inl (by rw [log_finish]; rfl)
    · split
      · exact .inl (by rw [log_finish]; rfl)
      · split
        · exact .inl (by rw [log_finish]; rfl)
        · exact .inl (by rw [log_finish]; rfl)
        · split
          · exact .inl (by rw [log_finish]; rfl)
          · split
            · exact .inl (by rw [log_finish]; rfl)
            · rename_i move _ hdue
              obtain ⟨hquiet, hleases⟩ := (due_le_iff (s := s) _).1 (Nat.not_lt.1 hdue)
              split
              · exact .inl (by rw [log_finish]; rfl)
              · exact .inl (by rw [log_finish]; rfl)
              · exact .inl (by rw [log_finish]; rfl)
              · exact .inr ⟨_, rfl, {
                  unclosed := hopen
                  latest := ⟨opportunity, hpending, rfl, rfl, held.latest, hlive, held.heard ▸ hquiet⟩
                  leases := hleases
                  idle := held.judging check hcheck hcontroller hphase
                  first := fun hserial ↦ absurd (held.spent hserial) (Nat.not_le.2 hlive) }⟩

/-! ## Runs -/

theorem mem_of_waiting {controller : Nat} (h : s.waiting controller = some check) : check ∈ s.checks :=
  List.mem_of_find?_eq_some h

theorem Sound.create (paused : Bool) (now : Nat) : Sound (create paused now : Schedule τ) where
  controllers := .nil
  checks := nofun
  aborted := nofun
  active := nofun
  dispatching := nofun
  succeeded := nofun
  closed := nofun
  held := nofun
  armed := nofun

/-- **One step** keeps what is sound, and dispatches nothing but what is due. -/
theorem Sound.step (h : Sound s) {act : Act τ} (hstep : step c s act = some t) : Sound t ∧ Fires c s t := by
  cases act with
  | pass ms => obtain rfl := Option.some.inj hstep; exact ⟨⟨h.toCore.pass ms, h.armed⟩, .inl rfl⟩
  | receive contribution =>
    cases hstep
    exact ⟨h.receive contribution, .inl (dispatches_receive contribution)⟩
  | typing client actor isTyping =>
    cases hstep
    exact ⟨h.hearTyping client actor isTyping, .inl (dispatches_hearTyping client actor isTyping)⟩
  | depart client =>
    cases hstep
    exact ⟨(h.toCore.same _ _ _ _ _).arm none, .inl (by rw [depart, log_arm])⟩
  | replied => obtain rfl := Option.some.inj hstep; exact ⟨h.same _ _ _ _, .inl rfl⟩
  | cancel => obtain rfl := Option.some.inj hstep; exact ⟨.cancel h.toCore, .inl rfl⟩
  | pause value =>
    cases hstep
    exact ⟨.cancel (h.toCore.same s.timer value _ _ _), .inl rfl⟩
  | close => obtain rfl := Option.some.inj hstep; exact ⟨.close h.toCore, .inl rfl⟩
  | fire admission =>
    rw [Schedule.step] at hstep
    split at hstep
    · cases hstep
      exact ⟨.begin (h.toCore.same none _ _ _ _) admission, .inl (dispatches_begin admission)⟩
    · cases hstep
  | judged controller decision fresh =>
    rw [Schedule.step] at hstep
    split at hstep
    · rename_i check hwaiting
      split at hstep
      · rename_i turn hphase
        cases hstep
        have hjudging : check.dispatches = false := by rw [Check.dispatches, hphase]
        exact ⟨.judge h.toCore (mem_of_waiting hwaiting) hjudging turn decision fresh,
          h.fires_judge (mem_of_waiting hwaiting) hjudging turn decision fresh⟩
      · cases hstep
    · cases hstep
  | started controller =>
    rw [Schedule.step] at hstep
    split at hstep
    · rename_i check hwaiting
      split at hstep
      · cases hstep
        refine ⟨h.started check, .inl ?_⟩
        rw [Schedule.started]
        split <;> rfl
      · cases hstep
    · cases hstep
  | dispatched controller result =>
    rw [Schedule.step] at hstep
    split at hstep
    · rename_i check hwaiting
      split at hstep
      · cases hstep
        exact ⟨.dispatched h.toCore (mem_of_waiting hwaiting) result, .inl (dispatches_dispatched result)⟩
      · cases hstep
    · cases hstep

theorem Core.one_dispatch (h : Core s) : (s.checks.filter Check.dispatches).length ≤ 1 := by
  have hnodup : ((s.checks.filter Check.dispatches).map (·.controller)).Nodup :=
    h.controllers.sublist (List.filter_sublist.map _)
  have hactive : ∀ n ∈ (s.checks.filter Check.dispatches).map (·.controller), n = s.active.getD 0 := by
    rw [List.forall_mem_map]
    intro check hmem
    obtain ⟨hmem, hphase⟩ := List.mem_filter.1 hmem
    rw [h.dispatching check hmem hphase]
    rfl
  rw [List.eq_replicate_of_mem hactive, List.nodup_replicate, List.length_map] at hnodup
  exact hnodup

/-- **The initiative fires once, late enough, and never gets stuck.**  In every run at most one dispatch
is in flight, each step dispatches nothing but a contribution that is due and was not dispatched well
before, and an opportunity that waits has a timer or a check at work on it. -/
theorem initiative_fires {paused : Bool} {now : Nat} {acts : List (Act τ)} {s : Schedule τ}
    (run : Runs (step c) (create paused now) acts s) : (s.checks.filter Check.dispatches).length ≤ 1 ∧
      (∀ act t, step c s act = some t → t.log.dispatches = s.log.dispatches ∨
        ∃ dispatch, t.log.dispatches = s.log.dispatches ++ [dispatch] ∧ Due c s dispatch) ∧
      (s.closed = false → ∀ opportunity, s.pending = some opportunity → s.timer.isSome = true ∨
        ∃ check ∈ s.checks, opportunity.controller = some check.controller ∧
          check.opportunity = opportunity.serial) := by
  have sound : Sound s := run.invariant (.create paused now) fun _ _ _ h hstep ↦ (h.step hstep).1
  refine ⟨sound.one_dispatch, fun act t hstep ↦ (sound.step hstep).2, fun _ opportunity hpending ↦ ?_⟩
  cases hcontroller : opportunity.controller with
  | none => exact .inl (sound.armed opportunity hpending hcontroller)
  | some n =>
    obtain ⟨-, check, hmem, rfl, hserial⟩ := (sound.held opportunity hpending).owned n hcontroller
    exact .inr ⟨check, hmem, rfl, hserial⟩

/-- A contribution of one person, dispatched after a second and a half. -/
def sampleActs : List (Act Unit) :=
  [.receive { id := "m1", actor := "ana", value := () }, .pass 1500, .fire .ready,
    .judged 1 (.ok (some (.move .respond))) (.ok .ready), .started 1]

def sample : Schedule Unit :=
  (sampleActs.foldlM (step .default) (create false 0)).getD (create false 0)

theorem initiative_fires_sample : (sample.checks.filter Check.dispatches).length ≤ 1 ∧
    sample.log.dispatches.length = 1 ∧ sample.active = some 1 := by
  have run : Runs (step .default) (create false 0) sampleActs sample := runs_iff_foldlM.2 (by decide)
  exact ⟨(initiative_fires run).1, by decide, by decide⟩

end Chopin.Chat.Schedule
