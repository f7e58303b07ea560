import Chopin.Answers.Store
import Mathlib.Data.List.Dedup

/-!
# The invariant of deliveries

What a delivery has in hand was read some time ago, and people answer and reopen in between.  `WorkOk`
says what of it is still so: an answer that is still current has the row it had.  Deliveries to one
document never overlap, so a delivery's own calls are the only ones that claim, release and mark.
-/

set_option autoImplicit false

namespace Chopin.Answers

/-! ## Decisions -/

/-- What was ever saved of a decision is no newer than its record, which still holds the newest unless
it was reopened. -/
def Known (plan : Plan) (settled : List Answer) : Prop :=
  ∀ answer ∈ settled, ∃ record, plan.lookup answer.id = some record ∧
    answer.generation ≤ decisionGeneration record ∧
    (answer.generation = decisionGeneration record → record.status = .answered ∨ record.status = .discarded)

theorem current_iff {plan : Plan} {answer : Answer} :
    current plan answer = true ↔ ∃ record, plan.lookup answer.id = some record ∧
      record.status = .answered ∧ record.owner.any (· != "") = true ∧
      decisionGeneration record = answer.generation := by
  rw [current, Option.any_eq_true]
  refine exists_congr fun record ↦ and_congr_right fun _ ↦ ?_
  rw [Record.holds, Bool.and_eq_true, Bool.and_eq_true, beq_iff_eq, beq_iff_eq, and_assoc]

/-- A current answer is the newest that was saved of its decision. -/
theorem Known.newest {plan : Plan} {settled : List Answer} (known : Known plan settled) {answer saved : Answer}
    (hcurrent : current plan answer = true) (hsaved : saved ∈ settled) (hid : saved.id = answer.id) :
    saved.generation ≤ answer.generation := by
  obtain ⟨record, hrecord, -, -, hgeneration⟩ := current_iff.1 hcurrent
  obtain ⟨record', hrecord', hle, -⟩ := known saved hsaved
  rw [hid, hrecord] at hrecord'
  cases hrecord'
  omega

/-! ## What a delivery has in hand -/

/-- The context in which work was read: the plan, the rows, what was saved and claimed. -/
def WorkOk (s : Machine) : Work → Prop
  | .group turn answers => (∃ process, (turn, process) ∈ s.claims) ∧ (∀ answer ∈ answers, answer ∈ s.settled) ∧
      (∀ answer, Waits s.rows turn answer → answer ∈ answers) ∧
      ∀ answer ∈ answers, current s.plan answer = true → Held s.rows turn answer
  | .fresh answers => (∀ answer ∈ answers, answer ∈ s.settled) ∧
      ∀ answer ∈ answers, current s.plan answer = true → Free s.rows answer

/-- Two pieces of work have no row in common. -/
def Apart : Work → Work → Prop
  | .group turn _, .group other _ => turn ≠ other
  | .fresh answers, .fresh others => ∀ answer ∈ answers, ∀ other ∈ others, answer.id ≠ other.id
  | _, _ => True

/-- What `start` was last told, of the answers that are still current. -/
def ComposedOk (s : Machine) (turn : String) (answers : List Answer) : Option (Option Instruction) → Prop
  | none => True
  | some none => ∀ answer ∈ answers, current s.plan answer = false
  | some (some instruction) => (∀ answer ∈ answers, current s.plan answer = true → answer ∈ instruction.live) ∧
      (∀ answer ∈ instruction.live, answer ∈ answers) ∧
      ∀ answer ∈ instruction.live, ∀ entry ∈ s.accepted, answer ∈ entry.carried → entry.turn = turn

/-- Why a turn's rows may be marked. -/
def Justified (s : Machine) (turn : String) : Prop :=
  (∃ entry ∈ s.accepted, entry.turn = turn) ∨ turn ∈ s.dropped ∨
    ∀ answer, Waits s.rows turn answer → current s.plan answer = false

/-- A turn that was claimed by this process and never accepted. -/
def Unstarted (s : Machine) (turn : String) : Prop :=
  (turn, s.process) ∈ s.claims ∧ ∀ entry ∈ s.accepted, entry.turn ≠ turn

def StageOk (s : Machine) : Stage → Prop
  | .waiting => True
  | .claiming answers => WorkOk s (.fresh answers)
  | .starting turn answers claimedNow composed => WorkOk s (.group turn answers) ∧
      (claimedNow = true → Unstarted s turn) ∧ ComposedOk s turn answers composed
  | .marking turn => (∃ process, (turn, process) ∈ s.claims) ∧ Justified s turn
  | .releasing turn => Unstarted s turn

/-- The work that a stage is about. -/
def Stage.work : Stage → Option Work
  | .waiting => none
  | .claiming answers => some (.fresh answers)
  | .starting turn answers _ _ => some (.group turn answers)
  | .marking turn | .releasing turn => some (.group turn [])

structure DeliveryOk (s : Machine) (delivery : Delivery) : Prop where
  stage : StageOk s delivery.stage
  rest : ∀ work ∈ delivery.rest, WorkOk s work
  apart : (delivery.stage.work.toList ++ delivery.rest).Pairwise Apart

/-! ## The invariant -/

/-- What holds whatever a delivery has in hand. -/
structure Core (s : Machine) : Prop where
  known : Known s.plan s.settled
  /-- A row is of an answer that was saved, and its turn claimed it. -/
  rows : ∀ id row, s.rows.lookup id = some row → { id := id, generation := row.generation } ∈ s.settled ∧
    ∀ turn, row.turnId = some turn → ∃ process, (turn, process) ∈ s.claims
  keys : (s.rows.map (·.1)).Nodup
  claims : (s.claims.map (·.1)).Nodup
  processes : ∀ claim ∈ s.claims, claim.2 ≤ s.process
  turns : (s.accepted.map (·.turn)).Nodup
  accepted : ∀ entry ∈ s.accepted, (∃ process, (entry.turn, process) ∈ s.claims) ∧
    (∀ answer ∈ entry.carried, answer ∈ s.settled) ∧
    (∀ answer, Waits s.rows entry.turn answer → current s.plan answer = true → answer ∈ entry.carried) ∧
    ∀ answer ∈ entry.carried, current s.plan answer = true → Held s.rows entry.turn answer
  /-- No answer is in two accepted turns. -/
  once : ∀ left ∈ s.accepted, ∀ right ∈ s.accepted, ∀ answer ∈ left.carried, answer ∈ right.carried →
    left.turn = right.turn

structure Sound (s : Machine) : Prop extends Core s where
  delivery : ∀ delivery, s.delivery = some delivery → DeliveryOk s delivery

theorem Sound.empty : Sound Machine.empty where
  known := by simp [Known, Machine.empty]
  rows := by simp [Machine.empty]
  keys := .nil
  claims := .nil
  processes := by simp [Machine.empty]
  turns := .nil
  accepted := by simp [Machine.empty]
  once := by simp [Machine.empty]
  delivery := by simp [Machine.empty]

/-! ## Steps that leave the work in hand -/

/-- What a step must leave, so that the work a delivery has in hand stays as it is. -/
structure Leaves (s t : Machine) (work : Work) : Prop where
  settled : ∀ answer ∈ s.settled, answer ∈ t.settled
  claims : ∀ claim ∈ s.claims, claim ∈ t.claims
  still : ∀ answer ∈ s.settled, current t.plan answer = true → current s.plan answer = true
  rows : match work with
    | .group turn answers => (∀ answer, Waits t.rows turn answer → Waits s.rows turn answer) ∧
        ∀ answer ∈ answers, current t.plan answer = true → Held s.rows turn answer → Held t.rows turn answer
    | .fresh answers => ∀ answer ∈ answers, current t.plan answer = true → Free s.rows answer →
        Free t.rows answer

theorem WorkOk.leaves {s t : Machine} {work : Work} (ok : WorkOk s work) (leaves : Leaves s t work) :
    WorkOk t work := by
  cases work with
  | group turn answers =>
    obtain ⟨⟨process, hclaim⟩, hsettled, hwaits, hheld⟩ := ok
    refine ⟨⟨process, leaves.claims _ hclaim⟩, fun answer hmem ↦ leaves.settled answer (hsettled answer hmem),
      fun answer h ↦ hwaits answer (leaves.rows.1 answer h), fun answer hmem hcurrent ↦ ?_⟩
    exact leaves.rows.2 answer hmem hcurrent
      (hheld answer hmem (leaves.still answer (hsettled answer hmem) hcurrent))
  | fresh answers =>
    obtain ⟨hsettled, hfree⟩ := ok
    refine ⟨fun answer hmem ↦ leaves.settled answer (hsettled answer hmem), fun answer hmem hcurrent ↦ ?_⟩
    exact leaves.rows answer hmem hcurrent
      (hfree answer hmem (leaves.still answer (hsettled answer hmem) hcurrent))

/-! ## The work that is read -/

section read

variable {platform : Platform} {s : Machine}

variable {entry : String × Row}

theorem mem_pending (h : entry ∈ s.rows.pending platform) : entry ∈ s.rows ∧ entry.2.deliveredAt = none := by
  rw [Rows.pending, List.mem_mergeSort, List.mem_filter, Option.isNone_iff_eq_none] at h
  exact h

theorem pending_of_mem (hmem : entry ∈ s.rows) (hnone : entry.2.deliveredAt = none) :
    entry ∈ s.rows.pending platform := by
  rw [Rows.pending, List.mem_mergeSort, List.mem_filter, hnone]
  exact ⟨hmem, rfl⟩

theorem Core.lookup (core : Core s) (h : entry ∈ s.rows) : s.rows.lookup entry.1 = some entry.2 := by
  have hkeys := core.keys
  generalize s.rows = rows at h hkeys
  induction rows with
  | nil => cases h
  | cons first rest ih =>
    rw [List.map_cons, List.nodup_cons] at hkeys
    rw [List.lookup_cons]
    rcases List.mem_cons.1 h with rfl | hrest
    · rw [beq_self_eq_true]
    · have hne : (entry.1 == first.1) = false :=
        beq_eq_false_iff_ne.2 fun heq ↦ hkeys.1 (heq ▸ List.mem_map_of_mem hrest)
      rw [hne]
      exact ih hrest hkeys.2

theorem Core.groups (core : Core s) : ∀ work ∈ groups (s.rows.pending platform), WorkOk s work := by
  intro work hwork
  obtain ⟨turn, hturn, rfl⟩ := List.mem_map.1 hwork
  have hentries : ∀ answer ∈ ((s.rows.pending platform).filter (·.2.turnId == some turn)).map answerOf,
      ∃ row, s.rows.lookup answer.id = some row ∧ row.generation = answer.generation ∧
        row.turnId = some turn := by
    intro answer hanswer
    obtain ⟨entry, hentry, rfl⟩ := List.mem_map.1 hanswer
    obtain ⟨hpending, hentryTurn⟩ := List.mem_filter.1 hentry
    exact ⟨entry.2, core.lookup (mem_pending hpending).1, rfl, beq_iff_eq.1 hentryTurn⟩
  refine ⟨?_, fun answer hanswer ↦ ?_, fun answer hwaits ↦ ?_, fun answer hanswer _ ↦ hentries answer hanswer⟩
  · obtain ⟨entry, hentry, hentryTurn⟩ := List.mem_filterMap.1 (Entries.mem_distinct.1 hturn)
    exact (core.rows _ _ (core.lookup (mem_pending hentry).1)).2 turn hentryTurn
  · obtain ⟨row, hrow, hgeneration, -⟩ := hentries answer hanswer
    have hsettled := (core.rows _ _ hrow).1
    rwa [hgeneration] at hsettled
  · obtain ⟨row, hrow, hgeneration, hwaits⟩ := hwaits
    simp only [Row.waitsFor, Bool.and_eq_true, Option.isNone_iff_eq_none] at hwaits
    refine List.mem_map.2 ⟨(answer.id, row), List.mem_filter.2 ⟨?_, hwaits.1⟩, ?_⟩
    · exact pending_of_mem (Entries.mem_of_lookup hrow) hwaits.2
    · rw [answerOf, hgeneration]

/-- The answers that nobody has claimed. -/
def freeAnswers (rows : Rows) : List Answer := (rows.filter (·.2.turnId.isNone)).map answerOf

theorem Core.free (core : Core s) {answer : Answer} (h : answer ∈ freeAnswers (s.rows.pending platform)) :
    Free s.rows answer ∧ answer ∈ s.settled := by
  obtain ⟨entry, hentry, rfl⟩ := List.mem_map.1 h
  obtain ⟨hpending, hturn⟩ := List.mem_filter.1 hentry
  obtain ⟨hmem, hdelivered⟩ := mem_pending hpending
  have hlookup := core.lookup hmem
  refine ⟨⟨entry.2, hlookup, ?_⟩, (core.rows _ _ hlookup).1⟩
  rw [Row.free, hdelivered, hturn]
  simp [answerOf]

theorem Core.chunks (core : Core s) : ∀ work ∈ chunks (freeAnswers (s.rows.pending platform)), WorkOk s work := by
  intro work hwork
  obtain ⟨index, -, rfl⟩ := List.mem_map.1 hwork
  have hsub : ∀ answer ∈ ((freeAnswers (s.rows.pending platform)).drop (index * MAX_PER_TURN)).take MAX_PER_TURN,
      answer ∈ freeAnswers (s.rows.pending platform) :=
    fun answer h ↦ List.mem_of_mem_drop (List.mem_of_mem_take h)
  exact ⟨fun answer h ↦ (core.free (hsub answer h)).2, fun answer h _ ↦ (core.free (hsub answer h)).1⟩

theorem Core.nodup_free (core : Core s) : ((freeAnswers (s.rows.pending platform)).map (·.id)).Nodup := by
  have hids : (freeAnswers (s.rows.pending platform)).map (·.id) =
      ((s.rows.pending platform).filter (·.2.turnId.isNone)).map (·.1) := by
    rw [freeAnswers, List.map_map]
    rfl
  rw [hids]
  refine List.Nodup.sublist (List.filter_sublist.map _) ?_
  refine ((List.mergeSort_perm _ _).map _).nodup_iff.2 ?_
  exact core.keys.sublist (List.filter_sublist.map _)

/-- Slices at different places have no decision in common. -/
theorem apart_slices {answers : List Answer} (hnodup : (answers.map (·.id)).Nodup) {left right : Nat}
    (hless : left < right) : Apart (.fresh ((answers.drop (left * MAX_PER_TURN)).take MAX_PER_TURN))
      (.fresh ((answers.drop (right * MAX_PER_TURN)).take MAX_PER_TURN)) := by
  intro answer hanswer other hother hid
  rw [List.take_drop] at hanswer
  have hbefore : answer ∈ answers.take (right * MAX_PER_TURN) := by
    refine (List.take_prefix_take_left ?_).subset (List.mem_of_mem_drop hanswer)
    calc left * MAX_PER_TURN + MAX_PER_TURN = (left + 1) * MAX_PER_TURN := (Nat.succ_mul _ _).symm
      _ ≤ right * MAX_PER_TURN := Nat.mul_le_mul_right _ hless
  have hafter := List.mem_of_mem_take hother
  rw [← List.take_append_drop (right * MAX_PER_TURN) answers, List.map_append, List.nodup_append] at hnodup
  exact hnodup.2.2 _ (List.mem_map_of_mem hbefore) _ (List.mem_map_of_mem hafter) hid

theorem Core.apart (core : Core s) : (works (s.rows.pending platform)).Pairwise Apart := by
  rw [works, List.pairwise_append]
  refine ⟨?_, ?_, ?_⟩
  · exact List.pairwise_map.2 ((Entries.nodup_distinct _).imp id)
  · refine List.pairwise_map.2 (List.pairwise_lt_range.imp fun hless ↦ ?_)
    exact apart_slices core.nodup_free hless
  · intro group hgroup chunk hchunk
    obtain ⟨turn, -, rfl⟩ := List.mem_map.1 hgroup
    obtain ⟨index, -, rfl⟩ := List.mem_map.1 hchunk
    trivial

/-- What is read of the rows that wait is so. -/
theorem Core.works (core : Core s) : ∀ work ∈ works (s.rows.pending platform), WorkOk s work := by
  intro work hwork
  rcases List.mem_append.1 hwork with hgroup | hchunk
  · exact core.groups work hgroup
  · exact core.chunks work hchunk

end read

end Chopin.Answers
