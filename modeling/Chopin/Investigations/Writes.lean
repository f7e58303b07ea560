import Chopin.Investigations.Actions

/-!
# What a write does to a record

A call reads a record in one stretch and writes in another, and the store takes the write only at the
revision that was read.  `Prepared` is what a flight keeps between the two; with it every write is a
`Move` of the very record the call had read.
-/

set_option autoImplicit false

open Versioned (Seen)

namespace Chopin.Investigations

/-! ## Moves -/

/-- A write of the call over a record, with the readings of the clock in the attempt that made it. -/
structure Move (call : Call) (clock : Clock) (before after : Investigation) : Prop where
  id : after.id = before.id
  revision : after.revision = before.revision + 1
  spike : after.spike.isSome = before.spike.isSome
  generation : after.generation = before.generation + call.claims.toNat
  begins : call.claims = true → before.state = .queued ∧ after.state = .running
  work : Fenced call clock before ∨ Untouched before after
  completed : before.state = .completed → after.state = .completed ∧ after.result = before.result ∧
    after.generation = before.generation ∧ after.childId = before.childId
  receipts : ∀ receipt, (before.receipts.lookup receipt).isSome = true →
    (after.receipts.lookup receipt).isSome = true
  receipt : ∀ id receipt, call.receipt = some (id, receipt) → before.id = id ∧
    before.receipts.lookup receipt = none ∧ (after.receipts.lookup receipt).isSome = true
  whole : Whole after

variable {rules : Rules} {call : Call} {clock : Clock} {before after value : Investigation}

/-- The receipt is of the record that the call is about. -/
theorem receipt_named {id other receipt : String} {action : Action}
    (htask : call.task rules = .ok (.mutate id action)) (h : call.receipt = some (other, receipt)) : other = id := by
  cases call with
  | select | decide =>
    obtain ⟨_, -, htask⟩ := Except.bind_eq_ok.1 htask
    cases htask
    cases h
    rfl
  | create | setBuildBlocker | authorize | claim | renew | candidate | complete | stop | failClaim | retry
  | retrySpike | recover | mark => cases h

theorem Acted.move (whole : Whole before) (acted : Acted call clock before value)
    (named : ∀ id receipt, call.receipt = some (id, receipt) → before.id = id) :
    Move call clock before (value.bumped clock).read where
  id := acted.id
  revision := congrArg (· + 1) acted.revision
  spike := acted.spike
  generation := acted.generation
  begins := acted.begins
  work := by
    refine acted.work.imp_right fun untouched ↦ ⟨untouched.progress, ?_, ?_, untouched.failed⟩
    · exact (congrArg (Option.map Result.trimmed) untouched.candidate).trans whole.trimmed.1
    · exact (congrArg (Option.map Result.trimmed) untouched.result).trans whole.trimmed.2
  completed h := by
    refine ⟨acted.completed.2 h, ?_, ?_, acted.childId⟩
    · exact (congrArg (Option.map Result.trimmed) acted.result).trans whole.trimmed.2
    · refine acted.generation.trans ?_
      cases hclaims : call.claims with
      | false => rfl
      | true =>
        rw [(acted.begins hclaims).1] at h
        cases h
  receipts := acted.receipts
  receipt id receipt h := ⟨named id receipt h, acted.receipt id receipt h⟩
  whole := by
    have hresult : (value.result.map Result.trimmed).isSome = before.result.isSome := by
      rw [acted.result, Option.isSome_map]
    have hspike : value.spike = none ↔ before.spike = none := by
      rw [← Option.isNone_iff_eq_none, ← Option.isNone_iff_eq_none, ← Option.not_isSome, ← Option.not_isSome,
        acted.spike]
    refine ⟨fun h ↦ acted.candidate (by rwa [← Option.isSome_map]), acted.expiry, ?_, ?_, ?_, ?_, ?_⟩
    · exact (hresult ▸ whole.result).trans acted.completed.symm
    · show value.childId.isSome = true ↔ value.state = .completed ∧ value.spike = none
      rw [acted.childId, whole.child, acted.completed, hspike]
    · exact ⟨map_trimmed_trimmed _, map_trimmed_trimmed _⟩
    · rcases acted.decisions with hsame | ⟨decision, hnew, -, hreceipt⟩
      · intro found hmem
        exact acted.receipts _ (whole.receipts found (hsame ▸ hmem))
      · intro found hmem
        rcases List.mem_append.1 (hnew ▸ hmem) with hold | hlast
        · exact acted.receipts _ (whole.receipts found hold)
        · rw [List.mem_singleton.1 hlast]
          exact hreceipt
    · rcases acted.decisions with hsame | ⟨decision, hnew, hnone, -⟩
      · exact hsame ▸ whole.decisions
      · show (value.decisions.map (·.id)).Nodup
        rw [hnew, List.map_append, List.map_singleton, List.nodup_append]
        refine ⟨whole.decisions, by simp, fun id hold last hlast ↦ ?_⟩
        obtain ⟨found, hfound, rfl⟩ := List.mem_map.1 hold
        rintro rfl
        have hreceipt := whole.receipts found hfound
        rw [List.mem_singleton.1 hlast, hnone] at hreceipt
        cases hreceipt

/-- A flight computed a changed record from the one it read. -/
structure Acts (rules : Rules) (call : Call) (clock : Clock) (current value : Investigation) : Prop where
  task : ∃ id action acted, call.task rules = .ok (.mutate id action) ∧ current.id = id ∧
    action clock current = .ok acted ∧ acted ≠ current ∧ value = acted.bumped clock

/-- A flight computed a completed record from the one it read. -/
structure Completes (rules : Rules) (call : Call) (clock : Clock) (current value : Investigation) : Prop where
  task : ∃ id connectionId generation result,
    call.task rules = .ok (.complete id connectionId generation) ∧
    Claimed current connectionId generation (clock 0) ∧ current.candidate = some result ∧
    value = completing clock current result

theorem task_eq_complete {id connectionId : String} {generation : Nat}
    (h : call.task rules = .ok (.complete id connectionId generation)) :
    call = .complete id connectionId generation := by
  cases call with
  | complete => cases h; rfl
  | create | claim | renew | stop | failClaim | retry | retrySpike | recover | mark => cases h
  | setBuildBlocker | authorize | select | decide | candidate =>
    obtain ⟨_, -, h⟩ := Except.bind_eq_ok.1 h
    cases h

theorem task_eq_create {documentId requester brief id : String} {spike : Option Spike} {buildBlocker : Option String}
    (h : call.task rules = .ok (.create documentId requester brief id spike buildBlocker)) :
    call = .create documentId requester brief id spike buildBlocker := by
  cases call with
  | create => cases h; rfl
  | complete | claim | renew | stop | failClaim | retry | retrySpike | recover | mark => cases h
  | setBuildBlocker | authorize | select | decide | candidate =>
    obtain ⟨_, -, h⟩ := Except.bind_eq_ok.1 h
    cases h

/-- A completion's write; `childId` is none for a spike's. -/
theorem Completes.move (whole : Whole before) (completes : Completes rules call clock before value)
    (childId : Option String) (hchild : childId.isSome = true ↔ before.spike = none) :
    Move call clock before { value with childId }.read := by
  obtain ⟨id, connectionId, generation, result, htask, claimed, hcandidate, rfl⟩ := completes.task
  obtain rfl := task_eq_complete htask
  refine {
    id := rfl, revision := rfl, spike := rfl, generation := rfl, begins := nofun
    work := .inl (.inl ⟨connectionId, generation, rfl, claimed⟩)
    completed := fun h ↦ absurd h claimed.not_over.1
    receipts := fun _ h ↦ h, receipt := nofun, whole := ?_ }
  refine ⟨nofun, fun h ↦ absurd rfl h, ⟨fun _ ↦ rfl, fun _ ↦ rfl⟩, ?_, ⟨rfl, map_trimmed_trimmed (some result)⟩,
    whole.receipts, whole.decisions⟩
  exact hchild.trans ⟨fun h ↦ ⟨rfl, h⟩, And.right⟩

/-! ## The store -/

variable {moment : Moment} {records : Records} {saved : Investigation} {expected : Option Nat}

theorem save_written (h : save rules moment records value expected = .ok (.written saved)) :
    Versioned.current Investigation.revision records value.id = expected ∧ saved = value.read := by
  obtain ⟨_, -, h⟩ := Except.bind_eq_ok.1 h
  obtain ⟨_, -, h⟩ := Except.bind_eq_ok.1 h
  obtain ⟨_, -, h⟩ := Except.bind_eq_ok.1 h
  split at h
  · cases h
  · rename_i hcurrent
    obtain ⟨_, -, h⟩ := Except.bind_eq_ok.1 h
    split at h
    · cases h
    · rename_i parsed hparsed
      cases h
      exact ⟨Decidable.of_not_not hcurrent, investigationSchema_eq_some hparsed⟩

theorem publish_written {expected : Nat} (h : publish rules moment records value expected = .ok (.written saved)) :
    ∃ current childId, records.lookup value.id = some current ∧ current.childId = none ∧
      current.revision = expected ∧ value.spike = none ∧ saved = { value with childId := some childId }.read := by
  obtain ⟨_, hrefused, h⟩ := Except.bind_eq_ok.1 h
  obtain ⟨_, -, h⟩ := Except.bind_eq_ok.1 h
  have hspike := (Bool.or_eq_false_iff.1 (refuse_eq_ok.1 hrefused)).2
  split at h
  · cases h
  · cases h
  · rename_i channel current _ hlookup
    obtain ⟨_, -, h⟩ := Except.bind_eq_ok.1 h
    split at h
    · cases h
    · rename_i hchild
      split at h
      · cases h
      · rename_i hrevision
        obtain ⟨_, -, h⟩ := Except.bind_eq_ok.1 h
        obtain ⟨_, -, h⟩ := Except.bind_eq_ok.1 h
        dsimp only at h
        split at h
        · cases h
        · rename_i parsed hparsed
          obtain ⟨_, -, h⟩ := Except.bind_eq_ok.1 h
          cases h
          exact ⟨current, _, hlookup, Option.not_isSome_iff_eq_none.1 hchild,
            Decidable.of_not_not hrevision, by simpa using hspike, investigationSchema_eq_some hparsed⟩

/-! ## Flights -/

/-- What a flight is about to write was computed from a record that the store had. -/
def Prepared (rules : Rules) (records : Records) (flight : Flight) : Prop :=
  match flight.phase with
  | .reading | .listing => True
  | .saving clock none value => ∃ documentId requester brief id spike buildBlocker,
      flight.call = .create documentId requester brief id spike buildBlocker ∧
      value = created documentId requester brief id spike buildBlocker clock
  | .saving clock (some current) value => Whole current ∧
      Seen Investigation.revision records current.id current ∧
      (Acts rules flight.call clock current value ∨
        Completes rules flight.call clock current value ∧ current.spike.isSome = true)
  | .publishing clock current value => Whole current ∧
      Seen Investigation.revision records current.id current ∧
      Completes rules flight.call clock current value

/-- A record as a flight creates it. -/
structure Creates (call : Call) (write : Write) : Prop where
  call : ∃ documentId requester brief id spike buildBlocker,
    call = .create documentId requester brief id spike buildBlocker
  revision : write.value.revision = 0
  generation : write.value.generation = 0
  childId : write.value.childId = none
  child : write.child = none
  whole : Whole write.value

/-- A record as a flight replaces it; a child is created when the record comes to name one. -/
structure Replaces (call : Call) (clock : Clock) (before : Investigation) (write : Write) : Prop where
  move : Move call clock before write.value
  child : before.childId = none ∧ write.value.childId = write.child ∨
    write.child = none ∧ write.value.childId = before.childId

theorem whole_created (documentId requester brief id : String) (spike : Option Spike)
    (buildBlocker : Option String) (clock : Clock) :
    Whole (created documentId requester brief id spike buildBlocker clock).read where
  candidate := nofun
  expiry h := absurd rfl h
  result := ⟨nofun, nofun⟩
  child := ⟨nofun, fun h ↦ nomatch h.1⟩
  trimmed := ⟨rfl, rfl⟩
  receipts := nofun
  decisions := .nil

theorem wrote_eq_some {attempt : Nat} {child : Bool} {answer : Except Failure Saved} {write : Write}
    (h : (wrote expected attempt child answer).1 = some write) :
    answer = .ok (.written write.value) ∧ write.child = if child then write.value.childId else none := by
  rw [wrote.eq_def] at h
  split at h
  · cases h
  · cases h
  · cases h
  · cases h
    exact ⟨rfl, rfl⟩

/-- What the actions and the completion leave of a record's identity. -/
theorem Acts.id (whole : Whole before) (acts : Acts rules call clock before value) : value.id = before.id := by
  obtain ⟨_, action, acted, htask, -, hacted, hne, rfl⟩ := acts.task
  exact (acted_of_task whole htask hacted hne).id

theorem Completes.id (completes : Completes rules call clock before value) : value.id = before.id := by
  obtain ⟨_, _, _, _, _, _, _, rfl⟩ := completes.task
  rfl

theorem Completes.childId (whole : Whole before) (completes : Completes rules call clock before value) :
    value.childId = none ∧ before.childId = none := by
  obtain ⟨_, _, _, _, _, claimed, _, rfl⟩ := completes.task
  have hnone : before.childId = none :=
    Option.not_isSome_iff_eq_none.1 fun h ↦ claimed.not_over.1 (whole.child.1 h).1
  exact ⟨hnone, hnone⟩

/-- **Every write creates a record or moves the one that is stored.** -/
theorem stretch_write {flight : Flight} {write : Write} (prepared : Prepared rules records flight)
    (h : (stretch rules records moment flight).1 = some write) :
    records.lookup write.value.id = none ∧ Creates flight.call write ∨
      ∃ before, records.lookup write.value.id = some before ∧ Replaces flight.call flight.phase.clock before write := by
  rw [stretch.eq_def] at h
  rw [Prepared.eq_def] at prepared
  split at h <;> rename_i hphase <;> rw [hphase] at prepared ⊢
  · cases h
  · cases h
  · rename_i clock current value
    obtain ⟨hsave, hchild⟩ := wrote_eq_some h
    obtain ⟨hcurrent, hsaved⟩ := save_written hsave
    cases current with
    | none =>
      left
      obtain ⟨documentId, requester, brief, id, spike, buildBlocker, hcall, rfl⟩ := prepared
      rw [hsaved]
      refine ⟨Option.map_eq_none_iff.1 hcurrent, ⟨_, _, _, _, _, _, hcall⟩, ?_, ?_, ?_, hchild, ?_⟩
      · rw [hsaved]; rfl
      · rw [hsaved]; rfl
      · rw [hsaved]; rfl
      · rw [hsaved]; exact whole_created ..
    | some current =>
      right
      obtain ⟨whole, seen, hcomputed⟩ := prepared
      have hid : value.id = current.id := hcomputed.elim (Acts.id whole) (Completes.id ·.1)
      have hstored := seen.stored (hid ▸ hcurrent)
      refine ⟨current, by rw [hsaved]; exact hid ▸ hstored, ?_⟩
      rcases hcomputed with acts | ⟨completes, hspike⟩
      · obtain ⟨_, action, acted, htask, hnamed, hacted, hne, rfl⟩ := acts.task
        have hacts := acted_of_task whole htask hacted hne
        refine ⟨?_, .inr ⟨hchild, by rw [hsaved]; exact hacts.childId⟩⟩
        rw [hsaved]
        exact hacts.move whole fun id receipt h ↦ hnamed.trans (receipt_named htask h).symm
      · obtain ⟨hnone, hbefore⟩ := completes.childId whole
        have hmove := completes.move whole none
          ⟨nofun, fun h ↦ by rw [h] at hspike; cases hspike⟩
        rw [show { value with childId := none } = value by rw [← hnone]] at hmove
        exact ⟨hsaved ▸ hmove, .inr ⟨hchild, by rw [hsaved, hbefore]; exact hnone⟩⟩
  · rename_i clock current value
    right
    obtain ⟨whole, seen, completes⟩ := prepared
    split at h
    · obtain ⟨hpublish, hchild⟩ := wrote_eq_some h
      obtain ⟨stored, childId, hstored, hnone, hrevision, hspike, hsaved⟩ := publish_written hpublish
      have hid : value.id = current.id := completes.id
      have hcurrent := seen.stored (by rw [Versioned.current, ← hid, hstored, ← hrevision]; rfl)
      rw [← hid, hstored] at hcurrent
      obtain rfl := Option.some.inj hcurrent
      refine ⟨stored, by rw [hsaved]; exact hstored, ?_, .inl ⟨hnone, by rw [hchild]; rfl⟩⟩
      rw [hsaved]
      refine completes.move whole _ ⟨fun _ ↦ ?_, fun _ ↦ rfl⟩
      obtain ⟨_, _, _, _, _, _, _, rfl⟩ := completes.task
      exact hspike
    · cases h

end Chopin.Investigations
