import Chopin.Investigations.Writes
import Chopin.Lib.Runs

/-!
# Runs of the investigation service

Any number of calls, by any number of connections, each between its own awaits.  `Sound` is what every
stretch keeps; `machine` reads off it what an investigation is: a fenced state machine, whose every change
is the move of one call over the record that the call had read.
-/

set_option autoImplicit false

open Versioned (Seen)

namespace Chopin.Investigations

variable {rules : Rules}

/-- The call that an event writes for, the readings of its attempt, and what it writes. -/
def written (rules : Rules) (s : Service) : Event → Option (Call × Clock × Write)
  | .start _ => none
  | .resume i moment =>
    match s.flights[i]? with
    | some (some flight) =>
      (stretch rules s.records moment flight).1.map fun write ↦ (flight.call, flight.phase.clock, write)
    | _ => none

/-! ## The invariant -/

structure Sound (rules : Rules) (s : Service) : Prop where
  stored : ∀ id value, s.records.lookup id = some value → value.id = id ∧ Whole value
  flights : ∀ flight, some flight ∈ s.flights → Prepared rules s.records flight
  /-- The children are those that the records name. -/
  children : ∀ id, s.children.filter (·.1 == id) =
    ((s.records.lookup id).bind (·.childId)).toList.map fun child ↦ (id, child)
  applied : s.applied.Nodup
  receipts : ∀ entry ∈ s.applied, ∃ value, s.records.lookup entry.1 = some value ∧
    (value.receipts.lookup entry.2).isSome = true

theorem Sound.empty : Sound rules Service.empty where
  stored := by simp [Service.empty]
  flights := by simp [Service.empty]
  children _ := rfl
  applied := .nil
  receipts := by simp [Service.empty]

/-! ## What a call computes from what it reads -/

variable {records : Records} {moment : Moment} {flight : Flight} {attempt : Nat} {phase : Phase}

variable {value : Investigation}

variable {id : String}

theorem get_eq_some (h : records.get moment id = some value) :
    records.lookup id = some value := (Option.filter_eq_some_iff.1 h).1

theorem readMutate_prepared {action : Action}
    (stored : ∀ id value, records.lookup id = some value → value.id = id ∧ Whole value)
    (htask : flight.call.task rules = .ok (.mutate id action))
    (h : readMutate records moment flight.attempt id action = .again attempt phase) :
    Prepared rules records { flight with attempt, phase } := by
  rw [readMutate] at h
  split at h
  · cases h
  · rename_i current hget
    split at h
    · cases h
    · rename_i value hvalue
      split at h
      · cases h
      · rename_i hne
        cases h
        obtain ⟨hid, whole⟩ := stored id current (get_eq_some hget)
        exact ⟨whole, .read (hid ▸ get_eq_some hget), .inl ⟨_, _, _, htask, hid, hvalue, hne, rfl⟩⟩

theorem readComplete_prepared {connectionId : String} {generation : Nat}
    (stored : ∀ id value, records.lookup id = some value → value.id = id ∧ Whole value)
    (htask : flight.call.task rules = .ok (.complete id connectionId generation))
    (h : readComplete rules records moment flight.attempt id connectionId generation = .again attempt phase) :
    Prepared rules records { flight with attempt, phase } := by
  rw [readComplete] at h
  split at h
  · cases h
  · rename_i current hget
    obtain ⟨hid, whole⟩ := stored id current (get_eq_some hget)
    split at h
    · cases h
    · split at h
      · rename_i _ _ _ result hclaim hcandidate
        have completes : Completes rules flight.call moment.clock current (completing moment.clock current result) :=
          ⟨_, _, _, _, htask, assertClaim_eq_ok hclaim, hcandidate, rfl⟩
        dsimp only at h
        split at h
        · rename_i hspike
          cases h
          exact ⟨whole, .read (hid ▸ get_eq_some hget), .inr ⟨completes, hspike⟩⟩
        · split at h
          · cases h
          · cases h
            exact ⟨whole, .read (hid ▸ get_eq_some hget), completes⟩
      · cases h

theorem readCreate_listing {documentId requester brief : String} {buildBlocker : Option String}
    (h : readCreate records moment flight.attempt documentId requester brief id buildBlocker =
      .again attempt phase) : phase = .listing := by
  rw [readCreate] at h
  split at h
  · split at h <;> cases h
  · split at h
    · cases h
    · cases h; rfl

theorem listed_prepared (h : listed rules records moment flight.attempt flight.call = .again attempt phase) :
    Prepared rules records { flight with attempt, phase } := by
  rw [listed] at h
  split at h
  · rename_i documentId requester brief id spike buildBlocker htask
    split at h
    · cases h
    · cases h
      exact ⟨_, _, _, _, _, _, task_eq_create htask, rfl⟩
  · cases h

theorem wrote_reading {expected : Option Nat} {child : Bool} {answer : Except Failure Saved}
    (h : (wrote expected flight.attempt child answer).2 = .again attempt phase) : phase = .reading := by
  have hretried : retried flight.attempt = .again attempt phase → phase = .reading := by
    rw [retried]
    split
    · intro h; cases h; rfl
    · intro h; cases h
  rw [wrote.eq_def] at h
  split at h
  · cases h
  · dsimp only at h
    split at h
    · cases h
    · exact hretried h
  · cases h
  · cases h

/-- A flight that goes on is prepared. -/
theorem stretch_prepared (stored : ∀ id value, records.lookup id = some value → value.id = id ∧ Whole value)
    (h : (stretch rules records moment flight).2 = .again attempt phase) :
    Prepared rules records { flight with attempt, phase } := by
  rw [stretch.eq_def] at h
  split at h
  · -- reading
    dsimp only [read] at h
    split at h
    · cases h
    · obtain rfl := readCreate_listing h
      trivial
    · rename_i htask
      exact readMutate_prepared stored htask h
    · rename_i htask
      exact readComplete_prepared stored htask h
    · cases h
  · -- listing
    exact listed_prepared h
  · -- saving
    obtain rfl := wrote_reading h
    trivial
  · -- publishing
    split at h
    · obtain rfl := wrote_reading h
      trivial
    · cases h

/-- What the others hold is still prepared after a write. -/
theorem Prepared.write (prepared : Prepared rules records flight)
    (hraise : ∀ stored, records.lookup value.id = some stored → stored.revision < value.revision) :
    Prepared rules (Entries.set records value.id value) flight := by
  rw [Prepared.eq_def] at prepared ⊢
  split at prepared
  · trivial
  · trivial
  · exact prepared
  · exact ⟨prepared.1, prepared.2.1.set hraise, prepared.2.2⟩
  · exact ⟨prepared.1, prepared.2.1.set hraise, prepared.2.2⟩

theorem Flight.next_prepared {next : Next} {flight' : Flight}
    (hagain : ∀ attempt phase, next = .again attempt phase → Prepared rules records { flight with attempt, phase })
    (h : flight.next next = some flight') : Prepared rules records flight' := by
  rw [Flight.next.eq_def] at h
  split at h
  · cases h
  · cases h
    exact hagain _ _ rfl
  · split at h
    · cases h
    · cases h
      trivial

/-! ## One stretch -/

variable {s t : Service} {event : Event}

/-- An event makes the write of its call, or none; the rest of what it does is to the flights. -/
theorem step_written (h : step rules s event = some t) :
    (written rules s event = none ∧ t.records = s.records ∧ t.children = s.children ∧ t.applied = s.applied) ∨
      ∃ call clock write, written rules s event = some (call, clock, write) ∧
        t.records = Entries.set s.records write.value.id write.value ∧
        t.children = s.children ++ (write.child.map fun child ↦ (write.value.id, child)).toList ∧
        t.applied = s.applied ++ call.receipt.toList := by
  cases event with
  | start call =>
    left
    rw [step] at h
    split at h
    · cases h
    · cases h
      exact ⟨rfl, rfl, rfl, rfl⟩
  | resume i moment =>
    rw [step] at h
    split at h
    · rename_i flight hflight
      have hwritten : written rules s (.resume i moment) = (stretch rules s.records moment flight).1.map fun write ↦
          (flight.call, flight.phase.clock, write) := by simp only [written, hflight]
      cases h
      rw [hwritten]
      cases (stretch rules s.records moment flight).1 with
      | none => exact .inl ⟨rfl, rfl, rfl, rfl⟩
      | some write => exact .inr ⟨_, _, _, rfl, rfl, rfl, rfl⟩
    · cases h

variable {call : Call}

variable {clock : Clock} {write : Write}

/-- What is written creates a record or moves the stored one. -/
theorem Sound.written (sound : Sound rules s) (h : written rules s event = some (call, clock, write)) :
    s.records.lookup write.value.id = none ∧ Creates call write ∨
      ∃ before, s.records.lookup write.value.id = some before ∧ Replaces call clock before write := by
  cases event with
  | start => cases h
  | resume i moment =>
    rw [Investigations.written] at h
    split at h
    · rename_i flight hflight
      obtain ⟨out, hout, heq⟩ := Option.map_eq_some_iff.1 h
      cases heq
      exact stretch_write (sound.flights flight (List.mem_of_getElem? hflight)) hout
    · cases h

/-- Every write raises the revision of the record it replaces. -/
theorem Sound.raise (sound : Sound rules s) (h : Investigations.written rules s event = some (call, clock, write))
    (stored : Investigation)
    (hstored : s.records.lookup write.value.id = some stored) : stored.revision < write.value.revision := by
  rcases sound.written h with ⟨hnone, -⟩ | ⟨before, hbefore, replaces⟩
  · rw [hnone] at hstored
    cases hstored
  · obtain rfl := Option.mem_unique hbefore hstored
    rw [replaces.move.revision]
    exact Nat.lt_succ_self _

/-- The call that writes its receipt found none. -/
theorem Sound.fresh (sound : Sound rules s) (h : Investigations.written rules s event = some (call, clock, write))
    {entry : String × String} (hentry : call.receipt = some entry) :
    entry ∉ s.applied ∧ write.value.id = entry.1 ∧ (write.value.receipts.lookup entry.2).isSome = true := by
  obtain ⟨id, receipt⟩ := entry
  rcases sound.written h with ⟨-, creates⟩ | ⟨before, hbefore, replaces⟩
  · obtain ⟨_, _, _, _, _, _, rfl⟩ := creates.call
    cases hentry
  · obtain ⟨hid, hnone, hsome⟩ := replaces.move.receipt id receipt hentry
    have hid' : write.value.id = id := replaces.move.id.trans hid
    refine ⟨fun hmem ↦ ?_, hid', hsome⟩
    obtain ⟨value, hvalue, hreceipt⟩ := sound.receipts _ hmem
    rw [hid'] at hbefore
    obtain rfl := Option.mem_unique hbefore hvalue
    rw [hnone] at hreceipt
    cases hreceipt

theorem Sound.write_children (sound : Sound rules s)
    (h : Investigations.written rules s event = some (call, clock, write)) (id : String) :
    (s.children ++ (write.child.map fun child ↦ (write.value.id, child)).toList).filter (·.1 == id) =
      (((Entries.set s.records write.value.id write.value).lookup id).bind (·.childId)).toList.map
        fun child ↦ (id, child) := by
  rw [List.filter_append, sound.children, Entries.lookup_set]
  by_cases hid : id = write.value.id
  · subst hid
    rw [if_pos rfl]
    rcases sound.written h with ⟨hnone, creates⟩ | ⟨before, hbefore, replaces⟩
    · rw [hnone, creates.child, Option.bind_some, creates.childId]
      rfl
    · rw [hbefore, Option.bind_some, Option.bind_some]
      rcases replaces.child with ⟨hnone, hchild⟩ | ⟨hnone, hchild⟩
      · rw [hnone, ← hchild]
        cases write.value.childId <;> simp
      · rw [hnone, hchild]
        simp
  · rw [if_neg hid]
    cases write.child with
    | none => simp
    | some child => simp [Ne.symm hid]

/-- A flight after an event was there before it, or it is the one that went on, or new. -/
theorem flight_step (h : step rules s event = some t)
    (hmem : some flight ∈ t.flights) : some flight ∈ s.flights ∨ flight.phase = .reading ∨
      ∃ old moment, some old ∈ s.flights ∧ old.next (stretch rules s.records moment old).2 = some flight := by
  cases event with
  | start call =>
    rw [step] at h
    split at h
    · cases h
    · cases h
      rcases List.mem_append.1 hmem with hold | hnew
      · exact .inl hold
      · rw [List.mem_singleton, Option.some.injEq] at hnew
        exact .inr (.inl (by rw [hnew]))
  | resume i moment =>
    rw [step] at h
    split at h
    · rename_i old hold
      cases h
      rcases List.mem_or_eq_of_mem_set hmem with hkept | hnext
      · exact .inl hkept
      · exact .inr (.inr ⟨old, moment, List.mem_of_getElem? hold, hnext.symm⟩)
    · cases h

theorem prepared_reading (h : flight.phase = .reading) : Prepared rules records flight := by
  rw [Prepared.eq_def, h]
  trivial

/-- The flights after an event, before what the event wrote. -/
theorem Sound.flight_step (sound : Sound rules s) (h : step rules s event = some t) (hmem : some flight ∈ t.flights) :
    Prepared rules s.records flight := by
  rcases Investigations.flight_step h hmem with hold | hreading | ⟨old, moment, hold, hnext⟩
  · exact sound.flights flight hold
  · exact prepared_reading hreading
  · exact Flight.next_prepared (fun attempt phase hagain ↦ stretch_prepared sound.stored hagain) hnext

theorem nodup_snoc {α : Type} {values : List α} {value : α} (h : values.Nodup) (hnew : value ∉ values) :
    (values ++ [value]).Nodup := by
  rw [List.nodup_append]
  exact ⟨h, by simp, fun old hold last hlast ↦ by
    rintro rfl
    exact hnew (List.mem_singleton.1 hlast ▸ hold)⟩

/-- What a write leaves of the receipts of others. -/
theorem Sound.kept (sound : Sound rules s) (h : Investigations.written rules s event = some (call, clock, write))
    {receipt : String}
    (hold : ∃ value, s.records.lookup id = some value ∧ (value.receipts.lookup receipt).isSome = true) :
    ∃ value, (Entries.set s.records write.value.id write.value).lookup id = some value ∧
      (value.receipts.lookup receipt).isSome = true := by
  obtain ⟨value, hvalue, hreceipt⟩ := hold
  rw [Entries.lookup_set]
  split
  · rename_i hid
    subst hid
    rcases sound.written h with ⟨hnone, -⟩ | ⟨before, hbefore, replaces⟩
    · rw [hnone] at hvalue
      cases hvalue
    · obtain rfl := Option.mem_unique hbefore hvalue
      exact ⟨_, rfl, replaces.move.receipts receipt hreceipt⟩
  · exact ⟨value, hvalue, hreceipt⟩

/-- **Every stretch keeps the invariant.** -/
theorem Sound.step (sound : Sound rules s) (h : step rules s event = some t) : Sound rules t := by
  have hflights (flight : Flight) (hmem : some flight ∈ t.flights) := sound.flight_step h hmem
  rcases step_written h with ⟨-, hrecords, hchildren, happlied⟩ |
    ⟨call, clock, write, hwritten, hrecords, hchildren, happlied⟩
  · exact ⟨hrecords ▸ sound.stored, hrecords ▸ hflights, hchildren ▸ hrecords ▸ sound.children,
      happlied ▸ sound.applied, happlied ▸ hrecords ▸ sound.receipts⟩
  · refine ⟨fun id value hvalue ↦ ?_, fun flight hmem ↦ ?_, fun id ↦ ?_, ?_, fun entry hmem ↦ ?_⟩
    · rw [hrecords, Entries.lookup_set] at hvalue
      split at hvalue
      · rename_i hid
        cases hvalue
        refine ⟨hid.symm, ?_⟩
        rcases sound.written hwritten with ⟨-, creates⟩ | ⟨_, -, replaces⟩
        · exact creates.whole
        · exact replaces.move.whole
      · exact sound.stored id value hvalue
    · rw [hrecords]
      exact (hflights flight hmem).write (sound.raise hwritten)
    · rw [hrecords, hchildren]
      exact sound.write_children hwritten id
    · rw [happlied]
      cases hreceipt : call.receipt with
      | none => rw [Option.toList_none, List.append_nil]; exact sound.applied
      | some entry => exact nodup_snoc sound.applied (sound.fresh hwritten hreceipt).1
    · rw [hrecords]
      rw [happlied] at hmem
      rcases List.mem_append.1 hmem with hold | hnew
      · exact sound.kept hwritten (sound.receipts entry hold)
      · obtain ⟨-, hid, hreceipt⟩ := sound.fresh hwritten (Option.mem_toList.1 hnew)
        exact ⟨write.value, by rw [Entries.lookup_set, if_pos hid.symm], hreceipt⟩

theorem sound_of_run {events : List Event}
    (run : Runs (Investigations.step rules) Service.empty events s) : Sound rules s :=
  run.invariant Sound.empty fun _ _ _ sound h ↦ sound.step h

/-! ## The machine -/

/-- An investigation that is completed, and one that is not. -/
def Published (s : Service) (id : String) (value : Investigation) : Prop :=
  if value.state = .completed ∧ value.spike = none then
    ∃ child, value.childId = some child ∧ s.children.filter (·.1 == id) = [(id, child)]
  else value.childId = none ∧ s.children.filter (·.1 == id) = []

/-- What the records of a service are. -/
structure Stored (s : Service) (id : String) (value : Investigation) : Prop where
  candidate : value.candidate.isSome = true → value.state = .publishing
  expiry : value.expiresAt ≠ 0 → value.state = .running ∨ value.state = .publishing
  result : value.result.isSome = true ↔ value.state = .completed
  child : Published s id value
  decisions : (value.decisions.map (·.id)).Nodup

/-- What one event does to the records of a service. -/
structure Stepped (rules : Rules) (s : Service) (event : Event) (t : Service) : Prop where
  /-- A record changes only by the write of the call that goes on. -/
  kept : ∀ id, t.records.lookup id ≠ s.records.lookup id → ∃ call clock write,
    written rules s event = some (call, clock, write) ∧ write.value.id = id
  /-- That write creates the record in its first generation, or it is a move of the record before it. -/
  wrote : ∀ call clock write, written rules s event = some (call, clock, write) →
    t.records.lookup write.value.id = some write.value ∧
      t.applied = s.applied ++ call.receipt.toList ∧
      (s.records.lookup write.value.id = none ∧ Creates call write ∨
        ∃ before, s.records.lookup write.value.id = some before ∧ Move call clock before write.value)

/-- A record that is completed stays as it is. -/
def Finished (before after : Investigation) : Prop :=
  after.state = .completed ∧ after.result = before.result ∧ after.generation = before.generation ∧
    after.childId = before.childId

/-- The investigations of a service are fenced state machines. -/
structure Machine (rules : Rules) (s : Service) : Prop where
  stored : ∀ id value, s.records.lookup id = some value → Stored s id value
  /-- Each selection and decision took effect once. -/
  applied : s.applied.Nodup
  stepped : ∀ event t, step rules s event = some t → Stepped rules s event t
  finished : ∀ later t, Runs (step rules) s later t → ∀ id value, s.records.lookup id = some value →
    value.state = .completed → ∃ now, t.records.lookup id = some now ∧ Finished value now

theorem Sound.published (sound : Sound rules s) (h : s.records.lookup id = some value) : Published s id value := by
  have hchild := (sound.stored id value h).2.child
  have hchildren := sound.children id
  rw [h, Option.bind_some] at hchildren
  rw [Published, hchildren]
  split
  · rename_i hcompleted
    obtain ⟨child, hsome⟩ := Option.isSome_iff_exists.1 (hchild.2 hcompleted)
    exact ⟨child, hsome, by rw [hsome]; rfl⟩
  · rename_i hnot
    have hnone : value.childId = none := Option.not_isSome_iff_eq_none.1 fun h ↦ hnot (hchild.1 h)
    exact ⟨hnone, by rw [hnone]; rfl⟩

theorem Sound.stepped (sound : Sound rules s)
    (h : Investigations.step rules s event = some t) : Stepped rules s event t := by
  rcases step_written h with ⟨hnone, hrecords, -, -⟩ | ⟨call, clock, write, hwritten, hrecords, -, happlied⟩
  · exact ⟨fun id hne ↦ absurd (by rw [hrecords]) hne, fun call clock write hsome ↦ by
      rw [hnone] at hsome; cases hsome⟩
  · refine ⟨fun id hne ↦ ⟨call, clock, write, hwritten, ?_⟩, fun other clock' write' hwritten' ↦ ?_⟩
    · by_contra hid
      rw [hrecords, Entries.lookup_set, if_neg (Ne.symm hid)] at hne
      exact hne rfl
    · obtain ⟨rfl, rfl, rfl⟩ : call = other ∧ clock = clock' ∧ write = write' := by
        simpa using Option.mem_unique hwritten hwritten'
      refine ⟨by rw [hrecords, Entries.lookup_set, if_pos rfl], happlied, ?_⟩
      exact (sound.written hwritten).imp_right fun ⟨before, hbefore, replaces⟩ ↦ ⟨before, hbefore, replaces.move⟩

theorem Sound.finished (sound : Sound rules s) (h : Investigations.step rules s event = some t)
    (hvalue : s.records.lookup id = some value) (hcompleted : value.state = .completed) :
    ∃ now, t.records.lookup id = some now ∧ Finished value now := by
  rcases step_written h with ⟨-, hrecords, -, -⟩ | ⟨call, clock, write, hwritten, hrecords, -, -⟩
  · exact ⟨value, hrecords ▸ hvalue, hcompleted, rfl, rfl, rfl⟩
  · rw [hrecords, Entries.lookup_set]
    split
    · rename_i hid
      subst hid
      rcases sound.written hwritten with ⟨hnone, -⟩ | ⟨before, hbefore, replaces⟩
      · rw [hnone] at hvalue
        cases hvalue
      · obtain rfl := Option.mem_unique hbefore hvalue
        exact ⟨_, rfl, replaces.move.completed hcompleted⟩
    · exact ⟨value, hvalue, hcompleted, rfl, rfl, rfl⟩

theorem finished_of_run {later : List Event} (run : Runs (Investigations.step rules) s later t) (sound : Sound rules s)
    (hvalue : s.records.lookup id = some value) (hcompleted : value.state = .completed) :
    Sound rules t ∧ ∃ now, t.records.lookup id = some now ∧ Finished value now := by
  induction run with
  | nil => exact ⟨sound, value, hvalue, hcompleted, rfl, rfl, rfl⟩
  | snoc _ last ih =>
    obtain ⟨hsound, now, hnow, hstate, hresult, hgeneration, hchild⟩ := ih
    obtain ⟨after, hafter, hstate', hresult', hgeneration', hchild'⟩ := hsound.finished last hnow hstate
    exact ⟨hsound.step last, after, hafter, hstate', hresult'.trans hresult, hgeneration'.trans hgeneration,
      hchild'.trans hchild⟩

/-- **An investigation is a fenced state machine**, in every run of any number of calls. -/
theorem machine {s : Service} {events : List Event} (run : Runs (step rules) Service.empty events s) :
    Machine rules s := by
  have sound := sound_of_run run
  refine ⟨fun id value hvalue ↦ ?_, sound.applied, fun event t h ↦ sound.stepped h,
    fun later t hlater id value hvalue hcompleted ↦ (finished_of_run hlater sound hvalue hcompleted).2⟩
  have whole := (sound.stored id value hvalue).2
  exact ⟨whole.candidate, fun h ↦ held_iff.1 (whole.expiry h), whole.result, sound.published hvalue,
    whole.decisions⟩

/-! ## A run that completes -/

/-- Every report is a document, and a channel is named by what it is made for. -/
def plainRules : Rules where
  platform := .ascii
  secure url := Script.startsWith url "https:"
  fingerprint _ := "digest"
  investigationDocument _ brief result := .ok { title := brief, source := result.report }
  deterministicChannelId _ name := name

def plainMoment : Moment where
  clock _ := 1000
  leased := true
  channel _ := some { repositoryId := "r", archived := false, parentChannelId := none }
  creates := true
  plans := true

def sampleId : String := "00000000-0000-4000-8000-000000000000"

def sampleInput : RunInput where
  id := sampleId
  documentId := sampleId
  brief := "b"
  source := { repositoryId := "r", repository := "o/n", commit := "0123456789012345678901234567890123456789", branch := none }
  context := ""
  requester := "u"
  authorizer := "u"

def sampleResult : Submission where
  result :=
    { schemaVersion := 1, report := "done", datasets := [], views := [], evidence := []
      provenance := { environment := "", checks := [], limitations := [] } }
  bytes := 100

/-- Create, authorize, claim, submit and complete an investigation, one call after the other. -/
def completion : List Event :=
  [Event.start (.create sampleId "u" "b" sampleId none none)] ++ List.replicate 3 (Event.resume 0 plainMoment)
    ++ [Event.start (.authorize sampleId "c" sampleInput)] ++ List.replicate 2 (Event.resume 1 plainMoment)
    ++ [Event.start (.claim sampleId "c")] ++ List.replicate 2 (Event.resume 2 plainMoment)
    ++ [Event.start (.candidate sampleId "c" 1 sampleResult)] ++ List.replicate 2 (Event.resume 3 plainMoment)
    ++ [Event.start (.complete sampleId "c" 1)] ++ List.replicate 2 (Event.resume 4 plainMoment)

def completes (s : Service) : Bool :=
  (s.records.lookup sampleId).any fun value ↦ value.state == .completed && value.generation == 1

/-- The run is one, and ends with the investigation completed. -/
theorem machine_completion : ∃ s, Runs (step plainRules) Service.empty completion s ∧ completes s = true ∧
    Machine plainRules s := by
  obtain ⟨s, hrun, hcompletes⟩ := Option.any_eq_true _ _ |>.1
    (show (completion.foldlM (step plainRules) Service.empty).any completes = true by decide +kernel)
  have run := runs_iff_foldlM.2 hrun
  exact ⟨s, run, hcompletes, machine run⟩

end Chopin.Investigations
