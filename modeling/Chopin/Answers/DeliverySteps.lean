import Chopin.Answers.Deliveries

/-!
# What happens between a delivery's calls

People ask, answer and reopen while a delivery awaits, and each of these leaves what it has in hand: an
answer that is no longer current is all it loses.  One lemma a step.
-/

set_option autoImplicit false

open Script (Units)

namespace Chopin.Answers

variable {platform : Platform} {s t : Machine}

/-! ## Going on -/

theorem Core.delivery (core : Core s) (delivery : Option Delivery) (queued : Nat) : Core { s with delivery, queued } :=
  ⟨core.known, core.rows, core.keys, core.claims, core.processes, core.turns, core.accepted, core.once⟩

/-- A delivery that goes on with work that is so. -/
theorem Core.next (core : Core s) {works : List Work} (ok : ∀ work ∈ works, WorkOk s work)
    (apart : works.Pairwise Apart) : Sound (s.next works) := by
  cases works with
  | nil =>
    rw [Machine.next]
    split
    · exact ⟨core.delivery _ _, nofun⟩
    · refine ⟨core.delivery _ _, ?_⟩
      rintro _ ⟨⟩
      exact ⟨trivial, nofun, .nil⟩
  | cons work rest =>
    have hwork := ok work List.mem_cons_self
    have hrest : ∀ work ∈ rest, WorkOk s work := fun other hmem ↦ ok other (List.mem_cons_of_mem _ hmem)
    cases work with
    | group turn answers =>
      refine ⟨core.delivery _ _, ?_⟩
      rintro _ ⟨⟩
      exact ⟨⟨hwork, nofun, trivial⟩, hrest, apart⟩
    | fresh answers =>
      refine ⟨core.delivery _ _, ?_⟩
      rintro _ ⟨⟩
      exact ⟨hwork, hrest, apart⟩

/-- A delivery whose call failed throws, and the next one begins. -/
theorem Core.threw (core : Core s) : Sound (s.next []) := core.next (by simp) .nil

/-! ## What people do -/

/-- A step that leaves a delivery alone. -/
structure Env (s t : Machine) : Prop where
  settled : ∀ answer ∈ s.settled, answer ∈ t.settled
  known : Known t.plan t.settled
  still : ∀ answer ∈ s.settled, current t.plan answer = true → current s.plan answer = true
  waits : ∀ turn answer, Waits t.rows turn answer → Waits s.rows turn answer
  held : ∀ turn, ∀ answer ∈ s.settled, current t.plan answer = true → Held s.rows turn answer →
    Held t.rows turn answer
  free : ∀ answer ∈ s.settled, current t.plan answer = true → Free s.rows answer → Free t.rows answer
  rows : ∀ id row, t.rows.lookup id = some row → { id := id, generation := row.generation } ∈ t.settled ∧
    ∀ turn, row.turnId = some turn → ∃ process, (turn, process) ∈ t.claims
  keys : (t.rows.map (·.1)).Nodup
  claims : t.claims = s.claims
  accepted : t.accepted = s.accepted
  process : s.process ≤ t.process
  dropped : t.dropped = s.dropped

theorem Env.core (env : Env s t) (core : Core s) : Core t where
  known := env.known
  rows := env.rows
  keys := env.keys
  claims := env.claims ▸ core.claims
  processes claim hmem := Nat.le_trans (core.processes claim (env.claims ▸ hmem)) env.process
  turns := env.accepted ▸ core.turns
  accepted entry hmem := by
    obtain ⟨hclaim, hsettled, hwaits, hheld⟩ := core.accepted entry (env.accepted ▸ hmem)
    refine ⟨env.claims ▸ hclaim, fun answer h ↦ env.settled answer (hsettled answer h), fun answer h hcurrent ↦ ?_,
      fun answer h hcurrent ↦ ?_⟩
    · have hold := env.waits _ _ h
      obtain ⟨row, hrow, hgeneration, -⟩ := hold
      have hanswer := (core.rows _ _ hrow).1
      rw [hgeneration] at hanswer
      exact hwaits answer (env.waits _ _ h) (env.still answer hanswer hcurrent)
    · exact env.held _ answer (hsettled answer h) hcurrent (hheld answer h (env.still answer (hsettled answer h) hcurrent))
  once := env.accepted ▸ core.once

theorem Env.leaves (env : Env s t) {work : Work} (ok : WorkOk s work) : Leaves s t work where
  settled := env.settled
  claims := fun claim hmem ↦ env.claims ▸ hmem
  still := env.still
  rows := by
    cases work with
    | group turn answers =>
      exact ⟨env.waits turn, fun answer hmem ↦ env.held turn answer (ok.2.1 answer hmem)⟩
    | fresh answers => exact fun answer hmem ↦ env.free answer (ok.1 answer hmem)

theorem Env.stage (env : Env s t) (hprocess : t.process = s.process) (core : Core s) {stage : Stage}
    (ok : StageOk s stage) : StageOk t stage := by
  have unstarted (turn : String) (h : Unstarted s turn) : Unstarted t turn := by
    rw [Unstarted, hprocess, env.claims, env.accepted]
    exact h
  cases stage with
  | waiting => trivial
  | claiming answers =>
    have hwork : WorkOk s (.fresh answers) := ok
    exact hwork.leaves (env.leaves hwork)
  | starting turn answers claimedNow composed =>
    obtain ⟨hwork, hnow, hcomposed⟩ := ok
    refine ⟨hwork.leaves (env.leaves hwork), fun h ↦ unstarted turn (hnow h), ?_⟩
    match composed with
    | none => trivial
    | some none =>
      refine fun answer hmem ↦ Bool.eq_false_iff.2 fun hcurrent ↦ ?_
      have := env.still answer (hwork.2.1 answer hmem) hcurrent
      rw [hcomposed answer hmem] at this
      cases this
    | some (some instruction) =>
      refine ⟨fun answer hmem hcurrent ↦ hcomposed.1 answer hmem (env.still answer (hwork.2.1 answer hmem) hcurrent),
        hcomposed.2.1, ?_⟩
      rw [env.accepted]
      exact hcomposed.2.2
  | marking turn =>
    refine ⟨env.claims ▸ ok.1, ?_⟩
    rw [Justified, env.accepted, env.dropped]
    refine ok.2.imp_right (Or.imp_right fun hnone answer hwaits ↦ Bool.eq_false_iff.2 fun hcurrent ↦ ?_)
    have hold := env.waits _ _ hwaits
    obtain ⟨row, hrow, hgeneration, -⟩ := hold
    have hanswer := (core.rows _ _ hrow).1
    rw [hgeneration] at hanswer
    have := env.still answer hanswer hcurrent
    rw [hnone answer (env.waits _ _ hwaits)] at this
    cases this
  | releasing turn => exact unstarted turn ok

/-- **People leave a delivery as it is.** -/
theorem Env.sound (env : Env s t) (hprocess : t.process = s.process) (sound : Sound s)
    (hdelivery : t.delivery = s.delivery) : Sound t where
  toCore := env.core sound.toCore
  delivery delivery h := by
    have ok := sound.delivery delivery (hdelivery ▸ h)
    exact ⟨env.stage hprocess sound.toCore ok.stage,
      fun work hmem ↦ (ok.rest work hmem).leaves (env.leaves (ok.rest work hmem)), ok.apart⟩

/-! ## Decisions -/

variable {id : String} {record : Record}

/-- A record that is edited, and what may be saved with the edit. -/
theorem Core.edited (core : Core s) {added : List Answer}
    (hadded : ∀ answer ∈ added, answer.id = id ∧ answer.generation = decisionGeneration record ∧
      (record.status = .answered ∨ record.status = .discarded))
    (hold : ∀ old, s.plan.lookup id = some old → decisionGeneration old ≤ decisionGeneration record ∧
      (∀ answer ∈ s.settled, answer.id = id → answer.generation = decisionGeneration record →
        record.status = .discarded)) :
    Env s { s with plan := Entries.set s.plan id record, settled := s.settled ++ added } := by
  have hlookup (other : String) := Entries.lookup_set s.plan id record other
  refine {
    settled := fun answer hmem ↦ List.mem_append_left _ hmem
    known := ?_, still := ?_
    waits := fun _ _ h ↦ h, held := fun _ _ _ _ h ↦ h, free := fun _ _ _ h ↦ h
    rows := fun id row hrow ↦ ⟨List.mem_append_left _ (core.rows id row hrow).1, (core.rows id row hrow).2⟩
    keys := core.keys, claims := rfl, accepted := rfl, process := Nat.le_refl _, dropped := rfl }
  · intro answer hmem
    show ∃ found, (Entries.set s.plan id record).lookup answer.id = some found ∧ _
    rw [hlookup]
    rcases List.mem_append.1 hmem with hsettled | hnew
    · obtain ⟨old, hfound, hle, hstatus⟩ := core.known answer hsettled
      split
      · rename_i hid
        obtain ⟨hgrown, hover⟩ := hold old (hid ▸ hfound)
        exact ⟨record, rfl, Nat.le_trans hle hgrown, fun h ↦ .inr (hover answer hsettled hid h)⟩
      · exact ⟨old, hfound, hle, hstatus⟩
    · obtain ⟨hid, hgeneration, hstatus⟩ := hadded answer hnew
      rw [if_pos hid]
      exact ⟨record, rfl, Nat.le_of_eq hgeneration, fun _ ↦ hstatus⟩
  · intro answer hsettled hcurrent
    obtain ⟨found, hfound, hstatus, howner, hgeneration⟩ := current_iff.1 hcurrent
    rw [hlookup] at hfound
    split at hfound
    · rename_i hid
      cases hfound
      obtain ⟨old, hold', -⟩ := core.known answer hsettled
      have := (hold old (hid ▸ hold')).2 answer hsettled hid hgeneration.symm
      rw [this] at hstatus
      cases hstatus
    · exact current_iff.2 ⟨found, hfound, hstatus, howner, hgeneration⟩

/-- A record that is edited, with nothing saved. -/
theorem Core.updated (core : Core s)
    (hold : ∀ old, s.plan.lookup id = some old → decisionGeneration old ≤ decisionGeneration record ∧
      (∀ answer ∈ s.settled, answer.id = id → answer.generation = decisionGeneration record →
        record.status = .discarded)) : Env s { s with plan := Entries.set s.plan id record } := by
  have env : Env s { s with plan := Entries.set s.plan id record, settled := s.settled ++ [] } :=
    core.edited nofun hold
  rwa [List.append_nil] at env

theorem Sound.asked (sound : Sound s) {questions : List Question} {followUp : Bool}
    (h : step platform s (.ask id questions followUp) = some t) : Sound t := by
  rw [step] at h
  split at h
  · cases h
  · rename_i hnone
    cases h
    rw [Bool.not_eq_true, Option.isSome_eq_false_iff, Option.isNone_iff_eq_none] at hnone
    refine (sound.updated fun old hold ↦ ?_).sound rfl sound rfl
    rw [hnone] at hold
    cases hold

theorem Core.open_unsaved (core : Core s)
    (hrecord : s.plan.lookup id = some record) (hopen : record.status = .open ∨ record.status = .reopened)
    {answer : Answer} (hmem : answer ∈ s.settled) (hid : answer.id = id) :
    answer.generation ≠ decisionGeneration record := by
  obtain ⟨found, hfound, -, hstatus⟩ := core.known answer hmem
  obtain rfl := Option.some.inj (hrecord.symm.trans (hid ▸ hfound))
  intro hgeneration
  rcases hstatus hgeneration with h | h <;> rcases hopen with h' | h' <;> rw [h] at h' <;> cases h'

theorem Sound.answeredBy (sound : Sound s) {owner : String} {answers : List (String × Units)}
    {choices : List String} (h : step platform s (.settle id owner answers choices) = some t) : Sound t := by
  rw [step] at h
  split at h
  · rename_i hstatus
    obtain ⟨record, hrecord, rfl⟩ := Option.map_eq_some_iff.1 h
    rw [status, hrecord, Option.map_some, Option.some.injEq, Option.some.injEq] at hstatus
    refine (sound.edited (fun answer hmem ↦ ?_) fun old hold ↦ ?_).sound rfl sound rfl
    · obtain rfl := List.mem_singleton.1 hmem
      exact ⟨rfl, rfl, .inl rfl⟩
    · obtain rfl := Option.mem_unique hrecord hold
      exact ⟨Nat.le_refl _, fun answer hmem hid hgeneration ↦
        absurd hgeneration (sound.open_unsaved hrecord hstatus hmem hid)⟩
  · cases h

theorem Sound.reopened (sound : Sound s) (h : step platform s (.reopen id) = some t) : Sound t := by
  rw [step] at h
  split at h
  · rw [Machine.update] at h
    obtain ⟨record, hrecord, rfl⟩ := Option.map_eq_some_iff.1 h
    refine (sound.updated fun old hold ↦ ?_).sound rfl sound rfl
    obtain rfl := Option.mem_unique hrecord hold
    refine ⟨Nat.le_succ _, fun answer hmem hid hgeneration ↦ ?_⟩
    obtain ⟨found, hfound, hle, -⟩ := sound.known answer hmem
    obtain rfl := Option.some.inj (hrecord.symm.trans (hid ▸ hfound))
    simp only [decisionGeneration] at hle hgeneration
    omega
  · cases h

theorem Sound.discarded (sound : Sound s) (h : step platform s (.discard id) = some t) : Sound t := by
  rw [step, Machine.update] at h
  obtain ⟨record, hrecord, rfl⟩ := Option.map_eq_some_iff.1 h
  refine (sound.updated fun old hold ↦ ?_).sound rfl sound rfl
  obtain rfl := Option.mem_unique hrecord hold
  exact ⟨Nat.le_refl _, fun _ _ _ _ ↦ rfl⟩

/-! ## Saving an answer -/

theorem keys_save {rows : Rows} (h : (rows.map (·.1)).Nodup) (answer : Answer) (savedAt : Int) :
    ((rows.save answer savedAt).map (·.1)).Nodup := by
  rw [Rows.save]
  split
  · split
    · exact h
    · exact Entries.nodup_set h _ _
  · exact Entries.nodup_set h _ _

theorem Core.answered (core : Core s) {answer : Answer} (savedAt : Int) (hsettled : answer ∈ s.settled) :
    Env s { s with rows := s.rows.save answer savedAt } where
  settled := fun _ hmem ↦ hmem
  known := core.known
  still := fun _ _ hcurrent ↦ hcurrent
  waits := fun _ _ h ↦ h.of_save
  held := fun _ _ _ hcurrent h ↦ h.save fun hid ↦ core.known.newest hcurrent hsettled hid
  free := fun _ _ hcurrent h ↦ h.save fun hid ↦ core.known.newest hcurrent hsettled hid
  rows := by
    intro id row hrow
    rcases lookup_save s.rows answer savedAt id with hsame | ⟨hid, -, hnew⟩
    · exact core.rows id row (hsame ▸ hrow)
    · obtain rfl := Option.mem_unique hnew hrow
      rw [hid]
      exact ⟨hsettled, nofun⟩
  keys := keys_save core.keys answer savedAt
  claims := rfl
  accepted := rfl
  process := Nat.le_refl _
  dropped := rfl

end Chopin.Answers
