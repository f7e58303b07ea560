import Chopin.Answers.DeliveryCalls
import Chopin.Lib.Runs

/-!
# Every saved answer reaches the Planner, in one turn

Answers are claimed, composed, started and marked in four calls, while people keep saving and reopening
and the process may end.  `Change` says once what a step can do to a decision's row; what the invariant
and `Change` give over a whole run is collected in `Delivers`.
-/

set_option autoImplicit false

namespace Chopin.Answers

variable {platform : Platform} {s t u : Machine} {event : Event} {id : String}

/-! ## What a step can do -/

/-- What a step can do to a decision's row. -/
inductive Change (s : Machine) (event : Event) (id : String) : Option Row → Option Row → Prop where
  | same (row : Option Row) : Change s event id row row
  | saved {row : Option Row} (answer : Answer) (savedAt : Int) (call : event = .answered answer savedAt)
      (decision : id = answer.id) (newer : ∀ old, row = some old → old.generation < answer.generation) :
      Change s event id row
        (some { generation := answer.generation, savedAt, turnId := none, deliveredAt := none })
  | claimed (row : Row) (turn : String) (fresh : FreshTurn s turn) (free : row.turnId = none) :
      Change s event id (some row) (some { row with turnId := some turn })
  | released (row : Row) (turn : String) (rest : List Work)
      (stage : s.delivery = some { stage := .releasing turn, rest }) (waits : row.waitsFor turn = true) :
      Change s event id (some row) (some { row with turnId := none })
  | marked (row : Row) (turn : String) (rest : List Work) (now : Int)
      (stage : s.delivery = some { stage := .marking turn, rest }) (waits : row.waitsFor turn = true) :
      Change s event id (some row) (some { row with deliveredAt := some now })

variable {turn : String}

variable {answers : List Answer}

theorem change_claim (fresh : FreshTurn s turn) :
    Change s event id (s.rows.lookup id) ((Rows.claim turn s.rows answers).1.lookup id) := by
  rw [lookup_claim]
  cases s.rows.lookup id with
  | none => exact .same none
  | some row =>
    rw [Option.map_some]
    split
    · rename_i hfree
      simp only [Bool.and_eq_true, Option.isNone_iff_eq_none] at hfree
      exact .claimed row turn fresh hfree.1.2
    · exact .same _

variable {rest : List Work}

theorem change_release (h : s.delivery = some { stage := .releasing turn, rest }) :
    Change s event id (s.rows.lookup id) ((s.rows.release turn).lookup id) := by
  rw [lookup_release]
  cases s.rows.lookup id with
  | none => exact .same none
  | some row =>
    rw [Option.map_some]
    split
    · exact .released row turn rest h (by assumption)
    · exact .same _

theorem change_delivered {now : Int} (h : s.delivery = some { stage := .marking turn, rest }) :
    Change s event id (s.rows.lookup id) ((s.rows.delivered turn now).lookup id) := by
  rw [lookup_delivered]
  cases s.rows.lookup id with
  | none => exact .same none
  | some row =>
    rw [Option.map_some]
    split
    · exact .marked row turn rest now h (by assumption)
    · exact .same _

/-- A turn's instruction was composed for `start`. -/
def Composed (platform : Platform) (s : Machine) (start : Acceptance) : Prop :=
  start.process = s.process ∧ ∃ answers claimedNow composed rest instruction,
    s.delivery = some { stage := .starting start.turn answers claimedNow composed, rest } ∧
    answerInstruction platform s.plan start.turn answers = some instruction ∧ start.carried = instruction.live

/-- What a step can do to the rows, the claims, the process and what was started. -/
structure Effects (platform : Platform) (s : Machine) (event : Event) (t : Machine) : Prop where
  row : ∀ id, Change s event id (s.rows.lookup id) (t.rows.lookup id)
  claims : ∀ claim ∈ s.claims, claim ∈ t.claims
  process : s.process ≤ t.process
  starts : ∀ start ∈ t.starts, start ∈ s.starts ∨ Composed platform s start

/-- Nothing of these changes. -/
structure Frame (s t : Machine) : Prop where
  rows : t.rows = s.rows
  claims : t.claims = s.claims
  process : t.process = s.process
  starts : t.starts = s.starts

theorem Effects.framed (effects : Effects platform s event t) (frame : Frame t u) : Effects platform s event u where
  row := frame.rows ▸ effects.row
  claims := frame.claims ▸ effects.claims
  process := frame.process ▸ effects.process
  starts := frame.starts ▸ effects.starts

theorem Effects.none (s : Machine) : Effects platform s event s :=
  ⟨fun _ ↦ .same _, fun _ h ↦ h, Nat.le_refl _, fun _ h ↦ .inl h⟩

theorem Frame.effects (frame : Frame s t) : Effects platform s event t := (Effects.none s).framed frame

theorem Frame.trans (first : Frame s t) (second : Frame t u) : Frame s u :=
  ⟨second.rows.trans first.rows, second.claims.trans first.claims, second.process.trans first.process,
    second.starts.trans first.starts⟩

/-- A write to the rows alone. -/
theorem Effects.write {rows : Rows} (row : ∀ id, Change s event id (s.rows.lookup id) (rows.lookup id)) :
    Effects platform s event { s with rows } := ⟨row, fun _ h ↦ h, Nat.le_refl _, fun _ h ↦ .inl h⟩

theorem next_frame (s : Machine) (works : List Work) : Frame s (s.next works) := by
  unfold Machine.next
  split
  · exact ⟨rfl, rfl, rfl, rfl⟩
  · exact ⟨rfl, rfl, rfl, rfl⟩
  · split <;> exact ⟨rfl, rfl, rfl, rfl⟩

/-- After a call on the store, which may have failed. -/
theorem stored_frame (s : Machine) (rows : Rows) (rest : List Work) (reply : Reply) :
    Frame { s with rows } (s.stored rows rest reply) ∨ Frame s (s.stored rows rest reply) := by
  cases reply with
  | done => exact .inl (next_frame { s with rows } rest)
  | failed applied =>
    cases applied with
    | false => exact .inr (next_frame s [])
    | true => exact .inl (next_frame { s with rows } [])

theorem claim_frame (s : Machine) (turn : String) (answers : List Answer) (rest : List Work) (reply : Reply) :
    ∃ claimed, Frame (s.claiming turn claimed) (s.claim turn answers rest reply) := by
  cases reply with
  | done =>
    refine ⟨answers, ?_⟩
    rw [Machine.claim]
    split
    · exact next_frame _ _
    · exact ⟨rfl, rfl, rfl, rfl⟩
  | failed applied =>
    cases applied with
    | false => exact ⟨[], next_frame (s.claiming turn []) []⟩
    | true => exact ⟨answers, next_frame (s.claiming turn answers) []⟩

theorem afterStart_frame (outcome : Outcome) (turn : String) (claimedNow : Bool)
    (composed : Option (Option Instruction)) (rest : List Work) (s : Machine) :
    Frame s (afterStart outcome turn claimedNow composed rest s) := by
  unfold afterStart
  split
  · exact ⟨rfl, rfl, rfl, rfl⟩
  · split
    · exact ⟨rfl, rfl, rfl, rfl⟩
    · exact next_frame _ _

theorem accept_frame {composed : Option (Option Instruction)} (h : s.accept turn composed = some t) : Frame s t := by
  unfold Machine.accept at h
  split at h
  · cases h
    exact ⟨rfl, rfl, rfl, rfl⟩
  · split at h
    · cases h
      exact ⟨rfl, rfl, rfl, rfl⟩
    · cases h

theorem composed_effects {claimedNow : Bool}
    {composed : Option (Option Instruction)} {delivery : Option Delivery}
    (h : s.delivery = some { stage := .starting turn answers claimedNow composed, rest }) :
    Effects platform s event { s with
      delivery
      starts := s.starts ++ ((answerInstruction platform s.plan turn answers).map fun instruction ↦
        { process := s.process, turn, carried := instruction.live }).toList } := by
  refine ⟨fun _ ↦ .same _, fun _ h ↦ h, Nat.le_refl _, fun start hmem ↦ ?_⟩
  refine (List.mem_append.1 hmem).imp_right fun hnew ↦ ?_
  obtain ⟨instruction, hinstruction, rfl⟩ := Option.map_eq_some_iff.1 (Option.mem_toList.1 hnew)
  exact ⟨rfl, answers, claimedNow, composed, rest, instruction, h, hinstruction, rfl⟩

/-- **What a step does**: a decision's row changes in one of five ways, claims stay, the process never
goes back, and `start` is told only what was composed. -/
theorem step_effects (h : step platform s event = some t) : Effects platform s event t := by
  cases event with
  | ask id questions followUp =>
    rw [step] at h
    split at h
    · cases h
    · cases h
      exact Frame.effects ⟨rfl, rfl, rfl, rfl⟩
  | settle id owner answers choices =>
    rw [step] at h
    split at h
    · obtain ⟨record, -, rfl⟩ := Option.map_eq_some_iff.1 h
      exact Frame.effects ⟨rfl, rfl, rfl, rfl⟩
    · cases h
  | reopen id =>
    rw [step] at h
    split at h
    · obtain ⟨record, -, rfl⟩ := Option.map_eq_some_iff.1 h
      exact Frame.effects ⟨rfl, rfl, rfl, rfl⟩
    · cases h
  | discard id =>
    obtain ⟨record, -, rfl⟩ := Option.map_eq_some_iff.1 h
    exact Frame.effects ⟨rfl, rfl, rfl, rfl⟩
  | answered answer savedAt =>
    rw [step] at h
    split at h
    · cases h
      refine Effects.write fun id ↦ ?_
      rcases lookup_save s.rows answer savedAt id with hsame | ⟨hid, hless, hnew⟩
      · rw [hsame]
        exact .same _
      · rw [hnew]
        exact .saved answer savedAt rfl hid hless
    · cases h
  | pending =>
    rw [step] at h
    split at h <;> obtain rfl := Option.some.inj h <;> exact Frame.effects ⟨rfl, rfl, rfl, rfl⟩
  | read =>
    rw [step] at h
    split at h
    · cases h
      exact (next_frame _ _).effects
    · cases h
  | claimed turn reply =>
    rw [step] at h
    split at h
    · rename_i answers rest hdelivery
      split at h
      · cases h
      · rename_i hfresh
        cases h
        have fresh : FreshTurn s turn := fun process hmem ↦
          hfresh (List.any_eq_true.2 ⟨_, hmem, beq_self_eq_true _⟩)
        obtain ⟨claimed, frame⟩ := claim_frame s turn answers rest reply
        have effects : Effects platform s (.claimed turn reply) (s.claiming turn claimed) :=
          ⟨fun _ ↦ change_claim fresh, fun _ ↦ List.mem_append_left _, Nat.le_refl _, fun _ h ↦ .inl h⟩
        exact effects.framed frame
    · cases h
  | compose =>
    rw [step] at h
    split at h
    · rename_i turn answers claimedNow composed rest hdelivery
      cases h
      exact composed_effects hdelivery
    · cases h
  | started outcome =>
    rw [step] at h
    split at h
    · rename_i turn answers claimedNow composed rest hdelivery
      cases outcome with
      | accepted =>
        obtain ⟨next, hnext, rfl⟩ := Option.map_eq_some_iff.1 h
        exact ((accept_frame hnext).trans (afterStart_frame _ _ _ _ _ _)).effects
      | drop =>
        cases h
        have dropped : Frame s { s with dropped := s.dropped ++ [turn] } := ⟨rfl, rfl, rfl, rfl⟩
        exact (dropped.trans (afterStart_frame _ _ _ _ _ _)).effects
      | refused | failed =>
        cases h
        exact (afterStart_frame _ _ _ _ _ _).effects
    · cases h
  | marked now reply =>
    rw [step] at h
    split at h
    · rename_i turn rest hdelivery
      cases h
      rcases stored_frame s (s.rows.delivered turn now) rest reply with frame | frame
      · exact (Effects.write fun id ↦ change_delivered hdelivery).framed frame
      · exact frame.effects
    · cases h
  | released reply =>
    rw [step] at h
    split at h
    · rename_i turn rest hdelivery
      cases h
      rcases stored_frame s (s.rows.release turn) rest reply with frame | frame
      · exact (Effects.write fun id ↦ change_release hdelivery).framed frame
      · exact frame.effects
    · cases h
  | crash =>
    cases h
    exact ⟨fun _ ↦ .same _, fun _ h ↦ h, Nat.le_succ _, fun _ h ↦ .inl h⟩

/-! ## Over a run -/

variable {events : List Event}

theorem sound (run : Runs (step platform) .empty events s) : Sound s :=
  run.invariant Sound.empty fun _ _ _ sound h ↦ sound.stepped h

variable {row : Row}

/-- A row is never replaced by an older answer's. -/
theorem row_grows (h : step platform s event = some t) (hrow : s.rows.lookup id = some row) :
    ∃ next, t.rows.lookup id = some next ∧ row.generation ≤ next.generation := by
  have change := (step_effects h).row id
  rw [hrow] at change
  generalize t.rows.lookup id = next at change
  cases change with
  | same => exact ⟨row, rfl, Nat.le_refl _⟩
  | saved answer savedAt call decision newer => exact ⟨_, rfl, Nat.le_of_lt (newer row rfl)⟩
  | claimed | released | marked => exact ⟨_, rfl, Nat.le_refl _⟩

variable {savedAt : Int}

variable {answer : Answer}

/-- Every answer that was saved has a row that is no older. -/
theorem saved_row (run : Runs (step platform) .empty events s) (hmem : Event.answered answer savedAt ∈ events) :
    ∃ row, s.rows.lookup answer.id = some row ∧ answer.generation ≤ row.generation := by
  induction run with
  | nil => cases hmem
  | snoc _ last ih =>
    rcases List.mem_append.1 hmem with hbefore | hlast
    · obtain ⟨row, hrow, hle⟩ := ih hbefore
      obtain ⟨next, hnext, hle'⟩ := row_grows last hrow
      exact ⟨next, hnext, Nat.le_trans hle hle'⟩
    · obtain rfl := List.mem_singleton.1 hlast
      rw [step] at last
      split at last
      · cases last
        exact save_row _ answer savedAt
      · cases last

/-- The turn was claimed under, and has no row of the decision any more. -/
def Passed (turn id : String) (s : Machine) : Prop :=
  (∃ process, (turn, process) ∈ s.claims) ∧ ∀ row, s.rows.lookup id = some row → row.turnId ≠ some turn

theorem Passed.stepped (passed : Passed turn id s) (h : step platform s event = some t) : Passed turn id t := by
  obtain ⟨⟨process, hclaim⟩, hrows⟩ := passed
  have effects := step_effects h
  refine ⟨⟨process, effects.claims _ hclaim⟩, fun row hrow ↦ ?_⟩
  have change := effects.row id
  rw [hrow] at change
  generalize s.rows.lookup id = old at change hrows
  cases change with
  | same => exact hrows row rfl
  | saved => nofun
  | claimed old other fresh free =>
    rintro ⟨⟩
    exact fresh process hclaim
  | released => nofun
  | marked old => exact hrows old rfl

/-- An earlier process claimed the answer under the turn, and its row is the turn's unless a newer answer
took its place. -/
def Pinned (turn : String) (answer : Answer) (process : Nat) (s : Machine) : Prop :=
  (∃ claimer, claimer ≤ process ∧ (turn, claimer) ∈ s.claims) ∧ process < s.process ∧
    (∃ row, s.rows.lookup answer.id = some row ∧
      (row.generation = answer.generation ∧ row.turnId = some turn ∨ answer.generation < row.generation)) ∧
    ∀ start ∈ s.starts, process < start.process → answer ∈ start.carried → start.turn = turn

theorem Pinned.stepped {process : Nat} (sound : Sound s)
    (pinned : Pinned turn answer process s) (h : step platform s event = some t) : Pinned turn answer process t := by
  obtain ⟨⟨claimer, hclaimer, hclaim⟩, hprocess, ⟨row, hrow, hstate⟩, hstarts⟩ := pinned
  have effects := step_effects h
  refine ⟨⟨claimer, hclaimer, effects.claims _ hclaim⟩, Nat.lt_of_lt_of_le hprocess effects.process, ?_,
    fun start hmem hlater hcarried ↦ ?_⟩
  · have change := effects.row answer.id
    rw [hrow] at change
    generalize t.rows.lookup answer.id = next at change
    cases change with
    | same => exact ⟨row, rfl, hstate⟩
    | saved newer savedAt call decision hless =>
      refine ⟨_, rfl, .inr ?_⟩
      have := hless row rfl
      rcases hstate with ⟨hgeneration, -⟩ | hnewer
      · rwa [← hgeneration]
      · exact Nat.lt_trans hnewer this
    | claimed row other fresh free =>
      rcases hstate with ⟨-, hturn⟩ | hnewer
      · rw [free] at hturn
        cases hturn
      · exact ⟨_, rfl, .inr hnewer⟩
    | released row other rest stage waits =>
      rcases hstate with ⟨-, hturn⟩ | hnewer
      · -- This process never claimed under the turn, so it does not release it.
        simp only [Row.waitsFor, hturn, Bool.and_eq_true, beq_iff_eq, Option.some.injEq] at waits
        obtain ⟨rfl, -⟩ := waits
        have unstarted : Unstarted s turn := (sound.delivery _ stage).stage
        have := List.inj_on_of_nodup_map sound.claims hclaim unstarted.1 rfl
        rw [Prod.mk.injEq] at this
        omega
      · exact ⟨_, rfl, .inr hnewer⟩
    | marked row other rest now stage waits => exact ⟨_, rfl, hstate⟩
  · rcases effects.starts start hmem with hold | ⟨-, answers, claimedNow, composed, rest, instruction, hdelivery,
      hinstruction, hlive⟩
    · exact hstarts start hold hlater hcarried
    · rw [hlive] at hcarried
      obtain ⟨hanswer, hcurrent⟩ := (mem_live hinstruction).1 hcarried
      obtain ⟨hwork, -⟩ := (sound.delivery _ hdelivery).stage
      obtain ⟨held, hheld, hgeneration, hturn⟩ := hwork.2.2.2 answer hanswer hcurrent
      obtain rfl := Option.mem_unique hheld hrow
      rcases hstate with ⟨-, hpinned⟩ | hnewer
      · exact Option.mem_unique hturn hpinned
      · omega

/-! ## The guarantees -/

/-- What deliveries give to a run that ends in `s`. -/
structure Delivers (platform : Platform) (events : List Event) (s : Machine) : Prop where
  /-- A current answer is marked only after a start that carried it was accepted, or the document can
  never run one. -/
  carried : ∀ event t id row, step platform s event = some t →
    (∀ old, s.rows.lookup id = some old → old.deliveredAt = none) →
    t.rows.lookup id = some row → row.deliveredAt.isSome →
    current s.plan { id, generation := row.generation } →
    ∃ turn, row.turnId = some turn ∧ (turn ∈ s.dropped ∨
      ∃ entry ∈ s.accepted, entry.turn = turn ∧ { id, generation := row.generation } ∈ entry.carried)
  /-- An answer that was saved and is current has its row, which waits unless it was marked. -/
  waiting : ∀ answer savedAt, Event.answered answer savedAt ∈ events → current s.plan answer →
    ∃ row, s.rows.lookup answer.id = some row ∧ row.generation = answer.generation ∧
      (row.deliveredAt = none → (answer.id, row) ∈ s.rows.pending platform)
  /-- A newer answer that is saved while an older one is claimed never is the claim's, whatever follows:
  marking the older one's turn leaves it. -/
  newer : ∀ answer savedAt old turn, s.rows.lookup answer.id = some old → old.turnId = some turn →
    old.generation < answer.generation → ∀ more t u, step platform s (.answered answer savedAt) = some t →
    Runs (step platform) t more u → ∀ row, u.rows.lookup answer.id = some row →
    row.turnId ≠ some turn ∧ ∀ now, (u.rows.delivered turn now).lookup answer.id = some row
  /-- No answer is in two turns that Chat accepted. -/
  once : ∀ left ∈ s.accepted, ∀ right ∈ s.accepted, ∀ answer ∈ left.carried, answer ∈ right.carried →
    left = right
  /-- After a crash an answer that was claimed is started only under its claim's turn. -/
  restarted : ∀ answer row turn, s.rows.lookup answer.id = some row → row.generation = answer.generation →
    row.turnId = some turn → ∀ more t u, step platform s .crash = some t → Runs (step platform) t more u →
    ∀ start ∈ u.starts, s.process < start.process → answer ∈ start.carried → start.turn = turn

theorem Sound.carried (sound : Sound s) (h : step platform s event = some t)
    (hwaits : ∀ old, s.rows.lookup id = some old → old.deliveredAt = none) (hrow : t.rows.lookup id = some row)
    (hmarked : row.deliveredAt.isSome) (hcurrent : current s.plan { id, generation := row.generation }) :
    ∃ turn, row.turnId = some turn ∧ (turn ∈ s.dropped ∨
      ∃ entry ∈ s.accepted, entry.turn = turn ∧ { id, generation := row.generation } ∈ entry.carried) := by
  have change := (step_effects h).row id
  rw [hrow] at change
  generalize hlookup : s.rows.lookup id = old at change hwaits
  have waiting {row : Row} (h : old = some row) : ¬ row.deliveredAt.isSome := by simp [hwaits row h]
  cases change with
  | same => exact absurd hmarked (waiting rfl)
  | saved => cases hmarked
  | claimed before | released before => exact absurd hmarked (@waiting before rfl)
  | marked before turn rest now stage hturn =>
    have held : Waits s.rows turn { id, generation := before.generation } := ⟨before, hlookup, rfl, hturn⟩
    obtain ⟨-, hjustified⟩ := (sound.delivery _ stage).stage
    refine ⟨turn, (Bool.and_eq_true_iff.1 hturn).1 |> beq_iff_eq.1, ?_⟩
    rcases hjustified with ⟨entry, hmem, rfl⟩ | hdropped | hstale
    · obtain ⟨-, -, hcarried, -⟩ := sound.accepted entry hmem
      exact .inr ⟨entry, hmem, rfl, hcarried _ held hcurrent⟩
    · exact .inl hdropped
    · have := hstale _ held
      rw [show current s.plan { id, generation := before.generation } = true from hcurrent] at this
      cases this

theorem Sound.waiting (sound : Sound s) (run : Runs (step platform) .empty events s)
    (hsaved : Event.answered answer savedAt ∈ events)
    (hcurrent : current s.plan answer) : ∃ row, s.rows.lookup answer.id = some row ∧
      row.generation = answer.generation ∧ (row.deliveredAt = none → (answer.id, row) ∈ s.rows.pending platform) := by
  obtain ⟨row, hrow, hle⟩ := saved_row run hsaved
  have hge := sound.known.newest hcurrent (sound.rows _ _ hrow).1 rfl
  exact ⟨row, hrow, Nat.le_antisymm hge hle, pending_of_mem (Entries.mem_of_lookup hrow)⟩

/-- Once a newer answer took its place, a claim has no row of the decision. -/
theorem Sound.passed (sound : Sound s) {old : Row}
    (hold : s.rows.lookup answer.id = some old) (hturn : old.turnId = some turn)
    (hless : old.generation < answer.generation) (h : step platform s (.answered answer savedAt) = some t) :
    Passed turn answer.id t := by
  obtain ⟨process, hclaim⟩ := (sound.rows _ _ hold).2 turn hturn
  have effects := step_effects h
  refine ⟨⟨process, effects.claims _ hclaim⟩, fun row hrow ↦ ?_⟩
  rw [step] at h
  split at h
  · cases h
    obtain ⟨row', hrow', hle⟩ := save_row s.rows answer savedAt
    obtain rfl := Option.mem_unique hrow' hrow
    rcases lookup_save s.rows answer savedAt answer.id with hsame | ⟨-, -, hnew⟩
    · obtain rfl := Option.some.inj (hold.symm.trans (hsame.symm.trans hrow'))
      omega
    · obtain rfl := Option.mem_unique hnew hrow'
      rintro ⟨⟩
  · cases h

theorem Passed.left (passed : Passed turn id s) (hrow : s.rows.lookup id = some row)
    (now : Int) : (s.rows.delivered turn now).lookup id = some row := by
  rw [lookup_delivered, hrow, Option.map_some, if_neg]
  simp [Row.waitsFor, passed.2 row hrow]

theorem Sound.pinned (sound : Sound s)
    (hrow : s.rows.lookup answer.id = some row) (hgeneration : row.generation = answer.generation)
    (hturn : row.turnId = some turn) (hstarts : ∀ start ∈ s.starts, start.process ≤ s.process)
    (h : step platform s .crash = some t) : Pinned turn answer s.process t := by
  cases h
  obtain ⟨claimer, hclaim⟩ := (sound.rows _ _ hrow).2 turn hturn
  refine ⟨⟨claimer, sound.processes _ hclaim, hclaim⟩, Nat.lt_succ_self _, ⟨row, hrow, .inl ⟨hgeneration, hturn⟩⟩,
    fun start hmem hlater _ ↦ ?_⟩
  exact absurd (hstarts start hmem) (Nat.not_le.2 hlater)

/-- A start is of a process that was. -/
theorem starts_process (run : Runs (step platform) .empty events s) :
    ∀ start ∈ s.starts, start.process ≤ s.process := by
  induction run with
  | nil => nofun
  | snoc _ last ih =>
    intro start hmem
    have effects := step_effects last
    rcases effects.starts start hmem with hold | ⟨hprocess, -⟩
    · exact Nat.le_trans (ih start hold) effects.process
    · exact hprocess ▸ effects.process

theorem Pinned.run {process : Nat} (sound : Sound s)
    (pinned : Pinned turn answer process s) (run : Runs (step platform) s events t) :
    Sound t ∧ Pinned turn answer process t := by
  induction run with
  | nil => exact ⟨sound, pinned⟩
  | snoc _ last ih => exact ⟨ih.1.stepped last, ih.2.stepped ih.1 last⟩

/-- **Every saved answer reaches the Planner, in one turn**, whatever is saved, reopened, refused, dropped or
lost to a crash in between. -/
theorem answers_delivered {events : List Event} (run : Runs (step platform) .empty events s) :
    Delivers platform events s where
  carried event t id row h hwaits hrow hmarked hcurrent := (sound run).carried h hwaits hrow hmarked hcurrent
  waiting answer savedAt hsaved hcurrent := (sound run).waiting run hsaved hcurrent
  newer answer savedAt old turn hold hturn hless more t u h later row hrow := by
    have passed : Passed turn answer.id u :=
      later.invariant ((sound run).passed hold hturn hless h) fun _ _ _ passed hstep ↦ passed.stepped hstep
    exact ⟨passed.2 row hrow, passed.left hrow⟩
  once left hleft right hright answer hmem hmem' :=
    List.inj_on_of_nodup_map (sound run).turns hleft hright
      ((sound run).once left hleft right hright answer hmem hmem')
  restarted answer row turn hrow hgeneration hturn more t u h later start hmem hlater hcarried := by
    have pinned := (sound run).pinned hrow hgeneration hturn (starts_process run) h
    have both := pinned.run ((sound run).stepped h) later
    exact both.2.2.2.2 start hmem hlater hcarried

theorem reads {entry : String × Row} (hdelivery : s.delivery = some { stage := .waiting, rest })
    (hpending : s.rows.filter (·.2.deliveredAt.isNone) = [entry]) :
    step platform s .read = some (s.next (works [entry])) := by
  rw [step, hdelivery]
  dsimp only
  rw [Rows.pending, hpending, List.mergeSort_singleton]

def plain : Platform := { stringify := fun value ↦ value, localeCompare := fun _ _ ↦ 0 }

def saving : List Event :=
  [.ask "d1" [] false, .settle "d1" "ana" [] [], .answered { id := "d1", generation := 1 } 5, .pending]

/-- The first process ends before the turn that Chat took is marked; the next starts the same turn. -/
def restarting : List Event := [.claimed "t1" .done, .compose, .started .accepted, .crash, .pending]

def marking : List Event := [.compose, .started .accepted, .marked 12 .done]

def savedRow (turnId : Option String) : String × Row :=
  ("d1", { generation := 1, savedAt := 5, turnId, deliveredAt := none })

/-- The state that the events lead to. -/
def after (events : List Event) (s : Machine) : Machine := (events.foldlM (step plain) s).getD .empty

/-- The delivery of the first process, and that of the next. -/
def firstDelivery : Machine := (after saving .empty).next (works [savedRow none])
def nextDelivery : Machine := (after restarting firstDelivery).next (works [savedRow (some "t1")])

theorem answers_delivered_restarted :
    Delivers plain (saving ++ [Event.read] ++ (restarting ++ [Event.read]) ++ marking) (after marking nextDelivery) ∧
      (after marking nextDelivery).starts.length = 2 ∧
      (after marking nextDelivery).accepted = [{ process := 0, turn := "t1", carried := [⟨"d1", 1⟩] }] := by
  have saved : Runs (step plain) .empty saving (after saving .empty) := runs_iff_foldlM.2 rfl
  have first : Runs (step plain) .empty (saving ++ [Event.read]) firstDelivery := saved.snoc (reads rfl rfl)
  have ended : Runs (step plain) firstDelivery restarting (after restarting firstDelivery) :=
    runs_iff_foldlM.2 rfl
  have next : Runs (step plain) firstDelivery (restarting ++ [Event.read]) nextDelivery := ended.snoc (reads rfl rfl)
  have marked : Runs (step plain) nextDelivery marking (after marking nextDelivery) := runs_iff_foldlM.2 rfl
  exact ⟨answers_delivered ((first.append next).append marked), rfl, rfl⟩

end Chopin.Answers
