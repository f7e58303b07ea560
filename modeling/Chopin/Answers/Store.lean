import Chopin.Answers.Turns

/-!
# What the store's calls leave of a row

`Held rows turn answer` says that the answer's row is the turn's, and `Free rows answer` that it is
nobody's.  Each of the store's calls has a lemma for each of the two, and one for which rows wait for a
turn after it.
-/

set_option autoImplicit false

namespace Chopin.Answers

variable {rows : Rows} {turn other : String} {answer : Answer}

/-- The answer's row is claimed under the turn. -/
def Held (rows : Rows) (turn : String) (answer : Answer) : Prop :=
  ∃ row, rows.lookup answer.id = some row ∧ row.generation = answer.generation ∧ row.turnId = some turn

/-- The answer's row waits, and nobody has claimed it. -/
def Free (rows : Rows) (answer : Answer) : Prop :=
  ∃ row, rows.lookup answer.id = some row ∧ row.free answer.generation = true

/-- The answer's row waits under the turn. -/
def Waits (rows : Rows) (turn : String) (answer : Answer) : Prop :=
  ∃ row, rows.lookup answer.id = some row ∧ row.generation = answer.generation ∧ row.waitsFor turn = true

theorem Waits.held (h : Waits rows turn answer) : Held rows turn answer := by
  obtain ⟨row, hrow, hgeneration, hwaits⟩ := h
  exact ⟨row, hrow, hgeneration, beq_iff_eq.1 (Bool.and_eq_true_iff.1 hwaits).1⟩

/-- A row belongs to one turn. -/
theorem Held.unique (left : Held rows turn answer) (right : Held rows other answer) : turn = other := by
  obtain ⟨row, hrow, -, hturn⟩ := left
  obtain ⟨row', hrow', -, hother⟩ := right
  obtain rfl := Option.mem_unique hrow hrow'
  exact Option.mem_unique hturn hother

/-! ## Saving -/

theorem lookup_save (rows : Rows) (answer : Answer) (savedAt : Int) (id : String) :
    (rows.save answer savedAt).lookup id = rows.lookup id ∨
      id = answer.id ∧ (∀ known, rows.lookup id = some known → known.generation < answer.generation) ∧
        (rows.save answer savedAt).lookup id =
          some { generation := answer.generation, savedAt := savedAt, turnId := none, deliveredAt := none } := by
  rw [Rows.save]
  split
  · rename_i known hknown
    split
    · exact .inl rfl
    · rename_i hless
      rw [Entries.lookup_set]
      split
      · rename_i hid
        refine .inr ⟨hid, fun old hold ↦ ?_, rfl⟩
        rw [hid] at hold
        obtain rfl := Option.mem_unique hknown hold
        omega
      · exact .inl rfl
  · rename_i hnone
    rw [Entries.lookup_set]
    split
    · rename_i hid
      refine .inr ⟨hid, fun old hold ↦ ?_, rfl⟩
      rw [hid, hnone] at hold
      cases hold
    · exact .inl rfl

/-- After a save the decision's row is at least that new. -/
theorem save_row (rows : Rows) (answer : Answer) (savedAt : Int) :
    ∃ row, (rows.save answer savedAt).lookup answer.id = some row ∧ answer.generation ≤ row.generation := by
  rw [Rows.save]
  split
  · rename_i known hknown
    split
    · exact ⟨known, hknown, by assumption⟩
    · exact ⟨_, by rw [Entries.lookup_set, if_pos rfl], Nat.le_refl _⟩
  · exact ⟨_, by rw [Entries.lookup_set, if_pos rfl], Nat.le_refl _⟩

variable {saved : Answer} {savedAt : Int} {row : Row}

/-- A save leaves the row of an answer that is no older. -/
theorem lookup_save_of_le (hrow : rows.lookup answer.id = some row)
    (hle : saved.id = answer.id → saved.generation ≤ row.generation) :
    (rows.save saved savedAt).lookup answer.id = some row := by
  rcases lookup_save rows saved savedAt answer.id with hsame | ⟨hid, hless, -⟩
  · rw [hsame, hrow]
  · have := hless row hrow
    have := hle hid.symm
    omega

theorem Held.save (h : Held rows turn answer) (hle : saved.id = answer.id → saved.generation ≤ answer.generation) :
    Held (rows.save saved savedAt) turn answer := by
  obtain ⟨row, hrow, hgeneration, hturn⟩ := h
  exact ⟨row, lookup_save_of_le hrow fun hid ↦ hgeneration ▸ hle hid, hgeneration, hturn⟩

theorem Free.generation (h : Free rows answer) (hrow : rows.lookup answer.id = some row) :
    row.generation = answer.generation := by
  obtain ⟨row', hrow', hfree⟩ := h
  obtain rfl := Option.mem_unique hrow' hrow
  exact beq_iff_eq.1 (Bool.and_eq_true_iff.1 hfree).2

theorem Free.save (h : Free rows answer) (hle : saved.id = answer.id → saved.generation ≤ answer.generation) :
    Free (rows.save saved savedAt) answer := by
  obtain ⟨row, hrow, hfree⟩ := h
  have hgeneration := Free.generation ⟨row, hrow, hfree⟩ hrow
  exact ⟨row, lookup_save_of_le hrow fun hid ↦ hgeneration ▸ hle hid, hfree⟩

theorem Waits.of_save (h : Waits (rows.save saved savedAt) turn answer) : Waits rows turn answer := by
  obtain ⟨row, hrow, hgeneration, hwaits⟩ := h
  rcases lookup_save rows saved savedAt answer.id with hsame | ⟨-, -, hnew⟩
  · exact ⟨row, hsame ▸ hrow, hgeneration, hwaits⟩
  · obtain rfl := Option.mem_unique hnew hrow
    simp [Row.waitsFor] at hwaits

/-! ## Claiming -/

/-- A claim takes the free rows of its answers, and no others. -/
theorem lookup_claim (turn : String) (rows : Rows) (answers : List Answer) (id : String) :
    ((Rows.claim turn rows answers).1.lookup id) =
      (rows.lookup id).map fun row ↦
        if row.deliveredAt.isNone && row.turnId.isNone
            && answers.contains { id := id, generation := row.generation } then
          { row with turnId := some turn } else row := by
  induction answers generalizing rows with
  | nil => simp [Rows.claim]
  | cons answer rest ih =>
    rw [Rows.claim]
    split
    · rename_i row hrow
      split
      · rename_i hfree
        dsimp only
        rw [ih, Entries.lookup_set]
        simp only [Row.free, Bool.and_eq_true, beq_iff_eq] at hfree
        split
        · rename_i hid
          subst hid
          have hmem : (answer :: rest).contains { id := answer.id, generation := row.generation } = true := by
            simp [hfree.2]
          rw [hrow, Option.map_some, Option.map_some, if_neg (by simp), if_pos (by
            rw [hfree.1.1, hfree.1.2, hmem]; rfl)]
        · rename_i hid
          refine congrArg (Option.map · _) (funext fun other ↦ ?_)
          rw [List.contains_cons, show ((⟨id, other.generation⟩ : Answer) == answer) = false from by
            rw [beq_eq_false_iff_ne]
            rintro rfl
            exact hid rfl, Bool.false_or]
      · rename_i hfree
        rw [ih]
        cases hlookup : rows.lookup id with
        | none => rfl
        | some other =>
          rw [Option.map_some, Option.map_some, List.contains_cons]
          by_cases hsame : (⟨id, other.generation⟩ : Answer) = answer
          · subst hsame
            obtain rfl := Option.mem_unique hrow hlookup
            have hnot : (row.deliveredAt.isNone && row.turnId.isNone) = false :=
              Bool.eq_false_iff.2 fun h ↦ hfree (by rw [Row.free, h]; simp)
            simp [hnot]
          · rw [beq_eq_false_iff_ne.2 hsame, Bool.false_or]
    · rename_i hnone
      rw [ih]
      cases hlookup : rows.lookup id with
      | none => rfl
      | some other =>
        rw [Option.map_some, Option.map_some, List.contains_cons, beq_eq_false_iff_ne.2, Bool.false_or]
        rintro rfl
        rw [hlookup] at hnone
        cases hnone

variable {answers : List Answer}

theorem Held.claim (h : Held rows turn answer) : Held (Rows.claim other rows answers).1 turn answer := by
  obtain ⟨row, hrow, hgeneration, hturn⟩ := h
  refine ⟨row, ?_, hgeneration, hturn⟩
  rw [lookup_claim, hrow, Option.map_some, hturn]
  simp

theorem Free.claim (h : Free rows answer)
    (hapart : ∀ claimed ∈ answers, claimed.id ≠ answer.id) : Free (Rows.claim other rows answers).1 answer := by
  obtain ⟨row, hrow, hfree⟩ := h
  refine ⟨row, ?_, hfree⟩
  rw [lookup_claim, hrow, Option.map_some, if_neg]
  simp only [Bool.and_eq_true, List.contains_iff_mem, not_and]
  exact fun _ hmem ↦ hapart _ hmem rfl

/-- The free rows of the answers become the turn's. -/
theorem Free.claimed (h : Free rows answer) (hmem : answer ∈ answers) :
    Held (Rows.claim turn rows answers).1 turn answer := by
  obtain ⟨row, hrow, hfree⟩ := h
  simp only [Row.free, Bool.and_eq_true, beq_iff_eq] at hfree
  refine ⟨{ row with turnId := some turn }, ?_, hfree.2, rfl⟩
  rw [lookup_claim, hrow, Option.map_some, if_pos]
  rw [hfree.1.1, hfree.1.2, hfree.2]
  simpa using hmem

theorem Waits.of_claim (h : Waits (Rows.claim other rows answers).1 turn answer) :
    Waits rows turn answer ∨ turn = other ∧ answer ∈ answers := by
  obtain ⟨row, hrow, hgeneration, hwaits⟩ := h
  rw [lookup_claim, Option.map_eq_some_iff] at hrow
  obtain ⟨old, hold, rfl⟩ := hrow
  split at hwaits
  · rename_i hclaimed
    rw [if_pos hclaimed] at hgeneration
    simp only [Row.waitsFor, Bool.and_eq_true, beq_iff_eq, Option.some.injEq] at hwaits
    simp only [Bool.and_eq_true, List.contains_iff_mem] at hclaimed
    refine .inr ⟨hwaits.1.symm, ?_⟩
    have hmem := hclaimed.2
    rwa [show old.generation = answer.generation from hgeneration] at hmem
  · rename_i hkept
    rw [if_neg hkept] at hgeneration
    exact .inl ⟨old, hold, hgeneration, hwaits⟩

/-! ## Releasing and marking -/

theorem lookup_release (rows : Rows) (turn id : String) :
    (rows.release turn).lookup id =
      (rows.lookup id).map fun row ↦ if row.waitsFor turn then { row with turnId := none } else row :=
  Entries.lookup_map rows (fun row ↦ if row.waitsFor turn then { row with turnId := none } else row) id

theorem lookup_delivered (rows : Rows) (turn id : String) (now : Int) :
    (rows.delivered turn now).lookup id =
      (rows.lookup id).map fun row ↦ if row.waitsFor turn then { row with deliveredAt := some now } else row :=
  Entries.lookup_map rows (fun row ↦ if row.waitsFor turn then { row with deliveredAt := some now } else row) id

theorem waitsFor_ne (hturn : row.turnId = some turn) (hne : turn ≠ other) : row.waitsFor other = false := by
  simp [Row.waitsFor, hturn, hne]

theorem Held.release (h : Held rows turn answer) (hne : turn ≠ other) : Held (rows.release other) turn answer := by
  obtain ⟨row, hrow, hgeneration, hturn⟩ := h
  refine ⟨row, ?_, hgeneration, hturn⟩
  rw [lookup_release, hrow, Option.map_some, waitsFor_ne hturn hne, if_neg (by simp)]

theorem Free.not_waits {generation : Nat} (hfree : row.free generation = true) : row.waitsFor turn = false := by
  simp only [Row.free, Bool.and_eq_true, Option.isNone_iff_eq_none] at hfree
  simp [Row.waitsFor, hfree.1.2]

theorem Free.release (h : Free rows answer) : Free (rows.release other) answer := by
  obtain ⟨row, hrow, hfree⟩ := h
  refine ⟨row, ?_, hfree⟩
  rw [lookup_release, hrow, Option.map_some, not_waits hfree, if_neg (by simp)]

theorem Waits.of_release (h : Waits (rows.release other) turn answer) : Waits rows turn answer := by
  obtain ⟨row, hrow, hgeneration, hwaits⟩ := h
  rw [lookup_release, Option.map_eq_some_iff] at hrow
  obtain ⟨old, hold, rfl⟩ := hrow
  split at hwaits
  · simp [Row.waitsFor] at hwaits
  · rename_i hkept
    rw [if_neg hkept] at hgeneration
    exact ⟨old, hold, hgeneration, hwaits⟩

variable {now : Int}

theorem Held.delivered (h : Held rows turn answer) : Held (rows.delivered other now) turn answer := by
  obtain ⟨row, hrow, hgeneration, hturn⟩ := h
  rw [Held, lookup_delivered, hrow, Option.map_some]
  split
  · exact ⟨_, rfl, hgeneration, hturn⟩
  · exact ⟨_, rfl, hgeneration, hturn⟩

theorem Free.delivered (h : Free rows answer) : Free (rows.delivered other now) answer := by
  obtain ⟨row, hrow, hfree⟩ := h
  refine ⟨row, ?_, hfree⟩
  rw [lookup_delivered, hrow, Option.map_some, not_waits hfree, if_neg (by simp)]

theorem Waits.of_delivered (h : Waits (rows.delivered other now) turn answer) : Waits rows turn answer := by
  obtain ⟨row, hrow, hgeneration, hwaits⟩ := h
  rw [lookup_delivered, Option.map_eq_some_iff] at hrow
  obtain ⟨old, hold, rfl⟩ := hrow
  split at hwaits
  · simp [Row.waitsFor] at hwaits
  · rename_i hkept
    rw [if_neg hkept] at hgeneration
    exact ⟨old, hold, hgeneration, hwaits⟩

end Chopin.Answers
