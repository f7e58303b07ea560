import Chopin.Investigations.Service

/-!
# What an action may change

One lemma an action: `Acted` collects what holds of the record an action was given and of the one it
makes.  The claim on running work is `Claimed`; only a caller that names it, or a call that settles or
retries the work, touches what the work reported.
-/

set_option autoImplicit false

namespace Chopin.Investigations

/-! ## Stored records -/

/-- What the schema makes of a record it takes. -/
def Investigation.read (value : Investigation) : Investigation :=
  { value with
    buildBlocker := value.buildBlocker.map Script.trim
    candidate := value.candidate.map Result.trimmed
    result := value.result.map Result.trimmed }

theorem optionalResult_eq_some {rules : Rules} {value parsed : Option Result}
    (h : optionalResult rules value = some parsed) : parsed = value.map Result.trimmed := by
  cases value with
  | none => exact (Option.some.inj h).symm
  | some result =>
    rw [optionalResult, resultSchema] at h
    split at h
    · exact (Option.some.inj h).symm
    · cases h

variable {value : Investigation}

theorem investigationSchema_eq_some {rules : Rules} {saved : Investigation}
    (h : investigationSchema rules value = some saved) : saved = value.read := by
  obtain ⟨candidate, hcandidate, h⟩ := Option.then_eq_some.1 h
  obtain ⟨result, hresult, h⟩ := Option.then_eq_some.1 h
  obtain rfl := optionalResult_eq_some hcandidate
  obtain rfl := optionalResult_eq_some hresult
  change (if investigationChecks rules value.read = true then some value.read else none) = some saved at h
  split at h
  · exact (Option.some.inj h).symm
  · cases h

theorem map_trimmed_trimmed (value : Option Result) :
    (value.map Result.trimmed).map Result.trimmed = value.map Result.trimmed := by
  cases value with
  | none => rfl
  | some result => exact congrArg some result.trimmed_idem

/-- What holds of a stored record by itself. -/
structure Whole (value : Investigation) : Prop where
  candidate : value.candidate.isSome = true → value.state = .publishing
  expiry : value.expiresAt ≠ 0 → value.state.held = true
  result : value.result.isSome = true ↔ value.state = .completed
  child : value.childId.isSome = true ↔ value.state = .completed ∧ value.spike = none
  /-- Its schema has read it. -/
  trimmed : value.candidate.map Result.trimmed = value.candidate ∧ value.result.map Result.trimmed = value.result
  /-- A decision leaves a receipt. -/
  receipts : ∀ decision ∈ value.decisions,
    (value.receipts.lookup ("decision:" ++ decision.id)).isSome = true
  decisions : (value.decisions.map (·.id)).Nodup

/-! ## The fence -/

/-- The record is held by this connection in this generation, and the claim has not expired. -/
structure Claimed (value : Investigation) (connectionId : String) (generation : Nat) (now : Int) : Prop where
  connectionId : value.connectionId = some connectionId
  generation : value.generation = generation
  unexpired : now < value.expiresAt
  held : value.state = .running ∨ value.state = .publishing

variable {state : InvestigationState}

theorem held_iff : state.held = true ↔ state = .running ∨ state = .publishing := by
  cases state <;> decide

variable {connectionId : String} {generation : Nat}

theorem assertClaim_eq_ok {now : Int} {u : Unit} (h : assertClaim value connectionId generation now = .ok u) :
    Claimed value connectionId generation now := by
  have hrefused := refuse_eq_ok.1 h
  simp only [Bool.or_eq_false_iff, bne_eq_false_iff_eq, decide_eq_false_iff_not, Bool.not_eq_false',
    Int.not_le, held_iff] at hrefused
  exact ⟨hrefused.1.1.1, hrefused.1.1.2, hrefused.1.2, hrefused.2⟩

/-- The claim that a report from a connection names. -/
def Call.named : Call → Option (String × Nat)
  | renew _ connectionId generation _ => some (connectionId, generation)
  | candidate _ connectionId generation _ => some (connectionId, generation)
  | complete _ connectionId generation => some (connectionId, generation)
  | failClaim _ connectionId generation _ => some (connectionId, generation)
  | _ => none

/-- A stop and the two retries. -/
def Call.settles : Call → Bool
  | stop .. | retry _ | retrySpike _ => true
  | _ => false

def Call.claims : Call → Bool
  | claim .. => true
  | _ => false

/-- The call may change what the work on this record reported. -/
def Fenced (call : Call) (clock : Clock) (value : Investigation) : Prop :=
  (∃ connectionId generation, call.named = some (connectionId, generation) ∧
    Claimed value connectionId generation (clock 0)) ∨ call.settles = true

/-- What the work reported is as before. -/
structure Untouched (before after : Investigation) : Prop where
  progress : after.progress = before.progress
  candidate : after.candidate = before.candidate
  result : after.result = before.result
  failed : after.state = .failed ↔ before.state = .failed

/-- What an action that changes the record makes of it. -/
structure Acted (call : Call) (clock : Clock) (before after : Investigation) : Prop where
  id : after.id = before.id
  revision : after.revision = before.revision
  result : after.result = before.result
  childId : after.childId = before.childId
  spike : after.spike.isSome = before.spike.isSome
  generation : after.generation = before.generation + call.claims.toNat
  begins : call.claims = true → before.state = .queued ∧ after.state = .running
  work : Fenced call clock before ∨ Untouched before after
  candidate : after.candidate.isSome = true → after.state = .publishing
  expiry : after.expiresAt ≠ 0 → after.state.held = true
  completed : after.state = .completed ↔ before.state = .completed
  receipts : ∀ receipt, (before.receipts.lookup receipt).isSome = true →
    (after.receipts.lookup receipt).isSome = true
  receipt : ∀ id receipt, call.receipt = some (id, receipt) →
    before.receipts.lookup receipt = none ∧ (after.receipts.lookup receipt).isSome = true
  decisions : after.decisions = before.decisions ∨
    ∃ decision : Decision, after.decisions = before.decisions ++ [decision] ∧
      before.receipts.lookup ("decision:" ++ decision.id) = none ∧
      (after.receipts.lookup ("decision:" ++ decision.id)).isSome = true

variable {rules : Rules} {clock : Clock} {before after : Investigation}

/-! ## The actions -/

variable {id : String}

theorem acted_settingBlocker (whole : Whole before) {documentId : String} {revision : Nat}
    {reason : Option String} (h : settingBlocker documentId revision reason clock before = .ok after) :
    after = before ∨ Acted (.setBuildBlocker documentId id revision reason) clock before after := by
  obtain ⟨_, -, h⟩ := Except.bind_eq_ok.1 h
  split at h
  · exact .inl (Except.ok.inj h).symm
  · obtain ⟨_, -, h⟩ := Except.bind_eq_ok.1 h
    cases h
    exact .inr {
      id := rfl, revision := rfl, result := rfl, childId := rfl, spike := rfl, generation := rfl
      begins := nofun, work := .inr ⟨rfl, rfl, rfl, .rfl⟩, candidate := whole.candidate
      expiry := whole.expiry, completed := .rfl, receipts := fun _ h ↦ h, receipt := nofun
      decisions := .inl rfl }

theorem acted_authorizing (whole : Whole before) {input : RunInput}
    (h : authorizing connectionId input clock before = .ok after) :
    after = before ∨ Acted (.authorize id connectionId input) clock before after := by
  rw [authorizing] at h
  split at h
  · exact .inl (Except.ok.inj h).symm
  · obtain ⟨_, hrefused, h⟩ := Except.bind_eq_ok.1 h
    cases h
    have hrefused := refuse_eq_ok.1 hrefused
    simp only [Bool.or_eq_false_iff, bne_eq_false_iff_eq] at hrefused
    have hstate : before.state = .requested := hrefused.1.1.1.1
    exact .inr {
      id := rfl, revision := rfl, result := rfl, childId := rfl, spike := rfl, generation := rfl
      begins := nofun
      work := .inr ⟨rfl, rfl, rfl, by simp [hstate]⟩
      candidate := fun h ↦ absurd (whole.candidate h) (by simp [hstate])
      expiry := fun h ↦ absurd (whole.expiry h) (by simp [hstate, InvestigationState.held])
      completed := by simp [hstate]
      receipts := fun _ h ↦ h, receipt := nofun, decisions := .inl rfl }

theorem acted_claiming (whole : Whole before) (h : claiming connectionId clock before = .ok after) :
    after = before ∨ Acted (.claim id connectionId) clock before after := by
  obtain ⟨_, -, h⟩ := Except.bind_eq_ok.1 h
  split at h
  · exact .inl (Except.ok.inj h).symm
  · obtain ⟨_, hrefused, h⟩ := Except.bind_eq_ok.1 h
    cases h
    have hstate : before.state = .queued := bne_eq_false_iff_eq.1 (refuse_eq_ok.1 hrefused)
    exact .inr {
      id := rfl, revision := rfl, result := rfl, childId := rfl
      spike := Option.isSome_map
      generation := rfl
      begins := fun _ ↦ ⟨hstate, rfl⟩
      work := .inr ⟨rfl, rfl, rfl, by simp [hstate]⟩
      candidate := fun h ↦ absurd (whole.candidate h) (by simp [hstate])
      expiry := fun _ ↦ rfl
      completed := by simp [hstate]
      receipts := fun _ h ↦ h, receipt := nofun, decisions := .inl rfl }

theorem Claimed.not_over {now : Int} (claimed : Claimed before connectionId generation now) :
    before.state ≠ .completed ∧ before.state ≠ .failed := by
  rcases claimed.held with h | h <;> rw [h] <;> decide

theorem acted_renewing (whole : Whole before) {progress : Option Script.Units}
    (h : renewing connectionId generation progress clock before = .ok after) :
    after = before ∨ Acted (.renew id connectionId generation progress) clock before after := by
  obtain ⟨_, hclaim, h⟩ := Except.bind_eq_ok.1 h
  cases h
  have claimed := assertClaim_eq_ok hclaim
  exact .inr {
    id := rfl, revision := rfl, result := rfl, childId := rfl, spike := rfl, generation := rfl
    begins := nofun
    work := .inl (.inl ⟨connectionId, generation, rfl, claimed⟩)
    candidate := whole.candidate
    expiry := fun _ ↦ held_iff.2 claimed.held
    completed := .rfl, receipts := fun _ h ↦ h, receipt := nofun, decisions := .inl rfl }

theorem acted_proposing {result : Submission}
    {parsed : Result} (h : proposing rules connectionId generation parsed clock before = .ok after) :
    after = before ∨ Acted (.candidate id connectionId generation result) clock before after := by
  obtain ⟨_, hclaim, h⟩ := Except.bind_eq_ok.1 h
  obtain ⟨_, -, h⟩ := Except.bind_eq_ok.1 h
  cases h
  have claimed := assertClaim_eq_ok hclaim
  exact .inr {
    id := rfl, revision := rfl, result := rfl, childId := rfl, spike := rfl, generation := rfl
    begins := nofun
    work := .inl (.inl ⟨connectionId, generation, rfl, claimed⟩)
    candidate := fun _ ↦ rfl, expiry := fun _ ↦ rfl
    completed := ⟨nofun, fun h ↦ absurd h claimed.not_over.1⟩
    receipts := fun _ h ↦ h, receipt := nofun, decisions := .inl rfl }

theorem settled_ne_completed (h : state.settled = true) : state ≠ .completed := by
  rintro rfl
  cases h

theorem acted_stopping {settled : state.settled = true} {progress : Script.Units}
    {allowed : Investigation → Except Failure Unit} (h : stopping state progress allowed clock before = .ok after) :
    after = before ∨ Acted (.stop id state settled progress allowed) clock before after := by
  rw [stopping] at h
  split at h
  · exact .inl (Except.ok.inj h).symm
  · rename_i hover
    obtain ⟨_, -, h⟩ := Except.bind_eq_ok.1 h
    cases h
    exact .inr {
      id := rfl, revision := rfl, result := rfl, childId := rfl, spike := rfl, generation := rfl
      begins := nofun, work := .inl (.inr rfl), candidate := nofun
      expiry := fun h ↦ absurd rfl h
      completed := ⟨fun h ↦ absurd h (settled_ne_completed settled), fun h ↦ absurd (.inl h) hover⟩
      receipts := fun _ h ↦ h, receipt := nofun, decisions := .inl rfl }

theorem acted_failing {error : Script.Units} (h : failing connectionId generation error clock before = .ok after) :
    after = before ∨ Acted (.failClaim id connectionId generation error) clock before after := by
  rw [failing] at h
  split at h
  · exact .inl (Except.ok.inj h).symm
  · obtain ⟨_, hclaim, h⟩ := Except.bind_eq_ok.1 h
    cases h
    have claimed := assertClaim_eq_ok hclaim
    exact .inr {
      id := rfl, revision := rfl, result := rfl, childId := rfl, spike := rfl, generation := rfl
      begins := nofun
      work := .inl (.inl ⟨connectionId, generation, rfl, claimed⟩)
      candidate := nofun, expiry := fun h ↦ absurd rfl h
      completed := ⟨nofun, fun h ↦ absurd h claimed.not_over.1⟩
      receipts := fun _ h ↦ h, receipt := nofun, decisions := .inl rfl }

theorem acted_retrying (h : retrying clock before = .ok after) :
    after = before ∨ Acted (.retry id) clock before after := by
  rw [retrying] at h
  split at h
  · exact .inl (Except.ok.inj h).symm
  · obtain ⟨_, hrefused, h⟩ := Except.bind_eq_ok.1 h
    cases h
    have hsettled : before.state.settled = true := by simpa using refuse_eq_ok.1 hrefused
    exact .inr {
      id := rfl, revision := rfl, result := rfl, childId := rfl, spike := rfl, generation := rfl
      begins := nofun, work := .inl (.inr rfl), candidate := nofun
      expiry := fun h ↦ absurd rfl h
      completed := ⟨nofun, fun h ↦ absurd h (settled_ne_completed hsettled)⟩
      receipts := fun _ h ↦ h, receipt := nofun, decisions := .inl rfl }

theorem acted_retryingSpike (h : retryingSpike clock before = .ok after) :
    Acted (.retrySpike id) clock before after := by
  rw [retryingSpike] at h
  split at h
  · cases h
  · rename_i spike hspike
    obtain ⟨_, hrefused, h⟩ := Except.bind_eq_ok.1 h
    cases h
    have hrefused := refuse_eq_ok.1 hrefused
    simp only [Bool.or_eq_false_iff, bne_eq_false_iff_eq] at hrefused
    exact {
      id := rfl, revision := rfl, result := rfl, childId := rfl
      spike := by rw [hspike]; rfl
      generation := rfl, begins := nofun, work := .inl (.inr rfl), candidate := nofun
      expiry := fun h ↦ absurd rfl h
      completed := ⟨nofun, fun h ↦ by rw [hrefused.1] at h; cases h⟩
      receipts := fun _ h ↦ h, receipt := nofun, decisions := .inl rfl }

theorem acted_marking (whole : Whole before) {edit : Spike → Spike}
    (h : marking edit clock before = .ok after) : Acted (.mark id edit) clock before after := by
  rw [marking] at h
  split at h
  · cases h
  · rename_i spike hspike
    cases h
    exact {
      id := rfl, revision := rfl, result := rfl, childId := rfl
      spike := by rw [hspike]; rfl
      generation := rfl, begins := nofun, work := .inr ⟨rfl, rfl, rfl, .rfl⟩
      candidate := whole.candidate, expiry := whole.expiry, completed := .rfl
      receipts := fun _ h ↦ h, receipt := nofun, decisions := .inl rfl }

/-! ## Receipts -/

theorem receipted_eq_ok {receipt digest : String} {otherwise : Except Failure Investigation}
    (h : receipted before receipt digest otherwise = .ok after) :
    after = before ∨ before.receipts.lookup receipt = none ∧ otherwise = .ok after := by
  rw [receipted] at h
  split at h
  · obtain ⟨_, -, h⟩ := Except.bind_eq_ok.1 h
    exact .inl (Except.ok.inj h).symm
  · rename_i hnone
    exact .inr ⟨hnone, h⟩

theorem receipts_set {receipts : List (String × String)} {receipt digest other : String}
    (h : (receipts.lookup other).isSome = true) :
    ((Entries.set receipts receipt digest).lookup other).isSome = true := by
  rw [Entries.lookup_set]
  split
  · rfl
  · exact h

theorem receipt_set (receipts : List (String × String)) (receipt digest : String) :
    ((Entries.set receipts receipt digest).lookup receipt).isSome = true := by
  rw [Entries.lookup_set, if_pos rfl]
  rfl

theorem acted_selecting (whole : Whole before) {actor viewKey : String} {patch : SelectionPatch}
    (h : selecting rules actor viewKey patch clock before = .ok after) :
    after = before ∨ Acted (.select id actor viewKey patch) clock before after := by
  rcases receipted_eq_ok h with hsame | ⟨hnone, h⟩
  · exact .inl hsame
  · obtain ⟨_, -, h⟩ := Except.bind_eq_ok.1 h
    obtain ⟨_, -, h⟩ := Except.bind_eq_ok.1 h
    split at h
    · cases h
    · cases h
    · obtain ⟨next, -, h⟩ := Except.bind_eq_ok.1 h
      cases h
      exact .inr {
        id := rfl, revision := rfl, result := rfl, childId := rfl, spike := rfl, generation := rfl
        begins := nofun, work := .inr ⟨rfl, rfl, rfl, .rfl⟩
        candidate := whole.candidate, expiry := whole.expiry, completed := .rfl
        receipts := fun _ ↦ receipts_set
        receipt := by rintro _ _ ⟨⟩; exact ⟨hnone, receipt_set _ _ _⟩
        decisions := .inl rfl }

theorem acted_deciding (whole : Whole before) {actorId login : String} {input : DecisionInput}
    (h : deciding rules actorId login input.trimmed clock before = .ok after) :
    after = before ∨ Acted (.decide id actorId login input) clock before after := by
  rcases receipted_eq_ok h with hsame | ⟨hnone, h⟩
  · exact .inl hsame
  · obtain ⟨_, -, h⟩ := Except.bind_eq_ok.1 h
    split at h
    · obtain ⟨_, -, h⟩ := Except.bind_eq_ok.1 h
      cases h
      exact .inr {
        id := rfl, revision := rfl, result := rfl, childId := rfl, spike := rfl, generation := rfl
        begins := nofun, work := .inr ⟨rfl, rfl, rfl, .rfl⟩
        candidate := whole.candidate, expiry := whole.expiry, completed := .rfl
        receipts := fun _ ↦ receipts_set
        receipt := by rintro _ _ ⟨⟩; exact ⟨hnone, receipt_set _ _ _⟩
        decisions := .inr ⟨_, rfl, hnone, receipt_set _ _ _⟩ }
    · cases h

/-- **Every call's action does what the fence allows it.** -/
theorem acted_of_task (whole : Whole before) {call : Call} {action : Action}
    (htask : call.task rules = .ok (.mutate id action)) (h : action clock before = .ok after)
    (hne : after ≠ before) : Acted call clock before after := by
  cases call with
  | create | complete | recover => cases htask
  | setBuildBlocker =>
    obtain ⟨_, -, htask⟩ := Except.bind_eq_ok.1 htask
    cases htask
    exact (acted_settingBlocker whole h).resolve_left hne
  | authorize =>
    obtain ⟨_, -, htask⟩ := Except.bind_eq_ok.1 htask
    cases htask
    exact (acted_authorizing whole h).resolve_left hne
  | claim => cases htask; exact (acted_claiming whole h).resolve_left hne
  | renew => cases htask; exact (acted_renewing whole h).resolve_left hne
  | candidate =>
    obtain ⟨parsed, -, htask⟩ := Except.bind_eq_ok.1 htask
    cases htask
    exact (acted_proposing h).resolve_left hne
  | stop => cases htask; exact (acted_stopping h).resolve_left hne
  | failClaim => cases htask; exact (acted_failing h).resolve_left hne
  | retry => cases htask; exact (acted_retrying h).resolve_left hne
  | retrySpike => cases htask; exact acted_retryingSpike h
  | select =>
    obtain ⟨_, -, htask⟩ := Except.bind_eq_ok.1 htask
    cases htask
    exact (acted_selecting whole h).resolve_left hne
  | decide =>
    obtain ⟨_, -, htask⟩ := Except.bind_eq_ok.1 htask
    cases htask
    exact (acted_deciding whole h).resolve_left hne
  | mark => cases htask; exact acted_marking whole h

end Chopin.Investigations
