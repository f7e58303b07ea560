import Chopin.Experiments.PairingKeys
import Chopin.Lib.Runs

/-!
# What a pairing key's history says of it

The maps forget keys in five places.  Over whole runs, whatever requests come between two of one machine, they answer
as the history alone does: a key stands from its minting until it is taken, or its person mints another, or its
sign-in ends, or its time is over.

`mint` and `peek` read the hash of a key, so two keys with one hash would be one key.  `World.Expected` grants that no
new key has the hash of one that stands, and that the clock does not go back.

## What is here

* `Event`, `standing`, `holding`, `mintTimes` — the history, and what it says.
* `Recorded`, `Limited`, `Carried` — the invariants.
* `peek_reads_history`, `mints_limited`, `durable_keys_carry` — the main results.
-/

set_option autoImplicit false

open Function (update update_self update_of_ne)

namespace Chopin.Experiments

namespace PairingKeys

variable {δ : Type}

/-- What was granted, ended, minted or taken. -/
inductive Event (δ : Type)
  | authorized (time : Int) (userId sessionId : String) (grant : TokenGrant)
  | ended (sessionId : String)
  | minted (time : Int) (hash : δ) (userId sessionId : String) (autoRun shared : Bool)
  | taken (hash : δ) (userId : String)

/-! ## What a history says, the last event first -/

section

variable [DecidableEq δ]

/-- The key of a hash, unless it was taken, its person minted another, or its sign-in ended. -/
def standing (hash : δ) : List (Event δ) → Option Key
  | [] => none
  | .minted time made userId sessionId autoRun shared :: log =>
    if hash = made then some { userId, sessionId, expiresAt := time + PAIRING_KEY_MS, autoRun, shared }
    else (standing hash log).filter (·.userId != userId)
  | .taken spent _ :: log => if hash = spent then none else standing hash log
  | .ended sessionId :: log => (standing hash log).filter (·.sessionId != sessionId)
  | .authorized .. :: log => standing hash log

/-- Whether the account authorized another machine since the key of a hash was minted. -/
def reauthorized (hash : δ) (userId : String) : List (Event δ) → Bool
  | [] => false
  | .minted _ made .. :: log => hash != made && reauthorized hash userId log
  | .authorized _ account .. :: log => userId == account || reauthorized hash userId log
  | _ :: log => reauthorized hash userId log

end

/-- The authorization that an account gave last, unless its sign-in ended or a key spent it. -/
def holding (userId : String) : List (Event δ) → Option Held
  | [] => none
  | .authorized time account sessionId grant :: log =>
    if userId = account then some (.since time sessionId grant) else holding userId log
  | .ended sessionId :: log => (holding userId log).filter (·.sessionId != sessionId)
  | .taken _ account :: log => if userId = account then none else holding userId log
  | .minted .. :: log => holding userId log

/-- When a person's keys were minted, the first one first. -/
def mintTimes (userId : String) : List (Event δ) → List Int
  | [] => []
  | .minted time _ account .. :: log =>
    if userId = account then mintTimes userId log ++ [time] else mintTimes userId log
  | _ :: log => mintTimes userId log

/-- `peek`, as the history alone answers it. -/
def recalled [DecidableEq δ] (digest : String → δ) (now : Int) (key : String) (log : List (Event δ)) :
    Except String Found :=
  ((standing (digest key) log).filter fun found ↦ isKey key && now < found.expiresAt).elim
    (.error "pairing-key-invalid") fun found ↦ .ok (found.found now (holding found.userId log))

/-! ## Runs -/

inductive Request
  | authorize (userId sessionId : String) (grant : TokenGrant)
  | ended (sessionId : String)
  | mint (userId sessionId : String) (autoRun shared : Bool) (key : String)
  | take (key : String)
  | sweep

structure World (δ : Type) where
  service : PairingKeys δ
  clock : Int
  log : List (Event δ)

def World.start (clock : Int) : World δ := { service := .empty, clock, log := [] }

section

variable [DecidableEq δ] (digest : String → δ)

/-- A request with the time it came at; what was refused leaves no event. -/
def World.step (w : World δ) : Int × Request → Option (World δ)
  | (now, .authorize userId sessionId grant) =>
    some ⟨w.service.authorize now userId sessionId grant, now, .authorized now userId sessionId grant :: w.log⟩
  | (now, .ended sessionId) => some ⟨w.service.ended sessionId, now, .ended sessionId :: w.log⟩
  | (now, .mint userId sessionId autoRun shared key) =>
    let call := w.service.mint digest now userId sessionId autoRun shared key
    some ⟨call.2, now, call.1.toOption.elim w.log fun _ ↦
      .minted now (digest key) userId sessionId autoRun shared :: w.log⟩
  | (now, .take key) =>
    let call := w.service.take digest now key
    some ⟨call.2, now, call.1.toOption.elim w.log fun found ↦ .taken (digest key) found.userId :: w.log⟩
  | (now, .sweep) => some ⟨w.service.sweep now, now, w.log⟩

/-- The clock does not go back, and no new key has the hash of one that stands.  Where machines hold their own
authorizations, the route has a key minted only for a sign-in that is authorized. -/
def World.Expected (durable : Bool) (w : World δ) (request : Int × Request) : Prop :=
  w.clock ≤ request.1 ∧
    ∀ userId sessionId autoRun shared key, request.2 = .mint userId sessionId autoRun shared key →
      standing (digest key) w.log = none ∧
        (durable = true → w.service.authorized request.1 userId sessionId = true)

end

/-! ## The maps and the history -/

/-- Each person's place has a key of theirs, and every key has its person's place. -/
def Owned (s : PairingKeys δ) : Prop :=
  ∀ userId hash, s.current userId = some hash ↔ ∃ key, s.keys hash = some key ∧ key.userId = userId

/-- No window of ten minutes has more than ten of a person's keys. -/
def Limited (log : List (Event δ)) : Prop :=
  ∀ userId now, ((mintTimes userId log).countP fun time ↦ now - MINT_WINDOW_MS < time && time ≤ now) ≤
    MINTS_PER_WINDOW

/-- A key that stands has an authorization of its sign-in that outlasts it, unless its account gave another since. -/
def Carried [DecidableEq δ] (now : Int) (log : List (Event δ)) : Prop :=
  ∀ hash key, standing hash log = some key → now < key.expiresAt → reauthorized hash key.userId log = false →
    ∃ held, holding key.userId log = some held ∧ held.sessionId = key.sessionId ∧ key.expiresAt ≤ held.heldUntil

/-- The maps hold what the history says of the time that is left, and the history is as the checks leave it. -/
structure Recorded [DecidableEq δ] (durable : Bool) (s : PairingKeys δ) (clock : Int) (log : List (Event δ)) :
    Prop where
  keys : ∀ hash key, clock < key.expiresAt → (s.keys hash = some key ↔ standing hash log = some key)
  owned : Owned s
  grants : ∀ userId held, clock < held.heldUntil → (s.grants userId = some held ↔ holding userId log = some held)
  mints : ∀ userId now, clock ≤ now → (s.mints userId).filter (now - MINT_WINDOW_MS < ·) =
    (mintTimes userId log).filter (now - MINT_WINDOW_MS < ·)
  limited : Limited log
  carried : durable = true → Carried clock log

variable {s : PairingKeys δ} {now : Int} {log : List (Event δ)}

theorem Owned.drop (h : Owned s) (gone : Key → Bool) : Owned (s.drop gone) := by
  intro userId hash
  simp only [PairingKeys.drop, Option.filter_eq_some_iff, h userId hash]
  constructor
  · rintro ⟨⟨key, hkey, hid⟩, hstays⟩
    simp only [hkey, Option.any_some, hid, beq_self_eq_true, Bool.and_true] at hstays
    exact ⟨key, ⟨hkey, hstays⟩, hid⟩
  · rintro ⟨key, ⟨hkey, hstays⟩, hid⟩
    refine ⟨⟨key, hkey, hid⟩, ?_⟩
    simp only [hkey, Option.any_some, hid, beq_self_eq_true, Bool.and_true]
    exact hstays

/-- Of the values that a test lets pass two maps know the same. -/
theorem filter_eq_of {α : Type} {a b : Option α} {p : α → Bool} (h : ∀ x, p x = true → (a = some x ↔ b = some x)) :
    a.filter p = b.filter p := by
  refine Option.ext fun x ↦ ?_
  rw [Option.filter_eq_some_iff, Option.filter_eq_some_iff]
  exact and_congr_left (h x)

theorem peek_eq (s : PairingKeys δ) (digest : String → δ) (now : Int) (key : String) :
    s.peek digest now key = ((s.keys (digest key)).filter fun found ↦ isKey key && now < found.expiresAt).elim
      (.error "pairing-key-invalid") fun found ↦ .ok (found.found now (s.grants found.userId)) := by
  rw [peek]
  cases isKey key with
  | false => cases s.keys (digest key) <;> rfl
  | true =>
    cases s.keys (digest key) with
    | none => rfl
    | some found =>
      by_cases hlive : now < found.expiresAt
      · rw [Option.filter_some_pos (by simpa using hlive)]
        exact if_neg (Int.not_le.2 hlive)
      · rw [Option.filter_some_neg (by simpa using hlive)]
        exact if_pos (Int.not_lt.1 hlive)

theorem Limited.minted (h : Limited log) {userId : String}
    (hfew : (mintTimes userId log).countP (now - MINT_WINDOW_MS < ·) < MINTS_PER_WINDOW) (hash : δ) (sessionId : String)
    (autoRun shared : Bool) : Limited (.minted now hash userId sessionId autoRun shared :: log) := by
  intro account later
  rw [mintTimes]
  split
  · rename_i hid
    subst hid
    rw [List.countP_append, List.countP_singleton]
    split
    · rename_i hwithin
      -- What stands in a window that has this key too was counted when it was minted.
      have hsub : (mintTimes account log).countP (fun time ↦ later - MINT_WINDOW_MS < time && time ≤ later) ≤
          (mintTimes account log).countP (now - MINT_WINDOW_MS < ·) := by
        refine List.countP_mono_left fun time _ htime ↦ ?_
        simp only [Bool.and_eq_true, decide_eq_true_eq] at htime hwithin ⊢
        omega
      omega
    · exact h account later
  · exact h account later

theorem peek_ok {digest : String → δ} {key : String} {found : Found} (h : s.peek digest now key = .ok found) :
    ∃ held, s.keys (digest key) = some held ∧ isKey key = true ∧ now < held.expiresAt ∧
      found = held.found now (s.grants held.userId) := by
  rw [peek_eq] at h
  cases hheld : (s.keys (digest key)).filter fun found ↦ isKey key && now < found.expiresAt with
  | none =>
    rw [hheld] at h
    cases h
  | some held =>
    rw [hheld] at h
    obtain ⟨hkeys, htest⟩ := Option.filter_eq_some_iff.1 hheld
    obtain ⟨hform, hlive⟩ := Bool.and_eq_true_iff.1 htest
    exact ⟨held, hkeys, hform, of_decide_eq_true hlive, (Except.ok.inj h).symm⟩

theorem holding_until {userId : String} {held : Held} (h : holding userId log = some held) :
    held.heldUntil ≤ held.issuedAt + held.grant.accessExpiresIn * 1000 := by
  induction log with
  | nil => cases h
  | cons event log ih =>
    cases event with
    | authorized =>
      rw [holding] at h
      split at h
      · cases h
        exact Int.add_le_add_left (Int.min_le_right _ _) _
      · exact ih h
    | ended => exact ih (Option.filter_eq_some_iff.1 h).1
    | minted => exact ih h
    | taken =>
      rw [holding] at h
      split at h
      · cases h
      · exact ih h

variable [DecidableEq δ] {digest : String → δ} {durable : Bool} {clock : Int}

/-- The keys but those of a person, whose place `mint` gives to another. -/
theorem Owned.replace (h : Owned s) (userId : String) (hash : δ) (key : Key) :
    (s.current userId).elim s.keys (fun previous ↦ update s.keys previous none) hash = some key ↔
      s.keys hash = some key ∧ key.userId ≠ userId := by
  cases hcurrent : s.current userId with
  | none =>
    refine ⟨fun hkey ↦ ⟨hkey, fun hid ↦ ?_⟩, And.left⟩
    have := (h userId hash).2 ⟨key, hkey, hid⟩
    rw [hcurrent] at this
    cases this
  | some previous =>
    rw [Option.elim_some]
    by_cases hsame : hash = previous
    · subst hsame
      rw [update_self]
      obtain ⟨found, hfound, hid⟩ := (h userId hash).1 hcurrent
      constructor
      · rintro ⟨⟩
      · rintro ⟨hkey, hother⟩
        rw [hfound] at hkey
        cases hkey
        exact absurd hid hother
    · rw [update_of_ne hsame]
      refine ⟨fun hkey ↦ ⟨hkey, fun hid ↦ ?_⟩, And.left⟩
      have := (h userId hash).2 ⟨key, hkey, hid⟩
      exact hsame (Option.some.inj (this.symm.trans hcurrent))

theorem Carried.authorized (h : Carried now log) (time : Int) (userId sessionId : String) (grant : TokenGrant) :
    Carried now (.authorized time userId sessionId grant :: log) := by
  intro hash key hkey hlive hsince
  rw [reauthorized, Bool.or_eq_false_iff, beq_eq_false_iff_ne] at hsince
  rw [holding, if_neg hsince.1]
  exact h hash key hkey hlive hsince.2

theorem Carried.ended (h : Carried now log) (sessionId : String) : Carried now (.ended sessionId :: log) := by
  intro hash key hkey hlive hsince
  rw [standing, Option.filter_eq_some_iff, bne_iff_ne] at hkey
  obtain ⟨held, hheld, hsession, houtlasts⟩ := h hash key hkey.1 hlive hsince
  refine ⟨held, ?_, hsession, houtlasts⟩
  rw [holding, Option.filter_eq_some_iff, bne_iff_ne, hsession]
  exact ⟨hheld, hkey.2⟩

theorem Carried.minted (h : Carried now log) {userId sessionId : String}
    (hheld : ∃ held, holding userId log = some held ∧ held.sessionId = sessionId ∧
      now + PAIRING_KEY_MS ≤ held.heldUntil)
    (hash : δ) (autoRun shared : Bool) : Carried now (.minted now hash userId sessionId autoRun shared :: log) := by
  intro other key hkey hlive hsince
  rw [standing] at hkey
  rw [reauthorized] at hsince
  rw [holding]
  split at hkey
  · cases hkey
    exact hheld
  · rename_i hother
    rw [bne_iff_ne.2 hother, Bool.true_and] at hsince
    exact h other key (Option.filter_eq_some_iff.1 hkey).1 hlive hsince

/-- A taken key spends the authorization of its person, whose only key it was. -/
theorem Carried.taken (h : Carried now log) {hash : δ} {userId : String}
    (honly : ∀ other key, standing other log = some key → now < key.expiresAt → key.userId = userId → other = hash) :
    Carried now (.taken hash userId :: log) := by
  intro other key hkey hlive hsince
  rw [standing] at hkey
  split at hkey
  · cases hkey
  · rename_i hother
    rw [holding, if_neg fun hid ↦ hother (honly other key hkey hlive hid)]
    exact h other key hkey hlive hsince

theorem Carried.later (h : Carried clock log) (hnow : clock ≤ now) : Carried now log :=
  fun hash key hkey hlive ↦ h hash key hkey (Int.lt_of_le_of_lt hnow hlive)

theorem Recorded.later (h : Recorded durable s clock log) (hnow : clock ≤ now) : Recorded durable s now log where
  keys hash key hlive := h.keys hash key (Int.lt_of_le_of_lt hnow hlive)
  owned := h.owned
  grants userId held hlive := h.grants userId held (Int.lt_of_le_of_lt hnow hlive)
  mints userId later hlater := h.mints userId later (Int.le_trans hnow hlater)
  limited := h.limited
  carried hdurable := (h.carried hdurable).later hnow

theorem Recorded.sweep (h : Recorded durable s now log) : Recorded durable (s.sweep now) now log where
  keys hash key hlive := by
    rw [← h.keys hash key hlive]
    simp only [PairingKeys.sweep, PairingKeys.drop, Option.filter_eq_some_iff]
    exact and_iff_left (by simpa using hlive)
  owned := h.owned.drop _
  grants userId held hlive := by
    rw [← h.grants userId held hlive]
    simp only [PairingKeys.sweep, Option.filter_eq_some_iff]
    exact and_iff_left (decide_eq_true hlive)
  mints userId later hlater := by
    rw [← h.mints userId later hlater]
    simp only [PairingKeys.sweep]
    split
    · rename_i hold
      rw [List.filter_nil, eq_comm, List.filter_eq_nil_iff]
      intro time htime
      have hpast := of_decide_eq_true (List.all_eq_true.1 hold time htime)
      rw [decide_eq_true_eq]
      omega
    · rfl
  limited := h.limited
  carried := h.carried

theorem Recorded.authorize (h : Recorded durable s now log) (userId sessionId : String) (grant : TokenGrant) :
    Recorded durable (s.authorize now userId sessionId grant) now (.authorized now userId sessionId grant :: log) where
  keys := h.keys
  owned := h.owned
  grants account held hlive := by
    rw [PairingKeys.authorize, holding]
    dsimp only
    by_cases hid : account = userId
    · subst hid
      rw [update_self, if_pos rfl]
    · rw [update_of_ne hid, if_neg hid]
      exact h.grants account held hlive
  mints := h.mints
  limited := h.limited
  carried hdurable := (h.carried hdurable).authorized now userId sessionId grant

theorem Recorded.ended (h : Recorded durable s now log) (sessionId : String) :
    Recorded durable (s.ended sessionId) now (.ended sessionId :: log) where
  keys hash key hlive := by
    simp only [PairingKeys.ended, PairingKeys.drop, standing, Option.filter_eq_some_iff, h.keys hash key hlive]
    rfl
  owned := h.owned.drop _
  grants userId held hlive := by
    simp only [PairingKeys.ended, holding, Option.filter_eq_some_iff, h.grants userId held hlive]
  mints := h.mints
  limited := h.limited
  carried hdurable := (h.carried hdurable).ended sessionId

/-- The keys that `mint` counts are those of the history. -/
theorem Recorded.recent (h : Recorded durable s now log) (userId : String) :
    ((s.sweep now).mints userId).filter (now - MINT_WINDOW_MS < ·) =
      (mintTimes userId log).filter (now - MINT_WINDOW_MS < ·) := h.sweep.mints userId now (Int.le_refl now)

theorem Recorded.mint (h : Recorded durable s now log) {key : String} (hnew : standing (digest key) log = none)
    {userId sessionId : String} (hauthorized : durable = true → s.authorized now userId sessionId = true)
    (autoRun shared : Bool) : Recorded durable (s.mint digest now userId sessionId autoRun shared key).2 now
      ((s.mint digest now userId sessionId autoRun shared key).1.toOption.elim log fun _ ↦
        .minted now (digest key) userId sessionId autoRun shared :: log) := by
  have hswept := h.sweep
  -- After the sweep a key that is held is live, so it stands.
  have hunused : (s.sweep now).keys (digest key) = none := by
    cases hheld : (s.sweep now).keys (digest key) with
    | none => rfl
    | some held =>
      have hlive := (Option.filter_eq_some_iff.1 hheld).2
      rw [(hswept.keys _ held (by simpa using hlive)).1 hheld] at hnew
      cases hnew
  rw [PairingKeys.mint]
  dsimp only
  split
  · exact hswept
  · rename_i hfew
    rw [h.recent, ← List.countP_eq_length_filter] at hfew
    refine ⟨fun hash held hlive ↦ ?_, fun account hash ↦ ?_, hswept.grants, fun account later hlater ↦ ?_,
      h.limited.minted (Nat.lt_of_not_le hfew) _ sessionId autoRun shared, fun hdurable ↦ ?_⟩
    · by_cases hsame : hash = digest key
      · subst hsame
        simp only [update_self, Except.toOption, Option.elim_some, standing, if_pos]
      · simp only [update_of_ne hsame, Except.toOption, Option.elim_some, standing, if_neg hsame,
          hswept.owned.replace, Option.filter_eq_some_iff, hswept.keys hash held hlive, bne_iff_ne]
    · dsimp only
      by_cases hsame : hash = digest key
      · subst hsame
        by_cases hid : account = userId
        · subst hid
          simp [update_self]
        · rw [update_of_ne hid, update_self, hswept.owned, hunused]
          constructor
          · rintro ⟨_, ⟨⟩, _⟩
          · rintro ⟨_, ⟨⟩, hother⟩
            exact absurd hother.symm hid
      · simp only [update_of_ne hsame, hswept.owned.replace]
        by_cases hid : account = userId
        · subst hid
          rw [update_self]
          constructor
          · intro heq
            exact absurd (Option.some.inj heq).symm hsame
          · rintro ⟨_, ⟨_, hother⟩, hown⟩
            exact absurd hown hother
        · rw [update_of_ne hid, hswept.owned]
          constructor
          · rintro ⟨held, hheld, hown⟩
            exact ⟨held, ⟨hheld, hown ▸ hid⟩, hown⟩
          · rintro ⟨held, ⟨hheld, -⟩, hown⟩
            exact ⟨held, hheld, hown⟩
    · have hmints := hswept.mints account later hlater
      simp only [Except.toOption, Option.elim_some, mintTimes]
      by_cases hid : account = userId
      · subst hid
        rw [update_self, if_pos rfl, List.filter_append, List.filter_append, ← hmints, List.filter_filter]
        refine congrArg (· ++ _) (List.filter_congr fun time _ ↦ ?_)
        rw [Bool.and_eq_left_iff_imp, decide_eq_true_eq, decide_eq_true_eq]
        omega
      · rw [update_of_ne hid, if_neg hid]
        exact hmints
    · have hheld := hauthorized hdurable
      rw [PairingKeys.authorized, Option.any_eq_true] at hheld
      obtain ⟨held, hheld, htest⟩ := hheld
      rw [Bool.and_eq_true, beq_iff_eq, decide_eq_true_eq] at htest
      have hlive : now < held.heldUntil := Int.lt_of_lt_of_le (Int.lt_add_of_pos_right now (by decide)) htest.2
      exact (h.carried hdurable).minted ⟨held, (h.grants userId held hlive).1 hheld, htest⟩ _ autoRun shared

/-- A key answers as the history does. -/
theorem Recorded.peek (h : Recorded durable s now log) (key : String) :
    s.peek digest now key = recalled digest now key log := by
  rw [peek_eq, recalled, filter_eq_of (p := fun found ↦ isKey key && now < found.expiresAt) fun found hfound ↦
    h.keys _ found (of_decide_eq_true (Bool.and_eq_true_iff.1 hfound).2)]
  congr
  funext found
  rw [Key.found, Key.found, told, told, filter_eq_of fun held hheld ↦
    h.grants found.userId held (of_decide_eq_true (Bool.and_eq_true_iff.1 hheld).2)]

theorem Recorded.take (h : Recorded durable s now log) (key : String) : Recorded durable (s.take digest now key).2 now
      ((s.take digest now key).1.toOption.elim log fun found ↦ .taken (digest key) found.userId :: log) := by
  rw [PairingKeys.take]
  cases hpeek : s.peek digest now key with
  | error refused => exact h
  | ok found =>
    obtain ⟨spent, hspent, -, -, rfl⟩ := peek_ok hpeek
    have hplace : s.current spent.userId = some (digest key) := (h.owned _ _).2 ⟨spent, hspent, rfl⟩
    simp only [Key.found, Except.toOption, Option.elim_some, hplace, if_true]
    refine ⟨fun hash held hlive ↦ ?_, fun userId hash ↦ ?_, fun userId held hlive ↦ ?_, h.mints, h.limited,
      fun hdurable ↦ (h.carried hdurable).taken fun other key hkey hlive hid ↦ ?_⟩
    · dsimp only
      by_cases hsame : hash = digest key
      · subst hsame
        rw [update_self, standing, if_pos rfl]
      · rw [update_of_ne hsame, standing, if_neg hsame]
        exact h.keys hash held hlive
    · dsimp only
      by_cases hsame : hash = digest key
      · subst hsame
        rw [update_self]
        constructor
        · intro hcurrent
          by_cases hid : userId = spent.userId
          · rw [hid, update_self] at hcurrent
            cases hcurrent
          · rw [update_of_ne hid] at hcurrent
            obtain ⟨held, hheld, hown⟩ := (h.owned _ _).1 hcurrent
            rw [hspent] at hheld
            cases hheld
            exact absurd hown.symm hid
        · rintro ⟨_, ⟨⟩, _⟩
      · rw [update_of_ne hsame]
        by_cases hid : userId = spent.userId
        · rw [hid, update_self]
          constructor
          · rintro ⟨⟩
          · intro hheld
            exact absurd (Option.some.inj (((h.owned _ _).2 hheld).symm.trans hplace)) hsame
        · rw [update_of_ne hid]
          exact h.owned userId hash
    · dsimp only
      by_cases hid : userId = spent.userId
      · rw [hid, update_self, holding, if_pos rfl]
      · rw [update_of_ne hid, holding, if_neg hid]
        exact h.grants userId held hlive
    · have hother := (h.owned _ _).2 ⟨key, (h.keys other key hlive).2 hkey, hid⟩
      exact Option.some.inj (hother.symm.trans hplace)

theorem recorded_start (clock : Int) : Recorded durable (.empty : PairingKeys δ) clock [] where
  keys _ _ _ := Iff.rfl
  owned _ _ := by
    constructor
    · rintro ⟨⟩
    · rintro ⟨_, ⟨⟩, _⟩
  grants _ _ _ := Iff.rfl
  mints _ _ _ := rfl
  limited _ _ := Nat.zero_le _
  carried _ := by rintro _ _ ⟨⟩

/-! ## Runs and their history -/

theorem mint_refused_iff (h : Recorded durable s now log) (userId sessionId : String) (autoRun shared : Bool)
    (key : String) : (s.mint digest now userId sessionId autoRun shared key).1 = .error "pairing-key-rate-limited" ↔
      MINTS_PER_WINDOW ≤ (mintTimes userId log).countP (now - MINT_WINDOW_MS < ·) := by
  rw [mint, List.countP_eq_length_filter, ← h.recent]
  dsimp only
  split
  · exact iff_of_true rfl ‹_›
  · exact iff_of_false (by rintro ⟨⟩) ‹_›

/-! ### Every run -/

variable {w next : World δ} {request : Int × Request} {acts : List (Int × Request)}

theorem World.Expected.recorded (hexpected : w.Expected digest durable request)
    (h : Recorded durable w.service w.clock w.log) (hstep : w.step digest request = some next) :
    Recorded durable next.service next.clock next.log := by
  obtain ⟨now, request⟩ := request
  have h := h.later hexpected.1
  cases request with
  | authorize userId sessionId grant =>
    cases hstep
    exact h.authorize userId sessionId grant
  | ended sessionId =>
    cases hstep
    exact h.ended sessionId
  | mint userId sessionId autoRun shared key =>
    cases hstep
    obtain ⟨hnew, hauthorized⟩ := hexpected.2 _ _ _ _ _ rfl
    exact h.mint hnew hauthorized autoRun shared
  | take key =>
    cases hstep
    exact h.take key
  | sweep =>
    cases hstep
    exact h.sweep

theorem recorded_of_run (run : Guarded (World.Expected digest durable) (World.step digest) (.start clock) acts w) :
    Recorded durable w.service w.clock w.log :=
  run.invariant (recorded_start clock) fun _ _ _ h hexpected hstep ↦ hexpected.recorded h hstep

/-- A machine is authorized, and a second later a key is minted for it. -/
def sampleKey : String := "chopin_k_AAAAAAAAAAAAAAAAAAAAAAAAAAAAAAAAAAAAAAAAAAA"

theorem sample_runs : ∃ (acts : List (Int × Request)) (w : World String),
    Guarded (World.Expected id true) (World.step id) (.start 0) acts w ∧ w.log.length = 2 ∧ w.clock = 1000 ∧
      w.service.peek id 2500 sampleKey =
        .ok { userId := "ada", grant := some ⟨"access", 28797, "refresh", 15897597⟩, autoRun := true,
              shared := false } :=
  ⟨[(0, .authorize "ada" "browser" ⟨"access", 28800, "refresh", 15897600⟩),
      (1000, .mint "ada" "browser" true false sampleKey)], _,
    .snoc (.snoc (.nil _) ⟨by decide, by rintro _ _ _ _ _ ⟨⟩⟩ rfl)
      ⟨by decide, by rintro _ _ _ _ _ ⟨⟩; exact ⟨rfl, fun _ ↦ by decide +kernel⟩⟩ rfl, rfl, rfl, by decide +kernel⟩

/-- **A key answers as its history says**: `peek`, and so `take`, answers a text that has the form of a key and the
hash of one that was minted less than ten minutes ago, unless it was taken since, or its person minted another, or its
sign-in ended, with the settings it was minted with and the authorization that is held for its sign-in. -/
theorem peek_reads_history (run : Guarded (World.Expected digest durable) (World.step digest) (.start clock) acts w)
    (hnow : w.clock ≤ now) (key : String) : w.service.peek digest now key = recalled digest now key w.log :=
  ((recorded_of_run run).later hnow).peek key

theorem peek_reads_history_sample : ∃ w : World String, w.log.length = 2 ∧
    w.service.peek id 2500 sampleKey = recalled id 2500 sampleKey w.log := by
  obtain ⟨_, w, run, hlog, hclock, -⟩ := sample_runs
  exact ⟨w, hlog, peek_reads_history run (by rw [hclock]; decide) sampleKey⟩

/-- **At most ten keys a person in any ten minutes**, and one is refused for no other reason. -/
theorem mints_limited (run : Guarded (World.Expected digest durable) (World.step digest) (.start clock) acts w) :
    (∀ userId now, ((mintTimes userId w.log).countP fun time ↦ now - MINT_WINDOW_MS < time && time ≤ now) ≤
      MINTS_PER_WINDOW) ∧ ∀ now, w.clock ≤ now → ∀ userId sessionId autoRun shared key,
      (w.service.mint digest now userId sessionId autoRun shared key).1 = .error "pairing-key-rate-limited" ↔
        MINTS_PER_WINDOW ≤ (mintTimes userId w.log).countP (now - MINT_WINDOW_MS < ·) := by
  have h := recorded_of_run run
  exact ⟨h.limited, fun now hnow ↦ mint_refused_iff (h.later hnow)⟩

theorem mints_limited_sample : ∃ w : World String, w.log.length = 2 ∧
    ∀ userId now, ((mintTimes userId w.log).countP fun time ↦ now - MINT_WINDOW_MS < time && time ≤ now) ≤ 10 := by
  obtain ⟨_, w, run, hlog, -, -⟩ := sample_runs
  exact ⟨w, hlog, (mints_limited run).1⟩

/-- What is told of an authorization: its tokens, and how long the access token lasts, to the second and no longer. -/
structure Tells (now : Int) (held : Held) (grant : TokenGrant) : Prop where
  accessToken : grant.accessToken = held.grant.accessToken
  refreshToken : grant.refreshToken = held.grant.refreshToken
  lasts : 0 ≤ grant.accessExpiresIn
  within : now + grant.accessExpiresIn * 1000 ≤ held.issuedAt + held.grant.accessExpiresIn * 1000
  close : held.issuedAt + held.grant.accessExpiresIn * 1000 < now + grant.accessExpiresIn * 1000 + 1000

/-- **Where machines hold their own authorizations, a live key carries one**, unless its account authorized another
machine after it was minted: the one held for the sign-in that minted it, told to last no longer than it does. -/
theorem durable_keys_carry (run : Guarded (World.Expected digest true) (World.step digest) (.start clock) acts w)
    (hnow : w.clock ≤ now) {key : String} {found : Found} (hpeek : w.service.peek digest now key = .ok found) :
    (reauthorized (digest key) found.userId w.log = false → found.grant.isSome = true) ∧
    ∀ grant, found.grant = some grant → ∃ minted held, standing (digest key) w.log = some minted ∧
      holding found.userId w.log = some held ∧ held.sessionId = minted.sessionId ∧ Tells now held grant := by
  have hrecorded := (recorded_of_run run).later hnow
  obtain ⟨minted, hminted, -, hlive, rfl⟩ := peek_ok hpeek
  have hstanding := (hrecorded.keys _ minted hlive).1 hminted
  have hgrant : (minted.found now (w.service.grants minted.userId)).grant =
      told now minted (holding minted.userId w.log) := by
    rw [Key.found, told, told, filter_eq_of fun held hheld ↦
      hrecorded.grants minted.userId held (of_decide_eq_true (Bool.and_eq_true_iff.1 hheld).2)]
  rw [hgrant]
  constructor
  · intro hsince
    obtain ⟨held, hheld, hsession, houtlasts⟩ := hrecorded.carried rfl _ minted hstanding hlive hsince
    have htest : (held.sessionId == minted.sessionId && now < held.heldUntil) = true := by
      rw [hsession, beq_self_eq_true, Bool.true_and, decide_eq_true_eq]
      exact Int.lt_of_lt_of_le hlive houtlasts
    rw [told, hheld, Option.isSome_map, Option.filter, if_pos htest]
    rfl
  · intro grant htold
    obtain ⟨held, hheld, rfl⟩ := Option.map_eq_some_iff.1 htold
    obtain ⟨hholding, htest⟩ := Option.filter_eq_some_iff.1 hheld
    rw [Bool.and_eq_true, beq_iff_eq, decide_eq_true_eq] at htest
    have huntil := holding_until hholding
    refine ⟨minted, held, hstanding, hholding, htest.1, rfl, rfl, Int.le_max_left _ _, ?_, ?_⟩
    · dsimp only
      omega
    · dsimp only
      omega

theorem durable_keys_carry_sample : ∃ w : World String, ∃ minted held, standing sampleKey w.log = some minted ∧
    holding "ada" w.log = some held ∧ held.sessionId = minted.sessionId ∧
      Tells 2500 held ⟨"access", 28797, "refresh", 15897597⟩ := by
  obtain ⟨_, w, run, -, hclock, hpeek⟩ := sample_runs
  exact ⟨w, (durable_keys_carry run (by rw [hclock]; decide) hpeek).2 _ rfl⟩

end PairingKeys

end Chopin.Experiments
