import Chopin.Lib.Entries

/-!
# Records under a revision check

A store that replaces a record only while its revision is the one a writer read.  Writers read, compute
and write in separate steps, and others write in between.  Every write raises the revision, so a writer
whose write is taken replaces the very record it read.
-/

set_option autoImplicit false

namespace Versioned

variable {κ ρ : Type} [DecidableEq κ] (revision : ρ → Nat)

/-- The revision under a key, which a writer's replacement expects. -/
def current (store : List (κ × ρ)) (key : κ) : Option Nat := (store.lookup key).map revision

/-- The record was the store's at some time, and it is still, or a higher revision has replaced it. -/
def Seen (store : List (κ × ρ)) (key : κ) (record : ρ) : Prop :=
  ∃ stored, store.lookup key = some stored ∧
    (stored = record ∨ revision record < revision stored)

variable {revision} {store : List (κ × ρ)} {key other : κ} {record value : ρ}

/-- What is read is seen. -/
theorem Seen.read (h : store.lookup key = some record) : Seen revision store key record :=
  ⟨record, h, .inl rfl⟩

/-- **While the revision is that of the record held, the record is the one held**: a writer whose
write is taken replaces what it read. -/
theorem Seen.stored (h : Seen revision store key record)
    (hcurrent : current revision store key = some (revision record)) : store.lookup key = some record := by
  obtain ⟨stored, hstored, hcase⟩ := h
  rw [current, hstored, Option.map_some, Option.some.injEq] at hcurrent
  rcases hcase with rfl | hless
  · exact hstored
  · exact absurd hcurrent (Nat.ne_of_gt hless)

/-- A record replaced by one of a higher revision leaves what others hold seen. -/
theorem Seen.set (h : Seen revision store key record)
    (hraise : ∀ stored, store.lookup other = some stored → revision stored < revision value) :
    Seen revision (Entries.set store other value) key record := by
  obtain ⟨now, hnow, hcase⟩ := h
  rw [Seen, Entries.lookup_set]
  split
  · rename_i hsame
    subst hsame
    refine ⟨value, rfl, .inr ?_⟩
    rcases hcase with rfl | hless
    · exact hraise now hnow
    · exact Nat.lt_trans hless (hraise now hnow)
  · exact ⟨now, hnow, hcase⟩

end Versioned
