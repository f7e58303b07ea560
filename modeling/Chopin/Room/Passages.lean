import Mathlib.Data.List.Nodup
import Chopin.Room.Anchors

/-!
# Where a quote is found again

`seek` has the one place where the quote stands nearest to the recorded offset, and nothing when two are as near.
-/

set_option autoImplicit false

open Script

namespace Chopin.Room

variable {text quote : Units} {offset : Int}

/-- The quote stands in the text here. -/
def Occurs (text quote : Units) («at» : Nat) : Prop := quote <+: text.drop «at»

theorem mem_occurrences (hquote : quote ≠ []) {start «at» : Nat} :
    «at» ∈ occurrences quote start text ↔ ∃ i, «at» = start + i ∧ Occurs text quote i := by
  induction text generalizing start with
  | nil =>
    have hnone : ∀ i, ¬Occurs [] quote i := by
      intro i hoccurs
      rw [Occurs, List.drop_nil, List.prefix_nil] at hoccurs
      exact hquote hoccurs
    have hprefix : quote.isPrefixOf [] = false := by
      rw [← Bool.not_eq_true, List.isPrefixOf_iff_prefix]
      exact hnone 0
    rw [occurrences, hprefix]
    exact ⟨fun h ↦ (List.not_mem_nil h).elim, fun ⟨i, _, hoccurs⟩ ↦ (hnone i hoccurs).elim⟩
  | cons unit rest ih =>
    rw [occurrences, List.mem_append, ih]
    constructor
    · rintro (h | ⟨i, rfl, hoccurs⟩)
      · split at h
        · rename_i hprefix
          exact ⟨0, List.mem_singleton.1 h, List.isPrefixOf_iff_prefix.1 hprefix⟩
        · cases h
      · exact ⟨i + 1, by omega, hoccurs⟩
    · rintro ⟨i, rfl, hoccurs⟩
      cases i with
      | zero =>
        have hprefix : quote.isPrefixOf (unit :: rest) = true := List.isPrefixOf_iff_prefix.2 hoccurs
        rw [if_pos hprefix]
        exact .inl (List.mem_singleton_self _)
      | succ i => exact .inr ⟨i, by omega, hoccurs⟩

theorem nodup_occurrences (hquote : quote ≠ []) (text : Units) (start : Nat) :
    (occurrences quote start text).Nodup := by
  induction text generalizing start with
  | nil =>
    rw [occurrences]
    split
    · exact List.nodup_singleton _
    · exact List.nodup_nil
  | cons unit rest ih =>
    rw [occurrences, List.nodup_append']
    refine ⟨?_, ih (start + 1), fun «at» hhere hlater ↦ ?_⟩
    · split
      · exact List.nodup_singleton _
      · exact List.nodup_nil
    · obtain ⟨i, hi, -⟩ := (mem_occurrences hquote).1 hlater
      split at hhere
      · have := List.mem_singleton.1 hhere
        omega
      · cases hhere

/-- The nearest of some places, the first of these if there are several. -/
def nearest (offset : Int) (first : Nat) (rest : List Nat) : Nat :=
  rest.foldl (fun a b ↦ if distance offset a ≤ distance offset b then a else b) first

theorem nearest_spec (offset : Int) (first : Nat) (rest : List Nat) : nearest offset first rest ∈ first :: rest ∧
      ∀ «at» ∈ first :: rest, distance offset (nearest offset first rest) ≤ distance offset «at» := by
  induction rest generalizing first with
  | nil => exact ⟨List.mem_singleton_self _, fun «at» h ↦ by rw [List.mem_singleton.1 h]; exact Nat.le_refl _⟩
  | cons next rest ih =>
    have hstep : nearest offset first (next :: rest) =
        nearest offset (if distance offset first ≤ distance offset next then first else next) rest := rfl
    obtain ⟨hmem, hle⟩ := ih (if distance offset first ≤ distance offset next then first else next)
    rw [hstep]
    have hchosen : ∀ place, place = first ∨ place = next →
        distance offset (if distance offset first ≤ distance offset next then first else next) ≤
          distance offset place := by
      rintro place (rfl | rfl)
      · split <;> omega
      · split <;> omega
    refine ⟨?_, fun «at» hat ↦ ?_⟩
    · obtain hmem | hmem := List.mem_cons.1 hmem
      · rw [hmem]
        split
        · exact List.mem_cons_self
        · exact List.mem_cons_of_mem _ List.mem_cons_self
      · exact List.mem_cons_of_mem _ (List.mem_cons_of_mem _ hmem)
    · obtain hat | hat := List.mem_cons.1 hat
      · exact Nat.le_trans (hle _ List.mem_cons_self) (hchosen «at» (.inl hat))
      · obtain hat | hat := List.mem_cons.1 hat
        · exact Nat.le_trans (hle _ List.mem_cons_self) (hchosen «at» (.inr hat))
        · exact hle «at» (List.mem_cons_of_mem _ hat)

theorem seek_cons (hquote : quote ≠ []) {first : Nat} {rest : List Nat}
    (h : occurrences quote 0 text = first :: rest) :
    seek text quote offset =
      if ((first :: rest).filter fun «at» ↦
        distance offset «at» = distance offset (nearest offset first rest)).length = 1 then some (nearest offset first rest)
      else none := by
  rw [seek, if_neg hquote, h]
  cases rest with
  | nil => simp [nearest]
  | cons next rest => rfl

/-- **A quote is found** where it stands nearest to the offset, if it stands at one place only that is so near. -/
theorem seek_iff {«at» : Nat} : seek text quote offset = some «at» ↔ quote ≠ [] ∧ Occurs text quote «at» ∧
      ∀ other, Occurs text quote other → other ≠ «at» → distance offset «at» < distance offset other := by
  by_cases hquote : quote = []
  · rw [seek, if_pos hquote]
    exact ⟨fun h ↦ (nomatch h), fun h ↦ (h.1 hquote).elim⟩
  have hoccurs : ∀ place, place ∈ occurrences quote 0 text ↔ Occurs text quote place := by
    intro place
    rw [mem_occurrences hquote]
    exact ⟨fun ⟨i, hi, h⟩ ↦ by rwa [hi, Nat.zero_add], fun h ↦ ⟨place, (Nat.zero_add _).symm, h⟩⟩
  cases hfound : occurrences quote 0 text with
  | nil =>
    rw [seek, if_neg hquote, hfound]
    refine ⟨fun h ↦ (nomatch h), fun h ↦ ?_⟩
    have hmem := (hoccurs «at»).2 h.2.1
    rw [hfound] at hmem
    cases hmem
  | cons first rest =>
    have hnodup := nodup_occurrences hquote text 0
    rw [hfound] at hnodup hoccurs
    obtain ⟨hbest, hle⟩ := nearest_spec offset first rest
    rw [seek_cons hquote hfound]
    constructor
    · intro h
      split at h
      · rename_i hone
        cases h
        refine ⟨hquote, (hoccurs _).1 hbest, fun other hother hne ↦ ?_⟩
        obtain ⟨only, honly⟩ := List.length_eq_one_iff.1 hone
        have hin : ∀ place ∈ first :: rest,
            distance offset place = distance offset (nearest offset first rest) → place = only := by
          intro place hplace hsame
          have hmem : place ∈ (first :: rest).filter fun place ↦
              distance offset place = distance offset (nearest offset first rest) :=
            List.mem_filter.2 ⟨hplace, decide_eq_true hsame⟩
          rw [honly] at hmem
          exact List.mem_singleton.1 hmem
        have hother' := (hoccurs other).2 hother
        refine Nat.lt_of_le_of_ne (hle other hother') fun hsame ↦ hne ?_
        rw [hin other hother' hsame.symm, hin _ hbest rfl]
      · cases h
    · rintro ⟨-, hat, hnearest⟩
      have hmem := (hoccurs «at»).2 hat
      have hsame : nearest offset first rest = «at» := by
        by_contra hne
        have hlt := hnearest _ ((hoccurs _).1 hbest) hne
        have hle' := hle «at» hmem
        omega
      rw [hsame, if_pos]
      have hfilter : (first :: rest).filter (fun place ↦ distance offset place = distance offset «at») =
          (first :: rest).filter (· == «at») := by
        refine List.filter_congr fun place hplace ↦ ?_
        by_cases hplace' : place = «at»
        · simp [hplace']
        · have hlt := hnearest place ((hoccurs place).1 hplace) hplace'
          rw [beq_eq_false_iff_ne.2 hplace', decide_eq_false]
          omega
      rw [hfilter, ← List.countP_eq_length_filter]
      exact List.count_eq_one_of_mem hnodup hmem

end Chopin.Room
