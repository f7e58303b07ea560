import Mathlib.Data.List.Perm.Basic
import Mathlib.Data.List.Nodup

/-!
# Lists with parts exchanged

A list is edited by taking some elements out, putting others in and moving the rest about.
`Exchange taken added before after` says that nothing else happened: what was taken out and what is left
are together what there was and what was put in.

Where the elements have keys and no two share one, `Exchange.once` reads this element by element: what
was not taken out is there exactly once.
-/

set_option autoImplicit false

namespace List

variable {α κ : Type}

/-- Nothing is lost but what was taken out, and nothing gained but what was put in. -/
structure Exchange (taken added before after : List α) : Prop where
  perm : (taken ++ after).Perm (before ++ added)

namespace Exchange

theorem refl (xs : List α) : Exchange [] [] xs xs := ⟨by rw [nil_append, append_nil]⟩

theorem trans {taken added before between taken' added' after : List α}
    (first : Exchange taken added before between) (second : Exchange taken' added' between after) :
    Exchange (taken ++ taken') (added ++ added') before after := by
  refine ⟨?_⟩
  calc taken ++ taken' ++ after
    _ = taken ++ (taken' ++ after) := append_assoc ..
    _ ~ taken ++ (between ++ added') := second.perm.append_left _
    _ = taken ++ between ++ added' := (append_assoc ..).symm
    _ ~ before ++ added ++ added' := first.perm.append_right _
    _ = before ++ (added ++ added') := append_assoc ..

/-- Elements put in anywhere. -/
theorem insert (front back added : List α) : Exchange [] added (front ++ back) (front ++ added ++ back) := by
  refine ⟨?_⟩
  rw [nil_append, append_assoc, append_assoc]
  exact perm_append_comm.append_left _

/-- Elements put in the place of another. -/
theorem replace (front back added : List α) (a : α) :
    Exchange [a] added (front ++ a :: back) (front ++ added ++ back) := by
  refine ⟨?_⟩
  calc [a] ++ (front ++ added ++ back)
    _ ~ [a] ++ (front ++ back ++ added) := (insert front back added).perm.append_left _
    _ = a :: (front ++ back) ++ added := rfl
    _ ~ front ++ a :: back ++ added := perm_middle.symm.append_right _

theorem erase (front back : List α) (a : α) : Exchange [a] [] (front ++ a :: back) (front ++ back) := by
  have h := replace front back [] a
  rwa [append_nil] at h

/-- The same elements in another order. -/
theorem of_perm {before after : List α} (h : after.Perm before) : Exchange [] [] before after :=
  ⟨by rwa [nil_append, append_nil]⟩

variable {taken added before after : List α} {key : α → κ}

theorem nodup (h : Exchange taken added before after) (hnodup : ((before ++ added).map key).Nodup) :
    ((taken ++ after).map key).Nodup :=
  (h.perm.map key).nodup_iff.2 hnodup

theorem mem (h : Exchange taken added before after) {a : α} : a ∈ taken ∨ a ∈ after ↔ a ∈ before ∨ a ∈ added := by
  rw [← mem_append, ← mem_append, h.perm.mem_iff]

end Exchange

/-- With distinct keys an element is the only one with its key. -/
theorem filter_key [DecidableEq κ] {key : α → κ} {xs : List α} {a : α} (hnodup : (xs.map key).Nodup)
    (h : a ∈ xs) : xs.filter (key · == key a) = [a] := by
  obtain ⟨front, back, rfl⟩ := append_of_mem h
  rw [map_append, map_cons, nodup_middle, nodup_cons, mem_append, not_or] at hnodup
  have hother : ∀ part : List α, key a ∉ part.map key → part.filter (key · == key a) = [] :=
    fun part hpart ↦ filter_eq_nil_iff.2 fun b hb hkey ↦ hpart (mem_map.2 ⟨b, hb, by simpa using hkey⟩)
  rw [filter_append, filter_cons_of_pos (by simp), hother front hnodup.1.1, hother back hnodup.1.2, nil_append]

/-- What was not taken out is there exactly once. -/
theorem Exchange.once [DecidableEq κ] {taken added before after : List α} {key : α → κ}
    (h : Exchange taken added before after) (hnodup : ((before ++ added).map key).Nodup) {a : α}
    (ha : a ∈ before ∨ a ∈ added) (htaken : a ∉ taken) : after.filter (key · == key a) = [a] := by
  have hall := h.nodup hnodup
  rw [map_append] at hall
  exact filter_key hall.of_append_right ((h.mem.2 ha).resolve_left htaken)

end List
