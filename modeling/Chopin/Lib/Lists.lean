import Mathlib.Data.List.Nodup

/-!
# Searching lists

An array searched with `findIndex` and written at the index found: the list splits at the first
hit, and the write replaces what stands there.
-/

set_option autoImplicit false

namespace List

variable {α : Type}

variable {p : α → Bool} {xs : List α} {a : α}

/-- The list around the first element with a property. -/
theorem findIdx_split (h : xs[xs.findIdx p]? = some a) :
    ∃ front back, xs = front ++ a :: back ∧ p a = true ∧ (∀ b ∈ front, p b = false) ∧
      ∀ value, xs.set (xs.findIdx p) value = front ++ value :: back := by
  induction xs with
  | nil => cases h
  | cons x rest ih =>
    rw [findIdx_cons] at h ⊢
    cases hx : p x with
    | true =>
      simp only [hx, cond_true, getElem?_cons_zero, Option.some.injEq] at h
      subst h
      exact ⟨[], rest, rfl, hx, by simp, fun _ ↦ rfl⟩
    | false =>
      simp only [hx, cond_false, getElem?_cons_succ] at h
      obtain ⟨front, back, hsplit, hp, hfirst, hset⟩ := ih h
      refine ⟨x :: front, back, by rw [hsplit]; rfl, hp, ?_, fun value ↦ ?_⟩
      · exact forall_mem_cons.2 ⟨hx, hfirst⟩
      · rw [cond_false, set_cons_succ, hset]; rfl

/-- Nothing is found exactly when nothing has the property. -/
theorem findIdx_none (h : xs[xs.findIdx p]? = none) : ∀ b ∈ xs, p b = false := by
  intro b hb
  by_contra hp
  rw [getElem?_eq_none_iff] at h
  exact absurd (findIdx_lt_length_of_exists ⟨b, hb, by simpa using hp⟩) (by omega)

/-- A value is found by its key where no other has that key. -/
theorem find?_key {κ : Type} [DecidableEq κ] {key : α → κ}
    (hnodup : (xs.map key).Nodup) (h : a ∈ xs) : xs.find? (key · == key a) = some a := by
  obtain ⟨b, hb⟩ : ∃ b, xs.find? (key · == key a) = some b :=
    Option.isSome_iff_exists.1 (find?_isSome.2 ⟨a, h, by simp⟩)
  have hkey : key b = key a := by simpa using find?_some hb
  rw [hb, inj_on_of_nodup_map hnodup (mem_of_find?_eq_some hb) h hkey]

theorem map_eq_self {f : α → α} {values : List α} : values.map f = values ↔ ∀ value ∈ values, f value = value := by
  conv_lhs => rw [← map_id values, map_map, map_inj_left]
  exact Iff.rfl

/-- No piece has a separator in it. -/
theorem mem_splitOnP {piece : List α} (h : piece ∈ xs.splitOnP p) : ∀ x ∈ piece, p x = false := by
  induction xs generalizing piece with
  | nil =>
    rw [splitOnP_nil, mem_singleton] at h
    exact h ▸ fun x hx ↦ absurd hx not_mem_nil
  | cons first rest ih =>
    rw [splitOnP_cons_eq_if_modifyHead] at h
    split at h
    · rcases mem_cons.1 h with rfl | h
      · exact fun x hx ↦ absurd hx not_mem_nil
      · exact ih h
    · rename_i hfirst
      cases hrest : rest.splitOnP p with
      | nil => rw [hrest] at h; exact absurd h not_mem_nil
      | cons head tail =>
        rw [hrest, modifyHead_cons] at h
        rcases mem_cons.1 h with rfl | h
        · refine forall_mem_cons.2 ⟨Bool.eq_false_iff.2 hfirst, ih ?_⟩
          rw [hrest]
          exact mem_cons_self
        · exact ih (hrest ▸ mem_cons_of_mem _ h)

variable {i : Nat}

/-- An element and what stands before and after it, when it is set. -/
theorem set_split (h : xs[i]? = some a) :
    ∃ before after, xs = before ++ a :: after ∧ ∀ b, xs.set i b = before ++ b :: after := by
  obtain ⟨hlt, rfl⟩ := List.getElem?_eq_some_iff.1 h
  refine ⟨xs.take i, xs.drop (i + 1), ?_, fun b ↦ ?_⟩
  · rw [List.getElem_cons_drop hlt, List.take_append_drop]
  · rw [List.set_eq_take_append_cons_drop, if_pos hlt]

/-- What stands where an element was set. -/
theorem getElem?_set_of (h : xs[i]? = some a) (b : α) (j : Nat) :
    (xs.set i b)[j]? = if j = i then some b else xs[j]? := by
  obtain ⟨hlt, -⟩ := getElem?_eq_some_iff.1 h
  rw [getElem?_set]
  by_cases hj : j = i
  · subst hj
    rw [if_pos rfl, if_pos rfl, if_pos hlt]
  · rw [if_neg (Ne.symm hj), if_neg hj]

/-- What stands in a list that was made longer at its end. -/
theorem concat_eq_append_cons {before after : List α} {x y : α} (h : xs ++ [x] = before ++ y :: after) :
    xs = before ∧ x = y ∨ ∃ rest, xs = before ++ y :: rest := by
  obtain rfl | ⟨rest, last, rfl⟩ := eq_nil_or_concat after
  · obtain ⟨hbefore, hx⟩ := append_inj' h rfl
    exact .inl ⟨hbefore, singleton_inj.1 hx⟩
  · rw [concat_eq_append, ← cons_append, ← append_assoc] at h
    exact .inr ⟨rest, (append_inj' h rfl).1⟩

/-! ## Element by element -/

variable {β : Type} {R : α → α → Prop}

variable {S : α → β → Prop} {ys : List β}

theorem Forall₂.exists_of_mem (h : Forall₂ S xs ys) {b : β} (hb : b ∈ ys) : ∃ a ∈ xs, S a b := by
  induction h with
  | nil => exact absurd hb not_mem_nil
  | @cons a b' _ _ hfirst _ ih =>
    obtain rfl | hb := mem_cons.1 hb
    · exact ⟨a, mem_cons_self, hfirst⟩
    · obtain ⟨a', ha', hrel⟩ := ih hb
      exact ⟨a', mem_cons_of_mem _ ha', hrel⟩

theorem Forall₂.getElem?_right (h : Forall₂ S xs ys) {b : β} (hb : ys[i]? = some b) : ∃ a, xs[i]? = some a ∧ S a b := by
  induction h generalizing i with
  | nil => cases hb
  | @cons a b' _ _ hfirst _ ih =>
    cases i with
    | zero =>
      cases hb
      exact ⟨a, rfl, hfirst⟩
    | succ i => exact ih hb

theorem Forall₂.trans_of (htrans : ∀ a b c, R a b → R b c → R a c) {ys zs : List α} (h : Forall₂ R xs ys)
    (h' : Forall₂ R ys zs) : Forall₂ R xs zs := by
  induction h generalizing zs with
  | nil => exact h'
  | @cons a b _ _ hfirst _ ih =>
    obtain _ | ⟨hnext, hrest⟩ := h'
    exact .cons (htrans a b _ hfirst hnext) (ih hrest)

theorem Forall₂.getElem?_left (h : Forall₂ S xs ys) (ha : xs[i]? = some a) : ∃ b, ys[i]? = some b ∧ S a b := by
  obtain ⟨b, hb, hrel⟩ := h.flip.getElem?_right ha
  exact ⟨b, hb, hrel⟩

theorem forall₂_set (hrefl : ∀ a, R a a) {b : α} (h : xs[i]? = some a) (hab : R a b) : Forall₂ R xs (xs.set i b) := by
  obtain ⟨before, after, hsplit, hset⟩ := set_split h
  rw [hset, hsplit]
  exact rel_append (forall₂_same.2 fun a _ ↦ hrefl a) (.cons hab (forall₂_same.2 fun a _ ↦ hrefl a))

theorem forall₂_map {f : α → α} (h : ∀ a, R a (f a)) (xs : List α) : Forall₂ R xs (xs.map f) := by
  rw [forall₂_map_right_iff]
  exact forall₂_same.2 fun a _ ↦ h a

/-- The list without the first element with a property. -/
theorem eraseIdx_findIdx : xs.eraseIdx (xs.findIdx p) = xs.eraseP p := by
  rw [eraseP_eq_eraseIdx, findIdx?_eq_guard_findIdx_lt]
  by_cases h : xs.findIdx p < xs.length
  · simp [Option.guard, h]
  · rw [eraseIdx_of_length_le (by omega)]
    simp [Option.guard, h]

theorem pairwise_middle_iff (hsymm : ∀ a b, R a b → R b a) {front back : List α} :
    (front ++ a :: back).Pairwise R ↔ (front ++ back).Pairwise R ∧ ∀ b ∈ front ++ back, R a b := by
  rw [pairwise_append, pairwise_cons, pairwise_append]
  constructor
  · rintro ⟨hfront, ⟨ha, hback⟩, hcross⟩
    refine ⟨⟨hfront, hback, fun b hb c hc ↦ hcross b hb c (mem_cons_of_mem _ hc)⟩, fun b hb ↦ ?_⟩
    rcases mem_append.1 hb with hb | hb
    · exact hsymm _ _ (hcross b hb a mem_cons_self)
    · exact ha b hb
  · rintro ⟨⟨hfront, hback, hcross⟩, ha⟩
    refine ⟨hfront, ⟨fun b hb ↦ ha b (mem_append_right _ hb), hback⟩, fun b hb c hc ↦ ?_⟩
    rcases mem_cons.1 hc with rfl | hc
    · exact hsymm _ _ (ha b (mem_append_left _ hb))
    · exact hcross b hb c hc

/-! ## The nearest hit -/

section Nearest

variable {β : Type} {f : α → Option β} {xs : List α} {n : Nat}

theorem findSome?_drop {b : β} (h : (xs.drop n).findSome? f = some b) :
    ∃ i a, n ≤ i ∧ xs[i]? = some a ∧ f a = some b ∧ ∀ j c, n ≤ j → j < i → xs[j]? = some c → f c = none := by
  obtain ⟨front, a, back, hsplit, ha, hnone⟩ := findSome?_eq_some_iff.1 h
  have hget : ∀ k, xs[n + k]? = (front ++ a :: back)[k]? := by
    intro k
    rw [← hsplit, getElem?_drop]
  refine ⟨n + front.length, a, by omega, ?_, ha, fun j c hn hj hc ↦ ?_⟩
  · rw [hget, getElem?_append_right (Nat.le_refl _), Nat.sub_self]
    rfl
  · obtain ⟨k, rfl⟩ := Nat.exists_eq_add_of_le hn
    rw [hget, getElem?_append_left (by omega)] at hc
    exact hnone c (mem_of_getElem? hc)

theorem findSome?_drop_none (h : (xs.drop n).findSome? f = none) {j : Nat} {c : α} (hn : n ≤ j)
    (hc : xs[j]? = some c) : f c = none := by
  refine findSome?_eq_none_iff.1 h c ?_
  obtain ⟨k, rfl⟩ := Nat.exists_eq_add_of_le hn
  rw [← getElem?_drop] at hc
  exact mem_of_getElem? hc

theorem findSome?_take {b : β} (h : (xs.take n).reverse.findSome? f = some b) :
    ∃ i a, i < n ∧ xs[i]? = some a ∧ f a = some b ∧ ∀ j c, i < j → j < n → xs[j]? = some c → f c = none := by
  obtain ⟨front, a, back, hsplit, ha, hnone⟩ := findSome?_eq_some_iff.1 h
  -- read backwards, what was passed over stands after the block
  have htake : xs.take n = back.reverse ++ a :: front.reverse := by
    have hreverse := congrArg reverse hsplit
    rwa [reverse_reverse, reverse_append, reverse_cons, append_assoc] at hreverse
  have hget : ∀ j, j < n → xs[j]? = (back.reverse ++ a :: front.reverse)[j]? := by
    intro j hj
    rw [← htake, getElem?_take, if_pos hj]
  have hlength := congrArg length htake
  rw [length_take, length_append, length_cons, length_reverse, length_reverse] at hlength
  refine ⟨back.length, a, by omega, ?_, ha, fun j c hi hj hc ↦ ?_⟩
  · rw [hget _ (by omega), getElem?_append_right (Nat.le_of_eq length_reverse), length_reverse, Nat.sub_self]
    rfl
  · rw [hget j hj, getElem?_append_right (by rw [length_reverse]; omega), length_reverse] at hc
    obtain ⟨k, hk⟩ := Nat.exists_eq_add_of_lt hi
    rw [hk, Nat.add_assoc, Nat.add_sub_cancel_left, getElem?_cons_succ] at hc
    exact hnone c (mem_reverse.1 (mem_of_getElem? hc))

theorem findSome?_take_none (h : (xs.take n).reverse.findSome? f = none) {j : Nat} {c : α} (hj : j < n)
    (hc : xs[j]? = some c) : f c = none := by
  refine findSome?_eq_none_iff.1 h c (mem_reverse.2 ?_)
  rw [← getElem?_take_of_lt hj] at hc
  exact mem_of_getElem? hc

/-- One element to a value, when no value comes twice. -/
theorem eq_of_nodup_filterMap (h : (xs.filterMap f).Nodup) {b : α} {c : β} (ha : a ∈ xs) (hb : b ∈ xs)
    (hfa : f a = some c) (hfb : f b = some c) : a = b := by
  induction xs with
  | nil => cases ha
  | cons x rest ih =>
    have hrest : (rest.filterMap f).Nodup := by
      cases hx : f x with
      | none => rwa [filterMap_cons_none hx] at h
      | some _ => exact (nodup_cons.1 (filterMap_cons_some hx ▸ h)).2
    have hfirst : ∀ other ∈ rest, f other = some c → f x = some c → False := by
      intro other hother hfother hfx
      rw [filterMap_cons_some hfx, nodup_cons] at h
      exact h.1 (mem_filterMap.2 ⟨other, hother, hfother⟩)
    obtain rfl | ha' := mem_cons.1 ha
    · obtain rfl | hb' := mem_cons.1 hb
      · rfl
      · exact (hfirst b hb' hfb hfa).elim
    · obtain rfl | hb' := mem_cons.1 hb
      · exact (hfirst a ha' hfa hfb).elim
      · exact ih hrest ha' hb'

end Nearest

end List
