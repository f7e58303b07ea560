import Chopin.Lib.Lists

/-!
# Topological orders

`needs a` lists what `a` comes after.  A list is a topological order when each of its elements comes after all that
it needs; such an order ranks what it lists, so that nothing needs itself through others.
-/

set_option autoImplicit false

namespace List

variable {α : Type} {needs : α → List α}

/-- Each element comes after all that it needs. -/
def Topological (needs : α → List α) (order : List α) : Prop :=
  ∀ before a after, order = before ++ a :: after → ∀ b ∈ needs a, b ∈ before

theorem topological_nil : Topological needs [] := by
  intro before a after h
  exact absurd h.symm (append_ne_nil_of_right_ne_nil _ (cons_ne_nil _ _))

variable {a : α}

/-- What needs only what stands before it goes at the end. -/
theorem Topological.concat {order : List α} (h : Topological needs order) (ha : ∀ b ∈ needs a, b ∈ order) :
    Topological needs (order ++ [a]) := by
  intro before x after hsplit b hb
  obtain ⟨rfl, rfl⟩ | ⟨rest, hrest⟩ := concat_eq_append_cons hsplit
  · exact ha b hb
  · exact h before x rest hrest b hb

/-- What is needed has the lower rank. -/
theorem Topological.idxOf_lt [DecidableEq α] {order : List α} (h : Topological needs order) {b : α} (ha : a ∈ order)
    (hb : b ∈ needs a) : order.idxOf b < order.idxOf a := by
  obtain ⟨before, after, hsplit, hfresh⟩ := eq_append_cons_of_mem ha
  have hmem := h before a after hsplit b hb
  have hrank : order.idxOf a = before.length := by
    rw [hsplit, idxOf_append_of_notMem hfresh, idxOf_cons_self, Nat.add_zero]
  rw [hrank, hsplit, idxOf_append_of_mem hmem]
  exact idxOf_lt_length_of_mem hmem

end List
