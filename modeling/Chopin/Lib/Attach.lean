import Chopin.Lib.Except
import Mathlib.Data.List.Nodup

/-!
# Elements that follow others

Some elements are set after others: each entry of `placed` is an element, and what it follows, if anything.  Going
through the roots in their order, and after each through what follows it, and what follows that, meets every element
once, provided each follows a root or one that was placed before it.

Elements are told apart by a key, as objects are by their identity.
-/

set_option autoImplicit false

open scoped List

namespace Attach

variable {α κ : Type} [DecidableEq κ] (key : α → κ)

/-- The elements that follow this one, in the order they were placed. -/
def followers (placed : List (α × Option α)) (a : α) : List α :=
  (placed.filter fun entry ↦ entry.2.any (key · == key a)).map Prod.fst

/-- An element and all that comes with it, unless a chain is longer than `depth`. -/
def follow (placed : List (α × Option α)) : (depth : Nat) → α → Option (List α)
  | 0, _ => none
  | depth + 1, a => ((followers key placed a).mapM (follow placed depth)).map fun below ↦ a :: below.flatten

/-- What follows nothing comes first, and then the roots, each with all that comes with it. -/
def gather (placed : List (α × Option α)) (roots : List α) : Option (List α) :=
  (((placed.filter (·.2.isNone)).map Prod.fst ++ roots).mapM (follow key placed (placed.length + 1))).map List.flatten

/-- Each entry follows a root or one that was placed before it, if anything. -/
inductive Attached (roots : List α) : List (α × Option α) → Prop
  | nil : Attached roots []
  | snoc (placed : List (α × Option α)) (a : α) (place : Option α) (before : Attached roots placed)
      (known : ∀ b, place = some b → b ∈ roots ∨ b ∈ placed.map Prod.fst) : Attached roots (placed ++ [(a, place)])

variable {key} {placed : List (α × Option α)} {roots : List α}

theorem follow_succ (depth : Nat) (a : α) : follow key placed (depth + 1) a =
    ((followers key placed a).mapM (follow key placed depth)).map fun below ↦ a :: below.flatten := rfl

theorem mem_followers {a b : α} (h : b ∈ followers key placed a) : b ∈ placed.map Prod.fst := by
  obtain ⟨entry, hentry, rfl⟩ := List.mem_map.1 h
  exact List.mem_map_of_mem (List.mem_filter.1 hentry).1

/-! ## One element more -/

section Snoc

variable (key) in
/-- What `out` becomes when `a` is set after those that `follows` holds of: it comes once with each of them, and the
others keep their order. -/
structure Grown (follows : α → Bool) (a : α) (out after : List α) : Prop where
  keeps : ∀ keep : α → Bool, keep a = false → after.filter keep = out.filter keep
  perm : after.Perm (out ++ List.replicate (out.countP follows) a)

variable {follows : α → Bool} {a : α}

theorem Grown.nil : Grown follows a [] [] := ⟨fun _ _ ↦ rfl, .refl _⟩

theorem Grown.append {left right left' right' : List α} (hleft : Grown follows a left left')
    (hright : Grown follows a right right') : Grown follows a (left ++ right) (left' ++ right') := by
  refine ⟨fun keep hkeep ↦ ?_, (hleft.perm.append hright.perm).trans ?_⟩
  · rw [List.filter_append, List.filter_append, hleft.keeps keep hkeep, hright.keeps keep hkeep]
  · rw [List.countP_append, List.replicate_add, List.append_assoc, List.append_assoc]
    refine List.Perm.append_left left ?_
    rw [← List.append_assoc, ← List.append_assoc]
    exact List.perm_append_comm.append_right _

/-- An element before its own, with the new one at the end if that follows it. -/
theorem Grown.cons {b : α} {below below' : List α} (h : Grown follows a below below') :
    Grown follows a (b :: below) (b :: (below' ++ if follows b then [a] else [])) := by
  refine ⟨fun keep hkeep ↦ ?_, ?_⟩
  · have hlast : (if follows b then [a] else []).filter keep = [] := by
      split
      · rw [List.filter_singleton, hkeep]
        rfl
      · rfl
    rw [List.filter_cons, List.filter_cons, List.filter_append, hlast, List.append_nil, h.keeps keep hkeep]
  · rw [List.countP_cons, List.replicate_add, List.cons_append, ← List.append_assoc]
    refine List.Perm.cons b (h.perm.append ?_)
    split
    · exact .refl _
    · exact .refl _

variable {place : Option α}

/-- Nothing is set after the new element. -/
structure Fresh (key : α → κ) (placed : List (α × Option α)) (a : α) (place : Option α) : Prop where
  apart : ∀ b ∈ placed.map Prod.fst, key b ≠ key a
  last : ∀ entry ∈ placed ++ [(a, place)], ∀ b, entry.2 = some b → key b ≠ key a

theorem followers_snoc (b : α) : followers key (placed ++ [(a, place)]) b =
    followers key placed b ++ if place.any (key · == key b) then [a] else [] := by
  rw [followers, List.filter_append, List.map_append, followers]
  congr 1
  rw [List.filter_singleton]
  cases place.any (key · == key b) with
  | true => rfl
  | false => rfl

theorem Fresh.followers (h : Fresh key placed a place) : followers key (placed ++ [(a, place)]) a = [] := by
  rw [Attach.followers, List.map_eq_nil_iff, List.filter_eq_nil_iff]
  intro entry hentry hfollows
  obtain ⟨b, hb, hkey⟩ := (Option.any_eq_true ..).1 hfollows
  exact h.last entry hentry b hb (beq_iff_eq.1 hkey)

theorem Fresh.follow (h : Fresh key placed a place) (depth : Nat) :
    follow key (placed ++ [(a, place)]) (depth + 1) a = some [a] := by
  rw [follow_succ, h.followers]
  rfl

/-- Several starts, once each of them is known to grow. -/
theorem mapM_grown {f g : α → Option (List α)} {starts : List α} {outs : List (List α)}
    (hgrow : ∀ b ∈ starts, ∀ out, f b = some out → ∃ after, g b = some after ∧ Grown follows a out after)
    (h : starts.mapM f = some outs) :
    ∃ afters, starts.mapM g = some afters ∧ Grown follows a outs.flatten afters.flatten := by
  rw [Option.mapM_eq_some] at h
  induction h with
  | nil => exact ⟨[], rfl, .nil⟩
  | @cons b out rest outs hfirst _ ih =>
    obtain ⟨after, hafter, hgrown⟩ := hgrow b List.mem_cons_self out hfirst
    obtain ⟨afters, hafters, hrest⟩ := ih fun c hc ↦ hgrow c (List.mem_cons_of_mem _ hc)
    refine ⟨after :: afters, ?_, ?_⟩
    · rw [List.mapM_cons, hafter, hafters]
      rfl
    · rw [List.flatten_cons, List.flatten_cons]
      exact hgrown.append hrest

/-- By induction on the depth: the new element comes at the end of what follows the one it is set after. -/
theorem Fresh.grown (h : Fresh key placed a place) {depth : Nat} {b : α} {out : List α}
    (hfollow : Attach.follow key placed depth b = some out) (hb : key b ≠ key a) :
    ∃ after, Attach.follow key (placed ++ [(a, place)]) (depth + 1) b = some after ∧
      Grown (fun c ↦ place.any (key · == key c)) a out after := by
  induction depth generalizing b out with
  | zero => cases hfollow
  | succ depth ih =>
    rw [follow_succ] at hfollow
    obtain ⟨below, hbelow, rfl⟩ := Option.map_eq_some_iff.1 hfollow
    obtain ⟨afters, hafters, hgrown⟩ := mapM_grown (fun c hc out hout ↦ ih hout (h.apart c (mem_followers hc))) hbelow
    have hall : (Attach.followers key (placed ++ [(a, place)]) b).mapM
        (Attach.follow key (placed ++ [(a, place)]) (depth + 1)) =
          some (afters ++ if place.any (key · == key b) then [[a]] else []) := by
      rw [followers_snoc, List.mapM_append, hafters]
      split
      · rw [List.mapM_cons, h.follow]
        rfl
      · rfl
    rw [follow_succ, hall]
    refine ⟨_, rfl, ?_⟩
    dsimp only
    rw [List.flatten_append]
    have hsame : (if place.any (key · == key b) then [[a]] else []).flatten =
        if place.any (key · == key b) then [a] else [] := by
      split
      · rfl
      · rfl
    rw [hsame]
    exact hgrown.cons

end Snoc

/-! ## All of them -/

theorem Attached.known (h : Attached roots placed) {entry : α × Option α} (hentry : entry ∈ placed) {b : α}
    (hb : entry.2 = some b) : b ∈ placed.map Prod.fst ++ roots := by
  induction h with
  | nil => cases hentry
  | snoc placed a place before known ih =>
    rw [List.map_append, List.append_assoc]
    obtain hentry | hentry := List.mem_append.1 hentry
    · obtain hb | hb := List.mem_append.1 (ih hentry)
      · exact List.mem_append_left _ hb
      · exact List.mem_append_right _ (List.mem_append_right _ hb)
    · rw [List.mem_singleton.1 hentry] at hb
      obtain hb | hb := known b hb
      · exact List.mem_append_right _ (List.mem_append_right _ hb)
      · exact List.mem_append_left _ hb

theorem perm_snoc (a : α) (place : Option α) :
    ((placed ++ [(a, place)]).map Prod.fst ++ roots).Perm (a :: (placed.map Prod.fst ++ roots)) := by
  rw [List.map_append, List.append_assoc]
  exact List.perm_middle

omit [DecidableEq κ] in
theorem Attached.fresh {a : α} {place : Option α} (h : Attached roots placed)
    (hknown : ∀ b, place = some b → b ∈ roots ∨ b ∈ placed.map Prod.fst)
    (hnew : key a ∉ (placed.map Prod.fst ++ roots).map key) : Fresh key placed a place := by
  have hapart : ∀ b ∈ placed.map Prod.fst ++ roots, key b ≠ key a :=
    fun b hb heq ↦ hnew (heq ▸ List.mem_map_of_mem hb)
  refine ⟨fun b hb ↦ hapart b (List.mem_append_left _ hb), fun entry hentry b hb ↦ hapart b ?_⟩
  obtain hentry | hentry := List.mem_append.1 hentry
  · exact h.known hentry hb
  · rw [List.mem_singleton.1 hentry] at hb
    exact List.mem_append.2 (hknown b hb).symm

/-- **Every element is met once, and the roots in their order**, if each follows a root or one before it. -/
theorem Attached.gather (h : Attached roots placed) (hnodup : ((placed.map Prod.fst ++ roots).map key).Nodup) :
    ∃ out, gather key placed roots = some out ∧ out.Perm (placed.map Prod.fst ++ roots) ∧
      ∀ keep : α → Bool, (∀ a ∈ placed.map Prod.fst, keep a = false) → out.filter keep = roots.filter keep := by
  induction h with
  | nil =>
    have hall : roots.mapM (follow key [] 1) = some (roots.map ([·])) := by
      rw [Option.mapM_eq_some, List.forall₂_map_right_iff]
      exact List.forall₂_same.2 fun _ _ ↦ rfl
    refine ⟨roots, ?_, .refl _, fun _ _ ↦ rfl⟩
    rw [Attach.gather]
    simp only [List.filter_nil, List.map_nil, List.nil_append, List.length_nil, Nat.zero_add, hall, Option.map_some]
    rw [← List.flatMap_def, List.flatMap_singleton']
  | snoc placed a place before known ih =>
    have hnodup' := ((perm_snoc a place).map key).nodup_iff.1 hnodup
    rw [List.map_cons, List.nodup_cons] at hnodup'
    have hfresh := before.fresh known hnodup'.1
    obtain ⟨out, hout, hperm, hkeeps⟩ := ih hnodup'.2
    rw [Attach.gather, List.mapM_append] at hout
    obtain ⟨outs, houts, rfl⟩ := Option.map_eq_some_iff.1 hout
    obtain ⟨first, hfirst, houts⟩ := Option.bind_eq_some_iff.1 houts
    obtain ⟨second, hsecond, hsplit⟩ := Option.bind_eq_some_iff.1 houts
    cases hsplit
    have hgrow : ∀ b ∈ placed.map Prod.fst ++ roots, ∀ out, follow key placed (placed.length + 1) b = some out →
        ∃ after, follow key (placed ++ [(a, place)]) (placed.length + 1 + 1) b = some after ∧
          Grown (fun c ↦ place.any (key · == key c)) a out after :=
      fun b hb out hout ↦ hfresh.grown hout fun heq ↦ hnodup'.1 (heq ▸ List.mem_map_of_mem hb)
    obtain ⟨first', hfirst', hgrown⟩ := mapM_grown (fun b hb ↦ hgrow b (by
      obtain ⟨entry, hentry, rfl⟩ := List.mem_map.1 hb
      exact List.mem_append_left _ (List.mem_map_of_mem (List.mem_filter.1 hentry).1))) hfirst
    obtain ⟨second', hsecond', hgrown'⟩ := mapM_grown (fun b hb ↦ hgrow b (List.mem_append_right _ hb)) hsecond
    rw [List.flatten_append] at hperm hkeeps
    have hall : Attach.gather key (placed ++ [(a, place)]) roots =
        some ((first' ++ if place.isNone then [[a]] else []) ++ second').flatten := by
      rw [Attach.gather, List.filter_append, List.map_append, List.mapM_append, List.mapM_append, List.length_append,
        List.length_singleton, hfirst', hsecond', List.filter_singleton]
      cases place with
      | none =>
        simp only [Option.isNone_none, cond_true, List.map_cons, List.map_nil, List.mapM_cons, hfresh.follow]
        rfl
      | some b => rfl
    refine ⟨_, hall, ?_, ?_⟩
    · -- the new element comes once: at the start, or after the one it is set after
      have hcount : (if place.isNone then [[a]] else []).flatten ++
          List.replicate ((first.flatten ++ second.flatten).countP fun c ↦ place.any (key · == key c)) a = [a] := by
        cases place with
        | none =>
          have hzero : ((first.flatten ++ second.flatten).countP fun c ↦ (none : Option α).any (key · == key c)) = 0 :=
            List.countP_eq_zero.2 fun _ _ ↦ Bool.false_ne_true
          rw [hzero]
          rfl
        | some b =>
          have hb : b ∈ placed.map Prod.fst ++ roots := List.mem_append.2 (known b rfl).symm
          have hone : ((placed.map Prod.fst ++ roots).map key).count (key b) = 1 :=
            List.count_eq_one_of_mem hnodup'.2 (List.mem_map_of_mem hb)
          rw [List.count, List.countP_map, ← hperm.countP_eq] at hone
          have hsame : ((fun c ↦ (some b).any (key · == key c)) : α → Bool) = (· == key b) ∘ key := by
            funext c
            exact Bool.beq_comm
          rw [hsame, hone]
          rfl
      have hboth := (hgrown.append hgrown').perm
      rw [List.flatten_append, List.flatten_append]
      calc first'.flatten ++ (if place.isNone then [[a]] else []).flatten ++ second'.flatten
        _ ~ (if place.isNone then [[a]] else []).flatten ++ (first'.flatten ++ second'.flatten) := by
            rw [← List.append_assoc]
            exact List.perm_append_comm.append_right _
        _ ~ (if place.isNone then [[a]] else []).flatten ++ (_ ++ List.replicate _ a) := hboth.append_left _
        _ ~ (if place.isNone then [[a]] else []).flatten ++ (List.replicate _ a ++ (first.flatten ++ second.flatten)) :=
            List.perm_append_comm.append_left _
        _ = [a] ++ (first.flatten ++ second.flatten) := by rw [← List.append_assoc, hcount]
        _ ~ [a] ++ (placed.map Prod.fst ++ roots) := hperm.append_left _
        _ ~ (placed ++ [(a, place)]).map Prod.fst ++ roots := (perm_snoc a place).symm
    · intro keep hkeep
      have ha : keep a = false := hkeep a (by simp)
      have hnone : (if place.isNone then [[a]] else []).flatten.filter keep = [] := by
        split
        · simp [ha]
        · rfl
      rw [List.flatten_append, List.flatten_append, List.filter_append, List.filter_append, hnone, List.append_nil,
        hgrown.keeps keep ha, hgrown'.keeps keep ha, ← List.filter_append]
      exact hkeeps keep fun b hb ↦ hkeep b (by rw [List.map_append]; exact List.mem_append_left _ hb)

end Attach
