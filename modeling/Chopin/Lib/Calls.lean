import Mathlib.Data.List.Basic

/-!
# Calls on a mutable state

A method of a component reads and writes the component's state and either answers or throws.  What
was written before a throw stays written, so a `Call` leaves a state in both cases.

`Ensures call s P` is the rule such methods are held to: from `s` the call is refused and changes
nothing, or it answers and `P` holds of its answer and of the state it leaves.  A method that tests
first and writes afterwards is taken apart by `Ensures.seq`, one test at a time.
-/

set_option autoImplicit false

namespace Script

variable {σ ε α β : Type}

/-- A call on a state `σ`, refused with `ε` or answering `α`. -/
abbrev Call (σ ε α : Type) := ExceptT ε (StateM σ) α

namespace Call

/-- The outcome of a call, and the state it leaves. -/
def run (call : Call σ ε α) (s : σ) : Except ε α × σ := ExceptT.run call s

/-- A computation that touches no state. -/
def answer (x : Except ε α) : Call σ ε α := ExceptT.mk (pure x)

/-- A test that refuses, and writes nothing. -/
def refuseIf (refused : Bool) (e : ε) : Call σ ε PUnit := if refused then throw e else pure ⟨⟩

@[simp] theorem run_pure (a : α) (s : σ) : run (pure a : Call σ ε α) s = (.ok a, s) := rfl
@[simp] theorem run_get (s : σ) : run (get : Call σ ε σ) s = (.ok s, s) := rfl
@[simp] theorem run_modify (f : σ → σ) (s : σ) :
    run (modify f : Call σ ε PUnit) s = (.ok ⟨⟩, f s) := rfl
@[simp] theorem run_answer (x : Except ε α) (s : σ) : run (answer x : Call σ ε α) s = (x, s) := rfl

theorem run_bind (call : Call σ ε α) (f : α → Call σ ε β) (s : σ) :
    run (call >>= f) s = match run call s with
      | (.ok a, t) => run (f a) t
      | (.error e, t) => (.error e, t) := by
  have h : run (call >>= f) s = (match run call s with | (r, t) => ExceptT.bindCont f r t) := rfl
  rw [h]
  rcases run call s with ⟨e | a, t⟩ <;> rfl

variable {a : α}

/-- After an answer the call goes on from there. -/
theorem run_bind_of_ok {call : Call σ ε α} {f : α → Call σ ε β} {s t : σ}
    (h : run call s = (.ok a, t)) : run (call >>= f) s = run (f a) t := by
  rw [run_bind, h]

/-- The call is refused and changes nothing, or it answers as `P` says. -/
def Ensures (call : Call σ ε α) (s : σ) (P : α → σ → Prop) : Prop :=
  match run call s with
  | (.ok a, t) => P a t
  | (.error _, t) => t = s

variable {call : Call σ ε α} {f : α → Call σ ε β} {s t : σ} {P : α → σ → Prop} {Q : β → σ → Prop}

theorem Ensures.of_run (h : run call s = (.ok a, t)) (hP : P a t) : Ensures call s P := by
  rw [Ensures, h]
  exact hP

theorem Ensures.refused (h : Ensures call s P) {e : ε} (hrun : run call s = (.error e, t)) : t = s := by
  rwa [Ensures, hrun] at h

theorem Ensures.answered (h : Ensures call s P) (hrun : run call s = (.ok a, t)) : P a t := by
  rwa [Ensures, hrun] at h

variable {P' : α → σ → Prop}

theorem Ensures.mono (h : Ensures call s P) (himp : ∀ a t, P a t → P' a t) : Ensures call s P' := by
  rw [Ensures] at h ⊢
  split <;> simp_all

/-- Two rules about one call. -/
theorem Ensures.and (h : Ensures call s P) (h' : Ensures call s P') : Ensures call s fun a t ↦ P a t ∧ P' a t := by
  rw [Ensures] at h h' ⊢
  split <;> simp_all

/-- A call that tests and writes nothing, before one that `Ensures`. -/
theorem Ensures.seq {R : α → Prop} (h : Ensures call s fun a t ↦ t = s ∧ R a)
    (hf : ∀ a, R a → Ensures (f a) s Q) : Ensures (call >>= f) s Q := by
  rw [Ensures] at h ⊢
  rw [run_bind]
  split at h
  · rename_i a t hrun
    obtain ⟨rfl, hR⟩ := h
    exact hf a hR
  · exact h

/-- After an answer the rest decides, if it is not refused. -/
theorem Ensures.map {g : α → β} (h : Ensures call s fun a t ↦ Q (g a) t) :
    Ensures (call >>= fun a ↦ pure (g a)) s Q := by
  rw [Ensures] at h ⊢
  rw [run_bind]
  split at h
  · exact h
  · exact h

/-- What is said of the state that a call leaves does not depend on how its answer is read. -/
theorem Ensures.unmap {R : σ → Prop} {g : α → β} (h : Ensures (call >>= fun a ↦ pure (g a)) s fun _ t ↦ R t) :
    Ensures call s fun _ t ↦ R t := by
  rw [Ensures, run_bind] at h
  rw [Ensures]
  rcases hrun : run call s with ⟨e | a, t⟩
  · rw [hrun] at h
    exact h
  · rw [hrun] at h
    exact h

theorem ensures_throw (e : ε) : Ensures (throw e : Call σ ε α) s P := rfl

theorem ensures_get (s : σ) : Ensures (get : Call σ ε σ) s fun a t ↦ t = s ∧ a = s := ⟨rfl, rfl⟩

theorem ensures_answer (x : Except ε α) (s : σ) : Ensures (answer x : Call σ ε α) s fun a t ↦ t = s ∧ x = .ok a := by
  cases x
  · exact rfl
  · exact ⟨rfl, rfl⟩

theorem ensures_refuseIf (refused : Bool) (e : ε) (s : σ) :
    Ensures (refuseIf refused e : Call σ ε PUnit) s fun _ t ↦ t = s ∧ refused = false := by
  cases refused
  · exact ⟨rfl, rfl⟩
  · exact rfl

end Call

end Script
