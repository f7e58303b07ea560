import Mathlib.Data.List.Forall2

/-!
# Computations that may fail

Taking apart a successful computation: a sequence succeeds through the success of its first part,
and a list is read when each of its elements is.
-/

set_option autoImplicit false

namespace Except

variable {ε α β : Type}

@[simp] theorem ok_bind (a : α) (f : α → Except ε β) : (ok a >>= f) = f a := rfl
@[simp] theorem error_bind (e : ε) (f : α → Except ε β) : ((error e : Except ε α) >>= f) = error e :=
  rfl
@[simp] theorem pure_eq_ok (a : α) : (pure a : Except ε α) = ok a := rfl

variable {x : Except ε α} {f : α → Except ε β} {b : β}

theorem bind_eq_ok : x >>= f = ok b ↔ ∃ a, x = ok a ∧ f a = ok b := by
  cases x with
  | ok a => simp
  | error e => simp

theorem map_eq_ok {f : α → β} : x.map f = ok b ↔ ∃ a, x = ok a ∧ f a = b := by
  cases x with
  | ok a => simp [Except.map]
  | error e => simp [Except.map]

theorem mapError_eq_ok {ε' : Type} {f : ε → ε'} {a : α} : x.mapError f = ok a ↔ x = ok a := by
  cases x with
  | ok a => simp [Except.mapError]
  | error e => simp [Except.mapError]

/-- `if (!condition) throw error` -/
def demand (condition : Bool) (error : ε) : Except ε Unit := if condition then ok () else .error error

variable {condition : Bool}

theorem demand_eq_ok {e : ε} : demand condition e = ok () ↔ condition = true := by
  cases condition <;> simp [demand]

/-- What comes after a check succeeds when the check does and it does. -/
theorem demand_bind_eq_ok {e : ε} {rest : Unit → Except ε β} :
    (demand condition e >>= rest) = ok b ↔ condition = true ∧ rest () = ok b := by
  cases condition <;> simp [demand]

variable {values : List α}

theorem forM_eq_ok {f : α → Except ε Unit} : values.forM f = ok () ↔ ∀ value ∈ values, f value = ok () := by
  induction values with
  | nil => simp
  | cons value rest ih =>
    change (f value >>= fun _ ↦ rest.forM f) = _ ↔ _
    rw [List.forall_mem_cons, ← ih, bind_eq_ok]
    exact ⟨fun ⟨_, hfirst, hrest⟩ ↦ ⟨hfirst, hrest⟩, fun ⟨hfirst, hrest⟩ ↦ ⟨(), hfirst, hrest⟩⟩

/-- A list that is read element by element as it is. -/
theorem mapM_self {f : α → Except ε α} (h : ∀ value ∈ values, f value = ok value) : values.mapM f = ok values := by
  induction values with
  | nil => rfl
  | cons value rest ih =>
    rw [List.mapM_cons, h value List.mem_cons_self, ok_bind,
      ih fun value hmem ↦ h value (List.mem_cons_of_mem _ hmem)]
    rfl

/-- A list that is read element by element is read the same by whatever agrees on what was read. -/
theorem mapM_congr_ok {g : α → Except ε β} {out : List β} (h : values.mapM f = ok out)
    (hsame : ∀ value ∈ values, ∀ result, f value = ok result → g value = ok result) : values.mapM g = ok out := by
  induction values generalizing out with
  | nil => exact h
  | cons value rest ih =>
    rw [List.mapM_cons] at h ⊢
    obtain ⟨first, hfirst, h⟩ := bind_eq_ok.1 h
    obtain ⟨others, hothers, h⟩ := bind_eq_ok.1 h
    rw [hsame value List.mem_cons_self first hfirst, ok_bind,
      ih hothers fun value hmem ↦ hsame value (List.mem_cons_of_mem _ hmem), ok_bind]
    exact h

/-- A list is read exactly when each element is. -/
theorem mapM_eq_ok {out : List β} :
    values.mapM f = ok out ↔ List.Forall₂ (fun value found ↦ f value = ok found) values out := by
  induction values generalizing out with
  | nil => simp [eq_comm]
  | cons value rest ih =>
    rw [List.mapM_cons, bind_eq_ok]
    constructor
    · rintro ⟨found, hfound, h⟩
      obtain ⟨more, hmore, h⟩ := bind_eq_ok.1 h
      cases h
      exact .cons hfound (ih.1 hmore)
    · rintro (_ | ⟨hfound, hmore⟩)
      exact ⟨_, hfound, bind_eq_ok.2 ⟨_, ih.2 hmore, rfl⟩⟩

/-- A list is read when each element is, with what is known of each. -/
theorem mapM_ok_forall₂ {R : α → β → Prop} (h : ∀ value ∈ values, ∃ found, f value = ok found ∧ R value found) :
    ∃ out, values.mapM f = ok out ∧ List.Forall₂ R values out := by
  induction values with
  | nil => exact ⟨[], rfl, .nil⟩
  | cons value rest ih =>
    obtain ⟨found, hfound, hvalue⟩ := h value List.mem_cons_self
    obtain ⟨more, hmore, hrest⟩ := ih fun other hother ↦ h other (List.mem_cons_of_mem _ hother)
    exact ⟨found :: more, by rw [List.mapM_cons, hfound, hmore]; rfl, .cons hvalue hrest⟩

theorem mapM_isOk (h : ∀ value ∈ values, ∃ found, f value = ok found) : ∃ out, values.mapM f = ok out :=
  (mapM_ok_forall₂ (R := fun _ _ ↦ True) fun value hvalue ↦ (h value hvalue).imp fun _ h ↦ ⟨h, trivial⟩).imp
    fun _ h ↦ h.1

@[simp] theorem toOption_ok (a : α) : (ok a : Except ε α).toOption = some a := rfl
@[simp] theorem toOption_error (e : ε) : (error e : Except ε α).toOption = none := rfl

theorem toOption_eq_some {a : α} : x.toOption = some a ↔ x = ok a := by
  cases x with
  | ok a => simp
  | error e => simp

end Except

namespace Option

variable {α β : Type}

/-! Sequences in the form they are written in, so that `simp` does not open them. -/

theorem some_then (a : α) (f : α → Option β) : (some a >>= f) = f a := rfl

variable {f : α → Option β}

theorem then_eq_some {x : Option α} {b : β} :
    (x >>= f) = some b ↔ ∃ a, x = some a ∧ f a = some b := Option.bind_eq_some_iff

variable {values : List α}

/-- A list is read exactly when each element is. -/
theorem mapM_eq_some : ∀ {out : List β},
    values.mapM f = some out ↔ List.Forall₂ (fun value found ↦ f value = some found) values out := by
  induction values with
  | nil => intro out; simp [eq_comm]
  | cons value rest ih =>
    intro out
    simp only [List.mapM_cons, bind_eq_bind, bind_eq_some_iff, pure_def, some.injEq,
      List.forall₂_cons_left_iff, ih]
    constructor
    · rintro ⟨found, hfound, more, hmore, rfl⟩; exact ⟨found, more, hfound, hmore, rfl⟩
    · rintro ⟨found, more, hfound, hmore, rfl⟩; exact ⟨found, hfound, more, hmore, rfl⟩

/-- Whatever was read was read from somewhere. -/
theorem mem_of_mapM {out : List β}
    (h : values.mapM f = some out) : ∀ found ∈ out, ∃ value ∈ values, f value = some found := by
  rw [mapM_eq_some] at h
  induction h with
  | nil => simp
  | cons hread _ ih =>
    intro found hmem
    rcases List.mem_cons.1 hmem with rfl | hmem
    · exact ⟨_, List.mem_cons_self, hread⟩
    · obtain ⟨value, hvalue, hfound⟩ := ih found hmem
      exact ⟨value, List.mem_cons_of_mem _ hvalue, hfound⟩

theorem mapM_isSome : (values.mapM f).isSome ↔ ∀ value ∈ values, (f value).isSome := by
  induction values with
  | nil => simp
  | cons value rest ih =>
    rw [List.mapM_cons, List.forall_mem_cons, ← ih]
    cases f value <;> cases rest.mapM f <;> simp

end Option
