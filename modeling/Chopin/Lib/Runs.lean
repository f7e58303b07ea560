import Mathlib.Data.List.Induction

/-!
# Runs of a partial step function

A component that takes one request at a time is a function `step : σ → α → Option σ`: an accepted
request gives the next state, a refused one gives `none` and changes nothing.  `Runs step s acts t`
says that the requests `acts`, all accepted, lead from `s` to `t`.

A claim about every run is proved by an invariant.  `Runs.invariant` asks for it to be preserved
by each accepted request; `Guarded` is a run each of whose requests also met a condition on the
state it arrived in, and `Guarded.invariant` is the rule for those.
-/

set_option autoImplicit false

variable {σ α : Type}

/-- The accepted requests `acts` lead from the first state to the second. -/
inductive Runs (step : σ → α → Option σ) : σ → List α → σ → Prop
  | nil (s : σ) : Runs step s [] s
  | snoc {s t u : σ} {acts : List α} {act : α} (run : Runs step s acts t)
      (last : step t act = some u) : Runs step s (acts ++ [act]) u

/-- A run every request of which met `cond` in the state it arrived in. -/
inductive Guarded (cond : σ → α → Prop) (step : σ → α → Option σ) : σ → List α → σ → Prop
  | nil (s : σ) : Guarded cond step s [] s
  | snoc {s t u : σ} {acts : List α} {act : α} (run : Guarded cond step s acts t)
      (met : cond t act) (last : step t act = some u) : Guarded cond step s (acts ++ [act]) u

variable {step : σ → α → Option σ} {cond : σ → α → Prop}

variable {s t : σ} {acts : List α}

/-- What the initial state has and every accepted request preserves, every run ends with. -/
theorem Runs.invariant {inv : σ → Prop} (run : Runs step s acts t)
    (init : inv s) (pres : ∀ s act t, inv s → step s act = some t → inv t) : inv t := by
  induction run with
  | nil => exact init
  | snoc _ last ih => exact pres _ _ _ ih last

/-- A run is the fold of its requests. -/
theorem runs_iff_foldlM : Runs step s acts t ↔ acts.foldlM step s = some t := by
  constructor
  · intro run
    induction run with
    | nil => rfl
    | snoc _ last ih => rw [List.foldlM_append, ih]; simpa using last
  · induction acts using List.reverseRecOn generalizing t with
    | nil => rintro ⟨⟩; exact .nil _
    | append_singleton acts act ih =>
      intro h
      rw [List.foldlM_append, Option.bind_eq_bind, Option.bind_eq_some_iff] at h
      obtain ⟨u, hu, last⟩ := h
      exact .snoc (ih hu) (by simpa using last)

variable {u : σ}

theorem Runs.append {before after : List α} (first : Runs step s before t)
    (second : Runs step t after u) : Runs step s (before ++ after) u := by
  induction second with
  | nil => rw [List.append_nil]; exact first
  | snoc _ last ih => rw [← List.append_assoc]; exact .snoc ih last

/-- The requests decide where a run ends. -/
theorem Runs.unique (left : Runs step s acts t) (right : Runs step s acts u) : t = u :=
  Option.some.inj ((runs_iff_foldlM.1 left).symm.trans (runs_iff_foldlM.1 right))

/-- The same for runs that meet a condition at every request. -/
theorem Guarded.invariant {inv : σ → Prop} (run : Guarded cond step s acts t) (init : inv s)
    (pres : ∀ s act t, inv s → cond s act → step s act = some t → inv t) : inv t := by
  induction run with
  | nil => exact init
  | snoc _ met last ih => exact pres _ _ _ ih met last

/-- A run all of whose requests meet the condition anywhere. -/
theorem Runs.guarded (run : Runs step s acts t) (h : ∀ act ∈ acts, ∀ s, cond s act) : Guarded cond step s acts t := by
  induction run with
  | nil => exact .nil _
  | snoc _ last ih =>
    exact .snoc (ih fun act hmem ↦ h act (List.mem_append_left _ hmem))
      (h _ List.mem_concat_self _) last

theorem Guarded.runs (run : Guarded cond step s acts t) : Runs step s acts t := by
  induction run with
  | nil => exact .nil _
  | snoc _ _ last ih => exact .snoc ih last

/-- A run is guarded when all of it but its last request is, and that one met the condition. -/
theorem guarded_snoc_iff {act : α} (run : Runs step s acts t) (last : step t act = some u) :
    Guarded cond step s (acts ++ [act]) u ↔ Guarded cond step s acts t ∧ cond t act := by
  refine ⟨fun guarded ↦ ?_, fun h ↦ .snoc h.1 h.2 last⟩
  generalize hacts : acts ++ [act] = all at guarded
  cases guarded with
  | nil => cases List.append_ne_nil_of_right_ne_nil _ (List.cons_ne_nil _ _) hacts
  | snoc before met _ =>
    obtain ⟨rfl, hact⟩ := List.append_inj' hacts rfl
    obtain rfl := List.singleton_inj.1 hact
    obtain rfl := run.unique before.runs
    exact ⟨before, met⟩

/-- A run is guarded up to any of its requests. -/
theorem Guarded.before {before after : List α}
    (run : Guarded cond step s (before ++ after) t) : ∃ u, Guarded cond step s before u := by
  induction after using List.reverseRecOn generalizing t with
  | nil => exact ⟨t, List.append_nil before ▸ run⟩
  | append_singleton after act ih =>
    rw [← List.append_assoc] at run
    generalize hacts : before ++ after ++ [act] = acts at run
    cases run with
    | nil => cases List.append_ne_nil_of_right_ne_nil _ (List.cons_ne_nil _ _) hacts
    | snoc run met last =>
      obtain ⟨rfl, -⟩ := List.append_inj' hacts rfl
      exact ih run

/-- A run whose requests were each tested as they were taken. -/
theorem Guarded.of_foldlM {check : σ → α → Bool} (hcheck : ∀ s act, check s act = true → cond s act)
    (h : acts.foldlM (fun s act ↦ if check s act then step s act else none) s = some t) :
    Guarded cond step s acts t := by
  have run := runs_iff_foldlM.2 h
  induction run with
  | nil => exact .nil _
  | snoc run last ih =>
    split at last
    · exact .snoc (ih (runs_iff_foldlM.1 run)) (hcheck _ _ ‹_›) last
    · cases last
