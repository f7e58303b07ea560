import Chopin.Lib.Topological
import Chopin.Tasks.GraphFacts
import Mathlib.Data.List.Perm.Subperm

/-!
# Validation accepts exactly the acyclic graphs

`validate` looks for cycles by a depth-first search from every task, with the tasks on its path and those it is
through with.  What it is through with is a topological order of itself, so that a search without a hit leaves one of
all tasks.  The other way round a topological order ranks the tasks, and along a path of the search the rank falls.

## What is here

* `searchWithin` — the search as the source writes it, which recurses without a bound, for as many steps as it is
  given; `searchWithin_returns` says that the number of tasks is enough.
* `validate_iff` — a graph of well-formed tasks is valid exactly when there is a topological order of its tasks.
-/

set_option autoImplicit false
set_option linter.dupNamespace false

open Script

namespace Chopin.Tasks

variable {tasks : List Task} {marks after : Marks} {id : String} {ids : List String}

/-- What the task with this id depends on. -/
def dependsOnOf (tasks : List Task) (id : String) : List String :=
  ((tasks.find? (·.id == id)).map Task.dependsOn).getD []

theorem dependsOnOf_eq (hnodup : (tasks.map Task.id).Nodup) {task : Task} (hmem : task ∈ tasks) :
    dependsOnOf tasks task.id = task.dependsOn := by
  rw [dependsOnOf, List.find?_key hnodup hmem]
  rfl

theorem visit_succ (depth : Nat) : visit tasks (depth + 1) marks id =
    if marks.visiting.contains id then (true, marks)
    else if marks.visited.contains id then (false, marks)
    else
      let found := someM (visit tasks depth) { marks with visiting := id :: marks.visiting } (dependsOnOf tasks id)
      (found.1, { visiting := found.2.visiting.erase id, visited := id :: found.2.visited }) := rfl

/-! ## A search without a hit -/

/-- What the search is through with is in a topological order, the last one first, and none of it is on the path. -/
structure Marks.Settled (tasks : List Task) (marks : Marks) : Prop where
  order : marks.visited.reverse.Topological (dependsOnOf tasks)
  nodup : marks.visited.Nodup
  apart : ∀ id ∈ marks.visiting, id ∉ marks.visited
  known : ∀ id ∈ marks.visited, id ∈ tasks.map Task.id

/-- The path is the same, and the search is through with more. -/
def Marks.Grows (marks after : Marks) : Prop := after.visiting = marks.visiting ∧ marks.visited ⊆ after.visited

variable {f : Marks → String → Bool × Marks}

theorem someM_settled (hsettled : marks.Settled tasks)
    (hf : ∀ marks after id, id ∈ ids → marks.Settled tasks → f marks id = (false, after) →
      after.Settled tasks ∧ marks.Grows after ∧ id ∈ after.visited) (hsome : someM f marks ids = (false, after)) :
    after.Settled tasks ∧ marks.Grows after ∧ ∀ id ∈ ids, id ∈ after.visited := by
  induction ids generalizing marks with
  | nil =>
    cases hsome
    exact ⟨hsettled, ⟨rfl, List.Subset.refl _⟩, fun id hid ↦ nomatch hid⟩
  | cons id rest ih =>
    rw [someM] at hsome
    split at hsome
    · exact nomatch congrArg Prod.fst hsome
    · rename_i middle hfirst
      obtain ⟨hmiddle, hgrows, hid⟩ := hf marks middle id List.mem_cons_self hsettled hfirst
      obtain ⟨hafter, hgrows', hrest⟩ := ih hmiddle (fun marks after other hother ↦
        hf marks after other (List.mem_cons_of_mem _ hother)) hsome
      exact ⟨hafter, ⟨hgrows'.1.trans hgrows.1, List.Subset.trans hgrows.2 hgrows'.2⟩,
        List.forall_mem_cons.2 ⟨hgrows'.2 hid, hrest⟩⟩

/-- A visit without a hit is through with its task, after all that the task depends on. -/
theorem visit_settled (hclosed : ∀ id ∈ tasks.map Task.id, ∀ dependency ∈ dependsOnOf tasks id,
    dependency ∈ tasks.map Task.id) {fuel : Nat} (hid : id ∈ tasks.map Task.id) (hsettled : marks.Settled tasks)
    (hvisit : visit tasks fuel marks id = (false, after)) :
    after.Settled tasks ∧ marks.Grows after ∧ id ∈ after.visited := by
  induction fuel generalizing marks after id with
  | zero => exact nomatch congrArg Prod.fst hvisit
  | succ fuel ih =>
    rw [visit_succ] at hvisit
    split at hvisit
    · exact nomatch congrArg Prod.fst hvisit
    · rename_i hpath
      split at hvisit
      · rename_i hvisited
        cases hvisit
        exact ⟨hsettled, ⟨rfl, List.Subset.refl _⟩, List.contains_iff_mem.1 hvisited⟩
      · rename_i hfresh
        rw [List.contains_iff_mem] at hpath hfresh
        have hbelow : Marks.Settled tasks { marks with visiting := id :: marks.visiting } :=
          ⟨hsettled.order, hsettled.nodup, List.forall_mem_cons.2 ⟨hfresh, hsettled.apart⟩, hsettled.known⟩
        rcases hsome : someM (visit tasks fuel) { marks with visiting := id :: marks.visiting } (dependsOnOf tasks id)
          with ⟨cycle, through⟩
        dsimp only at hvisit
        rw [hsome] at hvisit
        obtain ⟨rfl, rfl⟩ := Prod.mk.inj hvisit
        obtain ⟨hthrough, ⟨hvisiting, hvisited⟩, hall⟩ := someM_settled hbelow
          (fun marks after dependency hdependency ↦ ih (hclosed id hid dependency hdependency)) hsome
        have hnew : id ∉ through.visited := hthrough.apart id (hvisiting ▸ List.mem_cons_self)
        have hback : through.visiting.erase id = marks.visiting := by
          rw [hvisiting, List.erase_cons_head]
        refine ⟨⟨?_, List.nodup_cons.2 ⟨hnew, hthrough.nodup⟩, ?_, List.forall_mem_cons.2 ⟨hid, hthrough.known⟩⟩,
          ⟨hback, fun other hother ↦ List.mem_cons_of_mem _ (hvisited hother)⟩, List.mem_cons_self⟩
        · rw [List.reverse_cons]
          exact hthrough.order.concat fun dependency hdependency ↦ List.mem_reverse.2 (hall dependency hdependency)
        · intro other hother hmem
          rw [hback] at hother
          obtain rfl | hmem := List.mem_cons.1 hmem
          · exact hpath hother
          · exact hthrough.apart other (hvisiting ▸ List.mem_cons_of_mem _ hother) hmem

/-! ## A topological order -/

theorem someM_false (hf : ∀ marks' : Marks, marks'.visiting = marks.visiting → ∀ id ∈ ids,
      ∃ after, f marks' id = (false, after) ∧ after.visiting = marks'.visiting) :
    ∃ after, someM f marks ids = (false, after) ∧ after.visiting = marks.visiting := by
  induction ids generalizing marks with
  | nil => exact ⟨marks, rfl, rfl⟩
  | cons id rest ih =>
    obtain ⟨middle, hfirst, hsame⟩ := hf marks rfl id List.mem_cons_self
    obtain ⟨after, hrest, hsame'⟩ := ih fun marks' hmarks' other hother ↦
      hf marks' (hmarks'.trans hsame) other (List.mem_cons_of_mem _ hother)
    refine ⟨after, ?_, hsame'.trans hsame⟩
    rw [someM, hfirst]
    exact hrest

/-- Along a path of the search the rank falls, so that it does not come back to its path. -/
theorem visit_false {rank : String → Nat}
    (hrank : ∀ id, ∀ dependency ∈ dependsOnOf tasks id, rank dependency < rank id) {fuel : Nat} (hfuel : rank id < fuel)
    (hpath : ∀ other ∈ marks.visiting, rank id < rank other) :
    ∃ after, visit tasks fuel marks id = (false, after) ∧ after.visiting = marks.visiting := by
  induction fuel generalizing marks id with
  | zero => exact absurd hfuel (Nat.not_lt_zero _)
  | succ fuel ih =>
    have hfresh : marks.visiting.contains id = false := by
      rw [Bool.eq_false_iff, ne_eq, List.contains_iff_mem]
      exact fun hmem ↦ Nat.lt_irrefl _ (hpath id hmem)
    rw [visit_succ, hfresh]
    by_cases hvisited : marks.visited.contains id = true
    · exact ⟨marks, by rw [if_neg Bool.false_ne_true, if_pos hvisited], rfl⟩
    · obtain ⟨through, hsome, hvisiting⟩ : ∃ through,
          someM (visit tasks fuel) { marks with visiting := id :: marks.visiting } (dependsOnOf tasks id) = (false, through) ∧
            through.visiting = id :: marks.visiting := by
        refine someM_false fun marks' hmarks' dependency hdependency ↦ ?_
        have hless := hrank id dependency hdependency
        refine ih (by omega) ?_
        rw [hmarks']
        exact List.forall_mem_cons.2 ⟨hless, fun other hother ↦ hless.trans (hpath other hother)⟩
      refine ⟨{ visiting := through.visiting.erase id, visited := id :: through.visited }, ?_, ?_⟩
      · rw [if_neg Bool.false_ne_true, if_neg hvisited]
        dsimp only
        rw [hsome]
      · rw [hvisiting, List.erase_cons_head]

/-! ## The search returns -/

/-- `some` over a search that may not have returned. -/
def someWithin (f : Marks → String → Option (Bool × Marks)) : Marks → List String → Option (Bool × Marks)
  | marks, [] => some (false, marks)
  | marks, id :: rest =>
    match f marks id with
    | none => none
    | some (true, marks) => some (true, marks)
    | some (false, marks) => someWithin f marks rest

/-- The search of the source, for at most so many calls one inside another. -/
def searchWithin (tasks : List Task) : Nat → Marks → String → Option (Bool × Marks)
  | 0, _, _ => none
  | depth + 1, marks, id =>
    if marks.visiting.contains id then some (true, marks)
    else if marks.visited.contains id then some (false, marks)
    else
      (someWithin (searchWithin tasks depth) { marks with visiting := id :: marks.visiting } (dependsOnOf tasks id)).map
        fun (cycle, after) ↦ (cycle, { visiting := after.visiting.erase id, visited := id :: after.visited })

theorem someWithin_returns {f : Marks → String → Option (Bool × Marks)} {g : Marks → String → Bool × Marks}
    (hf : ∀ marks' : Marks, marks'.visiting = marks.visiting → ∀ id ∈ ids, f marks' id = some (g marks' id) ∧
      ((g marks' id).1 = false → (g marks' id).2.visiting = marks'.visiting)) :
    someWithin f marks ids = some (someM g marks ids) ∧
      ((someM g marks ids).1 = false → (someM g marks ids).2.visiting = marks.visiting) := by
  induction ids generalizing marks with
  | nil => exact ⟨rfl, fun _ ↦ rfl⟩
  | cons id rest ih =>
    obtain ⟨hfirst, hsame⟩ := hf marks rfl id List.mem_cons_self
    rw [someWithin, someM, hfirst]
    rcases hg : g marks id with ⟨cycle, middle⟩
    cases cycle with
    | true => exact ⟨rfl, fun hfalse ↦ nomatch hfalse⟩
    | false =>
      have hmiddle : middle.visiting = marks.visiting := by
        rw [hg] at hsame
        exact hsame rfl
      obtain ⟨hrest, hsame'⟩ := ih fun marks' hmarks' other hother ↦
        hf marks' (hmarks'.trans hmiddle) other (List.mem_cons_of_mem _ hother)
      exact ⟨hrest, fun hfalse ↦ (hsame' hfalse).trans hmiddle⟩

/-- The path of the search holds each task once, so that it is never longer than their number. -/
theorem searchWithin_visit {depth : Nat} (hpath : marks.visiting.Nodup) (hknown : marks.visiting ⊆ tasks.map Task.id)
    (hdepth : tasks.length + 1 ≤ depth + marks.visiting.length) :
    searchWithin tasks depth marks id = some (visit tasks depth marks id) ∧
      ((visit tasks depth marks id).1 = false → (visit tasks depth marks id).2.visiting = marks.visiting) := by
  induction depth generalizing marks id with
  | zero =>
    have hlength := (List.subperm_of_subset hpath hknown).length_le
    rw [List.length_map] at hlength
    omega
  | succ depth ih =>
    rw [searchWithin, visit_succ]
    split
    · exact ⟨rfl, fun hfalse ↦ nomatch hfalse⟩
    · rename_i hfresh
      rw [List.contains_iff_mem] at hfresh
      split
      · exact ⟨rfl, fun _ ↦ rfl⟩
      · have hbelow : ∀ marks' : Marks, marks'.visiting = id :: marks.visiting → ∀ dependency ∈ dependsOnOf tasks id,
            searchWithin tasks depth marks' dependency = some (visit tasks depth marks' dependency) ∧
              ((visit tasks depth marks' dependency).1 = false →
                (visit tasks depth marks' dependency).2.visiting = marks'.visiting) := by
          intro marks' hmarks' dependency hdependency
          -- Only a listed task depends on anything.
          have hid : id ∈ tasks.map Task.id := by
            rw [dependsOnOf] at hdependency
            cases hfind : tasks.find? (·.id == id) with
            | none =>
              rw [hfind] at hdependency
              cases hdependency
            | some task =>
              have hsame : task.id = id := by simpa using List.find?_some hfind
              exact List.mem_map.2 ⟨task, List.mem_of_find?_eq_some hfind, hsame⟩
          refine ih ?_ ?_ ?_
          · rw [hmarks']
            exact List.nodup_cons.2 ⟨hfresh, hpath⟩
          · rw [hmarks']
            exact List.cons_subset.2 ⟨hid, hknown⟩
          · rw [hmarks', List.length_cons]
            omega
        obtain ⟨hsome, hsame⟩ := @someWithin_returns { marks with visiting := id :: marks.visiting } _ _ _ hbelow
        rw [hsome]
        refine ⟨rfl, fun hfalse ↦ ?_⟩
        have hvisiting := hsame hfalse
        dsimp only
        rw [hvisiting, List.erase_cons_head]

/-- **The search for a cycle returns**, whatever the tasks depend on, and with what `validate` looks at. -/
theorem search_returns (tasks : List Task) :
    someWithin (searchWithin tasks (tasks.length + 1)) ⟨[], []⟩ (tasks.map Task.id) =
      some (someM (visit tasks (tasks.length + 1)) ⟨[], []⟩ (tasks.map Task.id)) := by
  refine (someWithin_returns fun marks' hmarks' id hid ↦ searchWithin_visit ?_ ?_ ?_).1
  · rw [hmarks']
    exact List.nodup_nil
  · rw [hmarks']
    exact List.nil_subset _
  · exact Nat.le_add_right _ _

/-! ## What validation accepts -/

/-- What is checked of a task alone. -/
def Task.formed (task : Task) : Bool :=
  text task.id && text task.title && text task.context && text task.goal && 2 ≤ task.acceptance.length &&
    task.acceptance.length ≤ 8 && task.acceptance.all text

variable {seen : List String}

theorem validateTasks_formed (hformed : ∀ task ∈ tasks, task.formed = true) :
    (∃ out, validateTasks seen tasks = .ok out) ↔ (tasks.map Task.id).Nodup ∧ ∀ task ∈ tasks, task.id ∉ seen := by
  constructor
  · rintro ⟨out, hout⟩
    exact validateTasks_ids hout
  · rintro ⟨hnodup, hfresh⟩
    induction tasks generalizing seen with
    | nil => exact ⟨seen, rfl⟩
    | cons task rest ih =>
      have hfirst := hformed task List.mem_cons_self
      rw [Task.formed] at hfirst
      simp only [Bool.and_eq_true, decide_eq_true_eq, List.all_eq_true] at hfirst
      obtain ⟨⟨⟨⟨⟨⟨hid, htitle⟩, hcontext⟩, hgoal⟩, hleast⟩, hmost⟩, hall⟩ := hfirst
      have hnew : ¬seen.contains task.id = true := fun hseen ↦
        hfresh task List.mem_cons_self (List.contains_iff_mem.1 hseen)
      have hany : task.acceptance.any (!text ·) = false := by
        rw [List.any_eq_false]
        intro criterion hcriterion
        rw [hall criterion hcriterion]
        exact Bool.false_ne_true
      rw [List.map_cons, List.nodup_cons] at hnodup
      rw [validateTasks, if_neg (by simp [hid, htitle, hcontext, hgoal]), if_neg hnew,
        if_neg (by simp only [hany, Bool.or_false, Bool.or_eq_true, decide_eq_true_eq]; omega)]
      refine ih (fun other hother ↦ hformed other (List.mem_cons_of_mem _ hother)) hnodup.2 fun other hother hseen ↦ ?_
      obtain heq | hseen := List.mem_cons.1 hseen
      · exact hnodup.1 (heq ▸ List.mem_map_of_mem hother)
      · exact hfresh other (List.mem_cons_of_mem _ hother) hseen

/-- The ids that were seen are those of the tasks. -/
theorem mem_validateTasks {out : List String} (h : validateTasks seen tasks = .ok out) (id : String) :
    id ∈ out ↔ id ∈ tasks.map Task.id ∨ id ∈ seen := by
  induction tasks generalizing seen with
  | nil =>
    cases h
    simp
  | cons task rest ih =>
    rw [validateTasks] at h
    split at h
    · cases h
    · split at h
      · cases h
      · split at h
        · cases h
        · rw [ih h, List.map_cons, List.mem_cons, List.mem_cons, or_assoc]
          exact or_left_comm

theorem validateReferences_ok {references : List (String × String)} :
    validateReferences ids references = .ok () ↔ ∀ reference ∈ references, reference.2 ∈ ids ∧ reference.2 ≠ reference.1 := by
  induction references with
  | nil => simp [validateReferences]
  | cons reference rest ih =>
    obtain ⟨id, dependency⟩ := reference
    rw [validateReferences, List.forall_mem_cons, ← ih]
    by_cases hknown : dependency ∈ ids
    · rw [if_neg (by simpa using hknown)]
      by_cases hself : dependency = id
      · simp [hself, invalid]
      · simp [hknown, hself]
    · simp [hknown, invalid]

/-- An ordering of the tasks in which each comes after all that it depends on. -/
def Ordered (tasks order : List Task) : Prop :=
  order.Perm tasks ∧ ∀ before (task : Task) after, order = before ++ task :: after →
    ∀ dependency ∈ task.dependsOn, ∃ other ∈ before, Task.id other = dependency

/-- The ids of an ordering are a topological order. -/
theorem Ordered.topological {order : List Task} (h : Ordered tasks order) (hnodup : (tasks.map Task.id).Nodup) :
    (order.map Task.id).Topological (dependsOnOf tasks) := by
  intro before id after hsplit dependency hdependency
  obtain ⟨front, rest, rfl, hfront, hrest⟩ := List.map_eq_append_iff.1 hsplit
  obtain ⟨task, back, rfl, rfl, -⟩ := List.map_eq_cons_iff.1 hrest
  have hmem : task ∈ tasks := h.1.subset (by simp)
  rw [dependsOnOf_eq hnodup hmem] at hdependency
  obtain ⟨other, hother, heq⟩ := h.2 front task back rfl dependency hdependency
  rw [← hfront, ← heq]
  exact List.mem_map_of_mem hother

/-- What the search is through with orders the tasks, once it is through with all of them. -/
theorem Marks.Settled.ordered (h : marks.Settled tasks) (hnodup : (tasks.map Task.id).Nodup)
    (hall : ∀ id ∈ tasks.map Task.id, id ∈ marks.visited) : ∃ order, Ordered tasks order := by
  have hfind : ∀ id ∈ marks.visited.reverse, ∃ task, tasks.find? (·.id == id) = some task ∧ task.id = id := by
    intro id hid
    obtain ⟨task, hmem, rfl⟩ := List.mem_map.1 (h.known id (List.mem_reverse.1 hid))
    exact ⟨task, List.find?_key hnodup hmem, rfl⟩
  have hmap : ∀ ids : List String, (∀ id ∈ ids, ∃ task, tasks.find? (·.id == id) = some task ∧ task.id = id) →
      (ids.filterMap fun id ↦ tasks.find? (·.id == id)).map Task.id = ids := by
    intro ids hids
    induction ids with
    | nil => rfl
    | cons id rest ih =>
      obtain ⟨task, hfound, hsame⟩ := hids id List.mem_cons_self
      rw [List.filterMap_cons_some (f := fun id ↦ tasks.find? (·.id == id)) hfound, List.map_cons, hsame,
        ih fun other hother ↦ hids other (List.mem_cons_of_mem _ hother)]
  have hids := hmap marks.visited.reverse hfind
  refine ⟨marks.visited.reverse.filterMap fun id ↦ tasks.find? (·.id == id), ?_, fun before task after hsplit ↦ ?_⟩
  · refine (List.perm_ext_iff_of_nodup ?_ hnodup.of_map).2 fun task ↦ ?_
    · refine List.Nodup.of_map Task.id ?_
      rw [hids]
      exact List.nodup_reverse.2 h.nodup
    · rw [List.mem_filterMap]
      constructor
      · rintro ⟨id, _, hfound⟩
        exact List.mem_of_find?_eq_some hfound
      · intro hmem
        exact ⟨task.id, List.mem_reverse.2 (hall _ (List.mem_map_of_mem hmem)), List.find?_key hnodup hmem⟩
  · intro dependency hdependency
    rw [hsplit, List.map_append, List.map_cons] at hids
    have hmem : task ∈ tasks := by
      have hmem : task ∈ marks.visited.reverse.filterMap fun id ↦ tasks.find? (·.id == id) := by
        rw [hsplit]
        simp
      obtain ⟨id, _, hfound⟩ := List.mem_filterMap.1 hmem
      exact List.mem_of_find?_eq_some hfound
    rw [← dependsOnOf_eq hnodup hmem] at hdependency
    exact List.mem_map.1 (h.order _ _ _ hids.symm dependency hdependency)

/-- What the checks before the search for a cycle accept. -/
def Referenced (tasks : List Task) : Prop :=
  (tasks.map Task.id).Nodup ∧ ∀ task ∈ tasks, ∀ dependency ∈ task.dependsOn,
    dependency ∈ tasks.map Task.id ∧ dependency ≠ task.id

theorem search_ordered (hreferenced : Referenced tasks) :
    (someM (visit tasks (tasks.length + 1)) ⟨[], []⟩ (tasks.map Task.id)).1 = false ↔ ∃ order, Ordered tasks order := by
  obtain ⟨hnodup, hreferences⟩ := hreferenced
  constructor
  · intro hsearch
    have hclosed : ∀ id ∈ tasks.map Task.id, ∀ dependency ∈ dependsOnOf tasks id, dependency ∈ tasks.map Task.id := by
      intro id hid dependency hdependency
      obtain ⟨task, hmem, rfl⟩ := List.mem_map.1 hid
      rw [dependsOnOf_eq hnodup hmem] at hdependency
      exact (hreferences task hmem dependency hdependency).1
    have hstart : Marks.Settled tasks ⟨[], []⟩ :=
      ⟨List.topological_nil, List.nodup_nil, fun _ h ↦ (nomatch h), fun _ h ↦ nomatch h⟩
    obtain ⟨hsettled, -, hall⟩ := someM_settled hstart
      (fun marks after id hid ↦ visit_settled hclosed hid) (Prod.ext hsearch rfl)
    exact hsettled.ordered hnodup hall
  · rintro ⟨order, hordered⟩
    have htopological := hordered.topological hnodup
    have hperm := hordered.1.map Task.id
    have hrank : ∀ id, ∀ dependency ∈ dependsOnOf tasks id,
        (order.map Task.id).idxOf dependency < (order.map Task.id).idxOf id := by
      intro id dependency hdependency
      refine htopological.idxOf_lt (hperm.mem_iff.2 ?_) hdependency
      rw [dependsOnOf] at hdependency
      cases hfind : tasks.find? (·.id == id) with
      | none =>
        rw [hfind] at hdependency
        cases hdependency
      | some task =>
        have hsame : task.id = id := by simpa using List.find?_some hfind
        exact List.mem_map.2 ⟨task, List.mem_of_find?_eq_some hfind, hsame⟩
    obtain ⟨after, hsearch, -⟩ : ∃ after, someM (visit tasks (tasks.length + 1)) ⟨[], []⟩ (tasks.map Task.id) =
        (false, after) ∧ after.visiting = [] := by
      refine someM_false fun marks' hmarks' id _ ↦ visit_false hrank ?_ ?_
      · have hlast : (order.map Task.id).idxOf id ≤ (order.map Task.id).length := List.idxOf_le_length
        rw [List.length_map, hordered.1.length_eq] at hlast
        omega
      · rw [hmarks']
        exact fun _ h ↦ nomatch h
    rw [hsearch]

/-- **Validation accepts exactly the acyclic graphs**, of well-formed tasks; and its search for a cycle returns. -/
theorem validate_iff (tasks : List Task) (hformed : ∀ task ∈ tasks, task.formed = true) :
    ((∃ checked, validate ⟨tasks⟩ = .ok checked) ↔ tasks ≠ [] ∧ (tasks.map Task.id).Nodup ∧
        (∀ task ∈ tasks, ∀ dependency ∈ task.dependsOn, dependency ∈ tasks.map Task.id ∧ dependency ≠ task.id) ∧
          ∃ order, Ordered tasks order) ∧
      someWithin (searchWithin tasks (tasks.length + 1)) ⟨[], []⟩ (tasks.map Task.id) =
        some (someM (visit tasks (tasks.length + 1)) ⟨[], []⟩ (tasks.map Task.id)) := by
  refine ⟨⟨?_, ?_⟩, search_returns tasks⟩
  · rintro ⟨checked, hvalid⟩
    have hnonempty := (validate_ok hvalid).2.1
    have hnodup := validate_ids hvalid
    rw [validate] at hvalid
    obtain ⟨ids, hids, hvalid⟩ := Except.bind_eq_ok.1 hvalid
    obtain ⟨_, hreferences, hvalid⟩ := Except.bind_eq_ok.1 hvalid
    rw [validateReferences_ok] at hreferences
    have hreferenced : Referenced tasks := by
      refine ⟨hnodup, fun task hmem dependency hdependency ↦ ?_⟩
      obtain ⟨hknown, hself⟩ := hreferences (task.id, dependency)
        (List.mem_flatMap.2 ⟨task, hmem, List.mem_map_of_mem hdependency⟩)
      rw [mem_validateTasks hids] at hknown
      exact ⟨hknown.resolve_right List.not_mem_nil, hself⟩
    split at hvalid
    · exact absurd hvalid (by simp [invalid])
    · rename_i hacyclic
      exact ⟨hnonempty, hnodup, hreferenced.2, (search_ordered hreferenced).1 (Bool.not_eq_true _ ▸ hacyclic)⟩
  · rintro ⟨hnonempty, hnodup, hreferences, order, hordered⟩
    obtain ⟨ids, hids⟩ := (validateTasks_formed hformed).2 ⟨hnodup, fun task _ ↦ List.not_mem_nil⟩
    have hsearch := (search_ordered ⟨hnodup, hreferences⟩).2 ⟨order, hordered⟩
    have hreferenced : validateReferences ids (tasks.flatMap fun task ↦ task.dependsOn.map (task.id, ·)) = .ok () := by
      refine validateReferences_ok.2 fun reference hmem ↦ ?_
      obtain ⟨task, htask, hmem⟩ := List.mem_flatMap.1 hmem
      obtain ⟨dependency, hdependency, rfl⟩ := List.mem_map.1 hmem
      obtain ⟨hknown, hself⟩ := hreferences task htask dependency hdependency
      exact ⟨(mem_validateTasks hids _).2 (.inl hknown), hself⟩
    -- The first task of the order depends on nothing.
    have hroot : tasks.any (·.dependsOn.length == 0) = true := by
      obtain ⟨first, rest, rfl⟩ : ∃ first rest, order = first :: rest := by
        refine List.exists_cons_of_ne_nil fun hnil ↦ hnonempty ?_
        rw [hnil] at hordered
        exact hordered.1.symm.eq_nil
      refine List.any_eq_true.2 ⟨first, hordered.1.subset List.mem_cons_self, ?_⟩
      have hnone : first.dependsOn = [] := List.eq_nil_iff_forall_not_mem.2 fun dependency hdependency ↦ by
        obtain ⟨other, hother, -⟩ := hordered.2 [] first rest rfl dependency hdependency
        exact List.not_mem_nil hother
      rw [hnone]
      rfl
    refine ⟨⟨tasks⟩, ?_⟩
    rw [validate]
    dsimp only
    rw [hids, Except.ok_bind, hreferenced, Except.ok_bind, if_neg (by rw [hsearch]; exact Bool.false_ne_true), if_neg]
    simp [hroot, hnonempty]

/-- Two tasks after a first, and one after both. -/
def diamond : List Task :=
  let task (id : String) (dependsOn : List String) : Task :=
    { id, title := "Title", context := "Context", goal := "Goal", acceptance := ["First", "Second"], dependsOn }
  [task "d" ["b", "c"], task "b" ["a"], task "c" ["a"], task "a" []]

theorem validate_iff_diamond : ∃ order, Ordered diamond order :=
  ((validate_iff diamond (by decide)).1.1 ⟨⟨diamond⟩, by rfl⟩).2.2.2

end Chopin.Tasks
