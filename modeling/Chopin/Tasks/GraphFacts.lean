import Chopin.Lib.Except
import Chopin.Tasks.Graphs

/-!
# Well-formed graphs

`Graph.Wf` is what `Graphs.restore` accepts: versions numbered from one, each with a valid
definition, in an order of states and plan revisions that `history` allows.  Every operation keeps
it, and a well-formed graph that is stored is read back unchanged.

The second theme is what operations do *not* change.  `Graph.Holds g run d` says that `run` names a
version of `g` that is past its draft and has the definition `d`.  No operation edits such a
version — only its state moves on — so once work has been claimed under `d` the graph holds it for
good, and `versionFor` finds it.
-/

set_option autoImplicit false
set_option linter.dupNamespace false

open Script

namespace Chopin.Tasks

/-! ## What validation guarantees -/

variable {tasks : List Task}

theorem validateTasks_text : ∀ {ids out : List String},
    validateTasks ids tasks = .ok out → ∀ task ∈ tasks, text task.id = true := by
  induction tasks with
  | nil => intro _ _ _ task hmem; exact nomatch hmem
  | cons task rest ih =>
    intro ids out h
    rw [validateTasks] at h
    split at h
    · exact absurd h (by simp [invalid])
    · split at h
      · exact absurd h (by simp [invalid])
      · split at h
        · exact absurd h (by simp [invalid])
        · rename_i htext _ _
          simp only [Bool.or_eq_true, Bool.not_eq_true', not_or, Bool.not_eq_false] at htext
          intro other hmem
          rcases List.mem_cons.1 hmem with rfl | hmem
          · exact htext.1.1.1
          · exact ih h other hmem

theorem validateTasks_ids : ∀ {ids out : List String}, validateTasks ids tasks = .ok out →
      (tasks.map Task.id).Nodup ∧ ∀ task ∈ tasks, task.id ∉ ids := by
  induction tasks with
  | nil => intro _ _ _; simp
  | cons task rest ih =>
    intro ids out h
    rw [validateTasks] at h
    split at h; · exact absurd h (by simp [invalid])
    split at h; · exact absurd h (by simp [invalid])
    rename_i hnew
    split at h; · exact absurd h (by simp [invalid])
    obtain ⟨hnodup, hfresh⟩ := ih h
    refine ⟨List.nodup_cons.2 ⟨fun hmem ↦ ?_, hnodup⟩, fun other hmem ↦ ?_⟩
    · obtain ⟨other, hother, heq⟩ := List.mem_map.1 hmem
      exact hfresh other hother (heq ▸ List.mem_cons_self)
    · rcases List.mem_cons.1 hmem with rfl | hmem
      · simpa using hnew
      · exact fun hid ↦ hfresh other hmem (List.mem_cons_of_mem _ hid)

variable {checked : Definition}

/-- No two tasks of a valid definition share an id. -/
theorem validate_ids {definition : Definition} (h : validate definition = .ok checked) :
    (definition.tasks.map Task.id).Nodup := by
  rw [validate] at h
  obtain ⟨ids, hids, -⟩ := Except.bind_eq_ok.1 h
  exact (validateTasks_ids hids).1

/-- A definition that passes is returned as it is, has a task, and names each of its tasks. -/
theorem validate_ok {definition : Definition} (h : validate definition = .ok checked) :
    checked = definition ∧ definition.tasks ≠ [] ∧ ∀ task ∈ definition.tasks, text task.id = true := by
  rw [validate] at h
  obtain ⟨ids, hids, h⟩ := Except.bind_eq_ok.1 h
  obtain ⟨_, _, h⟩ := Except.bind_eq_ok.1 h
  split at h
  · exact absurd h (by simp [invalid])
  · split at h
    · exact absurd h (by simp [invalid])
    · rename_i hroot
      refine ⟨(Except.ok.inj h).symm, ?_, validateTasks_text hids⟩
      rintro hnil
      simp [hnil] at hroot

/-! ## The order of versions -/

variable {versions : List Version}

theorem ordered_concat {last : Version} : ordered (versions ++ [last]) = true ↔
      ordered versions = true ∧ ∀ prior ∈ versions.getLast?, prior.planRevision ≤ last.planRevision := by
  induction versions with
  | nil => simp [ordered]
  | cons version rest ih =>
    cases rest with
    | nil => simp [ordered]
    | cons next rest =>
      simp only [List.cons_append, ordered, Bool.and_eq_true, decide_eq_true_eq] at ih ⊢
      rw [ih, List.getLast?_cons_cons, and_assoc]

theorem draftPrior_concat {last : Version} : draftPrior (versions ++ [last]) = true ↔
      (∀ version ∈ versions, version.state = .superseded) ∧ (last.state = .superseded ∨ last.state = .approved) := by
  induction versions with
  | nil => simp [draftPrior]
  | cons version rest ih =>
    obtain ⟨next, tail, htail⟩ := List.exists_cons_of_ne_nil (l := rest ++ [last]) (by simp)
    rw [List.cons_append, htail, draftPrior.eq_3 _ _ (by simp), ← htail, Bool.and_eq_true, ih,
      beq_iff_eq, List.forall_mem_cons, and_assoc]

/-- The rule for the versions before the last, in terms of the last one's state. -/
def PriorOk (prior : List Version) (state : State) : Prop :=
  if state = .draft then draftPrior prior = true else ∀ version ∈ prior, version.state = .superseded

variable {prior : List Version} {latest : Version}

theorem history_concat : history (prior ++ [latest]) = true ↔
      latest.state ≠ .superseded ∧ ordered (prior ++ [latest]) = true ∧ PriorOk prior latest.state := by
  rw [history, List.getLast?_concat, List.dropLast_concat]
  by_cases h : latest.state = .draft <;> simp [PriorOk, h, and_assoc]

/-- Versions numbered on from `index`. -/
def Numbered : Nat → List Version → Prop
  | _, [] => True
  | index, version :: rest => version.number = index + 1 ∧ Numbered (index + 1) rest

theorem numbered_append {more : List Version} : ∀ {index : Nat}, Numbered index (versions ++ more) ↔
      Numbered index versions ∧ Numbered (index + versions.length) more := by
  induction versions with
  | nil => intro index; simp [Numbered]
  | cons version rest ih =>
    intro index
    rw [List.cons_append, Numbered, Numbered, ih, List.length_cons, and_assoc,
      show index + 1 + rest.length = index + (rest.length + 1) by omega]

/-- Numbers are distinct, so a number names one version. -/
theorem Numbered.unique : ∀ {index : Nat}, Numbered index versions → (∀ version ∈ versions, index < version.number) ∧
      ∀ v ∈ versions, ∀ w ∈ versions, v.number = w.number → v = w := by
  induction versions with
  | nil => intro _ _; simp
  | cons version rest ih =>
    intro index h
    obtain ⟨hnumber, hrest⟩ := h
    obtain ⟨hlt, huniq⟩ := ih hrest
    refine ⟨?_, ?_⟩
    · intro v hv
      rcases List.mem_cons.1 hv with rfl | hv
      · omega
      · have := hlt v hv; omega
    · intro v hv w hw heq
      rcases List.mem_cons.1 hv with rfl | hv' <;> rcases List.mem_cons.1 hw with rfl | hw'
      · rfl
      · have := hlt w hw'; omega
      · have := hlt v hv'; omega
      · exact huniq v hv' w hw' heq

theorem Numbered.le : ∀ {index : Nat}, Numbered index versions →
    ∀ version ∈ versions, version.number ≤ index + versions.length := by
  induction versions with
  | nil => intro _ _ version hmem; exact nomatch hmem
  | cons first rest ih =>
    intro index ⟨hnumber, hrest⟩ version hmem
    rw [List.length_cons]
    rcases List.mem_cons.1 hmem with rfl | hmem
    · omega
    · have := ih hrest version hmem
      omega

/-! ## Well-formed graphs -/

/-- A version a stored graph may hold. -/
def Version.Wf (version : Version) : Prop :=
  1 ≤ version.revision ∧ validate version.definition = .ok version.definition

/-- What `Graphs.restore` accepts. -/
structure Graph.Wf (graph : Graph) : Prop where
  numbered : Numbered 0 graph.versions
  versions : ∀ version ∈ graph.versions, version.Wf
  history : history graph.versions = true

variable {graph : Graph}

theorem Graph.Wf.split (h : graph.Wf) : ∃ prior latest, graph.versions = prior ++ [latest] := by
  rcases List.eq_nil_or_concat graph.versions with hnil | ⟨prior, latest, heq⟩
  · exact absurd h.history (by simp [hnil, Tasks.history])
  · exact ⟨prior, latest, by rw [heq, List.concat_eq_append]⟩

@[simp] theorem current_mk_concat (prior : List Version) (latest : Version) :
    current ⟨prior ++ [latest]⟩ = some latest := by simp [current]

theorem current_eq_some : current graph = some latest ↔ ∃ prior, graph = ⟨prior ++ [latest]⟩ := by
  rw [current, List.getLast?_eq_some_iff]
  constructor
  · rintro ⟨prior, h⟩; exact ⟨prior, by cases graph; simpa using h⟩
  · rintro ⟨prior, rfl⟩; exact ⟨prior, rfl⟩

@[simp] theorem setLast_mk_concat (prior : List Version) (latest version : Version) :
    setLast ⟨prior ++ [latest]⟩ version = ⟨prior ++ [version]⟩ := by simp [setLast]

/-- A well-formed graph, opened at its last version. -/
theorem Graph.wf_concat : Graph.Wf ⟨prior ++ [latest]⟩ ↔ (Numbered 0 prior ∧ latest.number = prior.length + 1) ∧
        ((∀ version ∈ prior, version.Wf) ∧ latest.Wf) ∧
          latest.state ≠ .superseded ∧ ordered (prior ++ [latest]) = true ∧ PriorOk prior latest.state := by
  constructor
  · rintro ⟨hnum, hver, hhist⟩
    simp only [numbered_append, Numbered, Nat.zero_add, and_true] at hnum
    simp only [List.mem_append, List.mem_singleton, or_imp, forall_and, forall_eq] at hver
    exact ⟨hnum, hver, history_concat.1 hhist⟩
  · rintro ⟨hnum, hver, hhist⟩
    refine ⟨?_, ?_, history_concat.2 hhist⟩
    · simpa only [numbered_append, Numbered, Nat.zero_add, and_true] using hnum
    · simpa only [List.mem_append, List.mem_singleton, or_imp, forall_and, forall_eq] using hver

/-- The last version has the highest number. -/
theorem Graph.Wf.number_le (h : Graph.Wf ⟨prior ++ [latest]⟩) : ∀ version ∈ prior ++ [latest],
      version.number ≤ latest.number := by
  obtain ⟨hnumbered, -⟩ := wf_concat.1 h
  intro version hmem
  have hle := h.numbered.le version hmem
  rw [List.length_append, List.length_singleton] at hle
  omega

/-! ## What each operation does -/

variable {next : Graph}

theorem claim_started {graph : Option Graph} {revision : Option Nat} {execution : Option Run} {input : ClaimInput}
    {owner : Run} (h : Graphs.claim graph revision execution input = .started next owner) :
    execution = none ∧ owner = input.run ∧ input.run.valid = true ∧
      ∃ prior latest, graph = some ⟨prior ++ [latest]⟩ ∧ revision = some latest.planRevision ∧
        latest.state = .approved ∧ «matches» input.run latest = true ∧
        next = ⟨prior ++ [{ latest with state := .locked }]⟩ := by
  unfold Graphs.claim at h
  split at h
  · cases h
  · split at h
    · cases h
    · split at h
      · rename_i graph latest hcurrent
        obtain ⟨prior, rfl⟩ := current_eq_some.1 hcurrent
        split at h; · cases h
        rename_i hvalid
        split at h; · cases h
        split at h; · cases h
        rename_i hstate
        split at h; · cases h
        rename_i hplan
        split at h; · cases h
        rename_i hmatch
        rw [bne_iff_ne, ne_eq, not_not] at hplan
        cases h
        exact ⟨rfl, rfl, by simpa using hvalid, prior, latest, rfl, hplan.symm, by simpa using hstate,
          by simpa using hmatch, setLast_mk_concat _ _ _⟩
      · cases h

variable {revision : Nat}

theorem revise_ok {change : Revision} (h : Graphs.revise (some ⟨prior ++ [latest]⟩) (some revision) change = .ok next) :
    ∃ checked, validate checked = .ok checked ∧
      (latest.state = .draft ∧ next = ⟨prior ++ [{ latest with
          revision := latest.revision + 1, planRevision := revision, definition := checked }]⟩ ∨
        latest.state = .approved ∧ next = ⟨(prior ++ [latest]) ++ [{
          number := latest.number + 1, revision := 1, planRevision := revision, state := .draft,
          definition := checked }]⟩) := by
  simp only [Graphs.revise, Option.bind_some, current_mk_concat, Option.map_some,
    Option.getD_some] at h
  split at h; · cases h
  split at h; · cases h
  split at h; · cases h
  rename_i hlocked
  split at h; · cases h
  rename_i hsuperseded
  split at h; · cases h
  obtain ⟨checked, hchecked, h⟩ := Except.bind_eq_ok.1 h
  have hvalid : validate checked = .ok checked := by
    rw [revise] at hchecked
    obtain ⟨tasks, _, hvalidate⟩ := Except.bind_eq_ok.1 hchecked
    rw [← (validate_ok hvalidate).1] at hvalidate
    exact hvalidate
  refine ⟨checked, hvalid, ?_⟩
  split at h
  · rename_i hdraft
    simp only [setLast_mk_concat, Except.pure_eq_ok, Except.ok.injEq] at h
    exact .inl ⟨by simpa using hdraft, h.symm⟩
  · rename_i hdraft
    simp only [Except.pure_eq_ok, Except.ok.injEq] at h
    refine .inr ⟨?_, h.symm⟩
    cases hstate : latest.state <;> simp_all

theorem approve_ok {revision : Option Nat} (h : approveGraph (some ⟨prior ++ [latest]⟩) revision = .ok next) :
    latest.state = .draft ∧ revision = some latest.planRevision ∧
      next = ⟨prior.map Version.supersede ++ [{ latest with state := .approved }]⟩ := by
  simp only [approveGraph, Option.bind_some, current_mk_concat] at h
  split at h
  · cases h
  · rename_i hstate
    split at h
    · cases h
    · split at h
      · cases h
      · rename_i hplan
        obtain ⟨checked, hchecked, h⟩ := Except.bind_eq_ok.1 h
        obtain ⟨rfl, _⟩ := validate_ok hchecked
        simp only [List.map_append, List.map_cons, List.map_nil, setLast_mk_concat,
          Except.pure_eq_ok, Except.ok.injEq] at h
        rw [bne_iff_ne, ne_eq, not_not] at hplan
        exact ⟨by simpa using hstate, by rw [hplan], h.symm⟩

@[simp] theorem unlock_mk_concat (prior : List Version) (latest : Version) :
    unlockLast ⟨prior ++ [latest]⟩ = ⟨prior ++ [{ latest with state := .approved }]⟩ := by
  simp [unlockLast]

/-! ## Operations keep graphs well formed -/

variable {f : Version → Version}

theorem ordered_map (hf : ∀ v, (f v).planRevision = v.planRevision)
    (versions : List Version) : ordered (versions.map f) = ordered versions := by
  induction versions with
  | nil => rfl
  | cons version rest ih =>
    cases rest with
    | nil => rfl
    | cons next rest => simpa only [List.map_cons, ordered, hf] using congrArg _ ih

theorem numbered_map (hf : ∀ v, (f v).number = v.number) : ∀ {index : Nat},
    Numbered index (versions.map f) ↔ Numbered index versions := by
  induction versions with
  | nil => intro _; rfl
  | cons version rest ih => intro index; rw [List.map_cons, Numbered, Numbered, hf, ih]

/-- Claiming and releasing only exchange these two states of the last version. -/
theorem Graph.Wf.withState {state : State} (h : Graph.Wf ⟨prior ++ [latest]⟩) (hfrom : latest.state ≠ .draft)
    (hto : state = .approved ∨ state = .locked) : Graph.Wf ⟨prior ++ [{ latest with state }]⟩ := by
  obtain ⟨hnum, hver, -, hord, hprior⟩ := wf_concat.1 h
  rw [PriorOk, if_neg hfrom] at hprior
  refine wf_concat.2 ⟨hnum, hver, ?_, ?_, ?_⟩
  · rcases hto with rfl | rfl <;> simp
  · obtain ⟨hord, hlast⟩ := ordered_concat.1 hord
    exact ordered_concat.2 ⟨hord, hlast⟩
  · rw [PriorOk, if_neg (by rcases hto with rfl | rfl <;> simp)]
    exact hprior

theorem Graph.Wf.redraft {definition : Definition} (h : Graph.Wf ⟨prior ++ [latest]⟩)
    (hrevision : latest.planRevision ≤ revision) (hvalid : validate definition = .ok definition) :
    Graph.Wf ⟨prior ++ [{ latest with
      revision := latest.revision + 1, planRevision := revision, definition }]⟩ := by
  obtain ⟨hnum, hver, hsup, hord, hprior⟩ := wf_concat.1 h
  refine wf_concat.2 ⟨hnum, ⟨hver.1, by simp, hvalid⟩, hsup, ?_, hprior⟩
  obtain ⟨hord, hlast⟩ := ordered_concat.1 hord
  exact ordered_concat.2 ⟨hord, fun v hv ↦ (hlast v hv).trans hrevision⟩

theorem Graph.Wf.pushDraft {definition : Definition} (h : Graph.Wf ⟨prior ++ [latest]⟩)
    (hstate : latest.state = .approved) (hrevision : latest.planRevision ≤ revision)
    (hvalid : validate definition = .ok definition) :
    Graph.Wf ⟨(prior ++ [latest]) ++ [{
      number := latest.number + 1, revision := 1, planRevision := revision, state := .draft,
      definition }]⟩ := by
  obtain ⟨hnum, hver, -, hord, hprior⟩ := wf_concat.1 h
  rw [PriorOk, if_neg (by simp [hstate])] at hprior
  refine wf_concat.2 ⟨⟨h.numbered, by simp [hnum.2]⟩, ⟨h.versions, by simp, hvalid⟩, by simp, ?_, ?_⟩
  · exact ordered_concat.2 ⟨hord, by simpa using hrevision⟩
  · rw [PriorOk, if_pos rfl, draftPrior_concat]
    exact ⟨hprior, .inr hstate⟩

theorem Graph.Wf.approve (h : Graph.Wf ⟨prior ++ [latest]⟩) (hstate : latest.state = .draft) :
    Graph.Wf ⟨prior.map Version.supersede ++ [{ latest with state := .approved }]⟩ := by
  have hnumber : ∀ v : Version, v.supersede.number = v.number := fun v ↦ by
    rw [Version.supersede]; split <;> rfl
  have hplan : ∀ v : Version, v.supersede.planRevision = v.planRevision := fun v ↦ by
    rw [Version.supersede]; split <;> rfl
  obtain ⟨hnum, hver, -, hord, hprior⟩ := wf_concat.1 h
  rw [PriorOk, if_pos hstate] at hprior
  refine wf_concat.2 ⟨⟨(numbered_map hnumber).2 hnum.1, by simpa using hnum.2⟩, ⟨?_, hver.2⟩,
    by simp, ?_, ?_⟩
  · intro v hv
    obtain ⟨w, hw, rfl⟩ := List.mem_map.1 hv
    have := hver.1 w hw
    rw [Version.supersede]
    split <;> exact this
  · have := ordered_map hplan (prior ++ [latest])
    rw [hord, List.map_append, List.map_singleton, ordered_concat] at this
    exact ordered_concat.2 ⟨this.1, fun v hv ↦ (this.2 v hv).trans_eq (hplan latest)⟩
  · rw [PriorOk, if_neg (by simp)]
    intro v hv
    obtain ⟨w, hw, rfl⟩ := List.mem_map.1 hv
    rcases List.eq_nil_or_concat prior with rfl | ⟨init, last, rfl⟩
    · cases hw
    · rw [List.concat_eq_append, draftPrior_concat] at hprior
      rw [List.concat_eq_append, List.mem_append, List.mem_singleton] at hw
      have hw : w.state = .superseded ∨ w.state = .approved :=
        hw.elim (fun hw ↦ .inl (hprior.1 w hw)) fun hw ↦ hw ▸ hprior.2
      rcases hw with hw | hw <;> simp [Version.supersede, hw]

/-! ## What stays as it is -/

/-- `run` names a version that is past its draft and has this definition. -/
def Graph.Holds (graph : Graph) (run : Run) (definition : Definition) : Prop :=
  ∃ version ∈ graph.versions, «matches» run version = true ∧ version.state ≠ .draft ∧
    version.definition = definition

variable {version : Version}

theorem matches_number {run : Run} (h : «matches» run version = true) : run.graphVersion = version.number := by
  simp only [«matches», Bool.and_eq_true, beq_iff_eq] at h
  exact h.1.1

/-- In a well-formed graph a run names at most one version. -/
theorem Graph.Wf.unique (h : graph.Wf) {run : Run} {v w : Version} (hv : v ∈ graph.versions)
    (hw : w ∈ graph.versions) (hmv : «matches» run v = true) (hmw : «matches» run w = true) : v = w :=
  h.numbered.unique.2 v hv w hw ((matches_number hmv).symm.trans (matches_number hmw))

theorem Graph.Holds.versionFor {run : Run} {definition : Definition} (hwf : graph.Wf) (h : graph.Holds run definition) :
    ∃ version ∈ graph.versions, graph.versions.find? («matches» run) = some version ∧
      «matches» run version = true ∧ version.definition = definition := by
  obtain ⟨version, hmem, hmatch, -, hdef⟩ := h
  cases hfind : graph.versions.find? («matches» run) with
  | none => exact absurd hmatch (by simpa using List.find?_eq_none.1 hfind version hmem)
  | some found =>
    have heq := hwf.unique (List.mem_of_find?_eq_some hfind) hmem (List.find?_some hfind) hmatch
    subst heq
    exact ⟨found, hmem, rfl, hmatch, hdef⟩

/-- Versions past their draft are carried along: only their state may move on. -/
def Graph.Kept (graph next : Graph) : Prop :=
  ∀ run definition, graph.Holds run definition → next.Holds run definition

theorem Graph.Kept.refl (graph : Graph) : graph.Kept graph := fun _ _ h ↦ h

theorem Graph.Kept.of_forall (h : ∀ v ∈ graph.versions, v.state ≠ .draft → ∃ w ∈ next.versions, w.state ≠ .draft ∧
      { w with state := v.state } = v) : graph.Kept next := by
  rintro run definition ⟨v, hv, hmatch, hstate, rfl⟩
  obtain ⟨w, hw, hwstate, heq⟩ := h v hv hstate
  refine ⟨w, hw, ?_, hwstate, ?_⟩
  · rw [← heq] at hmatch; exact hmatch
  · rw [← heq]

theorem Graph.Kept.withState {state : State} (hstate : state ≠ .draft) :
    Graph.Kept ⟨prior ++ [latest]⟩ ⟨prior ++ [{ latest with state }]⟩ := by
  refine .of_forall fun v hv hdraft ↦ ?_
  rcases List.mem_append.1 hv with hv | hv
  · exact ⟨v, List.mem_append_left _ hv, hdraft, rfl⟩
  · rw [List.mem_singleton.1 hv]
    exact ⟨_, List.mem_concat_self, hstate, rfl⟩

/-- A draft is nobody's claim: it may become anything. -/
theorem Graph.Kept.redraft (hstate : latest.state = .draft) : Graph.Kept ⟨prior ++ [latest]⟩ ⟨prior ++ [version]⟩ := by
  refine .of_forall fun v hv hdraft ↦ ?_
  rcases List.mem_append.1 hv with hv | hv
  · exact ⟨v, List.mem_append_left _ hv, hdraft, rfl⟩
  · exact absurd (List.mem_singleton.1 hv ▸ hstate) hdraft

theorem Graph.Kept.push (versions more : List Version) : Graph.Kept ⟨versions⟩ ⟨versions ++ more⟩ :=
  .of_forall fun v hv hdraft ↦ ⟨v, List.mem_append_left _ hv, hdraft, rfl⟩

theorem Graph.Kept.approve (hstate : latest.state = .draft) :
    Graph.Kept ⟨prior ++ [latest]⟩ ⟨prior.map Version.supersede ++ [version]⟩ := by
  refine .of_forall fun v hv hdraft ↦ ?_
  rcases List.mem_append.1 hv with hv | hv
  · refine ⟨v.supersede, List.mem_append_left _ (List.mem_map_of_mem hv), ?_, ?_⟩
    · rw [Version.supersede]; split <;> simp_all
    · rw [Version.supersede]; split <;> rfl
  · exact absurd (List.mem_singleton.1 hv ▸ hstate) hdraft

/-! ## Reading back what was stored -/

theorem task_toJson (value : Task) : task value.toJson = some value := by
  have hitem : value.toJson.item ["acceptance", "context", "dependsOn", "goal", "id", "title"] =
      some _ := Json.item_obj rfl
  simp only [task, hitem, Option.some_then]
  simp [List.lookup_cons]

theorem definition_toJson {value : Definition} (h : validate value = .ok value) :
    definition value.toJson = some value := by
  have hitem : value.toJson.item ["tasks"] = some _ := Json.item_obj rfl
  have htasks : (value.tasks.map Task.toJson).mapM task = some value.tasks :=
    Json.mapM_map fun value _ ↦ task_toJson value
  simp only [definition, hitem, Option.some_then]
  simp [htasks, h]

theorem Client.item_toJson (value : Client) : value.toJson.item ["name", "version"] =
    some [("name", .str value.name), ("version", .str value.version)] := Json.item_obj rfl

theorem run_toJson {value : Run} (h : value.valid = true) : run value.toJson = some value := by
  have hitem : value.toJson.item ["branch", "client", "commit", "graphRevision", "graphVersion",
      "id", "planRevision", "repository", "session", "startedAt", "user"] = some _ :=
    Json.item_obj (by simp [Json.exact, List.isPerm])
  simp only [run, hitem, Option.some_then, List.lookup_cons, beq_self_eq_true,
    String.reduceBEq, Client.item_toJson, Json.string_str, Json.nat_num]
  rw [if_pos h]
  rfl

/-- Only a run that passes is read. -/
theorem run_valid {value : Json} {restored : Run} (h : run value = some restored) : restored.valid = true := by
  rw [run] at h
  iterate 27 obtain ⟨_, -, h⟩ := Option.bind_eq_some_iff.1 h
  simp only at h
  split at h
  · rename_i hvalid
    cases h
    exact hvalid
  · cases h

theorem ofName_name (state : State) : State.ofName state.name = some state := by
  cases state <;> rfl

theorem restoreVersion_toJson {index : Nat} (hnum : version.number = index + 1)
    (h : version.Wf) : restoreVersion index version.toJson = some version := by
  have hitem : version.toJson.item ["definition", "number", "planRevision", "revision", "state"] =
      some _ := Json.item_obj (by simp [Json.exact, List.isPerm])
  simp only [restoreVersion, hitem, Option.orElse_eq_orElse, Option.orElse_some, Option.some_then, List.lookup_cons,
    beq_self_eq_true, String.reduceBEq, definition_toJson h.2, Json.nat_num, Json.string_str, ofName_name, storedRevision]
  rw [if_pos (by simp [hnum, h.1])]
  rfl

theorem restoreVersions_toJson : ∀ {index : Nat}, Numbered index versions → (∀ version ∈ versions, version.Wf) →
      restoreVersions index (versions.map Version.toJson) = some versions := by
  induction versions with
  | nil => intro _ _ _; rfl
  | cons version rest ih =>
    intro index hnum hver
    rw [List.map_cons, restoreVersions,
      restoreVersion_toJson hnum.1 (hver version List.mem_cons_self),
      ih hnum.2 fun v hv ↦ hver v (List.mem_cons_of_mem _ hv)]
    rfl

/-- **A well-formed graph is read back unchanged.** -/
theorem Graph.Wf.restore (h : graph.Wf) : Graphs.restore graph.toJson = some graph := by
  have hitem : graph.toJson.item ["versions"] = some _ := Json.item_obj rfl
  have hne : graph.versions ≠ [] := by
    obtain ⟨prior, latest, hsplit⟩ := h.split
    simp [hsplit]
  simp only [Graphs.restore, hitem, Option.some_then]
  simp [restoreVersions_toJson h.numbered h.versions, h.history, hne]

/-- Only well-formed graphs are read. -/
theorem restoreVersions_wf : ∀ {values : List Json} {index : Nat} {versions : List Version},
    restoreVersions index values = some versions → Numbered index versions ∧ ∀ version ∈ versions, version.Wf := by
  intro values
  induction values with
  | nil =>
    rintro index versions h
    cases h
    exact ⟨trivial, by simp⟩
  | cons value rest ih =>
    rintro index versions h
    simp only [restoreVersions, Option.then_eq_some] at h
    obtain ⟨version, hversion, versions, hrest, h⟩ := h
    cases h
    obtain ⟨hnum, hver⟩ := ih hrest
    have hwf : version.number = index + 1 ∧ version.Wf := by
      simp only [restoreVersion, Option.then_eq_some] at hversion
      obtain ⟨_, _, _, _, checked, hchecked, hversion⟩ := hversion
      repeat' obtain ⟨_, _, hversion⟩ := hversion
      split at hversion
      · rename_i hnumber
        cases hversion
        simp only [Bool.and_eq_true, beq_iff_eq, decide_eq_true_eq] at hnumber
        simp only [definition, Option.then_eq_some,
          Except.toOption_eq_some] at hchecked
        obtain ⟨_, _, _, _, _, _, _, _, hchecked⟩ := hchecked
        obtain ⟨rfl, _⟩ := validate_ok hchecked
        exact ⟨hnumber.1, hnumber.2, hchecked⟩
      · cases hversion
    exact ⟨⟨hwf.1, hnum⟩, List.forall_mem_cons.2 ⟨hwf.2, hver⟩⟩

theorem restore_wf {value : Json} (h : Graphs.restore value = some graph) : graph.Wf := by
  simp only [Graphs.restore, Option.then_eq_some] at h
  obtain ⟨_, _, _, _, _, _, versions, hversions, h⟩ := h
  split at h
  · cases h
  · split at h
    · rename_i hhistory
      cases h
      exact ⟨(restoreVersions_wf hversions).1, (restoreVersions_wf hversions).2, hhistory⟩
    · cases h

end Chopin.Tasks
