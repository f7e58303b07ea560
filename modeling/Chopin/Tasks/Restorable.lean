import Chopin.Tasks.FoldFacts
import Chopin.Tasks.GraphFacts
import Chopin.Tasks.Stored

/-!
# Restorable lifecycles

`Lifecycle.Restores graph execution lifecycle` is the reader's idea of a lifecycle, stated about the
records rather than about their JSON: what `restoreLifecycle` accepts is exactly a stored record of
one that restores, and it is read back unchanged (`restoreLifecycle_toJson`, `restoreLifecycle_ok`).

The rest of the file is about a single event.  `Storable` is what the reader asks of one, and
whatever the reducer accepts is storable (`reduceEvent_storable`).
-/

set_option autoImplicit false
set_option linter.dupNamespace false

open Script

namespace Chopin.Tasks

/-! ## Events -/

/-- What the reader asks of a command. -/
def Command.Storable : Command → Prop
  | .start taskId => text taskId = true
  | .block taskId reason => text taskId = true ∧ text reason = true
  | .reportPr taskId url _ => text taskId = true ∧ text url = true
  | .complete taskId summary noChange =>
    text taskId = true ∧ text summary = true ∧ ∀ value ∈ noChange, value.valid = true
  | .reportVerification _ => True
  | .requestRevision reason => text reason = true

/-- What the reader asks of an event. -/
def ProgressEvent.Storable (event : ProgressEvent) : Prop :=
  text event.idempotencyKey = true ∧ event.command.Storable

@[simp] theorem said_str {value : String} (h : text value = true) :
    said (some (.str value)) = some value := by simp [said, h]

theorem said_text {value : Option Json} {found : String} (h : said value = some found) : text found = true := by
  rw [said, Option.filter_eq_some_iff] at h
  exact h.2

theorem noChange_toJson {value : NoChange} (h : value.valid = true) : noChange value.toJson = some value := by
  have hitem : value.toJson.item ["evidence", "reason"] = some _ := Json.item_obj rfl
  simp only [NoChange.valid, Bool.and_eq_true] at h
  simp [noChange, hitem, List.lookup_cons, h.1, h.2]

variable {value : Json}

theorem noChange_valid {found : NoChange} (h : noChange value = some found) : found.valid = true := by
  simp only [noChange, Option.then_eq_some] at h
  obtain ⟨_, _, reason, hreason, evidence, hevidence, h⟩ := h
  cases h
  simp [NoChange.valid, said_text hreason, said_text hevidence]

theorem evidence_toJson (entries : List VerificationEvidence) :
    evidence (.arr (entries.map VerificationEvidence.toJson)) = some entries := by
  simp only [evidence, Json.array_arr, Option.some_then]
  refine Json.mapM_map fun entry _ ↦ ?_
  have hitem : entry.toJson.item ["evidence", "taskId"] = some _ := Json.item_obj rfl
  simp [evidenceEntry, hitem, List.lookup_cons]

variable {command : Command}

/-- What is written of a command is read back, once its texts say something. -/
theorem storedCommand_toJson (h : command.Storable) (key : String) :
    ∃ item, (ProgressEvent.mk command key).toJson = .obj item ∧
      item.lookup "idempotencyKey" = some (.str key) ∧ storedCommand (.obj item) item = some command := by
  cases command with
  | start taskId =>
    refine ⟨_, rfl, rfl, ?_⟩
    simp only [storedCommand, List.lookup_cons, beq_self_eq_true, String.reduceBEq, Json.string_str,
      Option.some_then]
    rw [Json.item_obj rfl]
    simp only [List.lookup_cons, beq_self_eq_true, String.reduceBEq, Option.some_then, said_str h]
    rfl
  | block taskId reason =>
    refine ⟨_, rfl, rfl, ?_⟩
    simp only [storedCommand, List.lookup_cons, beq_self_eq_true, String.reduceBEq, Json.string_str,
      Option.some_then]
    rw [Json.item_obj rfl]
    simp only [List.lookup_cons, beq_self_eq_true, String.reduceBEq, Option.some_then, said_str h.1, said_str h.2]
    rfl
  | reportPr taskId url state =>
    refine ⟨_, rfl, rfl, ?_⟩
    have hstate : PullRequestState.ofName state.name = some state := by cases state <;> rfl
    simp only [storedCommand, List.lookup_cons, beq_self_eq_true, String.reduceBEq, Json.string_str,
      Option.some_then]
    rw [Json.item_obj rfl]
    simp only [List.lookup_cons, beq_self_eq_true, String.reduceBEq, Option.some_then, said_str h.1, said_str h.2,
      Json.string_str, hstate]
    rfl
  | complete taskId summary value =>
    cases value with
    | none =>
      refine ⟨_, rfl, rfl, ?_⟩
      simp only [storedCommand, List.lookup_cons, beq_self_eq_true, String.reduceBEq, Json.string_str,
        Option.some_then]
      rw [Json.item_obj rfl]
      simp only [List.lookup_cons, beq_self_eq_true, String.reduceBEq, Option.some_then, said_str h.1,
        said_str h.2.1]
      rfl
    | some value =>
      refine ⟨_, rfl, rfl, ?_⟩
      simp only [storedCommand, List.lookup_cons, beq_self_eq_true, String.reduceBEq, Json.string_str,
        Option.some_then]
      rw [Json.item_obj rfl]
      simp only [List.lookup_cons, beq_self_eq_true, String.reduceBEq, Option.some_then, said_str h.1,
        said_str h.2.1, noChange_toJson (h.2.2 value rfl)]
      rfl
  | reportVerification report =>
    refine ⟨_, rfl, rfl, ?_⟩
    simp only [storedCommand, List.lookup_cons, beq_self_eq_true, String.reduceBEq, Json.string_str,
      Option.some_then]
    rw [Json.item_obj rfl]
    simp only [List.lookup_cons, beq_self_eq_true, String.reduceBEq, Option.some_then, Json.boolean_bool,
      Json.string_str, evidence_toJson, Json.strings_arr]
    rfl
  | requestRevision reason =>
    refine ⟨_, rfl, rfl, ?_⟩
    simp only [storedCommand, List.lookup_cons, beq_self_eq_true, String.reduceBEq, Json.string_str,
      Option.some_then]
    rw [Json.item_obj rfl]
    simp only [List.lookup_cons, beq_self_eq_true, String.reduceBEq, Option.some_then, said_str h]
    rfl

/-- **A storable event is read back unchanged.** -/
theorem progressEvent_toJson {event : ProgressEvent} (h : event.Storable) :
    progressEvent event.toJson = some event := by
  obtain ⟨item, hitem, hkey, hcommand⟩ := storedCommand_toJson h.2 event.idempotencyKey
  rw [hitem]
  show (said (item.lookup "idempotencyKey") >>= fun idempotencyKey ↦
    storedCommand (.obj item) item >>= fun command ↦ pure (ProgressEvent.mk command idempotencyKey)) = _
  rw [hkey, said_str h.1, hcommand]
  rfl

variable {events : List ProgressEvent}

theorem restoreEvents_toJson (hne : events ≠ []) (h : ∀ event ∈ events, event.Storable) :
    restoreEvents (.arr (events.map ProgressEvent.toJson)) = some events := by
  have hread := Json.mapM_map fun event hmem ↦ progressEvent_toJson (h event hmem)
  simp [restoreEvents, hread, hne]

theorem storedCommand_storable {item : List (String × Json)}
    (h : storedCommand value item = some command) : command.Storable := by
  unfold storedCommand at h
  simp only [Option.then_eq_some] at h
  obtain ⟨_, _, kind, _, h⟩ := h
  split at h
  all_goals try split at h
  all_goals simp only [Option.then_eq_some, reduceCtorEq] at h
  · obtain ⟨_, _, reason, hreason, h⟩ := h
    cases h; exact said_text hreason
  · obtain ⟨_, _, _, _, _, _, _, _, _, _, _, _, _, _, _, _, _, _, _, _, _, _, h⟩ := h
    cases h; trivial
  · obtain ⟨_, _, taskId, htask, h⟩ := h
    cases h; exact said_text htask
  · obtain ⟨_, _, taskId, htask, reason, hreason, h⟩ := h
    cases h; exact ⟨said_text htask, said_text hreason⟩
  · obtain ⟨_, _, taskId, htask, url, hurl, _, _, _, _, _, _, h⟩ := h
    cases h; exact ⟨said_text htask, said_text hurl⟩
  · obtain ⟨_, _, taskId, htask, summary, hsummary, h⟩ := h
    cases h; exact ⟨said_text htask, said_text hsummary, by simp⟩
  · obtain ⟨_, _, taskId, htask, summary, hsummary, value, hvalue, h⟩ := h
    cases h
    exact ⟨said_text htask, said_text hsummary, by simpa using noChange_valid hvalue⟩

/-- Only storable events are read. -/
theorem progressEvent_storable {event : ProgressEvent} (h : progressEvent value = some event) : event.Storable := by
  unfold progressEvent at h
  split at h
  · simp only [Option.then_eq_some] at h
    obtain ⟨key, hkey, command, hcommand, h⟩ := h
    cases h
    exact ⟨said_text hkey, storedCommand_storable hcommand⟩
  · cases h

/-! ## Lifecycles -/

/-- What an archived log comes to. -/
def ArchivedRun.folded (graph : Graph) (archived : ArchivedRun) : Option ReducerState := do
  let version ← versionFor graph archived.run
  (foldRun version.definition.tasks archived.run archived.events archived.live).toOption

/-- Whether it came to a success. -/
def ArchivedRun.successful (graph : Graph) (archived : ArchivedRun) : Bool :=
  (archived.folded graph).any (·.phase.successful)

/-- What the reader asks of an archived run. -/
structure ArchivedRun.Restores (graph : Graph) (archived : ArchivedRun) : Prop where
  valid : archived.run.valid = true
  events : archived.events ≠ []
  storable : ∀ event ∈ archived.events, event.Storable
  /-- Its log folds to a run that is over. -/
  finished : ∃ folded, archived.folded graph = some folded ∧ folded.phase ≠ .active

/-- What the reader asks of the run at work. -/
def ExecutionRestores (graph : Graph) (lifecycle : Lifecycle) (run : Run) : Prop :=
  ∃ version folded, activeVersion graph run = some version ∧
    foldRun version.definition.tasks run (lifecycle.events.getD []) false = .ok folded ∧
    folded.phase = .active ∧ claimEligibility lifecycle version run.id = none

/-- What the reader asks of a lifecycle. -/
structure Lifecycle.Restores (graph : Graph) (execution : Option Run) (lifecycle : Lifecycle) :
    Prop where
  archived : ∀ archived ∈ lifecycle.history, archived.Restores graph
  events : ∀ events ∈ lifecycle.events, execution.isSome ∧ events ≠ [] ∧
    ∀ event ∈ events, event.Storable
  locked : ∃ latest, current graph = some latest ∧ (latest.state = .locked ↔ execution.isSome)
  execution : ∀ run ∈ execution, ExecutionRestores graph lifecycle run
  runs : (lifecycle.history.map (·.run.id)).Nodup
  keys : (lifecycle.allEvents.map ProgressEvent.idempotencyKey).Nodup
  /-- No version is implemented twice. -/
  once : ((lifecycle.history.filter (·.successful graph)).map (·.run.reference)).Nodup

theorem Phase.outcome_eq_none {phase : Phase} : phase.outcome = none ↔ phase = .active := by
  cases phase <;> simp [Phase.outcome]

theorem Phase.outcome_successful {phase : Phase} {outcome : Outcome}
    (h : phase.outcome = some outcome) : outcome.successful = phase.successful := by
  cases phase <;> cases h <;> rfl

variable {archived : ArchivedRun}

theorem projectArchived_eq_some {graph : Graph} {item : HistoricalRun} :
    projectArchived graph archived = some item ↔ ∃ folded, archived.folded graph = some folded ∧
      folded.phase.outcome = some item.outcome ∧ item.run = archived.run ∧
        item.progress = projectRun folded archived.events := by
  obtain ⟨run, progress, outcome⟩ := item
  simp only [projectArchived, ArchivedRun.folded, Option.then_eq_some]
  constructor
  · rintro ⟨version, hversion, folded, hfolded, outcome, houtcome, h⟩
    cases h
    exact ⟨folded, ⟨version, hversion, hfolded⟩, houtcome, rfl, rfl⟩
  · rintro ⟨folded, ⟨version, hversion, hfolded⟩, houtcome, rfl, rfl⟩
    exact ⟨version, hversion, folded, hfolded, outcome, houtcome, rfl⟩

theorem projectArchived_isSome {graph : Graph} : (projectArchived graph archived).isSome ↔
      ∃ folded, archived.folded graph = some folded ∧ folded.phase ≠ .active := by
  rw [Option.isSome_iff_exists]
  constructor
  · rintro ⟨item, h⟩
    obtain ⟨folded, hfolded, houtcome, -⟩ := projectArchived_eq_some.1 h
    refine ⟨folded, hfolded, fun hphase ↦ ?_⟩
    rw [Phase.outcome_eq_none.2 hphase] at houtcome
    cases houtcome
  · rintro ⟨folded, hfolded, hphase⟩
    obtain ⟨outcome, houtcome⟩ := Option.ne_none_iff_exists'.1 (mt Phase.outcome_eq_none.1 hphase)
    exact ⟨⟨archived.run, projectRun folded archived.events, outcome⟩,
      projectArchived_eq_some.2 ⟨folded, hfolded, houtcome, rfl, rfl⟩⟩

variable {projected : List HistoricalRun}

variable {history : List ArchivedRun}

/-- A projected history says of each run whether it succeeded. -/
theorem projectHistory_successful {graph : Graph} (h : projectHistory graph history = some projected) :
    projected.map (fun item ↦ (item.run, item.outcome.successful)) =
      history.map fun archived ↦ (archived.run, archived.successful graph) := by
  rw [projectHistory, Option.mapM_eq_some] at h
  induction h with
  | nil => rfl
  | cons hitem _ ih =>
    obtain ⟨folded, hfolded, houtcome, hrun, -⟩ := projectArchived_eq_some.1 hitem
    rw [List.map_cons, List.map_cons, ih, hrun, Phase.outcome_successful houtcome,
      ArchivedRun.successful, hfolded, Option.any_some]

/-! ## Eligibility -/

variable {version : Version}

variable {run : Run}

theorem versionFor_eq {graph : Graph} (hwf : graph.Wf)
    (hmem : version ∈ graph.versions) (hmatch : «matches» run version = true) :
    versionFor graph run = some version := by
  cases hfind : versionFor graph run with
  | none => exact absurd hmatch (by simpa using List.find?_eq_none.1 hfind version hmem)
  | some found =>
    rw [hwf.unique (List.mem_of_find?_eq_some hfind) hmem (List.find?_some hfind) hmatch]

theorem versionFor_mem {graph : Graph} (h : versionFor graph run = some version) :
    version ∈ graph.versions ∧ «matches» run version = true :=
  ⟨List.mem_of_find?_eq_some h, List.find?_some h⟩

theorem activeVersion_eq_some {graph : Graph} : activeVersion graph run = some version ↔
      current graph = some version ∧ version.state = .locked ∧ «matches» run version = true := by
  simp [activeVersion, Option.filter_eq_some_iff]

theorem current_mem {graph : Graph} (h : current graph = some version) :
    version ∈ graph.versions := List.mem_of_getLast? h

theorem eligibility_eq_none {history : List (Run × Bool)} {runId : String} : eligibility history version runId = none ↔
      (∀ item ∈ history, item.2 = true → «matches» item.1 version = false) ∧ ∀ item ∈ history, item.1.id ≠ runId := by
  rw [eligibility]
  split
  · rename_i hany
    simp only [reduceCtorEq, false_iff, not_and]
    intro hnone
    obtain ⟨item, hitem, hboth⟩ := List.any_eq_true.1 hany
    simp only [Bool.and_eq_true] at hboth
    simp [hnone item hitem hboth.1] at hboth
  · rename_i hany
    simp only [ite_eq_right_iff, reduceCtorEq, imp_false, List.any_eq_true, beq_iff_eq,
      Bool.and_eq_true, not_exists, not_and, Bool.not_eq_true] at hany ⊢
    exact ⟨fun hnew ↦ ⟨hany, hnew⟩, And.right⟩

/-- The claim's own test for success is the reader's, about one version. -/
theorem successfulFor_eq {graph : Graph} (hwf : graph.Wf) (hmem : version ∈ graph.versions) (archived : ArchivedRun) :
    archived.successfulFor version = (archived.successful graph && «matches» archived.run version) := by
  rw [ArchivedRun.successfulFor, Bool.and_comm]
  cases hmatch : «matches» archived.run version with
  | false => simp
  | true =>
    rw [ArchivedRun.successful, ArchivedRun.folded, versionFor_eq hwf hmem hmatch]
    simp only [Option.some_then, Bool.and_true]
    cases foldRun version.definition.tasks archived.run archived.events archived.live <;> simp

theorem claimEligibility_eq {graph : Graph} (hwf : graph.Wf)
    (hmem : version ∈ graph.versions) (lifecycle : Lifecycle) (runId : String) :
    claimEligibility lifecycle version runId = eligibility (lifecycle.history.map fun archived ↦
        (archived.run, archived.successful graph)) version runId := by
  have hsuccess : ∀ archived : ArchivedRun,
      (archived.successfulFor version && «matches» archived.run version) =
        (archived.successful graph && «matches» archived.run version) := fun archived ↦ by
    rw [successfulFor_eq hwf hmem, Bool.and_assoc, Bool.and_self]
  simp only [claimEligibility, eligibility, List.any_map, Function.comp_def, hsuccess]

variable {lifecycle : Lifecycle}

/-- A run may own the version: no success of it yet, and the id is new. -/
theorem claimEligibility_eq_none {graph : Graph} (hwf : graph.Wf) (hmem : version ∈ graph.versions) {runId : String} :
    claimEligibility lifecycle version runId = none ↔
      (∀ archived ∈ lifecycle.history, archived.successful graph = true → «matches» archived.run version = false) ∧
      ∀ archived ∈ lifecycle.history, archived.run.id ≠ runId := by
  simp only [claimEligibility_eq hwf hmem, eligibility_eq_none, List.forall_mem_map]

/-! ## The reader accepts exactly these -/

theorem restoreArchived_toJson {graph : Graph}
    (h : archived.Restores graph) : restoreArchived graph archived.toJson = some archived := by
  obtain ⟨run, events, live⟩ := archived
  obtain ⟨hvalid, hne, hstorable, folded, hfolded, -⟩ := h
  simp only [ArchivedRun.folded, Option.then_eq_some] at hfolded
  obtain ⟨version, hversion, -⟩ := hfolded
  have hrun : restoreRunVersion run.toJson graph = some run := by
    have hmatch : graph.versions.any («matches» run) = true :=
      List.any_eq_true.2 ⟨version, versionFor_mem hversion⟩
    simp only [restoreRunVersion, run_toJson hvalid, Option.some_then,
      if_pos hmatch]
  have hevents := restoreEvents_toJson hne hstorable
  cases live <;>
    simp only [restoreArchived, ArchivedRun.toJson, Bool.false_eq_true, if_true, if_false, List.append_nil,
      List.cons_append, List.nil_append, Json.fields, Option.some_then, List.lookup_cons, List.lookup_nil, String.reduceBEq,
      beq_self_eq_true, Option.isNone_none, Option.isNone_some, storedLive] <;>
    rw [Json.item_obj (by simp [Json.exact, List.isPerm])] <;>
    simp only [Option.some_then, List.lookup_cons, String.reduceBEq, beq_self_eq_true, hrun, hevents] <;>
    rfl

theorem projectHistory_exists {graph : Graph} (h : ∀ archived ∈ history, archived.Restores graph) :
    ∃ projected, projectHistory graph history = some projected :=
  Option.isSome_iff_exists.1 <| Option.mapM_isSome.2 fun archived hmem ↦
    projectArchived_isSome.2 (h archived hmem).finished

/-- What the reader makes of the history's successes. -/
theorem projected_once {graph : Graph} (h : projectHistory graph history = some projected) :
    (projected.filter (·.outcome.successful)).map (·.run.reference) =
      (history.filter (·.successful graph)).map (·.run.reference) := by
  have hpairs := congrArg (fun pairs ↦ (pairs.filter Prod.snd).map fun pair ↦ pair.1.reference)
    (projectHistory_successful h)
  simpa only [List.filter_map, List.map_map, Function.comp_def] using hpairs

theorem executionRestores_iff {graph : Graph} (hwf : graph.Wf)
    (h : projectHistory graph lifecycle.history = some projected)
    (run : Run) : executionRestores graph projected lifecycle.events run = true ↔
      ExecutionRestores graph lifecycle run := by
  rw [executionRestores, ExecutionRestores, projectHistory_successful h]
  cases hactive : activeVersion graph run with
  | none => simp
  | some version =>
    have hmem := current_mem (activeVersion_eq_some.1 hactive).1
    simp only [Option.some.injEq, exists_and_left, exists_eq_left', claimEligibility_eq hwf hmem]
    cases foldRun version.definition.tasks run (lifecycle.events.getD []) false with
    | error => simp
    | ok folded => simp [Option.beq_none]

/-- The fields of a written lifecycle, as its reader looks them up. -/
theorem Lifecycle.toJson_fields (lifecycle : Lifecycle) : ∃ fields, lifecycle.toJson.fields = some fields ∧
    lifecycle.toJson.item (if (fields.lookup "events").isNone then ["history"] else ["events", "history"]) =
      some fields ∧
    fields.lookup "history" = some (.arr (lifecycle.history.map ArchivedRun.toJson)) ∧
    fields.lookup "events" = lifecycle.events.map fun events ↦ .arr (events.map ProgressEvent.toJson) := by
  obtain ⟨events, history⟩ := lifecycle
  cases events with
  | none => exact ⟨_, rfl, Json.item_obj rfl, rfl, rfl⟩
  | some events => exact ⟨_, rfl, Json.item_obj rfl, rfl, rfl⟩

/-- **A lifecycle that restores is read back unchanged.** -/
theorem Lifecycle.Restores.restore {graph : Graph} (hwf : graph.Wf) {execution : Option Run}
    (h : lifecycle.Restores graph execution) : restoreLifecycle lifecycle.toJson graph execution = some lifecycle := by
  obtain ⟨projected, hprojected⟩ := projectHistory_exists h.archived
  have hhistory : restoreHistory (.arr (lifecycle.history.map ArchivedRun.toJson)) graph =
      some lifecycle.history := by
    simp only [restoreHistory, Json.array_arr, Option.some_then]
    exact Json.mapM_map fun archived hmem ↦ restoreArchived_toJson (h.archived archived hmem)
  have hevents : storedEvents (lifecycle.events.map fun events ↦
      .arr (events.map ProgressEvent.toJson)) = some lifecycle.events := by
    cases hevents : lifecycle.events with
    | none => rfl
    | some events =>
      obtain ⟨-, hne, hstorable⟩ := h.events events hevents
      rw [Option.map_some, storedEvents, restoreEvents_toJson hne hstorable, Option.map_some]
  obtain ⟨latest, hlatest, hlocked⟩ := h.locked
  have hstate : (latest.state == .locked) = execution.isSome := by
    rw [Bool.eq_iff_iff, beq_iff_eq, hlocked]
  have hclaimed : (lifecycle.events.isSome && execution.isNone) = false := by
    cases hevents : lifecycle.events with
    | none => rfl
    | some events => rw [Option.isNone_eq_false_iff.2 (h.events events hevents).1, Bool.and_false]
  have hexecution : execution.all (executionRestores graph projected lifecycle.events) = true := by
    cases hrun : execution with
    | none => rfl
    | some run => exact (executionRestores_iff hwf hprojected run).2 (h.execution run hrun)
  have hkeys := h.keys
  rw [Lifecycle.allEvents] at hkeys
  have honce := h.once
  rw [← projected_once hprojected] at honce
  obtain ⟨fields, hfields, hitem, hstored, hlog⟩ := lifecycle.toJson_fields
  rw [restoreLifecycle, hfields, Option.some_then, hitem, Option.some_then, hstored, Option.some_then,
    hhistory, Option.some_then, hprojected, Option.some_then, hlog, hevents, Option.some_then, hlatest,
    Option.some_then, if_neg (by rw [hstate]; simp), if_neg (by rw [hclaimed]; exact Bool.false_ne_true),
    if_neg (by rw [hexecution]; decide), if_neg (by simpa using h.runs), if_neg (by simpa using hkeys),
    if_neg (by simpa using honce)]
  rfl

theorem restoreEvents_ok (h : restoreEvents value = some events) : events ≠ [] ∧ ∀ event ∈ events, event.Storable := by
  simp only [restoreEvents, Option.then_eq_some] at h
  obtain ⟨values, -, h⟩ := h
  split at h
  · cases h
  · rename_i hlength
    refine ⟨?_, fun event hmem ↦ ?_⟩
    · rintro rfl
      cases Option.mapM_eq_some.1 h
      exact hlength rfl
    · obtain ⟨value, -, hread⟩ := Option.mem_of_mapM h event hmem
      exact progressEvent_storable hread

theorem restoreArchived_ok {graph : Graph}
    (h : restoreArchived graph value = some archived) : archived.run.valid = true ∧
      archived.events ≠ [] ∧ ∀ event ∈ archived.events, event.Storable := by
  simp only [restoreArchived, Option.then_eq_some] at h
  obtain ⟨fields, -, item, -, live, -, stored, -, run, hrun, stored, -, events, hevents, h⟩ := h
  cases h
  simp only [restoreRunVersion, Option.then_eq_some] at hrun
  obtain ⟨restored, hrestored, hrun⟩ := hrun
  split at hrun <;> cases hrun
  exact ⟨run_valid hrestored, restoreEvents_ok hevents⟩

/-- Only lifecycles that restore are read. -/
theorem restoreLifecycle_ok {graph : Graph} (hwf : graph.Wf) {execution : Option Run}
    (h : restoreLifecycle value graph execution = some lifecycle) : lifecycle.Restores graph execution := by
  simp only [restoreLifecycle, Option.then_eq_some] at h
  obtain ⟨fields, -, item, -, stored, -, history, hhistory, projected, hprojected, events, hevents,
    latest, hlatest, h⟩ := h
  split at h; · cases h
  rename_i hlocked
  split at h; · cases h
  rename_i hclaim
  split at h; · cases h
  rename_i hexecution
  split at h; · cases h
  rename_i hruns
  split at h; · cases h
  rename_i hkeys
  split at h; · cases h
  rename_i honce
  cases h
  simp only [bne_iff_ne, ne_eq, not_not, Bool.not_eq_true', Bool.not_eq_false, decide_eq_false_iff_not,
    Bool.and_eq_true, not_and, Option.isNone_iff_eq_none] at *
  refine ⟨fun archived hmem ↦ ?_, fun found hfound ↦ ?_, ⟨latest, hlatest, ?_⟩, fun run hrun ↦ ?_,
    hruns, hkeys, ?_⟩
  · obtain ⟨values, -, hhistory⟩ := Option.bind_eq_some_iff.1 hhistory
    obtain ⟨json, -, hread⟩ := Option.mem_of_mapM hhistory archived hmem
    obtain ⟨hvalid, hne, hstorable⟩ := restoreArchived_ok hread
    exact ⟨hvalid, hne, hstorable, projectArchived_isSome.1
      (Option.mapM_isSome.1 (Option.isSome_of_eq_some hprojected) archived hmem)⟩
  · obtain rfl : events = some found := hfound
    refine ⟨Option.isSome_iff_ne_none.2 (hclaim rfl), ?_⟩
    cases hstored : fields.lookup "events" with
    | none => rw [hstored] at hevents; cases hevents
    | some value =>
      rw [hstored, storedEvents, Option.map_eq_some_iff] at hevents
      obtain ⟨_, hread, heq⟩ := hevents
      cases heq
      exact restoreEvents_ok hread
  · rw [← beq_iff_eq, hlocked]
  · rw [hrun, Option.all_some] at hexecution
    exact (@executionRestores_iff _ ⟨events, history⟩ graph hwf hprojected run).1 hexecution
  · rwa [projected_once hprojected] at honce

end Chopin.Tasks
