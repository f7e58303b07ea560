import Chopin.Lib.Lists
import Chopin.Tasks.Restorable

/-!
# What a transition does

`transition` is inverted once: an accepted input was new, and it extended an archived run, was
recorded for the run at work, or ended that run (`Accepted`, `transition_accepted`).  Everything
later in the development that follows a lifecycle through its inputs is a case analysis on
`Accepted`.

The rest says how each change of a lifecycle keeps it restorable — a run extended, an event
recorded, a run archived, the graph moved on — and ends with `Accepted.restores`.
-/

set_option autoImplicit false
set_option linter.dupNamespace false

open Script

namespace Chopin.Tasks

/-! ## Accepted events can be stored -/

theorem find_id {items : List TaskProgress} {item : TaskProgress} {id : String}
    (h : items[items.findIdx (·.id == id)]? = some item) : item.id = id ∧ item ∈ items := by
  obtain ⟨front, back, hsplit, hid, -, -⟩ := List.findIdx_split h
  exact ⟨by simpa using hid, by simp [hsplit]⟩

variable {live : Bool}

theorem reduceTask_storable {state : ReducerState} {task : Task} {item next : TaskProgress}
    {command : Command} (hid : text command.taskId = true)
    (h : reduceTask state task item command live = .ok next) : command.Storable := by
  cases command with
  | start taskId => exact hid
  | block taskId reason =>
    simp only [reduceTask] at h
    repeat' split at h
    all_goals exact ⟨hid, by simp_all⟩
  | reportPr taskId url reported =>
    simp only [reduceTask] at h
    repeat' split at h
    all_goals exact ⟨hid, by simp_all⟩
  | complete taskId summary noChange =>
    simp only [reduceTask] at h
    repeat' split at h
    all_goals exact ⟨hid, by simp_all, by simp_all⟩
  | reportVerification report => trivial
  | requestRevision reason => cases h

variable {stored : ProgressEvent}

/-- **Whatever the reducer accepts the reader can take back.** -/
theorem reduceEvent_storable {state next : ReducerState} (hids : ∀ item ∈ state.progress, text item.id = true)
    (h : reduceEvent state stored live = .ok next) : stored.command.Storable := by
  have hfinished : ∀ {next}, reduceFinished state stored.command = .ok next →
      stored.command.Storable := by
    intro next h
    unfold reduceFinished at h
    split at h
    · rename_i taskId url reported hcommand
      split at h; · cases h
      rename_i addressed haddressed
      split at h; · cases h
      split at h; · cases h
      rename_i hown
      have hid : addressed.id = taskId := by simpa using List.find?_some haddressed
      rw [hcommand]
      exact ⟨hid ▸ hids _ (List.mem_of_find?_eq_some haddressed),
        ownPullRequest_text (by simpa using hown)⟩
    · cases h
  unfold reduceEvent at h
  split at h
  · cases h
  · exact hfinished h
  · exact hfinished h
  · unfold reduceActive at h
    split at h
    · rename_i reason hcommand
      split at h
      · cases h
      · rename_i htext
        rw [hcommand, Command.Storable]
        simpa using htext
    · rename_i hcommand; rw [hcommand]; trivial
    · simp only at h
      split at h
      · rename_i task item _ hitem
        obtain ⟨updated, hupdated, -⟩ := Except.bind_eq_ok.1 h
        obtain ⟨hid, hmem⟩ := find_id hitem
        exact reduceTask_storable (hid ▸ hids _ hmem) hupdated
      · cases h

variable {run : Run}

/-- The progress of a valid graph's run names its tasks. -/
theorem foldRun_ids_text {definition : Definition} (hvalid : validate definition = .ok definition)
    {events : List ProgressEvent} {state : ReducerState} (h : foldRun definition.tasks run events live = .ok state) :
    ∀ item ∈ state.progress, text item.id = true := by
  intro item hmem
  have hid : item.id ∈ definition.tasks.map Task.id := foldRun_ids h ▸ List.mem_map_of_mem hmem
  obtain ⟨task, htask, heq⟩ := List.mem_map.1 hid
  exact heq ▸ (validate_ok hvalid).2.2 task htask

/-! ## Inverting `transition` -/

/-- What became of an accepted input. -/
inductive Accepted (state : LifecycleState) (input : LifecycleInput) (live : Bool) :
    LifecycleState → Prop
  /-- A late pull-request report of an archived run. -/
  | late {front back : List ArchivedRun} {archived : ArchivedRun} {version : Version}
      {folded reduced : ReducerState}
      (split : state.lifecycle.history = front ++ archived :: back)
      (first : ∀ other ∈ front, other.run.id ≠ input.runId)
      (id : archived.run.id = input.runId)
      (names : versionFor state.graph archived.run = some version)
      (fold : foldRun version.definition.tasks archived.run archived.events archived.live =
        .ok folded)
      (report : ∃ taskId url reported, input.command = .reportPr taskId url reported)
      (reduce : reduceEvent folded (event input) false = .ok reduced)
      (success : reduced.phase.successful = true) :
      Accepted state input live { state with
        lifecycle := { state.lifecycle with
          history := front ++ { archived with events := archived.events ++ [event input] } :: back } }
  /-- Recorded for a run that goes on. -/
  | recorded {run : Run} {version : Version} {folded reduced : ReducerState}
      (execution : state.execution = some run)
      (id : input.runId = run.id)
      (names : activeVersion state.graph run = some version)
      (fold : foldRun version.definition.tasks run (state.lifecycle.events.getD []) false =
        .ok folded)
      (active : folded.phase = .active)
      (reduce : reduceEvent folded (event input) false = .ok reduced)
      (goesOn : reduced.phase = .active)
      (unsettled : live = true → settled reduced = reduced) :
      Accepted state input live { state with
        lifecycle := { state.lifecycle with
          events := some (state.lifecycle.events.getD [] ++ [event input]) } }
  /-- The last event of a run, live when only the live fold ends there. -/
  | ended {run : Run} {version : Version} {folded reduced : ReducerState} {flag : Bool}
      (execution : state.execution = some run)
      (id : input.runId = run.id)
      (names : activeVersion state.graph run = some version)
      (fold : foldRun version.definition.tasks run (state.lifecycle.events.getD []) false =
        .ok folded)
      (active : folded.phase = .active)
      (reduce : reduceEvent folded (event input) false = .ok reduced)
      (finished : if flag = true then live = true ∧ reduced.phase = .active ∧
        (settled reduced).phase ≠ .active else reduced.phase ≠ .active) :
      Accepted state input live
        (released state run (state.lifecycle.events.getD [] ++ [event input]) flag)

variable {state next : LifecycleState} {input : LifecycleInput}

theorem replay_not_accepted : replay state input ≠ some (.accepted next) := by
  rw [replay]
  split
  · simp
  · split <;> simp

/-- **An accepted input had a new key and did one of these things.** -/
theorem transition_accepted (h : transition state input live = .accepted next) :
    text input.runId = true ∧ text input.idempotencyKey = true ∧ replay state input = none ∧
      Accepted state input live next := by
  unfold transition at h
  split at h; · cases h
  rename_i hrun
  split at h; · cases h
  rename_i hkey
  split at h
  · rename_i hreplay
    exact absurd (h ▸ hreplay) replay_not_accepted
  · rename_i hreplay
    refine ⟨by simpa using hrun, by simpa using hkey, hreplay, ?_⟩
    simp only at h
    split at h
    · rename_i archived harchived
      obtain ⟨front, back, hsplit, hid, hfirst, hset⟩ := List.findIdx_split harchived
      unfold transitionArchived at h
      split at h
      · rename_i version hcommand hversion
        split at h; · cases h
        rename_i folded hfold
        split at h; · cases h
        rename_i reduced hreduce
        split at h
        · rename_i hsuccess
          cases h
          rw [hset]
          exact .late hsplit (by simpa using hfirst) (by simpa using hid) hversion hfold
            ⟨_, _, _, hcommand⟩ hreduce hsuccess
        · cases h
      · cases h
    · unfold transitionActive at h
      split at h
      · rename_i run version hexecution hversion
        rw [hexecution, Option.bind_some] at hversion
        split at h; · cases h
        rename_i hid
        simp only at h
        split at h; · cases h
        rename_i folded hfold
        split at h; · cases h
        rename_i hactive
        split at h; · cases h
        rename_i reduced hreduce
        simp only [bne_iff_ne, ne_eq, not_not] at hid hactive
        split at h
        · rename_i hover
          cases h
          exact .ended hexecution hid hversion hfold hactive hreduce
            (by simpa using hover)
        · rename_i hover
          split at h
          · rename_i hsettled
            cases h
            simp only [bne_iff_ne, ne_eq, not_not, Bool.and_eq_true] at hover hsettled
            exact .ended hexecution hid hversion hfold hactive hreduce
              (by simpa using ⟨hsettled.1, hover, hsettled.2⟩)
          · rename_i hsettled
            cases h
            simp only [bne_iff_ne, ne_eq, not_not, Bool.and_eq_true, not_and] at hover hsettled
            exact .recorded hexecution hid hversion hfold hactive hreduce hover
              fun hlive ↦ settled_eq_self (hsettled hlive)
      · cases h

variable {archived : ArchivedRun}

theorem transitionArchived_not_replayed {index : Nat} :
    transitionArchived state input index archived ≠ .replayed next := by
  unfold transitionArchived
  repeat' split
  all_goals simp

theorem transitionActive_not_replayed : transitionActive state input live ≠ .replayed next := by
  unfold transitionActive
  dsimp only
  repeat' split
  all_goals simp

/-- Only replay detection answers a replay, and it leaves the state alone. -/
theorem transition_replayed (h : transition state input live = .replayed next) :
    replay state input = some (.replayed next) ∧ next = state := by
  unfold transition at h
  split at h; · cases h
  split at h; · cases h
  split at h
  · rename_i prior hreplay
    subst h
    refine ⟨hreplay, ?_⟩
    rw [replay] at hreplay
    split at hreplay; · cases hreplay
    split at hreplay <;> simp only [Option.some.injEq, LifecycleResult.replayed.injEq,
      reduceCtorEq] at hreplay
    exact hreplay.symm
  · simp only at h
    split at h
    · exact absurd h transitionArchived_not_replayed
    · exact absurd h transitionActive_not_replayed

/-! ## Keys -/

variable {lifecycle : Lifecycle}

/-- Replay detection sees every recorded event. -/
theorem owned_events {execution : Option Run} (h : ∀ events ∈ lifecycle.events, execution.isSome) :
    (owned execution lifecycle).map Prod.snd = lifecycle.allEvents := by
  have harchived : (lifecycle.history.flatMap fun archived ↦
      archived.events.map (archived.run.id, ·)).map Prod.snd =
        lifecycle.history.flatMap ArchivedRun.events := by
    simp [List.map_flatMap, Function.comp_def]
  unfold owned
  rw [List.map_append, harchived, Lifecycle.allEvents]
  cases execution with
  | some run => simp [Function.comp_def]
  | none =>
    cases hevents : lifecycle.events with
    | none => rfl
    | some events => exact absurd (h events hevents) (by simp)

theorem replay_eq_none : replay state input = none ↔ ∀ item ∈ owned state.execution state.lifecycle,
      item.2.idempotencyKey ≠ input.idempotencyKey := by
  rw [replay]
  split
  · rename_i hfind
    simpa using hfind
  · rename_i runId prior hfind
    have hkey := List.find?_some hfind
    have hmem := List.mem_of_find?_eq_some hfind
    simp only [beq_iff_eq] at hkey
    constructor
    · intro h; split at h <;> cases h
    · intro h; exact absurd hkey (h _ hmem)

variable {graph : Graph}

/-- An input that is no replay has a key of its own. -/
theorem Lifecycle.Restores.fresh {execution : Option Run} (h : lifecycle.Restores graph execution)
    (hreplay : replay ⟨graph, execution, lifecycle⟩ input = none) :
    input.idempotencyKey ∉ lifecycle.allEvents.map ProgressEvent.idempotencyKey := by
  rw [← owned_events fun events hevents ↦ (h.events events hevents).1]
  simpa [List.map_map] using replay_eq_none.1 hreplay

/-! ## Changes that keep a lifecycle restorable -/

/-- Two archived runs are not both successes of one version. -/
def Apart (graph : Graph) (left right : ArchivedRun) : Prop :=
  left.successful graph = true → right.successful graph = true →
    left.run.reference ≠ right.run.reference

theorem Apart.symm {left right : ArchivedRun} (h : Apart graph left right) :
    Apart graph right left := fun hl hr ↦ (h hr hl).symm

variable {history : List ArchivedRun}

theorem once_iff : ((history.filter (·.successful graph)).map (·.run.reference)).Nodup ↔
      history.Pairwise (Apart graph) := by
  rw [List.Nodup, List.pairwise_map, List.pairwise_filter]
  rfl

variable {version : Version}

/-- The version a run may name, as `Run.reference` spells it. -/
theorem matches_reference : «matches» run version = true ↔
    run.reference = (version.number, version.revision, version.planRevision) := by
  simp [«matches», Run.reference, and_assoc]

variable {front back : List ArchivedRun}

theorem pairwise_middle : (front ++ archived :: back).Pairwise (Apart graph) ↔
      (∀ other ∈ front ++ back, Apart graph archived other) ∧ (front ++ back).Pairwise (Apart graph) := by
  rw [List.perm_middle.pairwise_iff Apart.symm, List.pairwise_cons]

/-- What is claimed of the run at work, in terms of the versions named. -/
theorem ExecutionRestores.apart (hwf : graph.Wf)
    (h : ExecutionRestores graph lifecycle run) : ∀ archived ∈ lifecycle.history,
      (archived.successful graph = true → archived.run.reference ≠ run.reference) ∧ archived.run.id ≠ run.id := by
  obtain ⟨version, folded, hversion, -, -, helig⟩ := h
  obtain ⟨hcurrent, -, hmatch⟩ := activeVersion_eq_some.1 hversion
  obtain ⟨hsuccess, hid⟩ := (claimEligibility_eq_none hwf (current_mem hcurrent)).1 helig
  refine fun archived hmem ↦ ⟨fun hs heq ↦ ?_, hid archived hmem⟩
  have hno := hsuccess archived hmem hs
  rw [matches_reference.2 (heq.trans (matches_reference.1 hmatch))] at hno
  cases hno

theorem ExecutionRestores.withHistory (hwf : graph.Wf)
    (h : ExecutionRestores graph lifecycle run) (hhistory : ∀ archived ∈ history,
      (archived.successful graph = true → archived.run.reference ≠ run.reference) ∧ archived.run.id ≠ run.id) :
    ExecutionRestores graph { lifecycle with history } run := by
  obtain ⟨version, folded, hversion, hfold, hphase, -⟩ := h
  obtain ⟨hcurrent, -, hmatch⟩ := activeVersion_eq_some.1 hversion
  refine ⟨version, folded, hversion, hfold, hphase,
    (claimEligibility_eq_none hwf (current_mem hcurrent)).2 ⟨fun archived hmem hs ↦ ?_,
      fun archived hmem ↦ (hhistory archived hmem).2⟩⟩
  rw [Bool.eq_false_iff, ne_eq, matches_reference, ← matches_reference.1 hmatch]
  exact (hhistory archived hmem).1 hs

variable {events : Option (List ProgressEvent)}

/-- An archived run may be replaced by one with other events: a second success of its version is
all that could be wrong. -/
theorem Lifecycle.Restores.replace (hwf : graph.Wf) {execution : Option Run} {next : ArchivedRun}
    (h : Lifecycle.Restores graph execution ⟨events, front ++ archived :: back⟩) (hrun : next.run = archived.run)
    (hnext : next.Restores graph) (hkeys : ((Lifecycle.mk events (front ++ next :: back)).allEvents.map
      ProgressEvent.idempotencyKey).Nodup) (honce : next.successful graph = true →
      (∀ other ∈ front ++ back, other.successful graph = true → other.run.reference ≠ archived.run.reference) ∧
      ∀ run ∈ execution, run.reference ≠ archived.run.reference) :
    Lifecycle.Restores graph execution ⟨events, front ++ next :: back⟩ := by
  have hothers : ∀ other ∈ front ++ back, other ∈ front ++ archived :: back := fun other hmem ↦
    List.perm_middle.mem_iff.2 (List.mem_cons_of_mem _ hmem)
  have hmember : ∀ other ∈ front ++ next :: back, other = next ∨ other ∈ front ++ back :=
    fun other hmem ↦ List.mem_cons.1 (List.perm_middle.mem_iff.1 hmem)
  refine ⟨fun other hmem ↦ ?_, h.events, h.locked, fun run hexecution ↦ ?_, ?_, hkeys, ?_⟩
  · rcases hmember other hmem with rfl | hmem
    · exact hnext
    · exact h.archived other (hothers other hmem)
  · refine (h.execution run hexecution).withHistory hwf fun other hmem ↦ ?_
    have hapart := (h.execution run hexecution).apart hwf
    rcases hmember other hmem with rfl | hmem
    · refine ⟨fun hs ↦ ?_, ?_⟩
      · rw [hrun]; exact ((honce hs).2 run hexecution).symm
      · rw [hrun]; exact (hapart archived (by simp)).2
    · exact hapart other (hothers other hmem)
  · have hids := h.runs
    simp only [List.map_append, List.map_cons, hrun] at hids ⊢
    exact hids
  · rw [once_iff, pairwise_middle]
    refine ⟨fun other hmem hs hs' heq ↦ ?_, (pairwise_middle.1 (once_iff.1 h.once)).2⟩
    exact (honce hs).1 other hmem hs' (heq.symm.trans (congrArg Run.reference hrun))

theorem ArchivedRun.Restores.regraph {next : Graph}
    (h : archived.Restores graph) (hsame : archived.folded next = archived.folded graph) : archived.Restores next :=
  ⟨h.valid, h.events, h.storable, by rw [hsame]; exact h.finished⟩

theorem Apart.regraph {next : Graph} (hsame : ∀ archived ∈ history, archived.folded next = archived.folded graph)
    (h : history.Pairwise (Apart graph)) : history.Pairwise (Apart next) := by
  refine h.imp_of_mem fun {left right} hl hr hapart hs hs' ↦ ?_
  rw [ArchivedRun.successful, hsame _ hl] at hs
  rw [ArchivedRun.successful, hsame _ hr] at hs'
  exact hapart hs hs'

/-- While no run is at work the graph may move on under the history. -/
theorem Lifecycle.Restores.regraph {next : Graph} (h : lifecycle.Restores graph none)
    (hsame : ∀ archived ∈ lifecycle.history, archived.folded next = archived.folded graph)
    (hlocked : ∃ latest, current next = some latest ∧ latest.state ≠ .locked) : lifecycle.Restores next none := by
  obtain ⟨latest, hlatest, hstate⟩ := hlocked
  refine ⟨fun archived hmem ↦ (h.archived archived hmem).regraph (hsame archived hmem), h.events,
    ⟨latest, hlatest, by simpa using hstate⟩, by simp, h.runs, h.keys, ?_⟩
  exact once_iff.2 (Apart.regraph hsame (once_iff.1 h.once))

/-- A run that is over, under an id of its own, may join the history. -/
theorem Lifecycle.Restores.archive {next : Graph} {execution : Option Run} (h : lifecycle.Restores graph execution)
    (hsame : ∀ other ∈ lifecycle.history, other.folded next = other.folded graph) (hnext : archived.Restores next)
    (hapart : ∀ other ∈ lifecycle.history,
      (other.successful graph = true → other.run.reference ≠ archived.run.reference) ∧
        other.run.id ≠ archived.run.id) (hkeys : ((Lifecycle.mk none (lifecycle.history ++ [archived])).allEvents.map
      ProgressEvent.idempotencyKey).Nodup) (hlocked : ∃ latest, current next = some latest ∧ latest.state ≠ .locked) :
    Lifecycle.Restores next none ⟨none, lifecycle.history ++ [archived]⟩ := by
  obtain ⟨latest, hlatest, hstate⟩ := hlocked
  refine ⟨fun other hmem ↦ ?_, by simp, ⟨latest, hlatest, by simpa using hstate⟩, by simp, ?_,
    hkeys, ?_⟩
  · rcases List.mem_append.1 hmem with hmem | hmem
    · exact (h.archived other hmem).regraph (hsame other hmem)
    · exact List.mem_singleton.1 hmem ▸ hnext
  · rw [List.map_append, List.map_singleton, List.nodup_append]
    refine ⟨h.runs, by simp, fun id hid last hlast ↦ ?_⟩
    obtain ⟨other, hother, rfl⟩ := List.mem_map.1 hid
    exact List.mem_singleton.1 hlast ▸ (hapart other hother).2
  · rw [once_iff, List.pairwise_append]
    refine ⟨Apart.regraph hsame (once_iff.1 h.once), List.pairwise_singleton _ _,
      fun other hother last hlast hs _ ↦ ?_⟩
    rw [ArchivedRun.successful, hsame other hother] at hs
    exact List.mem_singleton.1 hlast ▸ (hapart other hother).1 hs

theorem Lifecycle.Restores.storable {execution : Option Run} (h : lifecycle.Restores graph execution) :
    ∀ event ∈ lifecycle.events.getD [], event.Storable := by
  cases hevents : lifecycle.events with
  | none => simp
  | some events => exact (h.events events hevents).2.2

/-- One more event of the run at work, which stays active. -/
theorem Lifecycle.Restores.record {folded : ReducerState} (h : lifecycle.Restores graph (some run))
    (hversion : activeVersion graph run = some version)
    (hfold : foldRun version.definition.tasks run (lifecycle.events.getD [] ++ [stored]) false =
      .ok folded) (hphase : folded.phase = .active) (hstored : stored.Storable)
    (hkeys : ((Lifecycle.mk (some (lifecycle.events.getD [] ++ [stored])) lifecycle.history).allEvents.map
      ProgressEvent.idempotencyKey).Nodup) : Lifecycle.Restores graph (some run)
      { lifecycle with events := some (lifecycle.events.getD [] ++ [stored]) } := by
  refine ⟨h.archived, ?_, h.locked, ?_, h.runs, hkeys, h.once⟩
  · rintro _ ⟨⟩
    refine ⟨rfl, by simp, fun event hmem ↦ ?_⟩
    rcases List.mem_append.1 hmem with hmem | hmem
    · exact h.storable event hmem
    · exact List.mem_singleton.1 hmem ▸ hstored
  · rintro _ ⟨⟩
    obtain ⟨version', _, hversion', -, -, helig⟩ := h.execution run rfl
    obtain rfl := Option.mem_unique hversion hversion'
    exact ⟨version, folded, hversion, hfold, hphase, helig⟩

/-- An eligible run takes the version it names. -/
theorem Lifecycle.Restores.claim {prior : List Version} {latest : Version}
    (h : lifecycle.Restores ⟨prior ++ [latest]⟩ none) (hsame : ∀ archived ∈ lifecycle.history, archived.folded
      ⟨prior ++ [{ latest with state := .locked }]⟩ = archived.folded ⟨prior ++ [latest]⟩)
    (hmatch : «matches» run latest = true) (helig : claimEligibility lifecycle latest run.id = none) :
    lifecycle.Restores ⟨prior ++ [{ latest with state := .locked }]⟩ (some run) := by
  have hevents : lifecycle.events = none :=
    Option.eq_none_iff_forall_not_mem.2 fun events hmem ↦ by simpa using (h.events events hmem).1
  refine ⟨fun archived hmem ↦ (h.archived archived hmem).regraph (hsame archived hmem), ?_,
    ⟨_, current_mk_concat _ _, by simp⟩, ?_, h.runs, h.keys,
    once_iff.2 (Apart.regraph hsame (once_iff.1 h.once))⟩
  · simp [hevents]
  · rintro _ ⟨⟩
    refine ⟨{ latest with state := .locked }, initial latest.definition.tasks run, ?_, ?_, rfl, helig⟩
    · exact activeVersion_eq_some.2 ⟨current_mk_concat _ _, rfl, hmatch⟩
    · rw [hevents]; rfl

/-! ## Versions under a change of state -/

theorem ArchivedRun.folded_congr {next : Graph} (h : (versionFor next archived.run).map Version.definition =
      (versionFor graph archived.run).map Version.definition) : archived.folded next = archived.folded graph := by
  rw [ArchivedRun.folded, ArchivedRun.folded]
  cases hn : versionFor next archived.run <;> cases hg : versionFor graph archived.run <;>
    simp_all

theorem ArchivedRun.folded_eq {definition : Definition} {folded : ReducerState}
    (hversion : (versionFor graph archived.run).map Version.definition = some definition)
    (hfold : foldRun definition.tasks archived.run archived.events archived.live = .ok folded) :
    archived.folded graph = some folded := by
  obtain ⟨version, hnames, rfl⟩ := Option.map_eq_some_iff.1 hversion
  rw [ArchivedRun.folded, hnames, Option.some_then, hfold,
    Except.toOption_ok]

/-- Locking or releasing the last version does not change what runs name. -/
theorem versionFor_withState (prior : List Version) (latest : Version) (state : State) (run : Run) :
    (versionFor ⟨prior ++ [{ latest with state }]⟩ run).map Version.definition =
      (versionFor ⟨prior ++ [latest]⟩ run).map Version.definition := by
  have hmatch : «matches» run { latest with state } = «matches» run latest := rfl
  simp only [versionFor, List.find?_append, List.find?_singleton, hmatch]
  cases List.find? («matches» run) prior <;> cases «matches» run latest <;> rfl

/-! ## Accepted inputs -/

theorem allEvents_extend (added : List ProgressEvent) :
    (Lifecycle.mk events (front ++ { archived with events := archived.events ++ added } ::
      back)).allEvents.Perm
        (added ++ (Lifecycle.mk events (front ++ archived :: back)).allEvents) := by
  refine List.perm_iff_count.2 fun event ↦ ?_
  simp only [Lifecycle.allEvents, List.flatMap_append, List.flatMap_cons, List.count_append]
  omega

/-- Exactly the input's event is new. -/
theorem Accepted.allEvents (haccepted : Accepted state input live next) :
    next.lifecycle.allEvents.Perm (event input :: state.lifecycle.allEvents) := by
  cases haccepted with
  | @late front back archived _ _ _ hsplit =>
    obtain ⟨graph, execution, events, history⟩ := state
    simp only at hsplit
    subst hsplit
    exact allEvents_extend [event input]
  | recorded =>
    simp only [Lifecycle.allEvents, Option.getD_some, List.append_assoc, List.singleton_append]
    exact List.perm_middle
  | ended =>
    refine List.perm_iff_count.2 fun stored ↦ ?_
    simp only [released, Lifecycle.allEvents, Option.getD_none, List.nil_append, List.flatMap_append,
      List.flatMap_cons, List.flatMap_nil, List.append_nil, List.count_append, List.count_cons,
      List.count_nil]
    omega

/-- Every recorded event of a lifecycle has a key of its own. -/
def Lifecycle.Keyed (lifecycle : Lifecycle) : Prop :=
  (lifecycle.allEvents.map ProgressEvent.idempotencyKey).Nodup

/-- A new event keeps the keys distinct. -/
theorem Accepted.keys (hkeys : state.lifecycle.Keyed)
    (hfresh : input.idempotencyKey ∉ state.lifecycle.allEvents.map ProgressEvent.idempotencyKey)
    (haccepted : Accepted state input live next) : next.lifecycle.Keyed := by
  rw [Lifecycle.Keyed, (haccepted.allEvents.map _).nodup_iff, List.map_cons]
  exact List.nodup_cons.2 ⟨hfresh, hkeys⟩

theorem Phase.successful_of_reduces {state next : ReducerState} (hphase : state.phase ≠ .active)
    (h : reduceEvent state stored live = .ok next) : state.phase.successful = true := by
  unfold reduceEvent at h
  split at h
  · cases h
  · rename_i hp; rw [hp]; rfl
  · rename_i hp; rw [hp]; rfl
  · rename_i hp; exact absurd hp hphase

/-- **An accepted input keeps a lifecycle restorable.**  A live input may only meet a run at work
whose log comes to the same in the live fold. -/
theorem Accepted.restores (hwf : state.graph.Wf) (h : state.lifecycle.Restores state.graph state.execution)
    (hvalid : ∀ run ∈ state.execution, run.valid = true) (hkey : text input.idempotencyKey = true)
    (hreplay : replay state input = none)
    (hlive : live = true → ∀ run ∈ state.execution, ∀ version ∈ activeVersion state.graph run,
      foldRun version.definition.tasks run (state.lifecycle.events.getD []) true =
        foldRun version.definition.tasks run (state.lifecycle.events.getD []) false)
    (haccepted : Accepted state input live next) : next.lifecycle.Restores next.graph next.execution := by
  obtain ⟨graph, execution, lifecycle⟩ := state
  have hkeys := haccepted.keys h.keys (h.fresh hreplay)
  cases haccepted with
  | @late front back archived version folded reduced hsplit _ hid hversion hfold _ hreduce hsuccess =>
    obtain ⟨events, history⟩ := lifecycle
    simp only at *
    subst hsplit
    have harchived := h.archived archived (by simp)
    have hfolded : archived.folded graph = some folded :=
      ArchivedRun.folded_eq (by rw [hversion]; rfl) hfold
    have hphase : folded.phase ≠ .active := by
      obtain ⟨_, heq, hphase⟩ := harchived.finished
      rwa [Option.mem_unique hfolded heq]
    have hprior : archived.successful graph = true := by
      rw [ArchivedRun.successful, hfolded]
      exact Phase.successful_of_reduces hphase hreduce
    refine h.replace hwf rfl ⟨harchived.valid, by simp, fun event hmem ↦ ?_, reduced, ?_, ?_⟩ hkeys
      fun _ ↦ ⟨fun other hmem hs ↦ ?_, fun run hrun ↦ ?_⟩
    · rcases List.mem_append.1 hmem with hmem | hmem
      · exact harchived.storable event hmem
      · rw [List.mem_singleton.1 hmem]
        have hdef := (hwf.versions version (versionFor_mem hversion).1).2
        exact ⟨hkey, reduceEvent_storable (foldRun_ids_text hdef hfold) hreduce⟩
    · exact ArchivedRun.folded_eq (by rw [hversion]; rfl) (foldRun_finished_snoc hfold hphase hreduce)
    · exact Phase.ne_active hsuccess
    · exact ((pairwise_middle.1 (once_iff.1 h.once)).1 other hmem hprior hs).symm
    · exact (((h.execution run hrun).apart hwf archived (by simp)).1 hprior).symm
  | @recorded run version folded reduced hexecution hid hversion hfold hactive hreduce hgoesOn _ =>
    simp only at *
    subst hexecution
    have hdef := (hwf.versions version (current_mem (activeVersion_eq_some.1 hversion).1)).2
    exact h.record hversion (foldRun_snoc_ok hfold hreduce) hgoesOn
      ⟨hkey, reduceEvent_storable (foldRun_ids_text hdef hfold) hreduce⟩ hkeys
  | @ended run version folded reduced flag hexecution hid hversion hfold hactive hreduce hover =>
    simp only [released] at *
    subst hexecution
    obtain ⟨hcurrent, -, hmatch⟩ := activeVersion_eq_some.1 hversion
    have hdef := (hwf.versions version (current_mem hcurrent)).2
    have hnames := versionFor_eq hwf (current_mem hcurrent) hmatch
    obtain ⟨prior, rfl⟩ := current_eq_some.1 hcurrent
    rw [unlock_mk_concat]
    refine h.archive (fun other _ ↦ ArchivedRun.folded_congr (versionFor_withState ..))
      ⟨hvalid run rfl, by simp, fun stored hmem ↦ ?_, ?_⟩ ((h.execution run rfl).apart hwf) hkeys
      ⟨_, current_mk_concat _ _, by simp⟩
    · rcases List.mem_append.1 hmem with hmem | hmem
      · exact h.storable stored hmem
      · rw [List.mem_singleton.1 hmem]
        exact ⟨hkey, reduceEvent_storable (foldRun_ids_text hdef hfold) hreduce⟩
    · have hdefinition : (versionFor ⟨prior ++ [{ version with state := .approved }]⟩ run).map
          Version.definition = some version.definition := by
        rw [versionFor_withState, hnames]; rfl
      cases flag with
      | true =>
        have hlivefold := (hlive hover.1 run rfl version hversion).trans hfold
        exact ⟨_, ArchivedRun.folded_eq hdefinition (foldRun_live_snoc hlivefold hreduce), hover.2.2⟩
      | false =>
        exact ⟨_, ArchivedRun.folded_eq hdefinition (foldRun_snoc_ok hfold hreduce), by simpa using hover⟩

/-- The graph stays well formed; only the last version's state may change. -/
theorem Accepted.wf (hwf : state.graph.Wf) (haccepted : Accepted state input live next) : next.graph.Wf := by
  cases haccepted with
  | late => exact hwf
  | recorded => exact hwf
  | ended _ _ hversion =>
    obtain ⟨hcurrent, hlocked, -⟩ := activeVersion_eq_some.1 hversion
    obtain ⟨prior, hgraph⟩ := current_eq_some.1 hcurrent
    simp only [released, hgraph, unlock_mk_concat] at hwf ⊢
    exact hwf.withState (by simp [hlocked]) (.inl rfl)

theorem Accepted.planRevision (haccepted : Accepted state input live next) :
    (current next.graph).map Version.planRevision = (current state.graph).map Version.planRevision := by
  cases haccepted with
  | late => rfl
  | recorded => rfl
  | ended _ _ hversion =>
    obtain ⟨prior, hgraph⟩ := current_eq_some.1 (activeVersion_eq_some.1 hversion).1
    simp only [released, hgraph, unlock_mk_concat, current_mk_concat, Option.map_some]

theorem Accepted.kept (haccepted : Accepted state input live next) : state.graph.Kept next.graph := by
  cases haccepted with
  | late => exact .refl _
  | recorded => exact .refl _
  | ended _ _ hversion =>
    obtain ⟨prior, hgraph⟩ := current_eq_some.1 (activeVersion_eq_some.1 hversion).1
    simp only [released, hgraph, unlock_mk_concat]
    exact .withState (by simp)

/-- The runs in the history keep naming versions past their draft. -/
theorem Accepted.held
    (h : ∀ archived ∈ state.lifecycle.history, ∃ definition, state.graph.Holds archived.run definition)
    (haccepted : Accepted state input live next) :
    ∀ archived ∈ next.lifecycle.history, ∃ definition, next.graph.Holds archived.run definition := by
  have hkept : ∀ archived ∈ state.lifecycle.history,
      ∃ definition, next.graph.Holds archived.run definition := fun archived hmem ↦
    (h archived hmem).imp fun definition ↦ haccepted.kept archived.run definition
  cases haccepted with
  | @late front back archived _ _ _ hsplit =>
    intro other hmem
    rw [hsplit] at hkept
    rcases List.mem_cons.1 (List.perm_middle.mem_iff.1 hmem) with rfl | hmem
    · exact hkept archived (by simp)
    · exact hkept other (List.perm_middle.mem_iff.2 (List.mem_cons_of_mem _ hmem))
  | recorded => exact hkept
  | @ended run version _ _ _ _ _ hversion =>
    intro other hmem
    rcases List.mem_append.1 hmem with hmem | hmem
    · exact hkept other hmem
    · rw [List.mem_singleton.1 hmem]
      obtain ⟨hcurrent, hlocked, hmatch⟩ := activeVersion_eq_some.1 hversion
      obtain ⟨prior, hgraph⟩ := current_eq_some.1 hcurrent
      simp only [released, hgraph, unlock_mk_concat]
      exact ⟨version.definition, { version with state := .approved }, by simp, hmatch, by simp, rfl⟩

theorem Accepted.execution (haccepted : Accepted state input live next) :
    ∀ run ∈ next.execution, state.execution = some run := by
  cases haccepted with
  | late => exact fun _ h ↦ h
  | recorded => exact fun _ h ↦ h
  | ended => intro run h; cases h

/-- The log of a live run at work comes to the same in both folds, as long as no report that is not
live completes the run. -/
theorem Accepted.liveLog (h : ∀ run ∈ state.execution, ∀ version ∈ activeVersion state.graph run,
      foldRun version.definition.tasks run (state.lifecycle.events.getD []) true =
        foldRun version.definition.tasks run (state.lifecycle.events.getD []) false)
    (hunsettled : live = false → ∀ run ∈ state.execution, input.runId = run.id →
      ∀ version ∈ activeVersion state.graph run, ∀ reduced,
        foldRun version.definition.tasks run (state.lifecycle.events.getD [] ++ [event input]) false =
          .ok reduced → reduced.phase = .active → settled reduced = reduced)
    (haccepted : Accepted state input live next) : ∀ run ∈ next.execution, ∀ version ∈ activeVersion next.graph run,
      foldRun version.definition.tasks run (next.lifecycle.events.getD []) true =
        foldRun version.definition.tasks run (next.lifecycle.events.getD []) false := by
  cases haccepted with
  | late => exact h
  | @recorded run version folded reduced hexecution hid hversion hfold _ hreduce hgoesOn hsettled =>
    intro other hother version' hversion'
    obtain rfl := Option.mem_unique hexecution hother
    obtain rfl := Option.mem_unique hversion hversion'
    have hlive := (h run hexecution version hversion).trans hfold
    have hsnoc := foldRun_snoc_ok hfold hreduce
    have hsame : settled reduced = reduced := by
      cases hflag : live with
      | true => exact hsettled hflag
      | false => exact hunsettled hflag run hexecution hid version hversion reduced hsnoc hgoesOn
    rw [Option.getD_some, foldRun_live_snoc hlive hreduce, hsame, hsnoc]
  | ended => intro run hrun; cases hrun

end Chopin.Tasks
