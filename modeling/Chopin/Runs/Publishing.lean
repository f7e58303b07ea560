import Mathlib.Data.List.Sort
import Chopin.Lib.Keyed
import Chopin.Lib.Runs
import Chopin.Runs.Cards

/-!
# Publishing runs

Planner sessions of one chat report the cards of their runs, and each report is published after the ones before it:
the stages of its cards are stored, the cards are merged with those shown and stored with the document, and each run
that ended is told once in the transcript.  Any of these writes may fail.  A card belongs to the session that reported
it last.  A publication reads whom the cards belong to before its first write, and a session is released once its own
reports are published, so a publication is one step.

What is stored for a run is compared with what this process believes to be stored, so that only the difference is
written: `storeStages` keeps the belief, and `forgetStages` drops it with the stages of runs that are not shown any
more.
-/

set_option autoImplicit false
set_option linter.dupNamespace false

open Entries

namespace Chopin.Runs

/-! ## Stored stages -/

/-- `PutRunStages`, of one document. -/
structure PutRunStages where
  runId : String
  stages : List RunStage
  replace : Bool
  deriving DecidableEq

/-- The stages of each run, by their ids in the order they were added. -/
abbrev StageStore := List (String × List RunStage)

/-- `put` -/
def StageStore.put (store : StageStore) (input : PutRunStages) : StageStore :=
  let run := if input.replace then [] else (get store input.runId).getD []
  set store input.runId (puts RunStage.id run input.stages)

/-- `list`, with the number of stages there are. -/
def StageStore.list (store : StageStore) (runId : String) (offset limit : Nat) : List RunStage × Nat :=
  let run := (get store runId).getD []
  ((run.drop offset).take limit, run.length)

/-- `retain` -/
def StageStore.retain (store : StageStore) (runIds : List String) : StageStore :=
  store.filter fun entry ↦ runIds.contains entry.1

/-- What is believed to be stored for a run: its stage ids in order, and each stage; their JSON says whether two
stages are the same. -/
structure Belief where
  ids : List String
  json : List RunStage
  deriving DecidableEq

/-- What is stored, and what is believed to be. -/
structure Stored where
  known : List (String × Belief) := []
  store : StageStore := []
  deriving DecidableEq

/-- A write of the stages of one card. -/
structure Write where
  card : String
  belief : Belief
  put : PutRunStages
  deriving DecidableEq

/-- The belief holds once the stages of a card are stored. -/
def beliefOf (card : Run) : Belief where
  ids := card.stages.map RunStage.id
  json := collect RunStage.id card.stages

/-- The stages of a card only add to what is believed to be stored. -/
def appends (before : Belief) (card : Run) : Bool :=
  before.ids.isPrefixOf (beliefOf card).ids && (beliefOf card).json.length == (beliefOf card).ids.length

/-- The write that a card needs, if it does. -/
def writeOf (known : List (String × Belief)) (card : Run) : Option Write :=
  match get known card.id with
  | none =>
    if card.stages.length ≤ cardStages && card.earlier = 0 then none
    else some ⟨card.id, beliefOf card, ⟨card.id, card.stages, true⟩⟩
  | some before =>
    if appends before card then
      let stages := card.stages.filter fun stage ↦
        decide (before.json.find? (·.id == stage.id) ≠ some stage)
      if stages.isEmpty then none else some ⟨card.id, beliefOf card, ⟨card.id, stages, false⟩⟩
    else some ⟨card.id, beliefOf card, ⟨card.id, card.stages, true⟩⟩

/-- The writes, one after the other, up to one that fails; a write that fails leaves the store as it is. -/
def runWrites : Stored → List Write → Option Nat → Stored × Bool
  | stored, [], _ => (stored, true)
  | stored, _ :: _, some 0 => (stored, false)
  | stored, write :: rest, failing =>
    runWrites { known := set stored.known write.card write.belief, store := stored.store.put write.put } rest
      (failing.map (· - 1))

/-- `storeStages`: what each card needs is worked out before the first write. -/
def storeStages (stored : Stored) (cards : List Run) (failing : Option Nat) : Stored × Bool :=
  runWrites stored (cards.filterMap (writeOf stored.known)) failing

/-- `forgetStages`: the belief goes first, and the stages stay where they cannot be removed. -/
def forgetStages (stored : Stored) (shown : List Run) (retains : Bool) : Stored where
  known := stored.known.filter fun entry ↦ (shown.map Run.id).contains entry.1
  store := if retains then stored.store.retain (shown.map Run.id) else stored.store

/-- The pages of a run's stored stages, read one after the other, within so many of them. -/
def loadStages (store : StageStore) (runId : String) (limit : Nat) : Nat → List RunStage → Option (List RunStage)
  | 0, _ => none
  | steps + 1, stages =>
    let (page, total) := store.list runId stages.length limit
    let loaded := stages ++ page
    if page.isEmpty || total ≤ loaded.length then some loaded else loadStages store runId limit steps loaded

/-- The stages that are listed of a card once it is expanded: those loaded, and the card's, which are newer. -/
def stageWindow (loaded : List RunStage) (run : Run) : List RunStage :=
  puts RunStage.id (collect RunStage.id loaded) run.stages

/-! ## A publication -/

/-- A Planner session. -/
abbrev Session := Nat

/-- A report that waits to be published, with its cards if it has them; a release reports what is unsaved. -/
structure Report where
  session : Session
  runs : Option (List Run)
  releasing : Bool
  followUp : Bool
  deriving DecidableEq

/-- The cards of a report. -/
def Report.cards (report : Report) : List Run := report.runs.getD []

/-- What a publication meets with: the time, whether the session is suspended, the write of stages that fails, and
whether the document and the stages to keep can be stored. -/
structure Moment where
  now : Nat
  suspended : Bool := false
  failing : Option Nat := none
  persists : Bool := true
  retains : Bool := true
  deriving DecidableEq

/-- An end that is told in the transcript, on its own or before the turn that follows it up. -/
structure Ending where
  run : Run
  followedUp : Bool
  deriving DecidableEq

/-- A chat; of its transcript only the ends that are told in it. -/
structure Chat where
  runs : Option (List Run) := none
  entries : List Ending := []
  owners : List (String × Session) := []
  gone : List Session := []
  unsaved : List (Session × List Run) := []
  publishing : List Report := []
  stored : Stored := {}
  deriving DecidableEq

/-- `chat.runs ?? []` -/
def Chat.prior (chat : Chat) : List Run := chat.runs.getD []

/-- `before.get(id)`: the status of the last card with this id. -/
def before (prior : List Run) (id : String) : Option RunStatus :=
  (prior.reverse.find? (·.id == id)).map Run.status

/-- The run ended in the transcript's eyes. -/
def endedBefore (prior : List Run) (id : String) : Bool := (before prior id).any RunStatus.ended

def Chat.theirs (chat : Chat) (session : Session) (run : Run) : Bool :=
  match get chat.owners run.id with
  | none => false
  | some holder => holder != session && !chat.gone.contains holder

def Chat.others (chat : Chat) (session : Session) : List Run := chat.prior.filter (chat.theirs session)

def Chat.mine (chat : Chat) (session : Session) (now : Nat) : List Run :=
  (chat.prior.filter fun run ↦ !chat.theirs session run).map fun run ↦
    if get chat.owners run.id = some session ∨ run.status.ended = true then run else stopped run now

/-- A run reported finished without its end has just started. -/
def begun (reported : Run) : Run :=
  if reported.status = .finished ∧ reported.ended = none then
    { reported with status := if 0 < reported.waiting then .waiting else .running }
  else reported

/-- The card that is shown of a run that is reported without stages, if it shows some. -/
def keptFrom (prior : List Run) (reported : Run) : Option Run :=
  if reported.stages.isEmpty then
    (prior.find? (·.id == reported.id)).filter fun shown ↦ !(shown.stages.isEmpty && shown.earlier == 0)
  else none

/-- A card as it comes in. -/
def incomingCard (prior : List Run) (reported : Run) : Run :=
  match keptFrom prior reported with
  | none => begun reported
  | some shown =>
    { begun reported with
      stages := shown.stages
      earlierStages := if shown.earlier = 0 then none else shown.earlierStages }

/-- The session's cards after the report. -/
def Chat.own (chat : Chat) (report : Report) (moment : Moment) : List Run :=
  let down := !report.releasing && moment.suspended
  let own := (mergeRuns (chat.mine report.session moment.now)
      (report.runs.map (List.map (incomingCard chat.prior))) moment.now).map fun run ↦
    disconnected run (down && get chat.owners run.id == some report.session)
  if report.releasing then mergeRuns own none moment.now else own

/-- A new run is reported. -/
def Chat.fresh (chat : Chat) (report : Report) : Bool :=
  report.cards.any fun run ↦ !(chat.prior.map Run.id).contains run.id

/-- `position(run)` -/
def position (prior : List Run) (run : Run) : Nat := prior.findIdx (·.id == run.id)

def Chat.cards (chat : Chat) (report : Report) (moment : Moment) : List Run :=
  ((chat.others report.session).filter (fun run ↦ !(chat.fresh report && run.status.ended)) ++
    chat.own report moment).insertionSort fun a b ↦ position chat.prior a ≤ position chat.prior b

/-- The session's cards that the report's replace. -/
def Chat.replaced (chat : Chat) (report : Report) (moment : Moment) : List Run :=
  (chat.mine report.session moment.now).filter fun run ↦
    !((chat.cards report moment).map Run.id).contains run.id

/-- The runs that the publication ends. -/
def Chat.ending (chat : Chat) (report : Report) (moment : Moment) : List Run :=
  (chat.cards report moment ++ chat.replaced report moment).filter fun run ↦
    run.status.ended && !endedBefore chat.prior run.id

/-- The end of a run is followed up. -/
def Chat.attends (chat : Chat) (report : Report) (run : Run) : Bool :=
  report.followUp && !report.releasing && run.status.needsFollowUp && get chat.owners run.id == some report.session

/-- What is said of a run that ended. -/
def Ending.text (ending : Ending) : String :=
  let run := ending.run
  let ended := run.status.endedRun.getD ""
  let duration := runDuration ((run.ended.getD run.updated : Int) - run.started)
  s!"{run.name} {ended} after {duration}."

/-- `next` -/
def Chat.next (chat : Chat) (report : Report) (moment : Moment) : Option (List Run) :=
  let cards := chat.cards report moment
  if cards.isEmpty then none else some (cards.map cardWindow)

/-- The cards of a report whose stages are stored. -/
def Chat.storable (chat : Chat) (report : Report) : List Run :=
  let kept := (report.cards.filter fun card ↦ (keptFrom chat.prior card).isSome).map Run.id
  report.cards.filter fun card ↦ !kept.contains card.id

/-- `unsaved`, after a publication that failed. -/
def Chat.keepUnsaved (chat : Chat) (report : Report) : List (Session × List Run) :=
  match report.runs with
  | some cards => if report.releasing then delete chat.unsaved report.session else set chat.unsaved report.session cards
  | none => delete chat.unsaved report.session

def Chat.publishReport (chat : Chat) (report : Report) (moment : Moment) : Chat :=
  let (stored, storing) := storeStages chat.stored (chat.storable report) moment.failing
  if storing && moment.persists then
    let next := chat.next report moment
    let ending := chat.ending report moment
    let cards := chat.cards report moment
    let finished := (ending.filter fun run ↦ !chat.attends report run).map (⟨·, false⟩)
    let attention := (ending.filter fun run ↦ chat.attends report run).map (⟨·, true⟩)
    { chat with
      runs := next
      entries := chat.entries ++ finished ++ attention
      unsaved := delete chat.unsaved report.session
      stored :=
        if chat.prior.any fun run ↦ !(cards.map Run.id).contains run.id then
          forgetStages stored (next.getD []) moment.retains
        else stored }
  else { chat with unsaved := chat.keepUnsaved report, stored }

/-! ## Reports and publications, in any order -/

inductive Act where
  /-- `publishRuns`: the session holds the cards that it reports, and the report waits for those before it. -/
  | report (session : Session) (cards : Option (List Run)) (followUp : Bool)
  /-- The release of a session reports what could not be saved of it. -/
  | release (session : Session)
  /-- The next report is published. -/
  | publish (moment : Moment)
  /-- A session that was released is gone. -/
  | leave (session : Session)
  deriving DecidableEq

/-- `restore`: a chat that comes back with what was stored. -/
def restore (runs : Option (List Run)) (entries : List Ending) (now : Nat) (store : StageStore) : Chat :=
  { runs := restoreRuns runs now, entries, stored := { store } }

/-- `publishRuns` -/
def Chat.publishRuns (chat : Chat) (report : Report) : Chat :=
  { chat with
    owners := report.cards.foldl (fun owners run ↦ set owners run.id report.session) chat.owners
    publishing := chat.publishing ++ [report] }

def step (chat : Chat) : Act → Option Chat
  | .report session cards followUp => some (chat.publishRuns ⟨session, cards, false, followUp⟩)
  | .release session => some (chat.publishRuns ⟨session, get chat.unsaved session, true, false⟩)
  | .publish moment =>
    match chat.publishing with
    | [] => none
    | report :: rest => some ({ chat with publishing := rest }.publishReport report moment)
  | .leave session => some { chat with gone := chat.gone ++ [session] }

/-! ## What a publication comes to -/

variable {chat : Chat} {report : Report} {moment : Moment} {card : Run}

/-- All that the publication writes is written. -/
def Chat.succeeds (chat : Chat) (report : Report) (moment : Moment) : Bool :=
  (storeStages chat.stored (chat.storable report) moment.failing).2 && moment.persists

theorem runs_publishReport : (chat.publishReport report moment).runs =
    if chat.succeeds report moment then chat.next report moment else chat.runs := by
  rw [Chat.publishReport, Chat.succeeds]
  simp only
  split <;> rfl

theorem prior_publishReport : (chat.publishReport report moment).prior =
    if chat.succeeds report moment then (chat.cards report moment).map cardWindow else chat.prior := by
  rw [Chat.prior, runs_publishReport]
  split
  · rw [Chat.next]
    split
    · rename_i hempty
      rw [List.isEmpty_iff.1 hempty]
      rfl
    · rfl
  · rfl

/-- Each end is told once, on its own or before the turn that follows it up. -/
theorem entries_publishReport (chat : Chat) (report : Report) (moment : Moment) :
    ((chat.publishReport report moment).entries.map Ending.run).Perm
    (chat.entries.map Ending.run ++ if chat.succeeds report moment then chat.ending report moment else []) := by
  rw [Chat.publishReport, Chat.succeeds]
  simp only
  split
  · rw [List.append_assoc, List.map_append, List.map_append, List.map_map, List.map_map]
    refine List.Perm.append_left _ ?_
    have hparts := List.filter_append_perm (fun run ↦ !chat.attends report run) (chat.ending report moment)
    simpa [Function.comp_def] using hparts
  · rw [List.append_nil]

@[simp] theorem begun_id : (begun card).id = card.id := by
  rw [begun]
  split <;> rfl

theorem begun_stages : (begun card).stages = card.stages ∧ (begun card).earlierStages = card.earlierStages := by
  rw [begun]
  split <;> exact ⟨rfl, rfl⟩

@[simp] theorem incomingCard_id {prior : List Run} : (incomingCard prior card).id = card.id := by
  rw [incomingCard]
  split <;> exact begun_id

@[simp] theorem incomingCard_status {prior : List Run} : (incomingCard prior card).status = (begun card).status := by
  rw [incomingCard]
  split <;> rfl

/-- Each run is stopped that has not ended, and each is that card or one that ended. -/
theorem stops_run (run : Run) («at» : Nat) : let after := if run.status.ended then run else stopped run «at»
    after.id = run.id ∧ after.stages = run.stages ∧ after.earlierStages = run.earlierStages ∧
      after.status.ended = true := by
  intro after
  simp only [after]
  split
  · exact ⟨rfl, rfl, rfl, ‹_›⟩
  · exact ⟨rfl, rfl, rfl, rfl⟩

theorem disconnected_stopped {run : Run} {down : Bool} (hstatus : run.status = .stopped)
    (hdown : run.disconnected = false) : disconnected run down = run := by
  have hlive : run.status.live = false := by rw [hstatus]; rfl
  rw [disconnected, hlive, Bool.and_false, ← hdown]

/-- The session's cards are the merged ones, marked as disconnected or not, and stopped by a release. -/
theorem own_eq (chat : Chat) (report : Report) (moment : Moment) : ∃ shows : Run → Run,
    chat.own report moment = (mergeRuns (chat.mine report.session moment.now)
      (report.runs.map (List.map (incomingCard chat.prior))) moment.now).map shows ∧
    ∀ run, (shows run).id = run.id ∧ (shows run).stages = run.stages ∧ (shows run).earlierStages = run.earlierStages ∧
      (shows run).status.ended = (report.releasing || run.status.ended) ∧
      (run.status = .stopped → run.disconnected = false → shows run = run) := by
  let marks : Run → Run := fun run ↦
    disconnected run ((!report.releasing && moment.suspended) && get chat.owners run.id == some report.session)
  rw [Chat.own]
  cases hreleasing : report.releasing with
  | false =>
    refine ⟨marks, ?_, fun run ↦ ⟨rfl, rfl, rfl, rfl, disconnected_stopped⟩⟩
    simp only [marks, hreleasing, Bool.false_eq_true, if_false]
  | true =>
    refine ⟨fun run ↦ if (marks run).status.ended then marks run else stopped (marks run) moment.now, ?_, fun run ↦ ?_⟩
    · rw [if_pos rfl, mergeRuns, List.map_map]
      simp only [marks, hreleasing]
      rfl
    · obtain ⟨hid, hstages, hearlier, hended⟩ := stops_run (marks run) moment.now
      refine ⟨hid, hstages, hearlier, hended, fun hstatus hdown ↦ ?_⟩
      have hmarks : marks run = run := disconnected_stopped hstatus hdown
      simp only [hmarks, hstatus]
      rfl

/-- A card is shown where a report has it, with its stages. -/
theorem mem_own (chat : Chat) (moment : Moment) (hcard : card ∈ report.cards) :
    ∃ shown ∈ chat.own report moment, shown.id = card.id ∧ shown.stages = (incomingCard chat.prior card).stages ∧
    shown.earlierStages = (incomingCard chat.prior card).earlierStages := by
  obtain ⟨shows, hown, hshows⟩ := own_eq chat report moment
  obtain ⟨hid, hstages, hearlier, -, -⟩ := hshows (incomingCard chat.prior card)
  refine ⟨shows (incomingCard chat.prior card), ?_, hid.trans incomingCard_id, hstages, hearlier⟩
  rw [hown]
  refine List.mem_map_of_mem ?_
  cases hruns : report.runs with
  | none =>
    rw [Report.cards, hruns] at hcard
    cases hcard
  | some cards =>
    rw [Report.cards, hruns, Option.getD_some] at hcard
    have hmem := List.mem_map_of_mem (f := incomingCard chat.prior) hcard
    rw [Option.map_some, mergeRuns]
    split
    · exact hmem
    · exact List.mem_append_right _ hmem

theorem cards_perm (chat : Chat) (report : Report) (moment : Moment) : (chat.cards report moment).Perm
    ((chat.others report.session).filter (fun run ↦ !(chat.fresh report && run.status.ended)) ++
      chat.own report moment) := List.perm_insertionSort _ _

end Chopin.Runs
