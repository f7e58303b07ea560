import Chopin.Tasks.RebuildFolds

/-!
# The pull requests of a run

Several tasks may name one pull request, a task may replace the one it names, and the state of each
is only what was reported last.  What the reducer guards is the pull requests that tasks hold *now*:
two tasks that hold one address agree whether it is merged, and a merged one stays so for as long as
some task holds it.  When no task does any more it is forgotten, and can be reported afresh.
-/

set_option autoImplicit false
set_option linter.dupNamespace false

open Script

namespace Chopin.Tasks

variable {items : List TaskProgress} {state next : ReducerState} {command : Command} {url : String}

/-! ## The requests that tasks hold -/

/-- The pull requests that the tasks hold now. -/
def requests (items : List TaskProgress) : List PullRequest := items.filterMap TaskProgress.pullRequest

variable {found : PullRequest}

theorem mem_requests :
    found ∈ requests items ↔ ∃ item ∈ items, item.pullRequest = some found := List.mem_filterMap

/-- Tasks that hold one address agree whether it is merged. -/
def Agreed (items : List TaskProgress) : Prop :=
  ∀ left ∈ requests items, ∀ right ∈ requests items, left.url = right.url →
    (left.state = .merged ↔ right.state = .merged)

/-- Some task holds this address. -/
def Holds (items : List TaskProgress) (url : String) : Prop := ∃ request ∈ requests items, request.url = url

theorem mergedAt_iff : mergedAt items url = true ↔ ⟨url, .merged⟩ ∈ requests items := by
  rw [mergedAt, List.any_eq_true, mem_requests]
  simp only [beq_iff_eq]

variable {item : TaskProgress}

theorem withPullRequest_started (request : PullRequest) (h : item.state ≠ .queued) :
    (item.withPullRequest request).pullRequest = some request := by
  obtain ⟨id, taskState⟩ := item
  cases taskState with
  | queued => exact absurd rfl h
  | inProgress _ => rfl
  | blocked _ _ => rfl
  | completed _ _ => rfl

theorem started_of_pullRequest {request : PullRequest} (h : item.pullRequest = some request) :
    item.state ≠ .queued := by
  intro hqueued
  rw [TaskProgress.pullRequest, hqueued] at h
  cases h

/-! ## What an event does to them -/

/-- What an accepted report makes of the pull requests. -/
structure Reported (items after : List TaskProgress) (request : PullRequest) : Prop where
  kept : ⟨request.url, .merged⟩ ∈ requests items → request.state = .merged
  held : request ∈ requests after
  rest : ∀ found ∈ requests after, found = request ∨ found ∈ requests items ∧
    (found.url = request.url → request.state ≠ .merged)

/-- A report to every task of its address that `takes` holds of, which is each that names it. -/
theorem mem_requests_report {takes : TaskProgress → Bool} (request : PullRequest)
    (htakes : ∀ item ∈ items, takes item = true ↔ item.pullRequest.map PullRequest.url = some request.url)
    (h : found ∈ requests (items.map fun item ↦ if takes item then item.withPullRequest request else item)) :
    found = request ∨ found ∈ requests items ∧ found.url ≠ request.url := by
  obtain ⟨after, hafter, hfound⟩ := mem_requests.1 h
  obtain ⟨item, hitem, rfl⟩ := List.mem_map.1 hafter
  split at hfound
  · rename_i htaken
    obtain ⟨held, hheld, -⟩ := Option.map_eq_some_iff.1 ((htakes item hitem).1 htaken)
    rw [withPullRequest_started request (started_of_pullRequest hheld)] at hfound
    exact .inl (Option.some.inj hfound).symm
  · rename_i hother
    refine .inr ⟨mem_requests.2 ⟨item, hitem, hfound⟩, fun hurl ↦ hother ((htakes item hitem).2 ?_)⟩
    rw [hfound, Option.map_some, hurl]

theorem shareMerged_eq_self (hreport : ∀ taskId url reported, command ≠ .reportPr taskId url reported) :
    shareMerged command items = items := by
  cases command with
  | reportPr taskId url reported => exact absurd rfl (hreport taskId url reported)
  | _ => rfl

variable {taskId : String}

/-- What a report makes of a task it addresses, with every task that shares a merged one. -/
theorem Reported.task {index : Nat} {reported : PullRequestState}
    (hfound : items[index]? = some item) (hstarted : item.state ≠ .queued)
    (hkept : mergedAt items url = true → reported = .merged) :
    Reported items ((shareMerged (.reportPr taskId url reported) items).set index (item.withPullRequest ⟨url, reported⟩))
      ⟨url, reported⟩ := by
  have hlength : (shareMerged (.reportPr taskId url reported) items).length = items.length := by
    simpa using congrArg List.length (shareMerged_ids (.reportPr taskId url reported) items)
  obtain ⟨hlt, -⟩ := List.getElem?_eq_some_iff.1 hfound
  refine ⟨fun hmerged ↦ hkept (mergedAt_iff.2 hmerged), mem_requests.2 ⟨item.withPullRequest ⟨url, reported⟩,
    List.mem_set (hlength.symm ▸ hlt) _, withPullRequest_started _ hstarted⟩, fun found hmem ↦ ?_⟩
  obtain ⟨after, hafter, hrequest⟩ := mem_requests.1 hmem
  obtain hafter | rfl := List.mem_or_eq_of_mem_set hafter
  · by_cases hmerged : reported = .merged
    · subst hmerged
      have hshared : found = ⟨url, .merged⟩ ∨ found ∈ requests items ∧ found.url ≠ url :=
        mem_requests_report ⟨url, .merged⟩ (fun other _ ↦ beq_iff_eq) (mem_requests.2 ⟨after, hafter, hrequest⟩)
      exact hshared.imp_right fun hother ↦ ⟨hother.1, fun hurl ↦ absurd hurl hother.2⟩
    · have hsame : shareMerged (.reportPr taskId url reported) items = items := by
        cases reported with
        | merged => exact absurd rfl hmerged
        | «open» => rfl
        | closed => rfl
      exact .inr ⟨mem_requests.2 ⟨after, hsame ▸ hafter, hrequest⟩, fun _ ↦ hmerged⟩
  · rw [withPullRequest_started _ hstarted] at hrequest
    exact .inl (Option.some.inj hrequest).symm

theorem TaskStep.pullRequest {task : Task} {after : TaskProgress} (h : TaskStep state task item command after)
    (hreport : ∀ taskId url reported, command ≠ .reportPr taskId url reported) :
    after.pullRequest = item.pullRequest := by
  cases h with
  | start => rfl
  | block => rfl
  | reportPr taskId url reported => exact absurd rfl (hreport taskId url reported)
  | complete taskId summary noChange request delivery working same =>
    rw [TaskProgress.pullRequest.eq_def item, working]
    exact same

/-- An accepted report. -/
theorem Reduces.reported {reported : PullRequestState} (h : Reduces state (.reportPr taskId url reported) next)
    (hdone : state.phase.successful = true → ∀ item ∈ state.progress, item.completed = true) :
    Reported state.progress next.progress ⟨url, reported⟩ := by
  cases h with
  | late _ _ _ addressed finished listed holds kept =>
    refine ⟨fun hmerged ↦ kept ?_, ?_, fun found hfound ↦ ?_⟩
    · rw [List.filter_eq_self.2 (hdone finished)]
      exact mergedAt_iff.2 hmerged
    · obtain ⟨held, hheld, -⟩ := Option.map_eq_some_iff.1 holds.2
      refine mem_requests.2 ⟨_, List.mem_map_of_mem listed, ?_⟩
      rw [if_pos (by simp [holds.1, holds.2])]
      exact withPullRequest_started _ (started_of_pullRequest hheld)
    · have hshared := mem_requests_report ⟨url, reported⟩ (fun item hitem ↦ ?_) hfound
      · exact hshared.imp_right fun hother ↦ ⟨hother.1, fun hurl ↦ absurd hurl hother.2⟩
      · rw [hdone finished item hitem, Bool.true_and, beq_iff_eq]
  | task _ index task item after active addressed listed found steps =>
    cases steps with
    | reportPr _ _ _ started kept => exact .task found started kept

/-- Nothing but a report adds a pull request or changes the state of one. -/
theorem Reduces.unreported (h : Reduces state command next)
    (hother : ∀ taskId url reported, command ≠ .reportPr taskId url reported) :
    ∀ found ∈ requests next.progress, found ∈ requests state.progress := by
  intro found hfound
  cases h with
  | late taskId url reported => exact absurd rfl (hother taskId url reported)
  | revision reason active => exact hfound
  | passed report active passes done => exact hfound
  | sentBack report active fails =>
    obtain ⟨after, hafter, hrequest⟩ := mem_requests.1 hfound
    obtain ⟨item, hitem, rfl⟩ := List.mem_map.1 hafter
    refine mem_requests.2 ⟨item, hitem, ?_⟩
    split at hrequest
    · exact hrequest
    · exact hrequest
  | task _ index task item after active addressed listed found steps =>
    rw [shareMerged_eq_self hother] at hfound
    obtain ⟨changed, hchanged, hholds⟩ := mem_requests.1 hfound
    obtain hchanged | rfl := List.mem_or_eq_of_mem_set hchanged
    · exact mem_requests.2 ⟨changed, hchanged, hholds⟩
    · exact mem_requests.2 ⟨item, List.mem_of_getElem? found, (steps.pullRequest hother) ▸ hholds⟩

/-- **What an event does to the pull requests.** -/
theorem Reduces.requests (h : Reduces state command next)
    (hdone : state.phase.successful = true → ∀ item ∈ state.progress, item.completed = true) :
    (∃ url reported, Reported state.progress next.progress ⟨url, reported⟩) ∨
      ∀ found ∈ Tasks.requests next.progress, found ∈ Tasks.requests state.progress := by
  by_cases hreport : ∃ taskId url reported, command = .reportPr taskId url reported
  · obtain ⟨taskId, url, reported, rfl⟩ := hreport
    exact .inl ⟨url, reported, h.reported hdone⟩
  · exact .inr (h.unreported fun taskId url reported heq ↦ hreport ⟨taskId, url, reported, heq⟩)

theorem Reduces.agreed (h : Reduces state command next)
    (hdone : state.phase.successful = true → ∀ item ∈ state.progress, item.completed = true)
    (hagreed : Agreed state.progress) : Agreed next.progress := by
  obtain ⟨url, reported, hreported⟩ | hkept := h.requests hdone
  · -- a request that was there before, at the address of the report, is not merged, and neither is the report
    have hold : ∀ found ∈ Tasks.requests state.progress, (found.url = url → reported ≠ .merged) → found.url = url →
        (found.state = .merged ↔ reported = .merged) := by
      rintro ⟨address, old⟩ hfound hopen rfl
      refine ⟨fun hmerged ↦ ?_, fun hmerged ↦ absurd hmerged (hopen rfl)⟩
      obtain rfl : old = .merged := hmerged
      exact hreported.kept hfound
    intro left hleft right hright hurl
    obtain rfl | ⟨hleft, hleftOpen⟩ := hreported.rest left hleft
    · obtain rfl | ⟨hright, hrightOpen⟩ := hreported.rest right hright
      · exact Iff.rfl
      · exact (hold right hright hrightOpen hurl.symm).symm
    · obtain rfl | ⟨hright, -⟩ := hreported.rest right hright
      · exact hold left hleft hleftOpen hurl
      · exact hagreed left hleft right hright hurl
  · exact fun left hleft right hright ↦ hagreed left (hkept left hleft) right (hkept right hright)

/-- A merged request stays merged for as long as some task holds it. -/
theorem Reduces.merged (h : Reduces state command next)
    (hdone : state.phase.successful = true → ∀ item ∈ state.progress, item.completed = true)
    (hagreed : Agreed state.progress) (hmerged : ⟨url, .merged⟩ ∈ Tasks.requests state.progress)
    (hholds : Holds next.progress url) : ⟨url, .merged⟩ ∈ Tasks.requests next.progress := by
  obtain ⟨⟨address, now⟩, hnow, rfl⟩ := hholds
  suffices now = .merged by rwa [this] at hnow
  obtain ⟨reportedUrl, reported, hreported⟩ | hkept := h.requests hdone
  · obtain heq | ⟨hold, -⟩ := hreported.rest _ hnow
    · cases heq
      exact hreported.kept hmerged
    · exact (hagreed _ hold _ hmerged rfl).2 rfl
  · exact (hagreed _ (hkept _ hnow) _ hmerged rfl).2 rfl

/-! ## Delivery -/

theorem deliveryPhaseFrom_completed (hdone : ∀ item ∈ items, item.completed = true)
    (entries : List (String × PullRequestState)) : deliveryPhaseFrom entries items =
      deliveryPhaseFrom ((requests items).foldl (fun entries request ↦ Entries.set entries request.url request.state) entries) [] := by
  induction items generalizing entries with
  | nil => rfl
  | cons item rest ih =>
    have hfirst := hdone item List.mem_cons_self
    have hrest := ih fun other hother ↦ hdone other (List.mem_cons_of_mem _ hother)
    obtain ⟨id, taskState⟩ := item
    cases taskState with
    | completed summary delivery =>
      cases delivery with
      | pullRequest request => exact hrest _
      | noChange value => exact hrest _
    | _ => cases hfirst

section Entries

variable {requests : List PullRequest} {entries : List (String × PullRequestState)}

theorem mem_entries {entry : String × PullRequestState}
    (h : entry ∈ requests.foldl (fun entries request ↦ Entries.set entries request.url request.state) entries) :
    entry ∈ entries ∨ ∃ request ∈ requests, entry = (request.url, request.state) := by
  induction requests generalizing entries with
  | nil => exact .inl h
  | cons request rest ih =>
    obtain hfirst | ⟨other, hother, heq⟩ := ih h
    · exact (Entries.mem_set hfirst).imp_right fun heq ↦ ⟨request, List.mem_cons_self, heq⟩
    · exact .inr ⟨other, List.mem_cons_of_mem _ hother, heq⟩

/-- Every address that was entered is there, whatever was entered after it. -/
theorem isSome_entries (h : (entries.lookup url).isSome = true ∨ ∃ request ∈ requests, request.url = url) :
    ((requests.foldl (fun entries request ↦ Entries.set entries request.url request.state) entries).lookup url).isSome =
      true := by
  induction requests generalizing entries with
  | nil => exact h.resolve_right fun hnone ↦ (List.not_mem_nil hnone.choose_spec.1)
  | cons request rest ih =>
    refine ih ?_
    rw [Entries.lookup_set]
    split
    · exact .inl rfl
    · rename_i hother
      obtain hentry | ⟨found, hfound, hurl⟩ := h
      · exact .inl hentry
      · obtain rfl | hrest := List.mem_cons.1 hfound
        · exact absurd hurl.symm hother
        · exact .inr ⟨found, hrest, hurl⟩

end Entries

/-- **When work that is done is delivered**: some task has a pull request, and each is merged. -/
theorem deliveryPhase_iff (hdone : ∀ item ∈ items, item.completed = true) (hagreed : Agreed items) :
    deliveryPhase items = .delivered ↔ requests items ≠ [] ∧ ∀ request ∈ requests items, request.state = .merged := by
  rw [deliveryPhase, deliveryPhaseFrom_completed hdone]
  generalize hentries : (requests items).foldl
    (fun entries request ↦ Entries.set entries request.url request.state) [] = entries
  -- every request has its entry, and every entry is of some request
  have hentry : ∀ request ∈ requests items, ∃ found, (request.url, found) ∈ entries := by
    intro request hrequest
    have hsome : (entries.lookup request.url).isSome = true := by
      rw [← hentries]
      exact isSome_entries (.inr ⟨request, hrequest, rfl⟩)
    obtain ⟨found, hfound⟩ := Option.isSome_iff_exists.1 hsome
    exact ⟨found, Entries.mem_of_lookup hfound⟩
  have hrequest : ∀ entry ∈ entries, ∃ request ∈ requests items, entry = (request.url, request.state) := by
    intro entry hmem
    rw [← hentries] at hmem
    exact (mem_entries hmem).resolve_left List.not_mem_nil
  have hphase : deliveryPhaseFrom entries [] = .delivered ↔ entries ≠ [] ∧ ∀ entry ∈ entries, entry.2 = .merged := by
    rw [deliveryPhaseFrom]
    split
    · rename_i hall
      simp only [gt_iff_lt, Bool.and_eq_true, decide_eq_true_eq, List.length_pos_iff, List.all_eq_true, beq_iff_eq] at hall
      exact ⟨fun _ ↦ hall, fun _ ↦ rfl⟩
    · rename_i hall
      simp only [gt_iff_lt, Bool.and_eq_true, decide_eq_true_eq, List.length_pos_iff, List.all_eq_true, beq_iff_eq] at hall
      exact ⟨fun h ↦ (by cases h), fun h ↦ absurd h hall⟩
  rw [hphase]
  constructor
  · rintro ⟨hsome, hmerged⟩
    refine ⟨fun hnone ↦ hsome (List.eq_nil_iff_forall_not_mem.2 fun entry hmem ↦ ?_), fun request hmem ↦ ?_⟩
    · obtain ⟨request, hmem, -⟩ := hrequest entry hmem
      rw [hnone] at hmem
      exact List.not_mem_nil hmem
    · obtain ⟨found, hfound⟩ := hentry request hmem
      obtain ⟨last, hlast, heq⟩ := hrequest _ hfound
      have hlastMerged := hmerged _ (heq ▸ hfound)
      exact (hagreed request hmem last hlast (congrArg Prod.fst heq)).2 hlastMerged
  · rintro ⟨hsome, hmerged⟩
    obtain ⟨request, hmem⟩ := List.exists_mem_of_ne_nil _ hsome
    obtain ⟨found, hfound⟩ := hentry request hmem
    refine ⟨List.ne_nil_of_mem hfound, fun entry hentry ↦ ?_⟩
    obtain ⟨other, hother, rfl⟩ := hrequest entry hentry
    exact hmerged other hother

/-! ## Over a log -/

variable {tasks : List Task} {run : Run} {live : Bool} {events : List ProgressEvent} {stored : ProgressEvent}

/-- The log has a verification that passed. -/
def Verified (events : List ProgressEvent) : Prop :=
  ∃ stored ∈ events, ∃ report, stored.command = .reportVerification report ∧ report.passed = true

theorem verified_concat : Verified (events ++ [stored]) ↔
    Verified events ∨ ∃ report, stored.command = .reportVerification report ∧ report.passed = true := by
  constructor
  · rintro ⟨found, hfound, hpasses⟩
    obtain hfound | hfound := List.mem_append.1 hfound
    · exact .inl ⟨found, hfound, hpasses⟩
    · exact .inr (List.mem_singleton.1 hfound ▸ hpasses)
  · rintro (⟨found, hfound, hpasses⟩ | hpasses)
    · exact ⟨found, List.mem_append_left _ hfound, hpasses⟩
    · exact ⟨stored, List.mem_concat_self, hpasses⟩

/-- How a run stands to the log it came of: it is finished by a verification that passed or, live, by
its last task, and then its phase is what its tasks come to. -/
structure RunsTo (live : Bool) (events : List ProgressEvent) (state : ReducerState) : Prop where
  agreed : Agreed state.progress
  unfinished : state.phase.successful = false → ¬Verified events ∧
    (live = true → (∀ item ∈ state.progress, item.completed = true) → state.progress = [])
  finished : state.phase.successful = true → (Verified events ∨ live = true) ∧
    (∀ item ∈ state.progress, item.completed = true) ∧ state.phase = deliveryPhase state.progress

theorem RunsTo.initial (tasks : List Task) (run : Run) (live : Bool) : RunsTo live [] (initial tasks run) := by
  have hqueued : ∀ item ∈ (Tasks.initial tasks run).progress, item.state = .queued := by
    intro item hitem
    obtain ⟨task, -, rfl⟩ := List.mem_map.1 hitem
    rfl
  refine ⟨fun left hleft ↦ ?_, fun _ ↦ ⟨fun hverified ↦ List.not_mem_nil hverified.choose_spec.1, fun _ hdone ↦ ?_⟩,
    fun hphase ↦ nomatch hphase⟩
  · obtain ⟨item, hitem, hrequest⟩ := mem_requests.1 hleft
    exact absurd (hqueued item hitem) (started_of_pullRequest hrequest)
  · refine List.eq_nil_iff_forall_not_mem.2 fun item hitem ↦ ?_
    have hcompleted := hdone item hitem
    rw [TaskProgress.completed, hqueued item hitem] at hcompleted
    cases hcompleted

variable {after : ReducerState}

/-- Settling what a live run has come to. -/
theorem RunsTo.settle (hagreed : Agreed after.progress)
    (hunfinished : after.phase.successful = false → ¬Verified events ∧ (live = true → after.phase ≠ .active →
      (∀ item ∈ after.progress, item.completed = true) → after.progress = []))
    (hfinished : after.phase.successful = true → (Verified events ∨ live = true) ∧
      (∀ item ∈ after.progress, item.completed = true) ∧ after.phase = deliveryPhase after.progress) :
    RunsTo live events (if live then settled after else after) := by
  cases live with
  | false => exact ⟨hagreed, fun hphase ↦ ⟨(hunfinished hphase).1, fun hlive ↦ nomatch hlive⟩, hfinished⟩
  | true =>
    rw [if_pos rfl, settled]
    split
    · rename_i hready
      simp only [Bool.and_eq_true, List.all_eq_true] at hready
      refine ⟨hagreed, fun hphase ↦ ?_, fun _ ↦ ⟨.inr rfl, hready.2, rfl⟩⟩
      rw [deliveryPhase_successful] at hphase
      cases hphase
    · rename_i hopen
      refine ⟨hagreed, fun hphase ↦ ⟨(hunfinished hphase).1, fun _ hdone ↦ ?_⟩, hfinished⟩
      refine (hunfinished hphase).2 rfl (fun hactive ↦ hopen ?_) hdone
      rw [hactive, Bool.and_eq_true, List.all_eq_true]
      exact ⟨rfl, hdone⟩

theorem RunsTo.step (hruns : RunsTo live events state)
    (h : Reduces state stored.command after) :
    RunsTo live (events ++ [stored]) (if live then settled after else after) := by
  have hdone := fun hphase ↦ (hruns.finished hphase).2.1
  refine .settle (h.agreed hdone hruns.agreed) ?_ ?_
  · intro hphase
    generalize hcommand : stored.command = command at h
    cases h with
    | late => rw [deliveryPhase_successful] at hphase; cases hphase
    | passed => rw [deliveryPhase_successful] at hphase; cases hphase
    | revision reason active =>
      obtain ⟨hverified, hempty⟩ := hruns.unfinished (by rw [active]; rfl)
      refine ⟨fun hnow ↦ ?_, fun hlive _ hall ↦ hempty hlive hall⟩
      obtain hbefore | ⟨report, hreport, -⟩ := verified_concat.1 hnow
      · exact hverified hbefore
      · rw [hcommand] at hreport
        cases hreport
    | sentBack report active fails =>
      refine ⟨fun hnow ↦ ?_, fun _ hended ↦ absurd active hended⟩
      obtain hbefore | ⟨other, hreport, hpasses⟩ := verified_concat.1 hnow
      · exact (hruns.unfinished (by rw [active]; rfl)).1 hbefore
      · rw [hcommand] at hreport
        cases hreport
        rw [fails] at hpasses
        cases hpasses
    | task _ index task item next active addressed listed found steps =>
      refine ⟨fun hnow ↦ ?_, fun _ hended ↦ absurd active hended⟩
      obtain hbefore | ⟨report, hreport, -⟩ := verified_concat.1 hnow
      · exact (hruns.unfinished (by rw [active]; rfl)).1 hbefore
      · rw [hcommand] at hreport
        subst hreport
        cases steps
  · intro hphase
    generalize hcommand : stored.command = command at h
    cases h with
    | late taskId url reported addressed finished listed holds kept =>
      refine ⟨(hruns.finished finished).1.imp_left fun hverified ↦ verified_concat.2 (.inl hverified), ?_, rfl⟩
      intro item hitem
      obtain ⟨earlier, hearlier, rfl⟩ := List.mem_map.1 hitem
      have hcompleted := hdone finished earlier hearlier
      split
      · rw [withPullRequest_completed, hcompleted]
      · exact hcompleted
    | passed report active passes done =>
      exact ⟨.inl (verified_concat.2 (.inr ⟨report, hcommand, passes⟩)), verifiable_completed done, rfl⟩
    | revision reason active => cases hphase
    | sentBack report active fails => rw [active] at hphase; cases hphase
    | task _ index task item next active addressed listed found steps => rw [active] at hphase; cases hphase

theorem runsTo (h : foldRun tasks run events live = .ok state) : RunsTo live events state := by
  induction events using List.reverseRecOn generalizing state with
  | nil =>
    cases h
    exact .initial tasks run live
  | append_singleton events stored ih =>
    obtain ⟨before, after, hbefore, hafter, rfl⟩ := foldRun_snoc_cases h
    exact (ih hbefore).step (reduceEvent_cases hafter)

/-- What was reported merged and is held ever since is merged. -/
theorem merged_stretch {before between : List ProgressEvent} (hstored : stored.command = .reportPr taskId url .merged)
    (hheld : ∀ stretch reached, stretch <+: between → foldRun tasks run (before ++ stored :: stretch) live = .ok reached →
      Holds reached.progress url) (h : foldRun tasks run (before ++ stored :: between) live = .ok state) :
    ⟨url, .merged⟩ ∈ requests state.progress := by
  induction between using List.reverseRecOn generalizing state with
  | nil =>
    obtain ⟨earlier, after, hearlier, hafter, rfl⟩ := foldRun_snoc_cases h
    have hreduces := reduceEvent_cases hafter
    rw [ite_settled_progress]
    have hdone := fun hphase ↦ ((runsTo hearlier).finished hphase).2.1
    exact ((hstored ▸ hreduces : Reduces earlier (.reportPr taskId url .merged) after).reported hdone).held
  | append_singleton between last ih =>
    have hsplit : before ++ stored :: (between ++ [last]) = (before ++ stored :: between) ++ [last] := by simp
    have hholds := hheld _ _ List.prefix_rfl h
    rw [hsplit] at h
    obtain ⟨earlier, after, hearlier, hafter, rfl⟩ := foldRun_snoc_cases h
    have hreduces := reduceEvent_cases hafter
    rw [ite_settled_progress] at hholds ⊢
    refine hreduces.merged (fun hphase ↦ ((runsTo hearlier).finished hphase).2.1) (runsTo hearlier).agreed ?_ hholds
    exact ih (fun stretch reached hstretch ↦ hheld stretch reached (hstretch.trans (List.prefix_append _ _))) hearlier

/-- **Merged pull requests of a run.**  Tasks that hold one address agree whether it is merged; an
address that was reported merged, and that some task has held ever since, is never reported otherwise;
and a run is delivered exactly when it is finished (a verification passed, or it is live and its tasks
are all complete) with a pull request at least, and each one merged. -/
theorem merged_kept (tasks : List Task) (run : Run) (live : Bool) (events : List ProgressEvent) (state : ReducerState)
    (h : foldRun tasks run events live = .ok state) : Agreed state.progress ∧
      (∀ before (stored : ProgressEvent) between (later : ProgressEvent) rest,
        events = before ++ stored :: between ++ later :: rest →
        ∀ taskId url, stored.command = .reportPr taskId url .merged → (∀ stretch reached, stretch <+: between →
            foldRun tasks run (before ++ stored :: stretch) live = .ok reached → Holds reached.progress url) →
          ∀ reporter reported, later.command = .reportPr reporter url reported → reported = .merged) ∧
      (state.phase = .delivered ↔ (Verified events ∨ live = true ∧ ∀ item ∈ state.progress, item.completed = true) ∧
          requests state.progress ≠ [] ∧ ∀ request ∈ requests state.progress, request.state = .merged) := by
  have hruns := runsTo h
  refine ⟨hruns.agreed, ?_, ?_⟩
  · rintro before stored between later rest rfl taskId url hstored hheld reporter reported hlater
    -- the log up to the later report was accepted too
    have hsplit : before ++ stored :: between ++ later :: rest = (before ++ stored :: between ++ [later]) ++ rest := by
      simp
    rw [hsplit, foldRun_append] at h
    obtain ⟨after, hafter, -⟩ := Except.bind_eq_ok.1 h
    obtain ⟨earlier, reduced, hearlier, hreduced, -⟩ := foldRun_snoc_cases hafter
    have hreduces := reduceEvent_cases hreduced
    rw [hlater] at hreduces
    have hreported := hreduces.reported fun hphase ↦ ((runsTo hearlier).finished hphase).2.1
    exact hreported.kept (merged_stretch hstored hheld hearlier)
  · constructor
    · intro hdelivered
      obtain ⟨hended, hdone, hphase⟩ := hruns.finished (by rw [hdelivered]; rfl)
      exact ⟨hended.imp_right fun hlive ↦ ⟨hlive, hdone⟩, (deliveryPhase_iff hdone hruns.agreed).1 (hphase ▸ hdelivered)⟩
    · rintro ⟨hended, hmerged⟩
      have hsuccess : state.phase.successful = true := by
        by_contra hopen
        obtain ⟨hverified, hempty⟩ := hruns.unfinished (Bool.not_eq_true _ ▸ hopen)
        obtain hended | ⟨hlive, hdone⟩ := hended
        · exact hverified hended
        · exact hmerged.1 (by rw [hempty hlive hdone]; rfl)
      obtain ⟨-, hdone, hphase⟩ := hruns.finished hsuccess
      rw [hphase]
      exact (deliveryPhase_iff hdone hruns.agreed).2 hmerged

section Samples

/-- A run of one task. -/
def soleTask : List Task :=
  [{ id := "t", title := "Title", context := "Context", goal := "Goal", acceptance := ["First", "Second"], dependsOn := [] }]

def soleRun : Run :=
  { id := "run", user := "user", client := ⟨"client", "1"⟩, session := "session", planRevision := 1, graphVersion := 1,
    graphRevision := 1, repository := "o/r", branch := "main", commit := "c", startedAt := "now" }

def soleEvent (command : Command) (key : String) : ProgressEvent := ⟨command, key⟩

/-- Its first pull request merges, and it goes on with a second. -/
def replacedEvents : List ProgressEvent :=
  [soleEvent (.start "t") "1", soleEvent (.reportPr "t" "https://github.com/o/r/pull/1" .merged) "2",
    soleEvent (.reportPr "t" "https://github.com/o/r/pull/2" .open) "3",
    soleEvent (.reportPr "t" "https://github.com/o/r/pull/1" .open) "4"]

/-- Its pull request merges, and it is done. -/
def mergedEvents : List ProgressEvent :=
  [soleEvent (.start "t") "1", soleEvent (.reportPr "t" "https://github.com/o/r/pull/1" .merged) "2",
    soleEvent (.complete "t" "Done" none) "3"]

theorem merged_kept_sole :
    ∃ state, foldRun soleTask soleRun mergedEvents true = .ok state ∧ Agreed state.progress ∧ state.phase = .delivered := by
  have hkept := merged_kept soleTask soleRun true mergedEvents _ rfl
  exact ⟨_, rfl, hkept.1, hkept.2.2.2 ⟨.inr ⟨rfl, by decide⟩, by decide, by decide⟩⟩

/-- A request that no task holds any more is reported open after it was merged; and a run at work is
not delivered, though its only pull request is merged. -/
theorem merged_forgotten : (¬∀ tasks run live events state, foldRun tasks run events live = .ok state →
      ∀ before (stored : ProgressEvent) between (later : ProgressEvent) rest,
        events = before ++ stored :: between ++ later :: rest →
        ∀ taskId url, stored.command = .reportPr taskId url .merged →
          ∀ reporter reported, later.command = .reportPr reporter url reported → reported = .merged) ∧
    ¬∀ tasks run live events state, foldRun tasks run events live = .ok state → (state.phase = .delivered ↔
        requests state.progress ≠ [] ∧ ∀ request ∈ requests state.progress, request.state = .merged) := by
  constructor
  · intro h
    have hnever := h soleTask soleRun false replacedEvents _ rfl [replacedEvents[0]] replacedEvents[1] [replacedEvents[2]]
      replacedEvents[3] [] rfl "t" _ rfl "t" .open rfl
    cases hnever
  · intro h
    have hphase := (h soleTask soleRun false (replacedEvents.take 2) _ rfl).2 (by decide)
    cases hphase

end Samples

end Chopin.Tasks
