import Chopin.Lib.Platform
import Chopin.Tasks.FoldFacts

/-!
# The pull requests of a run

Every pull request that a run's log comes to is one of the run's own repository, whoever reported it
and however the run ended.  Such an address is one that the schemas take as it is.
-/

set_option autoImplicit false
set_option linter.dupNamespace false

open Script

namespace Chopin.Tasks

/-! ## Addresses -/

theorem pullNumber_getLast {number : List Char} (h : pullNumber number = true) :
    ∃ c ∈ number.getLast?, isSpace c = false := by
  cases number with
  | nil => cases h
  | cons first rest =>
    simp only [pullNumber, Bool.and_eq_true, decide_eq_true_eq, List.all_eq_true] at h
    obtain ⟨⟨hlow, hhigh⟩, hrest⟩ := h
    have hdigit : ∀ c ∈ first :: rest, '0' ≤ c ∧ c ≤ '9' :=
      List.forall_mem_cons.2 ⟨⟨Char.le_trans (by decide) hlow, hhigh⟩, hrest⟩
    obtain ⟨c, hc⟩ : ∃ c, (first :: rest).getLast? = some c := ⟨_, List.getLast?_eq_some_getLast (by simp)⟩
    obtain ⟨hlow, hhigh⟩ := hdigit c (List.mem_of_getLast? hc)
    rw [Char.le_def, UInt32.le_iff_toNat_le] at hlow hhigh
    exact ⟨c, hc, isSpace_graphic (UInt32.lt_iff_toNat_lt.2 (lt_of_lt_of_le (by decide) hlow))
      (UInt32.lt_iff_toNat_lt.2 (lt_of_le_of_lt hhigh (by decide)))⟩

variable {repository url : String}

/-- A pull request of one's own is an address as a schema keeps it. -/
theorem ownPullRequest_address (platform : Platform)
    (h : ownPullRequest repository url = true) : platform.address url = some url := by
  rw [ownPullRequest] at h
  split at h
  · rename_i owner name number tail hsplit
    simp only [Bool.and_eq_true, Bool.or_eq_true, beq_iff_eq] at h
    obtain ⟨⟨⟨⟨-, -⟩, hnumber⟩, htail⟩, -⟩ := h
    have hparts : url.toList.splitOn '/' = ["https:".toList, [], "github.com".toList, owner.toList,
        name.toList, "pull".toList, number.toList] ++ tail.map String.toList := by
      have := congrArg (List.map String.toList) hsplit
      simpa [List.map_map, Function.comp_def] using this
    have hjoin : ['/'].intercalate (url.toList.splitOn '/') = url.toList :=
      List.intercalate_splitOn '/'
    have hurl : url.toList = "https://github.com/".toList ++ (owner.toList ++ '/' :: name.toList ++
        "/pull/".toList ++ number.toList ++ if tail = [] then [] else ['/']) := by
      rw [← hjoin, hparts]
      rcases htail with rfl | rfl <;> simp [List.intercalate_cons_cons]
    have hlast : ∃ front last, url.toList = front ++ [last] ∧ isSpace last = false := by
      rcases htail with rfl | rfl
      · obtain ⟨last, hmem, hspace⟩ := pullNumber_getLast hnumber
        obtain ⟨prior, hprior⟩ := List.getLast?_eq_some_iff.1 hmem
        rw [hprior, if_pos rfl, List.append_nil, ← List.append_assoc, ← List.append_assoc] at hurl
        exact ⟨_, last, hurl, hspace⟩
      · rw [if_neg (by simp), ← List.append_assoc] at hurl
        exact ⟨_, '/', hurl, by decide⟩
    obtain ⟨front, last, hfront, hspace⟩ := hlast
    have htrim : trim url = url := trim_eq_self (by rw [hurl]; simp; decide) (by
      rw [hfront]; simpa using hspace)
    have hpath : url = "https://github.com/" ++ String.ofList (owner.toList ++ '/' :: name.toList ++
        "/pull/".toList ++ number.toList ++ if tail = [] then [] else ['/']) := by
      rw [← String.toList_inj, hurl]
      simp
    rw [Platform.address, htrim, if_pos (by rw [hpath]; exact platform.url_github _)]
  · cases h

/-! ## What a log comes to -/

/-- The pull requests that these tasks name are all of this repository. -/
def OwnRequests (repository : String) (items : List TaskProgress) : Prop :=
  ∀ item ∈ items, ∀ request ∈ item.pullRequest, ownPullRequest repository request.url = true

theorem withPullRequest_pullRequest {item : TaskProgress} {request found : PullRequest}
    (h : found ∈ (item.withPullRequest request).pullRequest) : found = request ∨ found ∈ item.pullRequest := by
  obtain ⟨id, state⟩ := item
  cases state with
  | queued => exact .inr h
  | inProgress _ => exact .inl (Option.some.inj h).symm
  | blocked _ _ => exact .inl (Option.some.inj h).symm
  | completed _ _ => exact .inl (Option.some.inj h).symm

variable {items : List TaskProgress}

theorem OwnRequests.map (h : OwnRequests repository items)
    (hown : ownPullRequest repository url = true) (reported : PullRequestState) (takes : TaskProgress → Bool) :
    OwnRequests repository
      (items.map fun item ↦ if takes item then item.withPullRequest ⟨url, reported⟩ else item) := by
  intro item hmem found hfound
  obtain ⟨before, hbefore, rfl⟩ := List.mem_map.1 hmem
  split at hfound
  · rcases withPullRequest_pullRequest hfound with rfl | hfound
    · exact hown
    · exact h before hbefore found hfound
  · exact h before hbefore found hfound

variable {state : ReducerState} {live : Bool}

variable {next : TaskProgress}

theorem reduceTask_reportPr {task : Task} {item : TaskProgress} {taskId : String} {reported : PullRequestState}
    (h : reduceTask state task item (.reportPr taskId url reported) live = .ok next) :
    ownPullRequest state.run.repository url = true ∧ next = item.withPullRequest ⟨url, reported⟩ := by
  simp only [reduceTask] at h
  repeat' split at h
  all_goals cases h
  rename_i hrepository _
  exact ⟨by simpa using hrepository, rfl⟩

variable {command : Command}

/-- What an event makes of the task it addresses names the pull request that the task did, or one of
its own. -/
theorem reduceTask_pullRequest {task : Task} {item : TaskProgress} (h : reduceTask state task item command live = .ok next) :
    ∀ found ∈ next.pullRequest, found ∈ item.pullRequest ∨ ownPullRequest state.run.repository found.url = true := by
  intro found hfound
  cases command with
  | start taskId =>
    simp only [reduceTask] at h
    repeat' split at h
    all_goals cases h
    all_goals exact .inl hfound
  | block taskId reason =>
    simp only [reduceTask] at h
    repeat' split at h
    all_goals cases h
    all_goals exact .inl hfound
  | reportPr taskId url reported =>
    obtain ⟨hown, rfl⟩ := reduceTask_reportPr h
    exact (withPullRequest_pullRequest hfound).elim (fun heq ↦ .inr (heq ▸ hown)) .inl
  | complete taskId summary noChange =>
    simp only [reduceTask] at h
    repeat' split at h
    all_goals cases h
    · cases hfound
    · rename_i hstate _
      exact .inl (by rw [TaskProgress.pullRequest, hstate]; exact hfound)
  | reportVerification report => cases h
  | requestRevision reason => cases h

theorem shareMerged_own (h : OwnRequests repository items)
    (hown : ∀ taskId url reported, command = .reportPr taskId url reported →
      ownPullRequest repository url = true) : OwnRequests repository (shareMerged command items) := by
  unfold shareMerged
  split
  · exact h.map (hown _ _ _ rfl) _ _
  · exact h

theorem reduceEvent_own {next : ReducerState} {stored : ProgressEvent}
    (hown : OwnRequests state.run.repository state.progress) (h : reduceEvent state stored live = .ok next) :
    OwnRequests state.run.repository next.progress := by
  have hfinished : reduceFinished state stored.command = .ok next →
      OwnRequests state.run.repository next.progress := by
    intro h
    unfold reduceFinished at h
    repeat' split at h
    all_goals cases h
    rename_i hrepository _
    simp only [Bool.not_eq_true', Bool.not_eq_false] at hrepository
    exact hown.map hrepository _ _
  unfold reduceEvent at h
  split at h
  · cases h
  · exact hfinished h
  · exact hfinished h
  · unfold reduceActive at h
    split at h
    · split at h
      · cases h
      · cases h; exact hown
    · unfold reduceVerification at h
      repeat' split at h
      all_goals cases h
      · exact hown
      · intro item hmem found hfound
        obtain ⟨before, hbefore, rfl⟩ := List.mem_map.1 hmem
        split at hfound <;> exact hown before hbefore found hfound
    · simp only at h
      split at h
      · rename_i task item _ hitem
        obtain ⟨updated, hupdated, h⟩ := Except.bind_eq_ok.1 h
        cases h
        have hmerged : OwnRequests state.run.repository (shareMerged stored.command state.progress) :=
          shareMerged_own hown fun taskId url reported heq ↦
            (reduceTask_reportPr (heq ▸ hupdated)).1
        intro other hmem found hfound
        rcases List.mem_or_eq_of_mem_set hmem with hmem | rfl
        · exact hmerged other hmem found hfound
        · exact (reduceTask_pullRequest hupdated found hfound).elim
            (hown item (List.mem_of_getElem? hitem) found) fun h ↦ h
      · cases h

/-- **The pull requests of a run are of its own repository.** -/
theorem foldRun_own {tasks : List Task} {run : Run} {events : List ProgressEvent} :
    ∀ {state : ReducerState}, foldRun tasks run events live = .ok state →
      OwnRequests run.repository state.progress := by
  induction events using List.reverseRecOn with
  | nil =>
    intro state h
    cases h
    intro item hmem found hfound
    obtain ⟨task, -, rfl⟩ := List.mem_map.1 hmem
    cases hfound
  | append_singleton events stored ih =>
    intro state h
    obtain ⟨before, next, hbefore, hnext, rfl⟩ := foldRun_snoc_cases h
    have hrun : before.run = run := (foldRun_frame hbefore).run
    have hown := reduceEvent_own (hrun.symm ▸ ih hbefore) hnext
    rw [hrun] at hown
    split
    · rw [settled_progress]; exact hown
    · exact hown

end Chopin.Tasks
