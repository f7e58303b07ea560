import Chopin.Lib.Lists
import Chopin.Threads.Events

/-!
# What an event can do

An event that is accepted a second time changes nothing.  An event that is new is added to the history, and either
opens a thread or changes the one it names (`applyEvent_cases`).

The flag of a thread that waits on a provisional choice is set by a proposal only, and a stance is the only event that
looks at it to decide whether it stays (`dispatch_flag`).
-/

set_option autoImplicit false
set_option linter.dupNamespace false

open Script
open Except (demand demand_eq_ok demand_bind_eq_ok)

namespace Chopin.Threads

variable {lower : Units → Units} {state next : State} {thread changed : Thread} {threads : List Thread} {event : Event}

/-! ## The record -/

/-- What an event that is new did to the threads. -/
inductive ThreadStep (lower : Units → Units) (state : State) (event : Event) : List Thread → Prop
  | opened (source : Option SourceRef) (question : Units) (thread : Thread)
      (body : event.body = .threadOpened source question) (new : ∀ other ∈ state.threads, other.id ≠ event.threadId)
      (its : thread.id = event.threadId) (waiting : thread.pendingScopedChoice = none) :
      ThreadStep lower state event (state.threads ++ [thread])
  | changed (thread changed : Thread) (threads : List Thread)
      (found : state.threads.find? (·.id == event.threadId) = some thread)
      (version : thread.version = event.observedThreadVersion)
      (done : dispatch lower state thread event = .ok (changed, threads)) :
      ThreadStep lower state event (setThread threads { changed with version := changed.version + 1 })

/-- What an event that is new did. -/
structure Accepted (lower : Units → Units) (state : State) (event : Event) (state' : State) : Prop where
  fresh : ∀ accepted ∈ state.events, accepted.id ≠ event.id
  shape : assertEventShape lower event = .ok ()
  events : state'.events = state.events ++ [event]
  analysis : state'.analysis = state.analysis
  threads : ThreadStep lower state event state'.threads

variable {state' : State}

theorem changeThread_cases (h : changeThread lower state event = .ok state') :
    state'.events = state.events ++ [event] ∧ state'.analysis = state.analysis ∧
      ThreadStep lower state event state'.threads := by
  rw [changeThread] at h
  split at h
  · cases h
  · rename_i thread hfound
    obtain ⟨hversion, h⟩ := demand_bind_eq_ok.1 h
    obtain ⟨⟨changed, threads⟩, hdone, h⟩ := Except.bind_eq_ok.1 h
    cases h
    exact ⟨rfl, rfl, .changed thread changed threads hfound (beq_iff_eq.1 hversion) hdone⟩

theorem openThread_cases {source : Option SourceRef} {question : Units}
    (hbody : event.body = .threadOpened source question) (h : openThread state event source question = .ok state') :
    state'.events = state.events ++ [event] ∧ state'.analysis = state.analysis ∧
      ThreadStep lower state event state'.threads := by
  rw [openThread] at h
  obtain ⟨hnew, h⟩ := demand_bind_eq_ok.1 h
  obtain ⟨-, h⟩ := demand_bind_eq_ok.1 h
  obtain ⟨-, h⟩ := demand_bind_eq_ok.1 h
  cases h
  rw [Bool.and_eq_true, Option.isNone_iff_eq_none, List.find?_eq_none] at hnew
  exact ⟨rfl, rfl, .opened source question _ hbody
    (fun other hother heq ↦ hnew.1 other hother (beq_iff_eq.2 heq)) rfl rfl⟩

/-- **What an accepted event does.** -/
theorem applyEvent_cases (h : applyEvent lower state event = .ok state') :
    (state' = state ∧ ∃ accepted ∈ state.events, accepted.id = event.id) ∨ Accepted lower state event state' := by
  rw [applyEvent] at h
  split at h
  · rename_i hany
    obtain ⟨accepted, hmem, hid⟩ := List.any_eq_true.1 hany
    exact .inl ⟨(Except.ok.inj h).symm, accepted, hmem, beq_iff_eq.1 hid⟩
  · rename_i hany
    obtain ⟨⟨⟩, hshape, h⟩ := Except.bind_eq_ok.1 h
    obtain ⟨-, h⟩ := demand_bind_eq_ok.1 h
    have hfresh : ∀ accepted ∈ state.events, accepted.id ≠ event.id :=
      fun accepted hmem heq ↦ hany (List.any_eq_true.2 ⟨accepted, hmem, beq_iff_eq.2 heq⟩)
    have hcases : state'.events = state.events ++ [event] ∧ state'.analysis = state.analysis ∧
        ThreadStep lower state event state'.threads := by
      split at h
      · exact openThread_cases (by assumption) h
      · exact changeThread_cases h
    exact .inr ⟨hfresh, hshape, hcases.1, hcases.2.1, hcases.2.2⟩

/-! ## The flags -/

/-- What of a thread the proposals for a spike look at. -/
def Thread.flag (thread : Thread) : Units × Option PendingScopedChoice := (thread.id, thread.pendingScopedChoice)

/-- What an event does to the flag of its thread. -/
inductive FlagStep (next : State) (thread : Thread) (event : Event) : Units × Option PendingScopedChoice → Prop
  | kept (silent : ∀ source optionId link position, event.body ≠ .stanceChanged source optionId link position) :
      FlagStep next thread event thread.flag
  | cleared : FlagStep next thread event (thread.id, none)
  | stance (source : SourceRef) (optionId : Option Units) (link : Option (Option Units)) (position : Position)
      (body : event.body = .stanceChanged source optionId link position) :
      FlagStep next thread event (thread.id, pendingAfterStance next thread event optionId link position)
  | proposed (source : SourceRef) (choice : Scoped) (proposer : Units)
      (body : event.body = .scopedChoiceProposed source choice) (member : source.author = .member proposer) :
      FlagStep next thread event (thread.id, some
        ⟨some event.id, choice.cardId, choice.optionId, choice.label, utf16 "spike", proposer, source.messageId⟩)

/-- The flag is still the thread's. -/
theorem FlagStep.id {flag : Units × Option PendingScopedChoice} (h : FlagStep next thread event flag) :
    flag.1 = thread.id := by
  cases h <;> rfl

theorem Author.member?_eq_some {author : Author} {handle : Units} :
    author.member? = some handle ↔ author = .member handle := by
  cases author <;> simp [Author.member?]

/-- The handlers that leave the flag as it is. -/
theorem addContribution_flag {kind : ContributionKind} {source : Option SourceRef} {contribution : Wording}
    (h : addContribution next thread event kind source contribution = .ok changed) : changed.flag = thread.flag := by
  simp only [addContribution, demand_bind_eq_ok, Except.ok.injEq] at h
  obtain ⟨-, -, -, -, -, -, rfl⟩ := h
  rfl

theorem relabelOption_flag {optionId label : Units} (h : relabelOption lower thread optionId label = .ok changed) :
    changed.flag = thread.flag := by
  simp only [relabelOption, demand_bind_eq_ok] at h
  obtain ⟨-, h⟩ := h
  split at h
  · cases h
  · simp only [demand_bind_eq_ok, Except.ok.injEq] at h
    obtain ⟨-, -, rfl⟩ := h
    rfl

variable {optionId : Option Units}

theorem leanThread_flag (h : leanThread thread optionId = .ok changed) : changed.flag = thread.flag := by
  simp only [leanThread, demand_bind_eq_ok, Except.ok.injEq] at h
  obtain ⟨-, -, rfl⟩ := h
  rfl

variable {source : SourceRef} {text : Units}

theorem proposeCandidate_flag {id : Units} {kind : CandidateKind}
    (h : proposeCandidate thread source id kind text = .ok changed) : changed.flag = thread.flag := by
  simp only [proposeCandidate, demand_bind_eq_ok, Except.ok.injEq] at h
  obtain ⟨-, -, -, rfl⟩ := h
  rfl

variable {candidateId : Units}

theorem rejectCandidate_flag (h : rejectCandidate thread event candidateId = .ok changed) :
    changed.flag = thread.flag := by
  rw [rejectCandidate] at h
  split at h
  · cases h
  · simp only [demand_bind_eq_ok, Except.ok.injEq] at h
    obtain ⟨-, rfl⟩ := h
    rfl

theorem linkCard_flag {questionnaireId : Units} (h : linkCard thread questionnaireId = .ok changed) :
    changed.flag = thread.flag := by
  simp only [linkCard, demand_bind_eq_ok, Except.ok.injEq] at h
  obtain ⟨-, rfl⟩ := h
  rfl

theorem suggestSettle_flag {optionId : Units}
    (h : suggestSettle next thread source optionId = .ok changed) : changed.flag = thread.flag := by
  simp only [suggestSettle, demand_bind_eq_ok] at h
  obtain ⟨-, h⟩ := h
  split at h
  · cases h
  · simp only [demand_bind_eq_ok, Except.ok.injEq] at h
    obtain ⟨-, -, rfl⟩ := h
    split <;> rfl

/-- The handlers that only check. -/
theorem agreeSettle_same {optionId : Units}
    (h : agreeSettle thread source optionId = .ok changed) : changed = thread := by
  simp only [agreeSettle, demand_bind_eq_ok] at h
  obtain ⟨-, h⟩ := h
  split at h
  · cases h
  · simp only [demand_bind_eq_ok, Except.ok.injEq] at h
    exact h.2.2.symm

variable {proposalId : Units}

theorem deferSettle_same (h : deferSettle next thread source proposalId = .ok changed) : changed = thread := by
  rw [deferSettle] at h
  split at h
  · simp only [demand_bind_eq_ok, Except.ok.injEq] at h
    exact h.2.symm
  · cases h

theorem resumeSettle_same {deferredEventId : Units}
    (h : resumeSettle next thread source proposalId deferredEventId = .ok changed) : changed = thread := by
  simp only [resumeSettle, demand_bind_eq_ok, Except.ok.injEq] at h
  exact h.2.symm

variable {choice : Scoped}

/-- An agreement is to the proposal that the thread waits on, for its choice. -/
theorem agreeScoped_cases (h : agreeScoped next thread source proposalId choice = .ok changed) :
    changed = thread ∧ ∃ pending proposal, thread.pendingScopedChoice = some pending ∧
      currentScopedProposal thread next.events = some proposal ∧ proposal.event.id = proposalId ∧
      pending.isFor choice = true := by
  rw [agreeScoped] at h
  split at h
  · rename_i pending proposal hpending hproposal
    simp only [demand_bind_eq_ok, Except.ok.injEq, Bool.and_eq_true, beq_iff_eq] at h
    obtain ⟨⟨⟨⟨⟨⟨-, hid⟩, -⟩, -⟩, hfor⟩, -⟩, rfl⟩ := h
    exact ⟨rfl, pending, proposal, hpending, hproposal, hid, hfor⟩
  · cases h

theorem saveScoped_same {supportEventIds : Option (List Units)} {agreementId : Option Units} {sources : List SourceRef}
    (h : saveScoped next thread proposalId supportEventIds agreementId choice sources = .ok changed) :
    changed = thread := by
  rw [saveScoped] at h
  split at h
  · simp only [demand_bind_eq_ok, Except.ok.injEq] at h
    exact h.2.symm
  · cases h

/-- The handlers that settle the thread. -/
theorem recordDecision_settles {source : Option SourceRef}
    (h : recordDecision thread event source text optionId = .ok changed) : changed.flag = (thread.id, none) := by
  simp only [recordDecision, demand_bind_eq_ok, Except.ok.injEq] at h
  obtain ⟨-, -, -, -, -, rfl⟩ := h
  rfl

theorem reopenDecision_settles {source : Option SourceRef}
    (h : reopenDecision thread event source = .ok changed) : changed.flag = (thread.id, none) := by
  simp only [reopenDecision, demand_bind_eq_ok, Except.ok.injEq] at h
  obtain ⟨-, -, rfl⟩ := h
  rfl

theorem confirmCandidate_settles (h : confirmCandidate thread event candidateId = .ok changed) :
    changed.flag = (thread.id, none) := by
  rw [confirmCandidate] at h
  split at h
  · cases h
  · simp only [demand_bind_eq_ok] at h
    obtain ⟨-, -, h⟩ := h
    split at h <;> cases h <;> rfl

/-- A stance is a member's. -/
theorem changeStance_flag {link : Option (Option Units)}
    {position : Position} (h : changeStance next thread event source optionId link position = .ok changed) :
    changed.flag = (thread.id, pendingAfterStance next thread event optionId link position) := by
  rw [changeStance] at h
  split at h
  · cases h
  · simp only [demand_bind_eq_ok, Except.ok.injEq] at h
    obtain ⟨-, -, rfl⟩ := h
    rfl

/-- A proposal is a member's, and sets the flag. -/
theorem proposeScoped_cases
    (h : proposeScoped thread event source choice = .ok changed) : ∃ proposer, source.author = .member proposer ∧
      changed.flag = (thread.id, some
        ⟨some event.id, choice.cardId, choice.optionId, choice.label, utf16 "spike", proposer, source.messageId⟩) := by
  rw [proposeScoped] at h
  split at h
  · cases h
  · rename_i proposer hproposer
    simp only [demand_bind_eq_ok, Except.ok.injEq] at h
    obtain ⟨-, rfl⟩ := h
    exact ⟨proposer, Author.member?_eq_some.1 hproposer, rfl⟩

theorem applyContributionEvent_flag (h : applyContributionEvent lower next thread event = .ok changed) :
    FlagStep next thread event changed.flag := by
  rw [applyContributionEvent] at h
  split at h
  · exact addContribution_flag h ▸ .kept (by simp_all)
  · rename_i source optionId link position hbody
    exact changeStance_flag h ▸ .stance source optionId link position hbody
  · exact relabelOption_flag h ▸ .kept (by simp_all)
  · cases h
    exact .kept (by simp_all)

theorem applyLifecycleEvent_flag (h : applyLifecycleEvent thread event = .ok changed)
    (silent : ∀ source optionId link position, event.body ≠ .stanceChanged source optionId link position) :
    FlagStep next thread event changed.flag := by
  rw [applyLifecycleEvent] at h
  split at h
  · exact leanThread_flag h ▸ .kept silent
  · exact recordDecision_settles h ▸ .cleared
  · exact reopenDecision_settles h ▸ .cleared
  · exact proposeCandidate_flag h ▸ .kept silent
  · exact confirmCandidate_settles h ▸ .cleared
  · exact rejectCandidate_flag h ▸ .kept silent
  · exact linkCard_flag h ▸ .kept silent
  · cases h
    exact .cleared
  · cases h
    exact .kept silent

theorem applySettlementEvent_flag (h : applySettlementEvent next thread event = .ok changed)
    (silent : ∀ source optionId link position, event.body ≠ .stanceChanged source optionId link position) :
    FlagStep next thread event changed.flag := by
  rw [applySettlementEvent] at h
  split at h
  · exact suggestSettle_flag h ▸ .kept silent
  · exact agreeSettle_same h ▸ .kept silent
  · exact deferSettle_same h ▸ .kept silent
  · exact resumeSettle_same h ▸ .kept silent
  · rename_i source choice hbody
    obtain ⟨proposer, hmember, hflag⟩ := proposeScoped_cases h
    exact hflag ▸ .proposed source choice proposer hbody hmember
  · exact (agreeScoped_cases h).1 ▸ .kept silent
  · exact saveScoped_same h ▸ .kept silent
  · cases h
    exact .kept silent

/-- A thread written over the one of its identifier, as the flags see it. -/
theorem setThread_flags (threads : List Thread) (thread : Thread) : (setThread threads thread).map Thread.flag =
    (threads.map Thread.flag).set ((threads.map Thread.flag).findIdx (·.1 == thread.id)) thread.flag := by
  rw [setThread, List.map_set, List.findIdx_map]
  rfl

/-- The flags where the one of an identifier is written over. -/
theorem flags_split {found : Thread} {id : Units} (hfound : threads.find? (·.id == id) = some found) :
    ∃ front back, threads.map Thread.flag = front ++ found.flag :: back ∧ found.id = id ∧ ∀ flag,
      (threads.map Thread.flag).set ((threads.map Thread.flag).findIdx (·.1 == id)) flag = front ++ flag :: back := by
  have hindex : (threads.map Thread.flag)[(threads.map Thread.flag).findIdx (·.1 == id)]? = some found.flag := by
    rw [List.findIdx_map, List.getElem?_map, ← Option.map_some, ← hfound, List.find?_eq_getElem?_findIdx]
    rfl
  obtain ⟨front, back, hsplit, hid, -, hset⟩ := List.findIdx_split hindex
  exact ⟨front, back, hsplit, beq_iff_eq.1 hid, hset⟩

/-- A thread whose flag is the one that stood there. -/
theorem setThread_flags_self {found : Thread} (hfound : threads.find? (·.id == changed.id) = some found)
    (hflag : changed.flag = found.flag) : (setThread threads changed).map Thread.flag = threads.map Thread.flag := by
  obtain ⟨front, back, hsplit, -, hset⟩ := flags_split hfound
  rw [setThread_flags, hset, hflag, ← hsplit]

variable {contributionId : Units}

/-- A move changes what two threads hold, and no flag. -/
theorem moveContribution_flags {targetThreadId : Units} {targetVersion : Nat}
    (h : moveContribution next thread contributionId targetThreadId targetVersion = .ok (changed, threads)) :
    changed.flag = thread.flag ∧ threads.map Thread.flag = next.threads.map Thread.flag := by
  rw [moveContribution] at h
  split at h
  · cases h
  · rename_i target htarget
    simp only [demand_bind_eq_ok] at h
    obtain ⟨-, -, h⟩ := h
    split at h
    · cases h
    · simp only [demand_bind_eq_ok, Except.ok.injEq, Prod.mk.injEq] at h
      obtain ⟨-, rfl, rfl⟩ := h
      have hid : target.id = targetThreadId := by simpa using List.find?_some htarget
      subst hid
      exact ⟨rfl, setThread_flags_self htarget rfl⟩

theorem editThread_flag {field : EditField} (h : editThread thread event field text = .ok changed) :
    changed.flag = thread.flag := by
  unfold editThread at h
  split at h
  · cases h
    rfl
  · simp only [demand_bind_eq_ok, Except.ok.injEq] at h
    obtain ⟨-, rfl⟩ := h
    rfl
  · split at h
    · cases h
    · cases h
      rfl

theorem correctStatus_flag {status : ThreadStatus} (h : correctStatus thread status = .ok changed) :
    changed.flag = thread.flag := by
  simp only [correctStatus, demand_bind_eq_ok, Except.ok.injEq] at h
  obtain ⟨-, rfl⟩ := h
  rfl

variable {stanceId : Units}

theorem retargetStance_flag
    (h : retargetStance thread event stanceId optionId = .ok changed) : changed.flag = thread.flag := by
  rw [retargetStance] at h
  split at h
  · cases h
  · simp only [demand_bind_eq_ok, Except.ok.injEq] at h
    obtain ⟨-, -, -, rfl⟩ := h
    rfl

theorem dismissStance_flag (h : dismissStance thread stanceId = .ok changed) : changed.flag = thread.flag := by
  simp only [dismissStance, demand_bind_eq_ok, Except.ok.injEq] at h
  obtain ⟨-, rfl⟩ := h
  rfl

theorem retargetContribution_flag {targetId : Units}
    (h : retargetContribution thread event contributionId targetId = .ok changed) : changed.flag = thread.flag := by
  rw [retargetContribution] at h
  split at h
  · cases h
  · simp only [demand_bind_eq_ok, Except.ok.injEq] at h
    obtain ⟨-, -, -, rfl⟩ := h
    rfl

/-- A correction leaves every flag. -/
theorem applyCorrectionEvent_flags (h : applyCorrectionEvent next thread event = .ok (changed, threads)) :
    changed.flag = thread.flag ∧ threads.map Thread.flag = next.threads.map Thread.flag := by
  rw [applyCorrectionEvent] at h
  split at h
  · split at h
    · obtain ⟨_, hdone, heq⟩ := Except.map_eq_ok.1 h
      cases heq
      exact ⟨editThread_flag hdone, rfl⟩
    · obtain ⟨_, hdone, heq⟩ := Except.map_eq_ok.1 h
      cases heq
      exact ⟨correctStatus_flag hdone, rfl⟩
    · exact moveContribution_flags h
    · obtain ⟨_, hdone, heq⟩ := Except.map_eq_ok.1 h
      cases heq
      exact ⟨retargetStance_flag hdone, rfl⟩
    · obtain ⟨_, hdone, heq⟩ := Except.map_eq_ok.1 h
      cases heq
      exact ⟨dismissStance_flag hdone, rfl⟩
    · obtain ⟨_, hdone, heq⟩ := Except.map_eq_ok.1 h
      cases heq
      exact ⟨retargetContribution_flag hdone, rfl⟩
    all_goals
      cases h
      exact ⟨rfl, rfl⟩
  · cases h
    exact ⟨rfl, rfl⟩

/-- **What an event does to the flags.** -/
theorem dispatch_flag (h : dispatch lower next thread event = .ok (changed, threads)) :
    FlagStep next thread event changed.flag ∧ threads.map Thread.flag = next.threads.map Thread.flag := by
  have hmap : ∀ {result : Except String Thread}, result.map (·, next.threads) = .ok (changed, threads) →
      result = .ok changed ∧ threads = next.threads := fun hresult ↦ by
    obtain ⟨_, hdone, heq⟩ := Except.map_eq_ok.1 hresult
    cases heq
    exact ⟨hdone, rfl⟩
  rw [dispatch] at h
  split at h
  case h_19 =>
    obtain ⟨hflag, hflags⟩ := applyCorrectionEvent_flags h
    exact ⟨hflag ▸ .kept (by simp_all), hflags⟩
  case h_20 =>
    cases h
    exact ⟨.kept (by simp_all), rfl⟩
  all_goals obtain ⟨hdone, rfl⟩ := hmap h
  case h_1 | h_2 | h_3 => exact ⟨applyContributionEvent_flag hdone, rfl⟩
  case h_4 | h_5 | h_6 | h_7 | h_8 | h_9 | h_10 | h_11 =>
    exact ⟨applyLifecycleEvent_flag hdone (by simp_all), rfl⟩
  all_goals exact ⟨applySettlementEvent_flag hdone (by simp_all), rfl⟩

/-- The flags after an event that is new: one more, or one that was written over. -/
inductive FlagsStep (state : State) (event : Event) : List (Units × Option PendingScopedChoice) → Prop
  | opened (new : ∀ flag ∈ state.threads.map Thread.flag, flag.1 ≠ event.threadId) :
      FlagsStep state event (state.threads.map Thread.flag ++ [(event.threadId, none)])
  | changed (thread : Thread) (mem : thread ∈ state.threads) (its : thread.id = event.threadId)
      (front back : List (Units × Option PendingScopedChoice))
      (split : state.threads.map Thread.flag = front ++ thread.flag :: back)
      (flag : Units × Option PendingScopedChoice) (step : FlagStep state thread event flag) :
      FlagsStep state event (front ++ flag :: back)

theorem ThreadStep.flags (h : ThreadStep lower state event threads) :
    FlagsStep state event (threads.map Thread.flag) := by
  cases h with
  | opened source question thread body new its waiting =>
    have hflag : thread.flag = (event.threadId, none) := Prod.ext its waiting
    rw [List.map_append, List.map_singleton, hflag]
    refine .opened fun flag hflag ↦ ?_
    obtain ⟨other, hother, rfl⟩ := List.mem_map.1 hflag
    exact new other hother
  | changed thread changed threads found version done =>
    obtain ⟨hstep, hflags⟩ := dispatch_flag done
    obtain ⟨front, back, hsplit, hid, hset⟩ := flags_split found
    have hchanged : changed.id = event.threadId := by
      rw [← hid]
      exact hstep.id
    rw [setThread_flags, hflags]
    have := hset changed.flag
    rw [← hchanged] at this
    exact this ▸ .changed thread (List.mem_of_find?_eq_some found) hid front back hsplit _ hstep

end Chopin.Threads
