import Chopin.Lib.Runs
import Chopin.Threads.SupportFacts

/-!
# Support over a history

A history is the events that were accepted, from the first.  In every record that a history leads to, a proposal is
supported by the members whose last word since it is for it, and a thread that waits on a provisional choice waits on
one that somebody supports (`scoped_support`).
-/

set_option autoImplicit false
set_option linter.dupNamespace false

open Script

namespace Chopin.Threads

variable {lower : Units → Units} {state state' : State} {event : Event} {events : List Event} {proposal : Proposal}
  {handle : Units} {favour : Bool}

/-! ## Last words -/

/-- The event is a member's word on the proposal: it proposes or agrees to it, or it is a stance against it. -/
inductive Proposal.Word (proposal : Proposal) : Event → Units → Bool → Prop
  | proposes {handle : Units} (member : proposal.source.author = .member handle) :
      proposal.Word proposal.event handle true
  | agrees {event : Event} {source : SourceRef} {choice : Scoped} {handle : Units}
      (body : event.body = .scopedChoiceAgreed source proposal.event.id choice)
      (member : source.author = .member handle) : proposal.Word event handle true
  | withdraws {event : Event} {source : SourceRef} {optionId : Option Units} {link : Option (Option Units)}
      {position : Position} {handle : Units} (thread : event.threadId = proposal.event.threadId)
      (body : event.body = .stanceChanged source optionId link position) (against : position ≠ .support)
      (option : ∀ target, optionId = some target → target = proposal.choice.optionId)
      (linked : ∀ target, link = some target → target = some proposal.event.id)
      (member : source.author = .member handle) : proposal.Word event handle false

/-- The event is the last word of the member since the proposal. -/
def Proposal.LastWord (proposal : Proposal) (events : List Event) (handle : Units) (event : Event) (favour : Bool) :
    Prop :=
  ∃ earlier since, events = earlier ++ proposal.event :: since ∧
    ∃ before after, proposal.event :: since = before ++ event :: after ∧ proposal.Word event handle favour ∧
      ∀ later ∈ after, ∀ either, ¬proposal.Word later handle either

/-- `event.source.author.handle` -/
def Event.speaker (event : Event) : Option Units := event.body.source.bind (·.author.member?)

variable {optionId : Option Units} {link : Option (Option Units)} {position : Position} {proposalId : Units}

theorem targetsScopedProposal_iff
    {target : Units} : targetsScopedProposal optionId link position (some proposalId) target = true ↔
      position ≠ .support ∧ (∀ its, optionId = some its → its = target) ∧
        ∀ its, link = some its → its = some proposalId := by
  rw [targetsScopedProposal]
  rcases optionId with - | optionId <;> rcases link with - | - | link <;> by_cases h : position = .support <;>
    simp [h]

/-! ## What every history keeps -/

/-- The flag of a thread was set by a proposal that somebody supports. -/
def Backed (events : List Event) (threadId : Units) (pending : PendingScopedChoice) : Prop :=
  ∃ proposal : Proposal, proposal.event ∈ events ∧ pending.proposalId = some proposal.event.id ∧
    proposal.sets threadId pending = true ∧ scopedSupporters events proposal ≠ []

/-- What holds of the record after any history. -/
structure Sound (state : State) : Prop where
  ids : (state.events.map (·.id)).Nodup
  named : ∀ event ∈ state.events, event.id ≠ []
  threads : ((state.threads.map Thread.flag).map Prod.fst).Nodup
  members : ∀ proposal : Proposal, proposal.event ∈ state.events → ∃ handle, proposal.source.author = .member handle
  agreed : ∀ event ∈ state.events, ∀ source proposalId choice,
    event.body = .scopedChoiceAgreed source proposalId choice → ∃ proposal : Proposal,
      proposal.event ∈ state.events ∧ proposal.event.id = proposalId ∧ event.threadId = proposal.event.threadId ∧
        choice = proposal.choice
  waiting : ∀ threadId pending, (threadId, some pending) ∈ state.threads.map Thread.flag →
    Backed state.events threadId pending

theorem Sound.initial : Sound initialState where
  ids := .nil
  named := fun _ h ↦ nomatch h
  threads := .nil
  members := fun _ h ↦ nomatch h
  agreed := fun _ h ↦ nomatch h
  waiting := fun _ _ h ↦ nomatch h

variable {pending : PendingScopedChoice}

variable {threadId : Units}

/-- A word that is not against the proposal leaves it supported. -/
theorem Backed.concat (h : Backed events threadId pending) (hfresh : ∀ accepted ∈ events, accepted.id ≠ event.id)
    (hmembers : ∀ proposal : Proposal, proposal.event ∈ events → ∃ handle, proposal.source.author = .member handle)
    (hkept : ∀ proposal : Proposal, ∀ proposer handle, proposal.event ∈ events →
      proposal.sets threadId pending = true → pending.proposalId = some proposal.event.id →
      proposal.word proposer event = some (handle, false) →
        scopedSupporters (events ++ [event]) proposal ≠ []) : Backed (events ++ [event]) threadId pending := by
  obtain ⟨proposal, hmem, hid, hsets, hsupport⟩ := h
  refine ⟨proposal, List.mem_append_left _ hmem, hid, hsets, ?_⟩
  obtain ⟨proposer, hmember⟩ := hmembers proposal hmem
  have hne : event.id ≠ proposal.event.id := fun heq ↦ hfresh _ hmem heq.symm
  rcases hword : proposal.word proposer event with - | ⟨handle, favour⟩
  · rwa [scopedSupporters_concat hmem hmember hne, LastWords.hear, hword]
  · cases favour with
    | true =>
      rw [scopedSupporters_concat hmem hmember hne, LastWords.hear, hword]
      simp [LastWords.set_delete]
    | false => exact hkept proposal proposer handle hmem hsets hid hword

variable {thread : Thread}

/-- The proposal of a flag that is kept by a stance is supported after it. -/
theorem Sound.stance_kept (h : Sound state) (hthread : thread ∈ state.threads) {source : SourceRef} (hbody : event.body = .stanceChanged source optionId link position)
    (hkept : pendingAfterStance state thread event optionId link position = some pending)
    (hfresh : ∀ accepted ∈ state.events, accepted.id ≠ event.id) :
    Backed (state.events ++ [event]) thread.id pending := by
  rw [pendingAfterStance] at hkept
  have hpending : thread.pendingScopedChoice = some pending := by
    split at hkept
    · exact hkept
    · split at hkept
      · cases hkept
      · exact hkept
  have hflag : (thread.id, some pending) ∈ state.threads.map Thread.flag :=
    List.mem_map.2 ⟨thread, hthread, by rw [Thread.flag, hpending]⟩
  refine (h.waiting _ _ hflag).concat hfresh h.members fun proposal proposer handle hmem hsets hid hword hempty ↦ ?_
  obtain ⟨source', optionId', link', position', hbody', htargets⟩ := word_against hword
  obtain ⟨rfl, rfl, rfl, rfl⟩ := Body.stanceChanged.inj (hbody.symm.trans hbody')
  rw [currentScopedProposal_eq h.ids hpending hid (h.named _ hmem) hsets hmem] at hkept
  simp only [htargets, activeScopedSupport, hempty, Bool.true_and] at hkept
  cases hkept

/-- What a flag is backed by after an event. -/
theorem Sound.flag_backed (h : Sound state) (hthread : thread ∈ state.threads)
    (hits : thread.id = event.threadId) (hfresh : ∀ accepted ∈ state.events, accepted.id ≠ event.id)
    (hshape : assertEventShape lower event = .ok ()) {flag : Units × Option PendingScopedChoice}
    (hstep : FlagStep state thread event flag) (hpending : flag.2 = some pending) :
    Backed (state.events ++ [event]) flag.1 pending := by
  cases hstep with
  | kept silent =>
    have hflag : (thread.id, some pending) ∈ state.threads.map Thread.flag :=
      List.mem_map.2 ⟨thread, hthread, Prod.ext rfl hpending⟩
    refine (h.waiting _ _ hflag).concat hfresh h.members fun proposal proposer handle _ _ _ hword ↦ ?_
    obtain ⟨source, optionId, link, position, hbody, -⟩ := word_against hword
    exact absurd hbody (silent _ _ _ _)
  | cleared => cases hpending
  | stance source optionId link position body => exact h.stance_kept hthread body hpending hfresh
  | proposed source choice proposer body member =>
    cases hpending
    have hscope := assertBodyShape_proposed body (assertEventShape_cases hshape).2
    let proposal : Proposal := ⟨event, source, choice, body⟩
    have hnew : scopedSupporters (state.events ++ [event]) proposal = [(proposer, event)] :=
      scopedSupporters_new member hfresh
    refine ⟨proposal, List.mem_concat_self, rfl, ?_, ?_⟩
    · simp [proposal, Proposal.sets, hits, hscope, member]
    · rw [hnew]
      exact List.cons_ne_nil _ _

/-- The flag of another thread. -/
theorem Sound.other_backed (h : Sound state)
    (hmem : (threadId, some pending) ∈ state.threads.map Thread.flag) (hother : threadId ≠ event.threadId)
    (hfresh : ∀ accepted ∈ state.events, accepted.id ≠ event.id) :
    Backed (state.events ++ [event]) threadId pending := by
  refine (h.waiting _ _ hmem).concat hfresh h.members fun proposal proposer handle hproposal hsets _ hword ↦ ?_
  have hthread := word_of_thread (fun heq ↦ hfresh _ hproposal heq.symm) hword
  simp only [Proposal.sets, Bool.and_eq_true, beq_iff_eq] at hsets
  exact absurd (hsets.1.1.1.1.1.1.symm.trans hthread.symm) hother

variable {threads : List Thread}

/-- A new agreement is to the proposal that its thread waits on. -/
theorem agreement_found {source : SourceRef} {choice : Scoped}
    (hbody : event.body = .scopedChoiceAgreed source proposalId choice) (hstep : ThreadStep lower state event threads) : ∃ proposal : Proposal,
      proposal.event ∈ state.events ∧ proposal.event.id = proposalId ∧ event.threadId = proposal.event.threadId ∧
        choice = proposal.choice := by
  cases hstep with
  | opened _ _ _ body => cases hbody.symm.trans body
  | changed thread changed threads found version done =>
    simp only [dispatch, hbody, applySettlementEvent] at done
    obtain ⟨_, hagreed, -⟩ := Except.map_eq_ok.1 done
    obtain ⟨-, pending, proposal, hpending, hproposal, hid, hfor⟩ := agreeScoped_cases hagreed
    obtain ⟨hmem, hsets⟩ := mem_of_currentScopedProposal hpending hproposal
    have hits : thread.id = event.threadId := by simpa using List.find?_some found
    simp only [Proposal.sets, PendingScopedChoice.isFor, Bool.and_eq_true, beq_iff_eq] at hsets hfor
    obtain ⟨⟨⟨⟨⟨⟨hthread, hcard⟩, hoption⟩, hlabel⟩, hscope⟩, -⟩, -⟩ := hsets
    obtain ⟨⟨⟨hcard', hoption'⟩, hlabel'⟩, hscope'⟩ := hfor
    refine ⟨proposal, hmem, hid, hits.symm.trans hthread.symm, ?_⟩
    cases choice
    cases hchoice : proposal.choice
    simp_all

/-- A new proposal is a member's. -/
theorem proposal_member (hstep : ThreadStep lower state proposal.event threads) :
    ∃ handle, proposal.source.author = .member handle := by
  cases hstep with
  | opened _ _ _ body => cases proposal.body.symm.trans body
  | changed thread changed threads found version done =>
    simp only [dispatch, proposal.body, applySettlementEvent] at done
    obtain ⟨_, hproposed, -⟩ := Except.map_eq_ok.1 done
    obtain ⟨proposer, hmember, -⟩ := proposeScoped_cases hproposed
    exact ⟨proposer, hmember⟩

/-- **An event that is new keeps the record sound.** -/
theorem Sound.step (h : Sound state) (haccepted : Accepted lower state event state') : Sound state' := by
  have hflags := haccepted.threads.flags
  refine ⟨?_, ?_, ?_, ?_, ?_, ?_⟩
  · rw [haccepted.events, List.map_append, List.nodup_append]
    refine ⟨h.ids, List.nodup_singleton _, fun id hid other hother ↦ ?_⟩
    obtain ⟨accepted, hmem, rfl⟩ := List.mem_map.1 hid
    rw [List.map_singleton, List.mem_singleton] at hother
    exact hother ▸ haccepted.fresh accepted hmem
  · rw [haccepted.events]
    intro accepted hmem
    rcases List.mem_append.1 hmem with hmem | hmem
    · exact h.named accepted hmem
    · exact List.mem_singleton.1 hmem ▸ (assertEventShape_cases haccepted.shape).1
  · generalize state'.threads.map Thread.flag = flags at hflags
    cases hflags with
    | opened new =>
      rw [List.map_append, List.nodup_append]
      refine ⟨h.threads, List.nodup_singleton _, fun id hid other hother ↦ ?_⟩
      obtain ⟨flag, hmem, rfl⟩ := List.mem_map.1 hid
      rw [List.map_singleton, List.mem_singleton] at hother
      exact hother ▸ new flag hmem
    | changed thread mem its front back split flag step =>
      have hthreads := h.threads
      rw [split, List.map_append, List.map_cons] at hthreads
      rw [List.map_append, List.map_cons, step.id]
      exact hthreads
  · rw [haccepted.events]
    intro proposal hmem
    rcases List.mem_append.1 hmem with hmem | hmem
    · exact h.members proposal hmem
    · obtain rfl := List.mem_singleton.1 hmem
      exact proposal_member haccepted.threads
  · rw [haccepted.events]
    intro agreement hmem source proposalId choice hbody
    rcases List.mem_append.1 hmem with hmem | hmem
    · obtain ⟨proposal, hproposal, hrest⟩ := h.agreed agreement hmem source proposalId choice hbody
      exact ⟨proposal, List.mem_append_left _ hproposal, hrest⟩
    · obtain rfl := List.mem_singleton.1 hmem
      obtain ⟨proposal, hproposal, hrest⟩ := agreement_found hbody haccepted.threads
      exact ⟨proposal, List.mem_append_left _ hproposal, hrest⟩
  · rw [haccepted.events]
    intro threadId pending hmem
    generalize state'.threads.map Thread.flag = flags at hflags hmem
    cases hflags with
    | opened new =>
      rcases List.mem_append.1 hmem with hmem | hmem
      · exact h.other_backed hmem (new _ hmem) haccepted.fresh
      · cases List.mem_singleton.1 hmem
    | changed thread mem its front back split flag step =>
      have hthreads := h.threads
      rw [split, List.map_append, List.map_cons, List.nodup_middle, List.nodup_cons, List.mem_append] at hthreads
      have hother : (threadId, some pending) ∈ front ∨ (threadId, some pending) ∈ back →
          Backed (state.events ++ [event]) threadId pending := fun hin ↦ by
        refine h.other_backed (split ▸ List.mem_append.2 (hin.imp_right (List.mem_cons_of_mem _))) ?_ haccepted.fresh
        intro heq
        have hits : thread.flag.1 = threadId := its.trans heq.symm
        exact hthreads.1 (hits ▸ hin.imp List.mem_map_of_mem List.mem_map_of_mem)
      rcases List.mem_append.1 hmem with hmem | hmem
      · exact hother (.inl hmem)
      · rcases List.mem_cons.1 hmem with heq | hmem
        · subst heq
          exact h.flag_backed mem its haccepted.fresh haccepted.shape step rfl
        · exact hother (.inr hmem)

/-- One event against the record; a refused one leads nowhere. -/
def accept (lower : Units → Units) (state : State) (event : Event) : Option State :=
  (applyEvent lower state event).toOption

/-- **Every history leads to a sound record.** -/
theorem Sound.run {history : List Event} (run : Runs (accept lower) initialState history state) : Sound state := by
  refine run.invariant .initial fun s event t h hstep ↦ ?_
  obtain ⟨rfl, -⟩ | haccepted := applyEvent_cases (Except.toOption_eq_some.1 hstep)
  · exact h
  · exact h.step haccepted

/-! ## Who supports a proposal -/

/-- In a sound record the map of supporters hears exactly the words on the proposal. -/
theorem Sound.word_iff (h : Sound state) (hproposal : proposal.event ∈ state.events) {proposer : Units}
    (hmember : proposal.source.author = .member proposer) (hmem : event ∈ state.events) :
    proposal.word proposer event = some (handle, favour) ↔ proposal.Word event handle favour := by
  have hsame : event.id = proposal.event.id → event = proposal.event :=
    List.inj_on_of_nodup_map h.ids hmem hproposal
  constructor
  · intro hword
    rw [Proposal.word] at hword
    split at hword
    · rename_i hid
      cases hword
      exact hsame hid ▸ .proposes hmember
    · split at hword
      · rename_i source proposalId choice hbody
        split at hword
        · rename_i hmatch
          obtain ⟨its, hauthor, heq⟩ := Option.map_eq_some_iff.1 hword
          cases heq
          exact .agrees (hmatch.2.1 ▸ hbody) (Author.member?_eq_some.1 hauthor)
        · cases hword
      · rename_i source optionId link position hbody
        split at hword
        · rename_i htargets
          obtain ⟨its, hauthor, heq⟩ := Option.map_eq_some_iff.1 hword
          cases heq
          obtain ⟨hagainst, hoption, hlinked⟩ := targetsScopedProposal_iff.1 htargets.2
          exact .withdraws htargets.1 hbody hagainst hoption hlinked (Author.member?_eq_some.1 hauthor)
        · cases hword
      · cases hword
  · intro hword
    rw [Proposal.word]
    cases hword with
    | proposes member =>
      cases hmember.symm.trans member
      rw [if_pos rfl]
    | agrees body member =>
      have hid : event.id ≠ proposal.event.id := fun hid ↦ by
        cases proposal.body.symm.trans (hsame hid ▸ body)
      obtain ⟨other, hother, heq, hthread, hchoice⟩ := h.agreed event hmem _ _ _ body
      obtain rfl := Proposal.of_id h.ids hother hproposal heq
      rw [if_neg hid, body]
      simp only
      rw [if_pos ⟨hthread, trivial, hchoice⟩, member]
      rfl
    | withdraws thread body against option linked member =>
      have hid : event.id ≠ proposal.event.id := fun hid ↦ by
        cases proposal.body.symm.trans (hsame hid ▸ body)
      rw [if_neg hid, body]
      simp only
      rw [if_pos ⟨thread, targetsScopedProposal_iff.2 ⟨against, option, linked⟩⟩, member]
      rfl

/-- A word is its member's. -/
theorem Proposal.Word.speaker (h : proposal.Word event handle favour) : event.speaker = some handle := by
  cases h with
  | proposes member => rw [Event.speaker, proposal.body]; exact Author.member?_eq_some.2 member
  | agrees body member => rw [Event.speaker, body]; exact Author.member?_eq_some.2 member
  | withdraws _ body _ _ _ member => rw [Event.speaker, body]; exact Author.member?_eq_some.2 member

/-- No event but the proposal has its identifier. -/
theorem Sound.apart (h : Sound state) {earlier since : List Event}
    (hsplit : state.events = earlier ++ proposal.event :: since) :
    (∀ item ∈ earlier, item.id ≠ proposal.event.id) ∧ ∀ item ∈ since, item.id ≠ proposal.event.id := by
  have hids := h.ids
  rw [hsplit, List.map_append, List.map_cons, List.nodup_middle, List.nodup_cons, List.mem_append, not_or] at hids
  exact ⟨fun item hitem heq ↦ hids.1.1 (heq ▸ List.mem_map_of_mem hitem),
    fun item hitem heq ↦ hids.1.2 (heq ▸ List.mem_map_of_mem hitem)⟩

/-- The map of supporters holds the last words that are for the proposal. -/
theorem Sound.mem_scopedSupporters (h : Sound state) (hproposal : proposal.event ∈ state.events) :
    (handle, event) ∈ scopedSupporters state.events proposal ↔ proposal.LastWord state.events handle event true := by
  obtain ⟨proposer, hmember⟩ := h.members proposal hproposal
  have hsplits : ∀ earlier since, state.events = earlier ++ proposal.event :: since →
      ((handle, event) ∈ scopedSupporters state.events proposal ↔
        ∃ before after, proposal.event :: since = before ++ event :: after ∧ proposal.Word event handle true ∧
          ∀ later ∈ after, ∀ either, ¬proposal.Word later handle either) := by
    intro earlier since hsplit
    obtain ⟨hearlier, hsince⟩ := h.apart hsplit
    rw [hsplit, scopedSupporters_eq hmember hearlier hsince, LastWords.mem_hear]
    refine exists_congr fun before ↦ exists_congr fun after ↦ and_congr_right fun hitems ↦ ?_
    have hin : ∀ item ∈ before ++ event :: after, item ∈ state.events := fun item hitem ↦
      hsplit ▸ List.mem_append_right _ (hitems ▸ hitem)
    refine and_congr (h.word_iff hproposal hmember (hin _ (by simp))) ?_
    exact forall₂_congr fun later hlater ↦ forall_congr' fun either ↦
      not_congr (h.word_iff hproposal hmember (hin _ (by simp [hlater])))
  constructor
  · intro hmem
    obtain ⟨earlier, since, hsplit⟩ := List.append_of_mem hproposal
    exact ⟨earlier, since, hsplit, (hsplits earlier since hsplit).1 hmem⟩
  · rintro ⟨earlier, since, hsplit, hlast⟩
    exact (hsplits earlier since hsplit).2 hlast

/-- The supporting events, once each and in the order of the history. -/
theorem Sound.support_order (h : Sound state) (hproposal : proposal.event ∈ state.events) :
    ((activeScopedSupport state.events proposal).map Event.speaker).Nodup ∧
      (activeScopedSupport state.events proposal).Sublist state.events := by
  obtain ⟨proposer, hmember⟩ := h.members proposal hproposal
  obtain ⟨earlier, since, hsplit⟩ := List.append_of_mem hproposal
  obtain ⟨hearlier, hsince⟩ := h.apart hsplit
  have hspeakers : (scopedSupporters state.events proposal).map (fun entry ↦ entry.2.speaker) =
      ((scopedSupporters state.events proposal).map Prod.fst).map some := by
    rw [List.map_map]
    refine List.map_congr_left fun entry hentry ↦ ?_
    obtain ⟨_, _, _, _, _, _, hword, _⟩ := (h.mem_scopedSupporters hproposal).1 hentry
    exact hword.speaker
  constructor
  · rw [activeScopedSupport, List.map_map]
    refine (congrArg List.Nodup hspeakers).mpr (List.Nodup.map (fun _ _ ↦ Option.some.inj) ?_)
    rw [hsplit, scopedSupporters_eq hmember hearlier hsince]
    exact LastWords.nodup_hear _
  · rw [activeScopedSupport, hsplit, scopedSupporters_eq hmember hearlier hsince]
    exact (LastWords.hear_sublist _).trans (List.sublist_append_right _ _)

/-- A thread that waits, waits on a proposal that somebody supports. -/
theorem Sound.waiting_supported (h : Sound state) (hthread : thread ∈ state.threads)
    (hwaits : thread.pendingScopedChoice.isSome) : ∃ proposal, currentScopedProposal thread state.events =
      some proposal ∧ activeScopedSupport state.events proposal ≠ [] := by
  obtain ⟨pending, hpending⟩ := Option.isSome_iff_exists.1 hwaits
  have hflag : (thread.id, some pending) ∈ state.threads.map Thread.flag :=
    List.mem_map.2 ⟨thread, hthread, by rw [Thread.flag, hpending]⟩
  obtain ⟨proposal, hmem, hid, hsets, hsupport⟩ := h.waiting _ _ hflag
  refine ⟨proposal, currentScopedProposal_eq h.ids hpending hid (h.named _ hmem) hsets hmem, fun hempty ↦ ?_⟩
  rw [activeScopedSupport, List.map_eq_nil_iff] at hempty
  exact hsupport hempty

/-- **After any history, a proposal is supported by the members whose last word since it is for it,** each once and in
the order of the history; and a thread that waits on a provisional choice waits on a proposal that somebody supports. -/
theorem scoped_support (history : List Event) (run : Runs (accept lower) initialState history state) :
    (∀ proposal : Proposal, proposal.event ∈ state.events →
      ((activeScopedSupport state.events proposal).map Event.speaker).Nodup ∧
      (∀ event, event ∈ activeScopedSupport state.events proposal ↔
        ∃ handle, event.speaker = some handle ∧ proposal.LastWord state.events handle event true) ∧
      (activeScopedSupport state.events proposal).Sublist state.events) ∧
    ∀ thread ∈ state.threads, thread.pendingScopedChoice.isSome → ∃ proposal,
      currentScopedProposal thread state.events = some proposal ∧ activeScopedSupport state.events proposal ≠ [] := by
  have hsound := Sound.run run
  refine ⟨fun proposal hproposal ↦ ?_, fun thread hthread hwaits ↦ hsound.waiting_supported hthread hwaits⟩
  obtain ⟨hnodup, horder⟩ := hsound.support_order hproposal
  refine ⟨hnodup, fun event ↦ ?_, horder⟩
  rw [activeScopedSupport, List.mem_map]
  constructor
  · rintro ⟨⟨handle, supporter⟩, hmem, rfl⟩
    have hlast := (hsound.mem_scopedSupporters hproposal).1 hmem
    obtain ⟨_, _, _, _, _, _, hword, _⟩ := id hlast
    exact ⟨handle, hword.speaker, hlast⟩
  · rintro ⟨handle, -, hlast⟩
    exact ⟨(handle, event), (hsound.mem_scopedSupporters hproposal).2 hlast, rfl⟩

/-- A person's words in a message. -/
def sampleSource (message handle quote : String) (role : SourceRole) : SourceRef :=
  ⟨utf16 message, .member (utf16 handle), utf16 quote, 0, quote.length, role⟩

def sampleEvent (id : String) (version : Nat) (origin : Origin) (actor : Actor) (body : Body) : Event :=
  ⟨utf16 id, utf16 "t", version, origin, actor, 0, body⟩

def sampleChoice : Scoped := ⟨utf16 "card", utf16 "o", utf16 "Zig", utf16 "spike"⟩

/-- One member proposes a choice for a spike, another agrees, and the first takes it back. -/
def sampleHistory : List Event :=
  [sampleEvent "e1" 0 .planner .agent (.threadOpened none (utf16 "Which language?")),
    sampleEvent "e2" 1 .classifier .classifier (.cardLinked (utf16 "card")),
    sampleEvent "e3" 2 .classifier .classifier
      (.scopedChoiceProposed (sampleSource "m1" "ana" "I'd pick Zig for the spike" .support) sampleChoice),
    sampleEvent "e4" 3 .classifier .classifier
      (.scopedChoiceAgreed (sampleSource "m2" "bo" "yep, Zig for the spike." .support) (utf16 "e3") sampleChoice),
    sampleEvent "e5" 4 .classifier .classifier
      (.stanceChanged (sampleSource "m3" "ana" "not any more" .objection) none none .oppose)]

def sampleState : State := (sampleHistory.foldlM (accept id) initialState).getD initialState

theorem sampleHistory_run : Runs (accept id) initialState sampleHistory sampleState := by
  have haccepted : (sampleHistory.foldlM (accept id) initialState).isSome = true := by decide
  obtain ⟨state, hstate⟩ := Option.isSome_iff_exists.1 haccepted
  exact runs_iff_foldlM.2 (by rw [sampleState, hstate]; rfl)

theorem scoped_support_sample : (∃ thread ∈ sampleState.threads, thread.pendingScopedChoice.isSome = true) ∧
    (∀ proposal : Proposal, proposal.event ∈ sampleState.events →
      ((activeScopedSupport sampleState.events proposal).map Event.speaker).Nodup ∧
      (∀ event, event ∈ activeScopedSupport sampleState.events proposal ↔
        ∃ handle, event.speaker = some handle ∧ proposal.LastWord sampleState.events handle event true) ∧
      (activeScopedSupport sampleState.events proposal).Sublist sampleState.events) ∧
    ∀ thread ∈ sampleState.threads, thread.pendingScopedChoice.isSome → ∃ proposal,
      currentScopedProposal thread sampleState.events = some proposal ∧
        activeScopedSupport sampleState.events proposal ≠ [] :=
  ⟨by decide, scoped_support sampleHistory sampleHistory_run⟩

end Chopin.Threads
