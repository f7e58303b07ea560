import Chopin.Lib.LastWords
import Chopin.Threads.EventFacts

/-!
# The word of an event on a proposal

An event may be a member's word on a proposal: the proposal itself and an agreement are for it, a stance that targets
it is against it.  Who supports the proposal are the members whose last word is for it (`scopedSupporters_eq`).
-/

set_option autoImplicit false
set_option linter.dupNamespace false

open Script

namespace Chopin.Threads

variable {events : List Event} {proposal : Proposal} {proposer handle : Units} {item : Event} {favour : Bool}

/-! ## Proposals -/

variable {other : Proposal}

theorem Proposal.ext_event (h : proposal.event = other.event) : proposal = other := by
  obtain ⟨event, source, choice, body⟩ := proposal
  obtain ⟨event', source', choice', body'⟩ := other
  obtain rfl : event = event' := h
  obtain ⟨rfl, rfl⟩ := Body.scopedChoiceProposed.inj (body.symm.trans body')
  rfl

theorem proposal?_eq_some {event : Event} : event.proposal? = some proposal ↔ proposal.event = event := by
  constructor
  · intro h
    unfold Event.proposal? at h
    split at h
    · cases h
      rfl
    · cases h
  · rintro rfl
    unfold Event.proposal?
    split
    · exact congrArg some (Proposal.ext_event rfl)
    · rename_i hother
      exact absurd proposal.body (hother _ _)

theorem mem_proposals : proposal ∈ events.filterMap Event.proposal? ↔ proposal.event ∈ events := by
  simp only [List.mem_filterMap, proposal?_eq_some]
  exact ⟨fun ⟨event, hmem, heq⟩ ↦ heq ▸ hmem, fun hmem ↦ ⟨_, hmem, rfl⟩⟩

/-- Where no identifier is used twice, an event is the one of its identifier. -/
theorem Proposal.of_id (hnodup : (events.map (·.id)).Nodup) (hmem : proposal.event ∈ events)
    (hother : other.event ∈ events) (hid : proposal.event.id = other.event.id) : proposal = other :=
  Proposal.ext_event (List.inj_on_of_nodup_map hnodup hmem hother hid)

variable {pending : PendingScopedChoice}

/-- The proposal whose identifier the flag has is the one the thread waits on. -/
theorem currentScopedProposal_eq {thread : Thread}
    (hnodup : (events.map (·.id)).Nodup) (hpending : thread.pendingScopedChoice = some pending)
    (hid : pending.proposalId = some proposal.event.id) (hnamed : proposal.event.id ≠ [])
    (hsets : proposal.sets thread.id pending = true) (hmem : proposal.event ∈ events) :
    currentScopedProposal thread events = some proposal := by
  have htruthy : truthy pending.proposalId = some proposal.event.id := by
    rw [truthy, hid, Option.filter_some, if_pos (bne_iff_ne.2 hnamed)]
  have hfound : proposal ∈ (events.filterMap Event.proposal?).filter (·.sets thread.id pending) :=
    List.mem_filter.2 ⟨mem_proposals.2 hmem, hsets⟩
  obtain ⟨other, hother⟩ : ∃ other, ((events.filterMap Event.proposal?).filter (·.sets thread.id pending)).find?
      (·.event.id == proposal.event.id) = some other :=
    Option.isSome_iff_exists.1 (List.find?_isSome.2 ⟨proposal, hfound, beq_self_eq_true _⟩)
  have hin := mem_proposals.1 (List.mem_filter.1 (List.mem_of_find?_eq_some hother)).1
  have hsame : other.event.id = proposal.event.id := by simpa using List.find?_some hother
  rw [currentScopedProposal, hpending]
  simp only [htruthy]
  rw [hother, Proposal.of_id hnodup hin hmem hsame]

theorem mem_of_currentScopedProposal {thread : Thread}
    (hpending : thread.pendingScopedChoice = some pending) (h : currentScopedProposal thread events = some proposal) :
    proposal.event ∈ events ∧ proposal.sets thread.id pending = true := by
  have hfound : proposal ∈ (events.filterMap Event.proposal?).filter (·.sets thread.id pending) := by
    rw [currentScopedProposal, hpending] at h
    simp only at h
    split at h
    · exact List.mem_of_find?_eq_some h
    · split at h
      · exact List.mem_of_head? h
      · cases h
  exact ⟨mem_proposals.1 (List.mem_filter.1 hfound).1, (List.mem_filter.1 hfound).2⟩

/-! ## Words -/

/-- The member whose word the event is, and whether it is for the proposal. -/
def Proposal.word (proposal : Proposal) (proposer : Units) (item : Event) : Option (Units × Bool) :=
  if item.id = proposal.event.id then some (proposer, true)
  else match item.body with
    | .scopedChoiceAgreed source proposalId choice =>
      if item.threadId = proposal.event.threadId ∧ proposalId = proposal.event.id ∧ choice = proposal.choice then
        source.author.member?.map (·, true)
      else none
    | .stanceChanged source optionId scopedProposalId position =>
      if item.threadId = proposal.event.threadId ∧
          targetsScopedProposal optionId scopedProposalId position (some proposal.event.id)
            proposal.choice.optionId then source.author.member?.map (·, false)
      else none
    | _ => none

/-- An event after the proposal is heard by its word. -/
theorem hearSupport_eq (hid : item.id ≠ proposal.event.id) (active : List (Units × Event)) :
    hearSupport proposal proposer active item = LastWords.hear (proposal.word proposer) active item := by
  rw [hearSupport, if_neg hid, LastWords.hear, Proposal.word, if_neg hid]
  cases item.body with
  | scopedChoiceAgreed source proposalId choice =>
    cases hauthor : source.author.member? with
    | none => simp [hauthor]
    | some handle =>
      by_cases h : item.threadId = proposal.event.threadId ∧ proposalId = proposal.event.id ∧
        choice = proposal.choice <;> simp [h, hauthor]
  | stanceChanged source optionId link position =>
    cases hauthor : source.author.member? with
    | none => simp [hauthor]
    | some handle =>
      by_cases h : item.threadId = proposal.event.threadId ∧ targetsScopedProposal optionId link position
        (some proposal.event.id) proposal.choice.optionId = true <;> simp [h, hauthor]
  | _ => rfl

/-- Another thread's events say nothing of a proposal. -/
theorem word_of_thread (hid : item.id ≠ proposal.event.id) (h : proposal.word proposer item = some (handle, favour)) :
    item.threadId = proposal.event.threadId := by
  rw [Proposal.word, if_neg hid] at h
  split at h
  · split at h
    · rename_i hsame
      exact hsame.1
    · cases h
  · split at h
    · rename_i hsame
      exact hsame.1
    · cases h
  · cases h

/-- A word against a proposal is a stance that targets it. -/
theorem word_against (h : proposal.word proposer item = some (handle, false)) :
    ∃ source optionId link position, item.body = .stanceChanged source optionId link position ∧
      targetsScopedProposal optionId link position (some proposal.event.id) proposal.choice.optionId = true := by
  rw [Proposal.word] at h
  split at h
  · cases h
  · split at h
    · split at h
      · obtain ⟨_, -, heq⟩ := Option.map_eq_some_iff.1 h
        cases heq
      · cases h
    · rename_i source optionId link position hbody
      split at h
      · rename_i htargets
        exact ⟨source, optionId, link, position, hbody, htargets.2⟩
      · cases h
    · cases h

/-! ## The map of supporters -/

/-- The map of a proposal that a member made, from where it stands. -/
theorem scopedSupporters_from {start : Nat} (hmember : proposal.source.author = .member proposer)
    (hstart : events.findIdx? (·.id == proposal.event.id) = some start) :
    scopedSupporters events proposal = (events.drop start).foldl (hearSupport proposal proposer) [] := by
  rw [scopedSupporters, hstart, hmember]
  rfl

/-- **Who supports a proposal are those whose last word since it is for it.** -/
theorem scopedSupporters_eq {earlier since : List Event} (hmember : proposal.source.author = .member proposer)
    (hearlier : ∀ item ∈ earlier, item.id ≠ proposal.event.id) (hsince : ∀ item ∈ since, item.id ≠ proposal.event.id) :
    scopedSupporters (earlier ++ proposal.event :: since) proposal =
      (proposal.event :: since).foldl (LastWords.hear (proposal.word proposer)) [] := by
  have hstart : (earlier ++ proposal.event :: since).findIdx? (·.id == proposal.event.id) = some earlier.length := by
    rw [List.findIdx?_append, List.findIdx?_eq_none_iff.2 fun item hitem ↦ beq_eq_false_iff_ne.2 (hearlier item hitem)]
    simp [List.findIdx?_cons]
  have hfirst : hearSupport proposal proposer [] proposal.event =
      LastWords.hear (proposal.word proposer) [] proposal.event := by
    rw [hearSupport, if_pos rfl, LastWords.hear, Proposal.word, if_pos rfl]
    rfl
  have hrest : ∀ active, since.foldl (hearSupport proposal proposer) active =
      since.foldl (LastWords.hear (proposal.word proposer)) active := fun active ↦
    List.foldl_ext _ _ active fun active item hitem ↦ hearSupport_eq (hsince item hitem) active
  rw [scopedSupporters_from hmember hstart, List.drop_left, List.foldl_cons, List.foldl_cons, hfirst, hrest]

/-- One more event. -/
theorem scopedSupporters_concat (hmem : proposal.event ∈ events) (hmember : proposal.source.author = .member proposer)
    (hid : item.id ≠ proposal.event.id) : scopedSupporters (events ++ [item]) proposal =
      LastWords.hear (proposal.word proposer) (scopedSupporters events proposal) item := by
  obtain ⟨start, hstart⟩ : ∃ start, events.findIdx? (·.id == proposal.event.id) = some start :=
    Option.isSome_iff_exists.1 (List.findIdx?_isSome.trans (List.any_eq_true.2 ⟨_, hmem, beq_self_eq_true _⟩))
  have hle : start ≤ events.length := by
    obtain ⟨hlt, -⟩ := List.findIdx?_eq_some_iff_getElem.1 hstart
    exact Nat.le_of_lt hlt
  have hlonger : (events ++ [item]).findIdx? (·.id == proposal.event.id) = some start := by
    rw [List.findIdx?_append, hstart, Option.some_or]
  rw [scopedSupporters_from hmember hlonger, scopedSupporters_from hmember hstart,
    List.drop_append_of_le_length hle, List.foldl_append, List.foldl_cons, List.foldl_nil, hearSupport_eq hid]

/-- A proposal starts with the support of the one who makes it. -/
theorem scopedSupporters_new (hmember : proposal.source.author = .member proposer)
    (hfresh : ∀ item ∈ events, item.id ≠ proposal.event.id) :
    scopedSupporters (events ++ [proposal.event]) proposal = [(proposer, proposal.event)] := by
  rw [scopedSupporters_eq hmember hfresh fun item h ↦ absurd h List.not_mem_nil, List.foldl_cons, List.foldl_nil,
    LastWords.hear, Proposal.word, if_pos rfl]
  rfl

end Chopin.Threads
