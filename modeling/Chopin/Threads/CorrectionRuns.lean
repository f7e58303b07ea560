import Chopin.Threads.Corrections
import Chopin.Threads.EventFacts

/-!
# Submitting a correction again

A client that does not hear of its correction submits it again.  Whatever was accepted in between, an action of the same
identifier by the same member changes nothing; it is accepted exactly when it says what the accepted one said
(`correction_replay`).

An excerpt that names no option is put under its thread, and its event is the one of an excerpt that names the thread.
The two say the same, by what is kept of them, though only the first may be submitted first
(`excerpt_target_not_refused`).
-/

set_option autoImplicit false
set_option linter.dupNamespace false

open Script Chopin.Mdx
open Except (demand demand_eq_ok demand_bind_eq_ok)

namespace Chopin.Threads

variable {lower : Units → Units} {messages : Units → Option Entry} {minted handle : Units} {state state' : State}
  {action again : CorrectionAction} {event : Event} {«at» : Nat}

/-! ## What an action says -/

/-- An excerpt that names no option is put under its thread. -/
def CorrectionChange.within (threadId : Units) : CorrectionChange → CorrectionChange
  | addExcerpt messageId start stop contributionKind targetOptionId =>
    addExcerpt messageId start stop contributionKind (some (targetOptionId.getD threadId))
  | change => change

/-- What an action says: its thread, the version it was made on, and the change. -/
def CorrectionAction.content (action : CorrectionAction) : Units × Nat × CorrectionChange :=
  (action.threadId, action.expectedVersion, action.change.within action.threadId)

/-- The message an action takes its excerpt from. -/
def CorrectionChange.message : CorrectionChange → Option Units
  | addExcerpt messageId _ _ _ _ => some messageId
  | _ => none

/-- The change that an event's fields keep. -/
def Body.change : Body → Option CorrectionChange
  | contributionAdded kind (some source) contribution =>
    some (.addExcerpt source.messageId source.start source.end kind contribution.targetId)
  | decisionRecorded _ text optionId _ => some (.recordDecision text optionId)
  | candidateConfirmed candidateId => some (.confirmCandidate candidateId)
  | candidateRejected candidateId => some (.rejectCandidate candidateId)
  | cardCorrected change => some change
  | _ => none

/-- The checks of an excerpt that do not look at what became of the record. -/
structure Excerpted (messages : Units → Option Entry) (messageId : Units) (start stop : Nat) (kind : ContributionKind)
    (saved : Entry) : Prop where
  found : messages messageId = some saved
  valid : validateSource ⟨messageId, saved.author, slice saved.text start stop, start, stop, kind.role⟩ saved = .ok ()
  quote : (!isBlank (slice saved.text start stop) && (slice saved.text start stop).length ≤ 500) = true

variable {existing : Option Event} {body : Body}

variable {messageId : Units} {kind : ContributionKind} {targetOptionId : Option Units}

/-- **The fields of an excerpt's event.** -/
theorem correctionBody_excerpt {start stop : Nat} (hchange : action.change = .addExcerpt messageId start stop kind targetOptionId)
    (h : correctionBody messages minted state action existing = .ok body) :
    ∃ saved, Excerpted messages messageId start stop kind saved ∧
      (∃ thread ∈ state.threads, thread.id = action.threadId) ∧ body = .contributionAdded kind
        (some ⟨messageId, saved.author, slice saved.text start stop, start, stop, kind.role⟩)
        ⟨((existing.bind (·.body.contribution?)).map (·.id)).getD minted, slice saved.text start stop, .quoted,
          some (targetOptionId.getD action.threadId), none⟩ := by
  rw [correctionBody, hchange] at h
  simp only at h
  split at h
  · cases h
  · rename_i saved hsaved
    obtain ⟨⟨⟩, hvalid, h⟩ := Except.bind_eq_ok.1 h
    obtain ⟨hquote, h⟩ := demand_bind_eq_ok.1 h
    obtain ⟨-, h⟩ := demand_bind_eq_ok.1 h
    split at h
    · cases h
    · rename_i target htarget
      simp only [demand_bind_eq_ok, Except.ok.injEq] at h
      have hid : target.id = action.threadId := by simpa using List.find?_some htarget
      exact ⟨saved, ⟨hsaved, hvalid, hquote⟩, ⟨target, List.mem_of_find?_eq_some htarget, hid⟩, h.2.2.2.2.symm⟩

/-- An excerpt that is there already is asked no more than that its message and its thread are. -/
theorem correctionBody_again {start stop : Nat} {existing : Event} {saved : Entry}
    (hchange : action.change = .addExcerpt messageId start stop kind targetOptionId)
    (hsaved : Excerpted messages messageId start stop kind saved)
    (hthread : ∃ thread ∈ state.threads, thread.id = action.threadId) :
    correctionBody messages minted state action (some existing) = .ok (.contributionAdded kind
      (some ⟨messageId, saved.author, slice saved.text start stop, start, stop, kind.role⟩)
      ⟨(existing.body.contribution?.map (·.id)).getD minted, slice saved.text start stop, .quoted,
        some (targetOptionId.getD action.threadId), none⟩) := by
  obtain ⟨thread, hmem, hid⟩ := hthread
  obtain ⟨target, htarget⟩ : ∃ target, state.threads.find? (·.id == action.threadId) = some target :=
    Option.isSome_iff_exists.1 (List.find?_isSome.2 ⟨thread, hmem, beq_iff_eq.2 hid⟩)
  rw [correctionBody, hchange]
  simp only [hsaved.found, hsaved.valid, htarget, Option.isSome_some, Bool.or_true, Bool.true_or, Except.ok_bind]
  rw [hsaved.quote]
  rfl

/-- The fields of an event keep what its action says. -/
theorem correctionBody_change (h : correctionBody messages minted state action existing = .ok body) :
    body.change = some (action.change.within action.threadId) := by
  cases hchange : action.change with
  | addExcerpt messageId start stop kind targetOptionId =>
    obtain ⟨saved, -, -, rfl⟩ := correctionBody_excerpt hchange h
    rfl
  | _ =>
    rw [correctionBody, hchange] at h
    cases h
    rfl

/-- The fields of the event of any other action are read off the action. -/
theorem correctionBody_plain (hchange : action.change.message = none) (messages' : Units → Option Entry)
    (minted' : Units) (state' : State) (existing existing' : Option Event) :
    correctionBody messages minted state action existing =
      correctionBody messages' minted' state' action existing' := by
  rw [correctionBody, correctionBody]
  cases haction : action.change with
  | addExcerpt => rw [haction] at hchange; cases hchange
  | _ => rfl

/-! ## Records that come later -/

/-- Every thread is still there. -/
def Keeps (before after : List Thread) : Prop := ∀ thread ∈ before, ∃ kept ∈ after, kept.id = thread.id

theorem Keeps.refl (threads : List Thread) : Keeps threads threads := fun thread hmem ↦ ⟨thread, hmem, rfl⟩

theorem Keeps.trans {before middle after : List Thread} (first : Keeps before middle) (second : Keeps middle after) :
    Keeps before after := by
  intro thread hmem
  obtain ⟨kept, hkept, hid⟩ := first thread hmem
  obtain ⟨last, hlast, hsame⟩ := second kept hkept
  exact ⟨last, hlast, hsame.trans hid⟩

theorem ThreadStep.keeps {threads : List Thread} (h : ThreadStep lower state event threads) :
    Keeps state.threads threads := by
  intro thread hmem
  have hids : ∀ flag ∈ state.threads.map Thread.flag, flag.1 ∈ (threads.map Thread.flag).map Prod.fst := by
    have hflags := h.flags
    generalize threads.map Thread.flag = flags at hflags
    intro flag hflag
    cases hflags with
    | opened => exact List.mem_map_of_mem (List.mem_append_left _ hflag)
    | changed thread mem its front back split new step =>
      rw [split] at hflag
      rw [List.map_append, List.map_cons, step.id]
      simpa [Thread.flag] using List.mem_map_of_mem (f := Prod.fst) hflag
  obtain ⟨flag, hflag, hid⟩ := List.mem_map.1 (hids _ (List.mem_map_of_mem hmem))
  obtain ⟨kept, hkept, rfl⟩ := List.mem_map.1 hflag
  exact ⟨kept, hkept, hid⟩

/-- A record and those that come after it: by any accepted event, and by whatever else is recorded beside the history
and the threads, such as an analysis. -/
inductive Later (lower : Units → Units) : State → State → Prop
  | refl (state : State) : Later lower state state
  | event {before middle after : State} (event : Event) (h : Later lower before middle)
      (accepted : applyEvent lower middle event = .ok after) : Later lower before after
  | beside {before middle after : State} (h : Later lower before middle) (events : after.events = middle.events)
      (threads : Keeps middle.threads after.threads) : Later lower before after

/-- A person's correction is an event, or changes nothing. -/
theorem Later.correction {before : State} (h : Later lower before state)
    (accepted : applyCorrection lower messages minted state action handle «at» = .ok state') :
    Later lower before state' := by
  rw [applyCorrection] at accepted
  obtain ⟨-, -, accepted⟩ := Except.bind_eq_ok.1 accepted
  obtain ⟨-, accepted⟩ := demand_bind_eq_ok.1 accepted
  obtain ⟨body, -, accepted⟩ := Except.bind_eq_ok.1 accepted
  split at accepted
  · obtain ⟨-, heq⟩ := demand_bind_eq_ok.1 accepted
    cases heq
    exact h
  · exact .event _ h (demand_bind_eq_ok.1 accepted).2

/-- What is in the history stays there, first of its identifier, and so do the threads. -/
theorem Later.keeps {before after : State} (h : Later lower before after) :
    (∃ more, after.events = before.events ++ more) ∧ Keeps before.threads after.threads := by
  induction h with
  | refl => exact ⟨⟨[], (List.append_nil _).symm⟩, .refl _⟩
  | event event _ accepted ih =>
    obtain ⟨⟨more, hmore⟩, hkeeps⟩ := ih
    obtain ⟨rfl, -⟩ | new := applyEvent_cases accepted
    · exact ⟨⟨more, hmore⟩, hkeeps⟩
    · exact ⟨⟨more ++ [event], by rw [new.events, hmore, List.append_assoc]⟩, hkeeps.trans new.threads.keeps⟩
  | beside _ events threads ih =>
    obtain ⟨⟨more, hmore⟩, hkeeps⟩ := ih
    exact ⟨⟨more, events.trans hmore⟩, hkeeps.trans threads⟩

/-! ## An action that is in the record -/

/-- The event of an action, at no time in particular. -/
def CorrectionAction.toEvent (action : CorrectionAction) (handle : Units) (body : Body) : Event :=
  ⟨humanId handle action.actionId, action.threadId, action.expectedVersion, .human, .member handle, 0, body⟩

/-- The action is in the record: the event of its identifier is the action's. -/
structure Recorded (messages : Units → Option Entry) (action : CorrectionAction) (handle : Units) (state : State) :
    Prop where
  asserted : assertCorrectionAction action = .ok ()
  member : (handle != []) = true
  found : ∃ existing body, state.events.find? (·.id == humanId handle action.actionId) = some existing ∧
    { existing with «at» := 0 } = action.toEvent handle body ∧
      ∀ minted, correctionBody messages minted state action (some existing) = .ok body

variable {messages' : Units → Option Entry}

/-- The fields of an event that is there already do not depend on what became of the record. -/
theorem correctionBody_later {existing : Event}
    (h : correctionBody messages minted state action (some existing) = .ok body)
    (hkeeps : Keeps state.threads state'.threads)
    (hsaved : ∀ messageId, action.change.message = some messageId → messages' messageId = messages messageId) :
    correctionBody messages' minted state' action (some existing) = .ok body := by
  cases hchange : action.change with
  | addExcerpt messageId start stop kind targetOptionId =>
    obtain ⟨saved, hexcerpt, ⟨thread, hmem, hid⟩, rfl⟩ := correctionBody_excerpt hchange h
    obtain ⟨kept, hkept, hsame⟩ := hkeeps thread hmem
    have hmessage : messages' messageId = messages messageId := hsaved _ (by rw [hchange]; rfl)
    exact correctionBody_again hchange ⟨hmessage.trans hexcerpt.found, hexcerpt.valid, hexcerpt.quote⟩
      ⟨kept, hkept, hsame.trans hid⟩
  | _ => exact (correctionBody_plain (by rw [hchange]; rfl) ..).trans h

/-- An event that has its action's fields gives them whatever identifier is minted. -/
theorem correctionBody_minted {added : Event}
    (h : correctionBody messages minted state action existing = .ok added.body)
    (hkeeps : Keeps state.threads state'.threads) (minted' : Units) :
    correctionBody messages minted' state' action (some added) = .ok added.body := by
  cases hchange : action.change with
  | addExcerpt messageId start stop kind targetOptionId =>
    obtain ⟨saved, hexcerpt, ⟨thread, hmem, hid⟩, hbody⟩ := correctionBody_excerpt hchange h
    obtain ⟨kept, hkept, hsame⟩ := hkeeps thread hmem
    rw [correctionBody_again hchange hexcerpt ⟨kept, hkept, hsame.trans hid⟩, hbody]
    rfl
  | _ => exact (correctionBody_plain (by rw [hchange]; rfl) ..).trans h

/-- **An accepted action is in the record.** -/
theorem Recorded.of_accepted (h : applyCorrection lower messages minted state action handle «at» = .ok state') :
    Recorded messages action handle state' := by
  rw [applyCorrection] at h
  obtain ⟨⟨⟩, hasserted, h⟩ := Except.bind_eq_ok.1 h
  obtain ⟨hmember, h⟩ := demand_bind_eq_ok.1 h
  obtain ⟨body, hbody, h⟩ := Except.bind_eq_ok.1 h
  split at h
  · rename_i existing hexisting
    obtain ⟨hsame, h⟩ := demand_bind_eq_ok.1 h
    cases h
    have heq : { existing with «at» := 0 } = action.toEvent handle body := beq_iff_eq.1 hsame
    have hits : existing.body = body := congrArg Event.body heq
    refine ⟨hasserted, hmember, existing, body, hexisting, heq, fun minted' ↦ ?_⟩
    subst hits
    exact correctionBody_minted hbody (.refl _) minted'
  · rename_i hexisting
    obtain ⟨-, h⟩ := demand_bind_eq_ok.1 h
    obtain ⟨-, accepted, hmem, hid⟩ | new := applyEvent_cases h
    · exact absurd (beq_iff_eq.2 hid) (List.find?_eq_none.1 hexisting accepted hmem)
    · refine ⟨hasserted, hmember, ⟨humanId handle action.actionId, action.threadId, action.expectedVersion, .human,
        .member handle, «at», body⟩, body, ?_, rfl, fun minted' ↦ ?_⟩
      · rw [new.events, List.find?_append, hexisting, Option.none_or]
        exact List.find?_cons_of_pos (beq_self_eq_true _)
      · exact correctionBody_minted hbody new.threads.keeps minted'

/-- An action stays in the record. -/
theorem Recorded.later (h : Recorded messages action handle state) (hlater : Later lower state state')
    (hsaved : ∀ messageId, action.change.message = some messageId → messages' messageId = messages messageId) :
    Recorded messages' action handle state' := by
  obtain ⟨⟨more, hmore⟩, hkeeps⟩ := hlater.keeps
  obtain ⟨existing, body, hfound, heq, hbody⟩ := h.found
  refine ⟨h.asserted, h.member, existing, body, ?_, heq, fun minted ↦ correctionBody_later (hbody minted) hkeeps hsaved⟩
  rw [hmore, List.find?_append, hfound, Option.some_or]

/-- Two actions of one identifier that say the same are one action, or excerpts under one target. -/
theorem content_cases (hid : again.actionId = action.actionId) (h : again.content = action.content) :
    again = action ∨ ∃ messageId start stop kind target target',
      action.change = .addExcerpt messageId start stop kind target ∧
        again.change = .addExcerpt messageId start stop kind target' ∧ again.threadId = action.threadId ∧
          again.expectedVersion = action.expectedVersion ∧
            target'.getD action.threadId = target.getD action.threadId := by
  obtain ⟨actionId, threadId, expectedVersion, change⟩ := action
  obtain ⟨actionId', threadId', expectedVersion', change'⟩ := again
  obtain rfl : actionId' = actionId := hid
  simp only [CorrectionAction.content, Prod.mk.injEq] at h
  obtain ⟨rfl, rfl, hchange⟩ := h
  cases change' with
  | addExcerpt messageId start stop kind target' =>
    cases change with
    | addExcerpt =>
      simp only [CorrectionChange.within, CorrectionChange.addExcerpt.injEq, Option.some.injEq] at hchange
      obtain ⟨rfl, rfl, rfl, rfl, htarget⟩ := hchange
      exact .inr ⟨_, _, _, _, _, _, rfl, rfl, rfl, rfl, htarget⟩
    | _ => cases hchange
  | _ =>
    cases change with
    | addExcerpt => cases hchange
    | _ => exact .inl (congrArg (CorrectionAction.mk _ _ _) hchange)

/-- The target that an excerpt falls back on is an identifier. -/
theorem assert_target {target target' : Option Units} {threadId : Units} (hthread : assertId threadId = .ok ())
    (htarget : assertIdIfAny target = .ok ()) (h : target'.getD threadId = target.getD threadId) :
    assertIdIfAny target' = .ok () := by
  cases target' with
  | none => rfl
  | some optionId =>
    obtain rfl : optionId = target.getD threadId := h
    cases target with
    | none => exact hthread
    | some => exact htarget

/-- What says the same as an action is an action too, with the same fields. -/
theorem Recorded.same (h : Recorded messages action handle state) (hid : again.actionId = action.actionId)
    (hcontent : again.content = action.content) : Recorded messages again handle state := by
  obtain rfl | ⟨messageId, start, stop, kind, target, target', hchange, hagain, hthreadId, hversion, htarget⟩ :=
    content_cases hid hcontent
  · exact h
  · obtain ⟨existing, body, hfound, heq, hbody⟩ := h.found
    have hevent : again.toEvent handle body = action.toEvent handle body := by
      rw [CorrectionAction.toEvent, CorrectionAction.toEvent, hid, hthreadId, hversion]
    refine ⟨?_, h.member, existing, body, hid ▸ hfound, hevent ▸ heq, fun minted ↦ ?_⟩
    · have hasserted := h.asserted
      rw [assertCorrectionAction, hchange] at hasserted
      obtain ⟨⟨⟩, hassertedId, hasserted⟩ := Except.bind_eq_ok.1 hasserted
      obtain ⟨⟨⟩, hassertedThread, hasserted⟩ := Except.bind_eq_ok.1 hasserted
      obtain ⟨⟨⟩, hassertedVersion, hasserted⟩ := Except.bind_eq_ok.1 hasserted
      rw [assertCorrectionChange] at hasserted
      obtain ⟨⟨⟩, hmessage, hasserted⟩ := Except.bind_eq_ok.1 hasserted
      obtain ⟨⟨⟩, hrange, hasserted⟩ := Except.bind_eq_ok.1 hasserted
      rw [assertCorrectionAction, hagain, hid, hthreadId, hversion, hassertedId, Except.ok_bind, hassertedThread,
        Except.ok_bind, hassertedVersion, Except.ok_bind, assertCorrectionChange, hmessage, Except.ok_bind, hrange,
        Except.ok_bind]
      exact assert_target hassertedThread hasserted htarget
    · obtain ⟨saved, hexcerpt, hthread, rfl⟩ := correctionBody_excerpt hchange (hbody minted)
      rw [correctionBody_again hagain hexcerpt (hthreadId ▸ hthread), hthreadId, htarget]
      rfl

/-- An action that is in the record changes nothing. -/
theorem Recorded.accepted (h : Recorded messages action handle state) (minted : Units) («at» : Nat) :
    applyCorrection lower messages minted state action handle «at» = .ok state := by
  obtain ⟨existing, body, hfound, heq, hbody⟩ := h.found
  rw [applyCorrection, h.asserted, Except.ok_bind, h.member]
  simp only [demand, if_true, Except.ok_bind, hfound, hbody]
  rw [heq]
  simp [CorrectionAction.toEvent]

/-- An action of an identifier that is in the record is accepted only as the one that is there. -/
theorem Recorded.refused (h : Recorded messages action handle state) (hid : again.actionId = action.actionId)
    (haccepted : applyCorrection lower messages' minted state again handle «at» = .ok state') :
    again.content = action.content ∧ state' = state := by
  obtain ⟨existing, body, hfound, heq, hbody⟩ := h.found
  rw [applyCorrection, hid] at haccepted
  obtain ⟨-, -, haccepted⟩ := Except.bind_eq_ok.1 haccepted
  obtain ⟨-, haccepted⟩ := demand_bind_eq_ok.1 haccepted
  obtain ⟨body', hbody', haccepted⟩ := Except.bind_eq_ok.1 haccepted
  simp only [hfound] at haccepted hbody'
  obtain ⟨hsame, hstate⟩ := demand_bind_eq_ok.1 haccepted
  have hits := heq.symm.trans (beq_iff_eq.1 hsame)
  simp only [CorrectionAction.toEvent, Event.mk.injEq] at hits
  obtain ⟨-, hthread, hversion, -, -, -, rfl⟩ := hits
  have hchange := (correctionBody_change hbody').symm.trans (correctionBody_change (hbody minted))
  rw [CorrectionAction.content, CorrectionAction.content, Option.some.inj hchange, hthread, hversion]
  exact ⟨rfl, (Except.ok.inj hstate).symm⟩

/-- **Submitting an action again is accepted exactly when it says what the accepted one said, and changes nothing,**
whatever came in between. -/
theorem correction_replay {before after later : State} {messages' : Units → Option Entry} {minted' : Units} {at' : Nat}
    (accepted : applyCorrection lower messages minted before action handle «at» = .ok after)
    (come : Later lower after later)
    (saved : ∀ messageId, action.change.message = some messageId → messages' messageId = messages messageId)
    (resubmitted : again.actionId = action.actionId) (result : State) :
    applyCorrection lower messages' minted' later again handle at' = .ok result ↔
      again.content = action.content ∧ result = later := by
  have hrecorded := (Recorded.of_accepted accepted).later come saved
  constructor
  · exact hrecorded.refused resubmitted
  · rintro ⟨hcontent, rfl⟩
    exact (hrecorded.same resubmitted hcontent).accepted minted' at'

/-! ## An excerpt under its thread -/

/-- A thread with a question, and a message of which an analysis held a span back. -/
def sampleQuestion : Event :=
  ⟨utf16 "e1", utf16 "t", 0, .planner, .agent, 0, .threadOpened none (utf16 "Which language?")⟩

def sampleMessages (messageId : Units) : Option Entry :=
  if messageId = utf16 "m1" then some ⟨utf16 "m1", .member (utf16 "bo"), utf16 "Zig is fast", false⟩ else none

def sampleRecord : State :=
  { (applyEvent id initialState sampleQuestion).toOption.getD initialState with
    revision := 2, analysis := [⟨utf16 "m1", some [⟨0, 11, .review⟩]⟩] }

def sampleExcerpt (targetOptionId : Option Units) : CorrectionAction :=
  ⟨utf16 "a1", utf16 "t", 1, .addExcerpt (utf16 "m1") 0 11 .reason targetOptionId⟩

/-- The member's action against a record. -/
def sampleCorrection (state : State) (action : CorrectionAction) : Except String State :=
  applyCorrection id sampleMessages (utf16 "01ARZ3NDEKTSV4RRFFQ69G5FAV") state action (utf16 "ana") 7

def sampleCorrected : State := (sampleCorrection sampleRecord (sampleExcerpt none)).toOption.getD sampleRecord

theorem sampleRecord_come : Later id initialState sampleRecord := by
  have haccepted : applyEvent id initialState sampleQuestion =
      .ok ((applyEvent id initialState sampleQuestion).toOption.getD initialState) := by decide
  exact .beside (.event sampleQuestion (.refl _) haccepted) rfl (.refl _)

theorem sampleCorrected_accepted : sampleCorrection sampleRecord (sampleExcerpt none) = .ok sampleCorrected := by
  decide

/-- The thread is closed afterwards. -/
def sampleDiscard : Event :=
  ⟨utf16 "e2", utf16 "t", 2, .human, .member (utf16 "ana"), 8, .threadDiscarded⟩

def sampleClosed : State := (applyEvent id sampleCorrected sampleDiscard).toOption.getD sampleCorrected

theorem sampleClosed_come : Later id sampleCorrected sampleClosed := by
  have haccepted : applyEvent id sampleCorrected sampleDiscard = .ok sampleClosed := by decide
  exact .event sampleDiscard (.refl _) haccepted

theorem correction_replay_sample : sampleCorrection sampleClosed (sampleExcerpt none) = .ok sampleClosed :=
  (correction_replay sampleCorrected_accepted sampleClosed_come (fun _ _ ↦ rfl) rfl _).2 ⟨rfl, rfl⟩

/-- An excerpt that names its thread as its option is accepted under the identifier of one that names none; submitted
first it would be refused. -/
theorem excerpt_target_not_refused : Later id initialState sampleRecord ∧
    sampleCorrection sampleRecord (sampleExcerpt none) = .ok sampleCorrected ∧
    (sampleExcerpt (some (utf16 "t"))).actionId = (sampleExcerpt none).actionId ∧
    sampleExcerpt (some (utf16 "t")) ≠ sampleExcerpt none ∧
    sampleCorrection sampleCorrected (sampleExcerpt (some (utf16 "t"))) = .ok sampleCorrected ∧
    sampleCorrection sampleRecord (sampleExcerpt (some (utf16 "t"))) = .error "invalid excerpt target option" :=
  ⟨sampleRecord_come, sampleCorrected_accepted, rfl, by decide, by decide, by decide⟩

end Chopin.Threads
