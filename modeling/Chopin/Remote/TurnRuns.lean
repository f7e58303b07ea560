import Chopin.Lib.Lists
import Chopin.Lib.Runs
import Chopin.Remote.Turns

/-!
# Host tools cross the boundary at most once a call

Whatever the client sends, and however its turns are stopped, ended, dropped and taken up on another link, a
turn runs no host tool twice for one id, none once it is stopped or over, and none that it was not offered; and
an id that a call of the client's own tools used is not one that a host tool ran for.

The argument is about one session, whose log only grows by what one message or one act of the server adds:
`Adds` says what may be added to a sound log.
-/

set_option autoImplicit false

namespace Chopin.Remote

/-! ## What crosses -/

/-- The turn, id and tool of a call that the harness runs a host tool for. -/
def Event.execution : Event → Option ((Nat × String) × String)
  | emitted turn (.toolCall toolCallId toolName _ false) => some ((turn, toolCallId), toolName)
  | _ => none

/-- The turn and id of a call of one of the client's own tools, or of its result. -/
def Event.ownUse : Event → Option (Nat × String)
  | emitted turn (.toolCall toolCallId _ _ true) => some (turn, toolCallId)
  | emitted turn (.toolResult toolCallId _ _ _ true) => some (turn, toolCallId)
  | _ => none

/-- The turn that the event stops or ends. -/
def Event.closes : Event → Option Nat
  | stopped turn => some turn
  | ended turn _ => some turn
  | _ => none

/-- While the turn of the call went on, and with the tool among those it was offered. -/
def Allowed (before : List Event) (call : Nat × String) (name : String) : Prop :=
  (∀ earlier ∈ before, earlier.closes ≠ some call.1) ∧ ∃ tools, .began call.1 tools ∈ before ∧ name ∈ tools

/-- What the log of a session must be. -/
structure Crossing (log : List Event) : Prop where
  once : ((log.filterMap Event.execution).map (·.1)).Nodup
  allowed : ∀ before (event : Event) after, log = before ++ event :: after →
    ∀ call name, event.execution = some (call, name) → Allowed before call name
  apart : ∀ call name, (call, name) ∈ log.filterMap Event.execution → call ∉ log.filterMap Event.ownUse

namespace Crossing

variable {log : List Event} {event : Event}

theorem nil : Crossing [] where
  once := List.nodup_nil
  allowed _ _ _ h := absurd h.symm (List.append_ne_nil_of_right_ne_nil _ (List.cons_ne_nil _ _))
  apart _ _ h := nomatch h

/-- One more event keeps the calls before it allowed. -/
theorem allowed_add (h : Crossing log) (hevent : ∀ call name, event.execution = some (call, name) → Allowed log call name) :
    ∀ before (other : Event) after, log ++ [event] = before ++ other :: after →
      ∀ call name, other.execution = some (call, name) → Allowed before call name := by
  intro before other after hlog call name hcall
  obtain ⟨rfl, rfl⟩ | ⟨rest, hrest⟩ := List.concat_eq_append_cons hlog
  · exact hevent call name hcall
  · exact h.allowed before other rest hrest call name hcall

/-- An event that runs no host tool, and uses no own one for an id that a host tool ran for. -/
theorem add (h : Crossing log) (hexecution : event.execution = none)
    (hfree : ∀ call, event.ownUse = some call → call ∉ (log.filterMap Event.execution).map (·.1)) :
    Crossing (log ++ [event]) := by
  have hlog : (log ++ [event]).filterMap Event.execution = log.filterMap Event.execution := by
    simp [hexecution]
  refine ⟨hlog ▸ h.once, h.allowed_add fun call name hcall ↦ (nomatch hexecution.symm.trans hcall), ?_⟩
  intro call name hmem huse
  rw [hlog] at hmem
  rw [List.filterMap_append, List.mem_append] at huse
  obtain huse | huse := huse
  · exact h.apart call name hmem huse
  · obtain ⟨other, hother, huse⟩ := List.mem_filterMap.1 huse
    rw [List.mem_singleton.1 hother] at huse
    exact hfree call huse (List.mem_map.2 ⟨(call, name), hmem, rfl⟩)

/-- A host tool runs, for an id that the turn did not use. -/
theorem execute (h : Crossing log) {call : Nat × String} {name : String}
    (hexecution : event.execution = some (call, name)) (hown : event.ownUse = none)
    (hfree : call ∉ (log.filterMap Event.execution).map (·.1)) (hunused : call ∉ log.filterMap Event.ownUse)
    (hallowed : Allowed log call name) : Crossing (log ++ [event]) := by
  have hlog : (log ++ [event]).filterMap Event.execution = log.filterMap Event.execution ++ [(call, name)] := by
    simp [hexecution]
  have howns : (log ++ [event]).filterMap Event.ownUse = log.filterMap Event.ownUse := by simp [hown]
  refine ⟨?_, h.allowed_add fun other tool hcall ↦ ?_, ?_⟩
  · rw [hlog, List.map_append, List.map_singleton, ← List.concat_eq_append]
    exact List.Nodup.concat hfree h.once
  · obtain ⟨rfl, rfl⟩ := Prod.mk.inj (Option.mem_unique hexecution hcall)
    exact hallowed
  · intro other tool hmem
    rw [hlog] at hmem
    rw [howns]
    obtain hmem | hmem := List.mem_append.1 hmem
    · exact h.apart other tool hmem
    · obtain ⟨rfl, _⟩ := Prod.mk.inj (List.mem_singleton.1 hmem)
      exact hunused

end Crossing

/-! ## The invariant -/

/-- The turn that the event is about. -/
def Event.turn : Event → Option Nat
  | began turn _ => some turn
  | emitted turn _ => some turn
  | stopped turn => some turn
  | ended turn _ => some turn
  | _ => none

variable {event : Event}

variable {call : Nat × String}

theorem Event.turn_of_execution {name : String}
    (h : event.execution = some (call, name)) : event.turn = some call.1 := by
  rw [execution.eq_def] at h
  split at h
  · obtain ⟨rfl, _⟩ := Prod.mk.inj (Option.some.inj h)
    rfl
  · cases h

theorem Event.turn_of_ownUse (h : event.ownUse = some call) : event.turn = some call.1 := by
  rw [ownUse.eq_def] at h
  split at h
  · cases h
    rfl
  · cases h
    rfl
  · cases h

theorem Event.turn_of_closes {turn : Nat} (h : event.closes = some turn) : event.turn = some turn := by
  rw [closes.eq_def] at h
  split at h
  · exact h
  · exact h
  · cases h

/-- What the log says of a turn under way. -/
structure Turn.Tracks (turn : Turn) (turns : Nat) (log : List Event) : Prop where
  number : turn.number < turns
  began : .began turn.number turn.hostNames ∈ log
  executed : ∀ id name, ((turn.number, id), name) ∈ log.filterMap Event.execution → id ∈ turn.hostIds
  used : ∀ id, (turn.number, id) ∈ log.filterMap Event.ownUse → id ∈ turn.ownCalls
  going : turn.stopped = false → ∀ event ∈ log, event.closes ≠ some turn.number
  apart : ∀ id ∈ turn.hostIds, id ∉ turn.ownCalls

structure RemoteSession.Sound (session : RemoteSession) : Prop where
  crossing : Crossing session.log
  past : ∀ event ∈ session.log, ∀ turn, event.turn = some turn → turn < session.turns
  tracks : ∀ turn, session.current = some turn → turn.Tracks session.turns session.log

theorem mem_filterMap_concat {α β : Type} {f : α → Option β} {xs : List α} {x : α} {y : β}
    (h : y ∈ (xs ++ [x]).filterMap f) : y ∈ xs.filterMap f ∨ f x = some y := by
  obtain ⟨found, hfound, hy⟩ := List.mem_filterMap.1 h
  obtain hfound | hfound := List.mem_append.1 hfound
  · exact .inl (List.mem_filterMap.2 ⟨found, hfound, hy⟩)
  · exact .inr (List.mem_singleton.1 hfound ▸ hy)

variable {log : List Event}

/-- What one more event of the turn must be for the turn to keep track of it. -/
theorem Turn.Tracks.add {turn next : Turn} {turns : Nat} (h : turn.Tracks turns log)
    (hnumber : next.number = turn.number) (hnames : next.hostNames = turn.hostNames)
    (hhostIds : turn.hostIds ⊆ next.hostIds) (hownCalls : turn.ownCalls ⊆ next.ownCalls)
    (hexecuted : ∀ id name, event.execution = some ((turn.number, id), name) → id ∈ next.hostIds)
    (hused : ∀ id, event.ownUse = some (turn.number, id) → id ∈ next.ownCalls)
    (hgoing : next.stopped = false → turn.stopped = false ∧ event.closes ≠ some turn.number)
    (hapart : ∀ id ∈ next.hostIds, id ∉ next.ownCalls) : next.Tracks turns (log ++ [event]) where
  number := hnumber ▸ h.number
  began := List.mem_append_left _ (hnumber ▸ hnames ▸ h.began)
  executed id name hmem := by
    rw [hnumber] at hmem
    obtain hmem | hmem := mem_filterMap_concat hmem
    · exact hhostIds (h.executed id name hmem)
    · exact hexecuted id name hmem
  used id hmem := by
    rw [hnumber] at hmem
    obtain hmem | hmem := mem_filterMap_concat hmem
    · exact hownCalls (h.used id hmem)
    · exact hused id hmem
  going hstopped other hother := by
    obtain ⟨hbefore, hcloses⟩ := hgoing hstopped
    rw [hnumber]
    obtain hother | hother := List.mem_append.1 hother
    · exact h.going hbefore other hother
    · exact List.mem_singleton.1 hother ▸ hcloses
  apart := hapart

/-- The turn notes that a host call id was used. -/
theorem Turn.Tracks.note {turn : Turn} {turns : Nat} (htracks : turn.Tracks turns log)
    {id : String} (hown : id ∉ turn.ownCalls) (hostCalls : List (String × String)) :
    ({ turn with hostIds := turn.hostIds ++ [id], hostCalls } : Turn).Tracks turns log where
  number := htracks.number
  began := htracks.began
  executed other name hmem := List.mem_append_left _ (htracks.executed other name hmem)
  used := htracks.used
  going := htracks.going
  apart other hother := by
    obtain hother | hother := List.mem_append.1 hother
    · exact htracks.apart other hother
    · exact List.mem_singleton.1 hother ▸ hown

namespace RemoteSession

variable {session : RemoteSession} {turn : Turn} {event : Event}

theorem past_add (h : session.Sound) (hevent : ∀ number, event.turn = some number → number < session.turns) :
    ∀ other ∈ session.log ++ [event], ∀ number, other.turn = some number → number < session.turns := by
  intro other hother
  obtain hother | hother := List.mem_append.1 hother
  · exact h.past other hother
  · exact List.mem_singleton.1 hother ▸ hevent

/-- An event that neither runs a tool nor closes a turn. -/
theorem Sound.quiet (h : session.Sound) (hexecution : event.execution = none) (hown : event.ownUse = none)
    (hcloses : event.closes = none) (hturn : ∀ number, event.turn = some number → number < session.turns) :
    (session.add [event]).Sound where
  crossing := h.crossing.add hexecution fun call hcall ↦ nomatch hown.symm.trans hcall
  past := past_add h hturn
  tracks turn hcurrent := by
    have htracks := h.tracks turn hcurrent
    refine htracks.add rfl rfl (List.Subset.refl _) (List.Subset.refl _) (fun id name hid ↦ ?_) (fun id hid ↦ ?_)
      (fun hstopped ↦ ⟨hstopped, fun hcall ↦ ?_⟩) htracks.apart
    · exact nomatch hexecution.symm.trans hid
    · exact nomatch hown.symm.trans hid
    · exact nomatch hcloses.symm.trans hcall

theorem Sound.sent (h : session.Sound) (message : ServerMessage) : (session.add [.sent message]).Sound :=
  h.quiet rfl rfl rfl fun _ hturn ↦ nomatch hturn

/-- Something of the turn that is no call and no result of an own one. -/
theorem Sound.emitted (h : session.Sound) (hnumber : turn.number < session.turns) {part : StreamPart}
    (hexecution : (Event.emitted turn.number part).execution = none)
    (hown : (Event.emitted turn.number part).ownUse = none) : (session.emit turn part).Sound :=
  h.quiet hexecution hown rfl fun _ hturn ↦ Option.some.inj hturn ▸ hnumber

theorem finish_sound (h : session.Sound) (hnumber : turn.number < session.turns) (failure : Option Failure) :
    (session.finish turn failure).Sound where
  crossing := h.crossing.add rfl fun _ hcall ↦ nomatch hcall
  past := past_add h fun _ hturn ↦ Option.some.inj hturn ▸ hnumber
  tracks _ hcurrent := nomatch hcurrent

theorem stop_sound (h : session.Sound) (hcurrent : session.current = some turn) : (session.stop turn).Sound := by
  rw [stop]
  split
  · exact h
  have htracks := h.tracks turn hcurrent
  have hstopped : ({ session.add [.stopped turn.number] with current := some { turn with stopped := true } } :
      RemoteSession).Sound := by
    refine ⟨h.crossing.add rfl (fun _ hcall ↦ nomatch hcall), past_add h fun _ hturn ↦
      Option.some.inj hturn ▸ htracks.number,
      fun stopped hstopped ↦ ?_⟩
    cases hstopped
    refine htracks.add rfl rfl (List.Subset.refl _) (List.Subset.refl _) (fun _ _ hid ↦ nomatch hid)
      (fun _ hid ↦ nomatch hid)
      (fun hgoing ↦ nomatch hgoing) htracks.apart
  have hsent := hstopped.sent (.abort session.id turn.id)
  simp only [add, List.append_assoc, List.singleton_append] at hsent ⊢
  exact hsent

theorem stop_turns (session : RemoteSession) (turn : Turn) : (session.stop turn).turns = session.turns := by
  rw [stop]
  split <;> rfl

theorem fail_sound (h : session.Sound) (hcurrent : session.current = some turn) (failure : Failure) :
    (session.fail turn failure).Sound := by
  refine finish_sound (stop_sound h hcurrent) ?_ _
  rw [stop_turns]
  exact (h.tracks turn hcurrent).number

/-- The turn under way changes what the log says nothing of. -/
theorem Sound.set (h : session.Sound) (turn : Turn) (htracks : turn.Tracks session.turns session.log) :
    ({ session with current := some turn } : RemoteSession).Sound where
  crossing := h.crossing
  past := h.past
  tracks _ hother := Option.some.inj hother ▸ htracks

theorem offer_sound (h : session.Sound) (hcurrent : session.current = some turn) (names : List String) :
    (session.offer turn names).Sound := by
  rw [offer]
  split
  · exact fail_sound h hcurrent _
  dsimp only
  split
  · exact fail_sound h hcurrent _
  · have htracks := h.tracks turn hcurrent
    have hset := h.set { turn with own := names } ⟨htracks.number, htracks.began, htracks.executed, htracks.used,
      htracks.going, htracks.apart⟩
    exact ⟨hset.crossing, hset.past, hset.tracks⟩

/-! ## Calls -/

theorem hostCall_sound (h : session.Sound) (hcurrent : session.current = some turn) (hgoing : turn.stopped = false)
    (toolCallId toolName input : String) : (session.hostCall turn toolCallId toolName input).Sound := by
  rw [hostCall]
  split
  · exact fail_sound h hcurrent _
  rename_i hnew
  simp only [Bool.or_eq_true, List.contains_eq_mem, decide_eq_true_eq, not_or] at hnew
  obtain ⟨hhost, hown⟩ := hnew
  have htracks := h.tracks turn hcurrent
  dsimp only
  split
  · exact (h.set _ (htracks.note hown turn.hostCalls)).sent _
  · rename_i hname
    simp only [List.contains_eq_mem, Bool.not_eq_true', decide_eq_false_iff_not, not_not] at hname
    have hset := h.set _ (htracks.note hown (turn.hostCalls ++ [(toolCallId, toolName)]))
    have hfree : (turn.number, toolCallId) ∉ (session.log.filterMap Event.execution).map (·.1) := by
      intro hmem
      obtain ⟨⟨call, name⟩, hmem, rfl⟩ := List.mem_map.1 hmem
      exact hhost (htracks.executed toolCallId name hmem)
    refine ⟨h.crossing.execute rfl rfl hfree (fun hmem ↦ hown (htracks.used toolCallId hmem))
      ⟨htracks.going hgoing, _, htracks.began, hname⟩,
        past_add hset fun _ hturn ↦ Option.some.inj hturn ▸ htracks.number, fun next hnext ↦ ?_⟩
    cases hnext
    refine htracks.add rfl rfl (List.subset_append_left _ _) (List.Subset.refl _) (fun id name hid ↦ ?_)
      (fun _ hid ↦ nomatch hid) (fun hstopped ↦ ⟨hstopped, fun hcloses ↦ nomatch hcloses⟩)
      (htracks.note hown []).apart
    obtain ⟨hcall, _⟩ := Prod.mk.inj (Option.some.inj hid)
    obtain ⟨_, rfl⟩ := Prod.mk.inj hcall
    exact List.mem_concat_self

/-- A call of an own tool, or its result, for an id that is the turn's own. -/
theorem own_sound (h : session.Sound) (hcurrent : session.current = some turn) (next : Turn) (part : StreamPart)
    (hnumber : next.number = turn.number) (hnames : next.hostNames = turn.hostNames)
    (hhostIds : next.hostIds = turn.hostIds) (hownCalls : turn.ownCalls ⊆ next.ownCalls)
    (hstopped : next.stopped = turn.stopped) (hapart : ∀ id ∈ next.hostIds, id ∉ next.ownCalls) {id : String}
    (hexecution : (Event.emitted next.number part).execution = none)
    (hown : (Event.emitted next.number part).ownUse = some (turn.number, id)) (hid : id ∈ next.ownCalls) :
    (({ session with current := some next } : RemoteSession).emit next part).Sound := by
  have htracks := h.tracks turn hcurrent
  refine ⟨h.crossing.add hexecution fun call hcall hmem ↦ ?_, ?_, fun other hother ↦ ?_⟩
  · obtain rfl := Option.mem_unique hown hcall
    obtain ⟨⟨call, name⟩, hmem, rfl⟩ := List.mem_map.1 hmem
    exact hapart id (hhostIds ▸ htracks.executed id name hmem) hid
  · have hturn : ∀ turn, (Event.emitted next.number part).turn = some turn → turn < session.turns :=
      fun _ hturn ↦ Option.some.inj hturn ▸ hnumber ▸ htracks.number
    have hpast := past_add h hturn
    exact hpast
  · cases hother
    refine htracks.add hnumber hnames (hhostIds ▸ List.Subset.refl _) hownCalls
      (fun _ _ hcall ↦ nomatch hexecution.symm.trans hcall) (fun other hcall ↦ ?_)
      (fun hgoing ↦ ⟨hstopped ▸ hgoing, fun hcloses ↦ nomatch hcloses⟩) hapart
    obtain ⟨_, rfl⟩ := Prod.mk.inj (Option.mem_unique hown hcall)
    exact hid

theorem part_sound (h : session.Sound) (hcurrent : session.current = some turn) (part : LinkPart) :
    (session.part turn part).Sound := by
  have htracks := h.tracks turn hcurrent
  cases part with
  | toolInputStart id toolName title =>
    rw [RemoteSession.part]
    split
    · exact h.emitted htracks.number rfl rfl
    split
    · exact fail_sound h hcurrent _
    · exact h.emitted htracks.number rfl rfl
  | toolCall toolCallId toolName input =>
    rw [RemoteSession.part]
    split
    · exact fail_sound h hcurrent _
    split
    · exact fail_sound h hcurrent _
    rename_i hnew
    simp only [Bool.or_eq_true, List.contains_eq_mem, decide_eq_true_eq, not_or] at hnew
    have hmem : toolCallId ∈ turn.ownCalls ++ [toolCallId] := List.mem_concat_self
    refine own_sound h hcurrent { turn with ownCalls := turn.ownCalls ++ [toolCallId] } _ rfl rfl rfl
      (List.subset_append_left _ _) rfl (fun id hid hown ↦ ?_) rfl rfl hmem
    obtain hown | hown := List.mem_append.1 hown
    · exact htracks.apart id hid hown
    · exact hnew.1 (List.mem_singleton.1 hown ▸ hid)
  | toolResult toolCallId toolName result isError preliminary =>
    rw [RemoteSession.part]
    split
    · exact fail_sound h hcurrent _
    rename_i hown
    simp only [List.contains_eq_mem, Bool.not_eq_true', decide_eq_false_iff_not, not_not] at hown
    have hreported : (session.add [.reported toolCallId result
        (if preliminary then .running else if isError then .failed else .done)]).Sound :=
      h.quiet rfl rfl rfl fun _ hturn ↦ nomatch hturn
    have hsound := own_sound hreported hcurrent turn (.toolResult toolCallId toolName result isError true) rfl rfl rfl
      (List.Subset.refl _) rfl htracks.apart rfl rfl hown
    exact ⟨hsound.crossing, hsound.past, fun other hother ↦ hsound.tracks other (hcurrent.symm.trans hother)⟩
  | error text =>
    exact h.emitted htracks.number rfl rfl
  | plain part =>
    exact h.emitted htracks.number rfl rfl

theorem receive_sound (h : session.Sound) (number : String) (message : TurnMessage) :
    (session.receive number message).Sound := by
  rw [receive.eq_def]
  cases hfound : session.current.filter (·.id == number) with
  | none =>
    cases message with
    | hostToolCall => exact h.sent _
    | tools | part | turnEnd => exact h
  | some turn =>
    have hcurrent : session.current = some turn := (Option.filter_eq_some_iff.1 hfound).1
    cases message with
    | turnEnd status text => exact finish_sound h (h.tracks turn hcurrent).number _
    | hostToolCall toolCallId toolName input =>
      dsimp only
      split
      · exact h.sent _
      · exact hostCall_sound h hcurrent (Bool.eq_false_iff.2 ‹_›) toolCallId toolName input
    | tools names =>
      dsimp only
      split
      · exact h
      · exact offer_sound h hcurrent names
    | part part =>
      dsimp only
      split
      · exact h
      · exact part_sound h hcurrent part

/-! ## The server's side -/

theorem submitToolResult_sound (h : session.Sound) (number : Nat) (toolCallId : String) (output : Json)
    (isError encodes : Bool) : (session.submitToolResult number toolCallId output isError encodes).Sound := by
  rw [submitToolResult]
  split
  · exact h
  rename_i turn hfound
  have htracks := h.tracks turn (Option.filter_eq_some_iff.1 hfound).1
  split
  · exact h
  rename_i toolName _
  split
  · exact h
  dsimp only
  have hset := h.set { turn with hostCalls := turn.hostCalls.filter (·.1 != toolCallId) } ⟨htracks.number,
    htracks.began, htracks.executed, htracks.used, htracks.going, htracks.apart⟩
  split
  · exact hset.emitted htracks.number rfl rfl
  · exact (hset.emitted htracks.number rfl rfl).sent _

/-- A turn begins, with nothing in the log of its number. -/
theorem began_sound (h : session.Sound) (id : String) (hostNames : List String) :
    ({ session.add [.began session.turns hostNames] with
      current := some { id, number := session.turns, hostNames, own := [], ownCalls := [], hostIds := [],
                        hostCalls := [], stopped := false }
      activeTools := hostNames, turns := session.turns + 1 } : RemoteSession).Sound where
  crossing := h.crossing.add rfl fun _ hcall ↦ nomatch hcall
  past event hevent turn hturn := by
    obtain hevent | hevent := List.mem_append.1 hevent
    · exact Nat.lt_succ_of_lt (h.past event hevent turn hturn)
    · rw [List.mem_singleton.1 hevent] at hturn
      exact Option.some.inj hturn ▸ Nat.lt_succ_self _
  tracks turn hturn := by
    cases hturn
    refine ⟨Nat.lt_succ_self _, List.mem_concat_self, fun other name hmem ↦ ?_,
      fun other hmem ↦ ?_, fun _ event hevent hcloses ↦ ?_, fun _ hid ↦ nomatch hid⟩
    · obtain hmem | hmem := mem_filterMap_concat hmem
      · obtain ⟨event, hevent, hcall⟩ := List.mem_filterMap.1 hmem
        exact absurd (h.past event hevent _ (Event.turn_of_execution hcall)) (Nat.lt_irrefl _)
      · cases hmem
    · obtain hmem | hmem := mem_filterMap_concat hmem
      · obtain ⟨event, hevent, hcall⟩ := List.mem_filterMap.1 hmem
        exact absurd (h.past event hevent _ (Event.turn_of_ownUse hcall)) (Nat.lt_irrefl _)
      · cases hmem
    · obtain hevent | hevent := List.mem_append.1 hevent
      · exact absurd (h.past event hevent _ (Event.turn_of_closes hcloses)) (Nat.lt_irrefl _)
      · rw [List.mem_singleton.1 hevent] at hcloses
        cases hcloses

theorem prompt_sound (h : session.Sound) (id : String) (tools : List String) (previews sent aborted : Bool) :
    (session.prompt id tools previews sent aborted).Sound := by
  rw [prompt]
  split
  · exact h
  dsimp only
  have hbegan := (began_sound h id (tools.filter fun name ↦ name != "upload_plan_image" || previews)).sent
    (.turn session.id id (tools.filter fun name ↦ name != "upload_plan_image" || previews))
  simp only [add, List.append_assoc, List.singleton_append] at hbegan ⊢
  split
  · exact stop_sound hbegan rfl
  · exact hbegan

theorem suspend_sound (h : session.Sound) : session.suspend.Sound := by
  rw [suspend]
  split
  · exact h
  · exact finish_sound h (h.tracks _ ‹_›).number _

theorem linkClosed_sound (h : session.Sound) : session.linkClosed.Sound := by
  have hsuspend := suspend_sound h
  exact ⟨hsuspend.crossing, hsuspend.past, hsuspend.tracks⟩

theorem close_sound (h : session.Sound) : session.close.Sound := by
  rw [close]
  split
  · exact h
  dsimp only
  split
  · have hsent := h.sent (.destroy session.id)
    exact ⟨hsent.crossing, hsent.past, hsent.tracks⟩
  · rename_i turn hcurrent
    have hnumber : turn.number < (session.stop turn).turns :=
      (stop_turns session turn).symm ▸ (h.tracks turn hcurrent).number
    have hsent := (finish_sound (stop_sound h hcurrent) hnumber none).sent (.destroy session.id)
    exact ⟨hsent.crossing, hsent.past, hsent.tracks⟩

theorem act_sound (h : session.Sound) (act : Act) : (session.act act).Sound := by
  cases act with
  | prompt id tools previews sent aborted => exact prompt_sound h id tools previews sent aborted
  | abort =>
    rw [RemoteSession.act, abort]
    split
    · exact h
    · exact stop_sound h ‹_›
  | graceOver =>
    rw [RemoteSession.act, graceOver]
    split
    · exact h
    · split
      · exact finish_sound h (h.tracks _ ‹_›).number _
      · exact h
  | submitToolResult turn toolCallId output isError encodes =>
    exact submitToolResult_sound h turn toolCallId output isError encodes
  | close => exact close_sound h

theorem new_sound (id : String) (serial : Nat) (isolated : Bool) : (new id serial isolated).Sound :=
  ⟨.nil, fun _ hevent ↦ (nomatch hevent), fun _ hcurrent ↦ nomatch hcurrent⟩

end RemoteSession

/-! ## Every run -/

namespace Links

variable {links next : Links}

theorem update_sound {which : RemoteSession → Bool} {change : RemoteSession → RemoteSession}
    (h : ∀ session ∈ links.sessions, session.Sound)
    (hchange : ∀ session : RemoteSession, session.Sound → (change session).Sound) :
    ∀ session ∈ (links.update which change).sessions, session.Sound := by
  intro session hsession
  obtain ⟨before, hbefore, rfl⟩ := List.mem_map.1 hsession
  split
  · exact hchange before (h before hbefore)
  · exact h before hbefore

theorem step_sound {act : Act} (h : ∀ session ∈ links.sessions, session.Sound) (hstep : links.step act = some next) :
    ∀ session ∈ next.sessions, session.Sound := by
  cases act with
  | startSession id isolated =>
    obtain ⟨_, hstep⟩ := Option.ite_none_left_eq_some.1 hstep
    cases hstep
    intro session hsession
    obtain hsession | hsession := List.mem_append.1 hsession
    · exact h session hsession
    · exact List.mem_singleton.1 hsession ▸ RemoteSession.new_sound _ _ _
  | message session turn message =>
    obtain ⟨_, hstep⟩ := Option.ite_none_left_eq_some.1 hstep
    split at hstep
    · cases hstep
      exact update_sound h fun session hsession ↦ RemoteSession.receive_sound hsession turn message
    · split at hstep
      all_goals
        cases hstep
        exact h
  | act serial act =>
    cases hstep
    exact update_sound h fun session hsession ↦ RemoteSession.act_sound hsession act
  | drop kept =>
    obtain ⟨_, hstep⟩ := Option.ite_none_left_eq_some.1 hstep
    cases hstep
    refine update_sound h fun session hsession ↦ ?_
    split
    · exact RemoteSession.suspend_sound hsession
    · exact RemoteSession.linkClosed_sound hsession
  | resume held =>
    obtain ⟨_, hstep⟩ := Option.ite_none_left_eq_some.1 hstep
    cases hstep
    exact update_sound h fun session hsession ↦ RemoteSession.linkClosed_sound hsession

end Links

/-- In every run of turns on the client's links, for every session: no turn runs a host tool twice for one
id, none once it was stopped or ended, and none it was not offered; and no id of a call of the client's own
tools is one that a host tool ran for. -/
theorem host_tools_cross_once {acts : List Links.Act} {links : Links} (run : Runs Links.step .new acts links) :
    ∀ session ∈ links.sessions, ((session.log.filterMap Event.execution).map (·.1)).Nodup ∧
      (∀ before (event : Event) after, session.log = before ++ event :: after →
        ∀ turn id name, event.execution = some ((turn, id), name) →
          (∀ earlier ∈ before, earlier.closes ≠ some turn) ∧ ∃ tools, Event.began turn tools ∈ before ∧ name ∈ tools) ∧
      ∀ turn id name, ((turn, id), name) ∈ session.log.filterMap Event.execution →
        (turn, id) ∉ session.log.filterMap Event.ownUse := by
  have hsound : ∀ session ∈ links.sessions, session.Sound :=
    run.invariant (fun _ hsession ↦ nomatch hsession) fun _ _ _ h hstep ↦ Links.step_sound h hstep
  intro session hsession
  have hcrossing := (hsound session hsession).crossing
  exact ⟨hcrossing.once, fun before event after hlog turn id name hcall ↦
    hcrossing.allowed before event after hlog (turn, id) name hcall, fun turn id name ↦ hcrossing.apart (turn, id) name⟩

/-- An own call, a host call that runs, and then the own id again, for a host tool: the turn fails, and what
comes after it runs nothing. -/
def crossed : List Links.Act :=
  [.startSession "s" false, .act 0 (.prompt "t" ["read_plan"] true true false), .message "s" "t" (.tools ["bash"]),
    .message "s" "t" (.part (.toolCall "a" "bash" "")), .message "s" "t" (.hostToolCall "b" "read_plan" ""),
    .message "s" "t" (.hostToolCall "a" "read_plan" ""), .message "s" "t" (.hostToolCall "c" "read_plan" "")]

theorem host_tools_cross_once_sample : ∃ links, Runs Links.step .new crossed links ∧
    links.sessions.map (·.log.filterMap Event.execution) = [[((0, "b"), "read_plan")]] ∧ ∀ session ∈ links.sessions,
      ((session.log.filterMap Event.execution).map (·.1)).Nodup ∧
      (∀ before (event : Event) after, session.log = before ++ event :: after →
        ∀ turn id name, event.execution = some ((turn, id), name) →
          (∀ earlier ∈ before, earlier.closes ≠ some turn) ∧ ∃ tools, Event.began turn tools ∈ before ∧ name ∈ tools) ∧
      ∀ turn id name, ((turn, id), name) ∈ session.log.filterMap Event.execution →
        (turn, id) ∉ session.log.filterMap Event.ownUse := by
  have run : Runs Links.step .new crossed _ := runs_iff_foldlM.2 rfl
  exact ⟨_, run, by decide, host_tools_cross_once run⟩

end Chopin.Remote
