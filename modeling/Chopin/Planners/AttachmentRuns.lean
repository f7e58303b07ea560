import Chopin.Planners.AttachmentFacts

/-!
# One client a document, and no hold without its authority

In every run a document has one attached link, and a suspended link is parked on exactly one hold, its document's.
No hold rests on a login that ended, or on an attach whose turn began before the last reset.  A document that
ended is another matter: a takeover compares how often `documentEnded` was called, and an attach whose turn comes
after such a call, but before the turn of that call, is offered a takeover that will not notice.
-/

set_option autoImplicit false

namespace Chopin.Planners

variable {timely : Prop} {state : PlannerAttachments} {channelId : String} {l h : Nat} {link : Link} {hold : Hold}
variable {pending : PendingAttach} {phase : Phase}

/-! ## Turns -/

/-- The caller's login, once it is known. -/
def Phase.caller : Phase → Option String
  | .login _ => none
  | .access id _ | .release id _ _ | .readAgent id _ _ | .resolve id _ _ _ | .claim id _ | .clear id _ _ _
  | .claimAgain id _ | .claimRefused id _ | .confirm id _ _ | .withdraw id _ _ _ => some id

/-- The hold that the caller had may be its document's still. -/
def Phase.early : Phase → Bool
  | .login _ | .access _ _ | .readAgent _ _ _ | .resolve _ _ _ _ => true
  | _ => false

/-- The hold that is reread. -/
def Phase.held : Phase → Option Nat
  | .readAgent _ hold _ | .resolve _ hold _ _ => some hold
  | _ => none

/-- What a link was offered, and compares at its takeover. -/
def Stage.ending : Stage → Option Nat
  | .queued (some (_, ending)) | .answered (.offered _ ending) | .offered _ ending => some ending
  | _ => none

namespace PlannerAttachments

/-- What waits for its turn on a document, in order. -/
def waiting (state : PlannerAttachments) (channelId : String) : List Task :=
  (state.queue.filter (·.1 == channelId)).map (·.2)

theorem first_eq (state : PlannerAttachments) (channelId : String) :
    state.first channelId = (state.waiting channelId).head? := by
  rw [first, waiting, List.head?_map, List.head?_filter]

theorem waiting_append (queue : List (String × Task)) (entry : String × Task) (channelId : String) :
    ((queue ++ [entry]).filter (·.1 == channelId)).map (·.2) =
      (queue.filter (·.1 == channelId)).map (·.2) ++ if channelId = entry.1 then [entry.2] else [] := by
  rw [List.filter_append, List.map_append, List.filter_singleton]
  by_cases hsame : channelId = entry.1
  · simp [hsame]
  · have hne : (entry.1 == channelId) = false := beq_eq_false_iff_ne.2 (Ne.symm hsame)
    simp [hsame, hne]

/-- A document's first turn begins: the others wait as they did. -/
theorem waiting_eraseP (queue : List (String × Task)) (channelId other : String) :
    ((queue.eraseP (·.1 == channelId)).filter (·.1 == other)).map (·.2) =
      if other = channelId then ((queue.filter (·.1 == channelId)).map (·.2)).tail
      else (queue.filter (·.1 == other)).map (·.2) := by
  induction queue with
  | nil => split <;> rfl
  | cons entry rest ih =>
    by_cases hfirst : entry.1 = channelId
    · rw [List.eraseP_cons_of_pos (by simpa using hfirst)]
      by_cases hother : other = channelId
      · simp [hother, hfirst]
      · have hne : entry.1 ≠ other := fun heq ↦ hother (heq.symm.trans hfirst)
        simp [hother, hne]
    · rw [List.eraseP_cons_of_neg (by simpa using hfirst), List.filter_cons, List.filter_cons, List.filter_cons]
      by_cases hother : other = channelId
      · subst hother
        simpa [hfirst] using ih
      · by_cases hsame : entry.1 = other
        · simpa [hother, hsame, hfirst] using ih
        · simpa [hother, hsame, hfirst] using ih

/-! ## What holds in every state -/

/-- What happened that takes the authority of a hold. -/
structure Past where
  revoked : List String
  ended : List (String × Nat)
  resets : List (String × Nat)

def past (state : PlannerAttachments) : Past := ⟨state.revoked, state.ended, state.resets⟩

variable {past : Past} {table : Table}

/-- A hold that is its document's rests on a login that did not end, and on an attach that began after the last
reset; in a timely run it was asked for after the document last ended. -/
structure Firm (timely : Prop) (past : Past) (hold : Hold) : Prop where
  owner : hold.ownerSessionId ∉ past.revoked
  begun : hold.begun = times past.resets hold.channelId
  asked : timely → times past.ended hold.channelId ≤ hold.asked

/-- An open link with a grant, and what a link was offered. -/
structure Good (timely : Prop) (past : Past) (link : Link) : Prop where
  turn : ∀ h, link.stage.on = some h → link.state ≠ .closed → link.turn = times past.resets link.request.channelId
  asked : timely → ∀ h, link.stage.on = some h → link.state ≠ .closed →
    times past.ended link.request.channelId ≤ link.asked
  offered : timely → ∀ ending, link.stage.ending = some ending → ending ≤ link.asked

/-- What an attach that has its turn knows. -/
structure Knows (timely : Prop) (past : Past) (table : Table) (channelId : String) (l : Nat) (pending : PendingAttach)
    (phase : Phase) : Prop where
  link : ∃ link, table.links[l]? = some link ∧ link.request.channelId = channelId ∧ link.stage = .running ∧
    (pending.invalidated = none → link.turn = times past.resets channelId) ∧
      (timely → times past.ended channelId ≤ link.asked)
  held : ∀ h, pending.held = some h → ∃ hold, table.heap[h]? = some hold ∧ hold.channelId = channelId ∧ hold.link = none
  holds : ∀ h, table.holds.lookup channelId = some h → pending.held = some h ∧ phase.early = true
  reread : ∀ h, phase.held = some h → pending.held = some h
  caller : ∀ login, phase.caller = some login → login ∈ pending.sessionIds
  live : ∀ login generation, phase = .confirm login generation (some true) → pending.invalidated = none →
    login ∉ past.revoked

structure Sound (timely : Prop) (state : PlannerAttachments) : Prop where
  linked : state.table.Linked none
  live : ∀ login ∈ state.logins, login.id ∉ state.revoked
  works : ∀ c l pending phase, state.working.lookup c = some (.attach l pending phase) →
    Knows timely state.past state.table c l pending phase
  links : ∀ (l : Nat) (link : Link), state.table.links[l]? = some link → Good timely state.past link
  firm : ∀ c h hold, state.table.holds.lookup c = some h → state.table.heap[h]? = some hold → Firm timely state.past hold
  calls : ∀ c l, .call l ∈ state.waiting c → ∃ link, state.table.links[l]? = some link ∧ link.request.channelId = c
  counted : ∀ c, times state.endings c = times state.ended c + (state.waiting c).count .ended
  /-- An attach that waits was asked for after what is called to end the document before its turn. -/
  ahead : timely → ∀ c before l after, state.waiting c = before ++ Task.call l :: after →
    ∀ link : Link, state.table.links[l]? = some link → link.stage = .queued none →
      times state.ended c + before.count Task.ended ≤ link.asked

/-! ### The table goes on -/

theorem Good.goes (hgood : Good timely past link) {after : Link} (hgoes : link.Goes after) :
    Good timely past after where
  turn h hon hopen := by
    rw [hgoes.turn, hgoes.request]
    exact hgood.turn h (hgoes.on hon) fun hclosed ↦ hopen (hgoes.closed hclosed)
  asked htimely h hon hopen := by
    rw [hgoes.asked, hgoes.request]
    exact hgood.asked htimely h (hgoes.on hon) fun hclosed ↦ hopen (hgoes.closed hclosed)
  offered htimely ending hending := by
    rw [hgoes.asked]
    refine hgood.offered htimely ending ?_
    obtain hsame | hover | ⟨_, hparked⟩ | ⟨_, _, _, hbound⟩ := hgoes.stage
    · exact hsame ▸ hending
    · rw [hover] at hending
      cases hending
    · rw [hparked] at hending
      cases hending
    · rw [hbound] at hending
      cases hending

theorem Firm.goes (hfirm : Firm timely past hold) {after : Hold} (hgoes : hold.Goes after) : Firm timely past after :=
  ⟨hgoes.ownerSessionId ▸ hfirm.owner, by rw [hgoes.begun, hgoes.channelId]; exact hfirm.begun,
    fun htimely ↦ by rw [hgoes.asked, hgoes.channelId]; exact hfirm.asked htimely⟩

theorem Knows.goes (hknows : Knows timely past table channelId l pending phase) {next : Table}
    (hgoes : table.Goes next) :
    Knows timely past next channelId l pending phase where
  link := by
    obtain ⟨link, hlink, hchannel, hstage, hturn, hasked⟩ := hknows.link
    obtain ⟨after, hafter, hstill⟩ := hgoes.links.getElem?_left hlink
    refine ⟨after, hafter, (congrArg _ hstill.request).trans hchannel, (hstill.called (hstage ▸ rfl)).trans hstage,
      fun hvalid ↦ hstill.turn.trans (hturn hvalid), fun htimely ↦ ?_⟩
    rw [hstill.asked]
    exact hasked htimely
  held h hheld := by
    obtain ⟨hold, hhold, hchannel, hfree⟩ := hknows.held h hheld
    obtain ⟨after, hafter, hstill⟩ := hgoes.heap.getElem?_left hhold
    exact ⟨after, hafter, hstill.channelId.trans hchannel, hstill.link.elim (fun heq ↦ heq.trans hfree) id⟩
  holds h hlookup := hknows.holds h (hgoes.holds _ _ hlookup)
  reread := hknows.reread
  caller := hknows.caller
  live := hknows.live

/-- Holds are forgotten and links are closed. -/
theorem Sound.goes (hsound : Sound timely state) (hlinked : table.Linked none)
    (hgoes : state.table.Goes table) : Sound timely { state with table } where
  linked := hlinked
  live := hsound.live
  works c l pending phase hwork := (hsound.works c l pending phase hwork).goes hgoes
  links l after hafter := by
    obtain ⟨link, hlink, hstill⟩ := hgoes.links.getElem?_right hafter
    exact (hsound.links l link hlink).goes hstill
  firm c h after hlookup hafter := by
    obtain ⟨hold, hhold, hstill⟩ := hgoes.heap.getElem?_right hafter
    exact (hsound.firm c h hold (hgoes.holds c h hlookup) hhold).goes hstill
  calls c l hcall := by
    obtain ⟨link, hlink, hchannel⟩ := hsound.calls c l hcall
    obtain ⟨after, hafter, hstill⟩ := hgoes.links.getElem?_left hlink
    exact ⟨after, hafter, (congrArg _ hstill.request).trans hchannel⟩
  counted := hsound.counted
  ahead htimely c before l rest hwaiting after hafter hstage := by
    obtain ⟨link, hlink, hstill⟩ := hgoes.links.getElem?_right hafter
    rw [hstill.asked]
    exact hsound.ahead htimely c before l rest hwaiting link hlink
      (hstill.waits hstage nofun (fun _ ↦ nofun) fun _ _ ↦ nofun)

/-- A link that is not in its turn changes. -/
theorem Sound.relink (hsound : Sound timely state) (hlink : state.table.links[l]? = some link) {after : Link}
    (hlinked : (state.table.setLink l after).Linked none) (hrequest : after.request = link.request)
    (hasked : after.asked = link.asked)
    (hidle : ∀ c pending phase, state.working.lookup c ≠ some (.attach l pending phase))
    (hgood : Good timely state.past after) (hqueued : after.stage = .queued none → link.stage = .queued none) :
    Sound timely { state with table := state.table.setLink l after } where
  linked := hlinked
  live := hsound.live
  works c l' pending phase hwork := by
    have hknows := hsound.works c l' pending phase hwork
    obtain ⟨other, hother, hrest⟩ := hknows.link
    refine ⟨⟨other, ?_, hrest⟩, hknows.held, hknows.holds, hknows.reread, hknows.caller, hknows.live⟩
    rw [Table.setLink, List.getElem?_set_of hlink, if_neg]
    · exact hother
    · rintro rfl
      exact hidle c pending phase hwork
  links l' other hother := by
    rw [Table.setLink, List.getElem?_set_of hlink] at hother
    split at hother
    · cases hother
      exact hgood
    · exact hsound.links l' other hother
  firm := hsound.firm
  calls c l' hcall := by
    obtain ⟨other, hother, hchannel⟩ := hsound.calls c l' hcall
    rw [Table.setLink, List.getElem?_set_of hlink]
    split
    · subst l'
      obtain rfl := Option.mem_unique hlink hother
      exact ⟨after, rfl, (congrArg _ hrequest).trans hchannel⟩
    · exact ⟨other, hother, hchannel⟩
  counted := hsound.counted
  ahead htimely c before l' rest hwaiting other hother hstage := by
    rw [Table.setLink, List.getElem?_set_of hlink] at hother
    split at hother
    · subst l'
      cases hother
      rw [hasked]
      exact hsound.ahead htimely c before l rest hwaiting link hlink (hqueued hstage)
    · exact hsound.ahead htimely c before l' rest hwaiting other hother hstage

/-- A link whose stage is another has no turn. -/
theorem Sound.not_working (hsound : Sound timely state) (hlink : state.table.links[l]? = some link)
    (hstage : link.stage ≠ .running) (c : String) (pending : PendingAttach) (phase : Phase) :
    state.working.lookup c ≠ some (.attach l pending phase) := by
  intro hwork
  obtain ⟨other, hother, _, hrunning, _⟩ := (hsound.works c l pending phase hwork).link
  obtain rfl := Option.mem_unique hlink hother
  exact hstage hrunning

/-- Once its turn is over it has none. -/
theorem Sound.not_working_delete (hsound : Sound timely state) (hlink : state.table.links[l]? = some link)
    (hchannel : link.request.channelId = channelId) (c : String) (pending : PendingAttach) (phase : Phase) :
    (Entries.delete state.working channelId).lookup c ≠ some (.attach l pending phase) := by
  intro hwork
  rw [Entries.lookup_delete] at hwork
  split at hwork
  · cases hwork
  · rename_i hne
    obtain ⟨other, hother, hother', _⟩ := (hsound.works c l pending phase hwork).link
    obtain rfl := Option.mem_unique hlink hother
    exact hne (hother'.symm.trans hchannel)

/-! ### An attach's turn -/

theorem Sound.await (hsound : Sound timely state) (hknows : Knows timely state.past state.table channelId l pending phase) :
    Sound timely (state.await channelId l pending phase) where
  linked := hsound.linked
  live := hsound.live
  works c l' pending' phase' hwork := by
    have hlookup : (Entries.set state.working channelId (.attach l pending phase)).lookup c = some (.attach l' pending' phase') :=
      hwork
    rw [Entries.lookup_set] at hlookup
    split at hlookup
    · subst c
      obtain ⟨rfl, rfl, rfl⟩ := Work.attach.inj (Option.some.inj hlookup)
      exact hknows
    · exact hsound.works c l' pending' phase' hlookup
  links := hsound.links
  firm := hsound.firm
  calls := hsound.calls
  counted := hsound.counted
  ahead := hsound.ahead

/-- What has its turn only releases a hold, or is over. -/
theorem Sound.idle (hsound : Sound timely state) {working : List (String × Work)}
    (hworking : ∀ c l pending phase, working.lookup c = some (.attach l pending phase) →
      state.working.lookup c = some (.attach l pending phase)) : Sound timely { state with working } where
  linked := hsound.linked
  live := hsound.live
  works c l pending phase hwork := hsound.works c l pending phase (hworking c l pending phase hwork)
  links := hsound.links
  firm := hsound.firm
  calls := hsound.calls
  counted := hsound.counted
  ahead := hsound.ahead

theorem idle_delete (working : List (String × Work)) (channelId : String) (c : String) (l : Nat)
    (pending : PendingAttach)
    (phase : Phase) (h : (Entries.delete working channelId).lookup c = some (.attach l pending phase)) :
    working.lookup c = some (.attach l pending phase) := by
  rw [Entries.lookup_delete] at h
  split at h
  · cases h
  · exact h

theorem idle_release (working : List (String × Work)) (channelId : String) (hold : Nat) (c : String) (l : Nat)
    (pending : PendingAttach) (phase : Phase)
    (h : (Entries.set working channelId (.release hold)).lookup c = some (.attach l pending phase)) :
    working.lookup c = some (.attach l pending phase) := by
  rw [Entries.lookup_set] at h
  split at h
  · exact nomatch Option.some.inj h
  · exact h

theorem awake (hlinked : table.Linked none) (hlink : table.links[l]? = some link)
    (hstage : ∀ h, link.stage ≠ .parked h) : link.state ≠ .suspended := by
  intro hstate
  obtain ⟨h, hparked⟩ := hlinked.suspended l link hlink hstate
  exact hstage h hparked

/-- An attach whose turn is over is refused. -/
theorem Sound.refused (hsound : Sound timely state)
    (hknows : Knows timely state.past state.table channelId l pending phase)
    (hlink : state.table.links[l]? = some link) (refusal : AttachRefusal) :
    Sound timely (state.finish channelId l link (.refused refusal)) := by
  obtain ⟨other, hother, hchannel, hstage, _⟩ := hknows.link
  obtain rfl := Option.mem_unique hlink hother
  have hstate := awake hsound.linked hlink fun h heq ↦ nomatch hstage.symm.trans heq
  have hidle := hsound.idle (idle_delete state.working channelId)
  refine hidle.relink hlink ?_ rfl rfl (hsound.not_working_delete hlink hchannel) ⟨?_, ?_, ?_⟩ nofun
  · exact hsound.linked.setLink hlink hstate hstate nofun nofun nofun
  · exact nofun
  · exact fun _ ↦ nofun
  · exact fun _ ↦ nofun

/-- A hold that no turn is about gets a link. -/
theorem Sound.bind (hsound : Sound timely state) (hhold : state.table.heap[h]? = some hold) (hfree : hold.link = none)
    (hdone : state.working.lookup hold.channelId = none) :
    Sound timely { state with table := state.table.bind h l } := by
  have hget : ∀ h', (state.table.bind h l).heap[h']? =
      if h' = h then some { hold with timer := false, releasing := false, link := some l } else state.table.heap[h']? := by
    rw [Table.bind, hhold]
    exact List.getElem?_set_of hhold _
  have hlinks : (state.table.bind h l).links = state.table.links := by rw [Table.bind, hhold]; rfl
  have hholds : (state.table.bind h l).holds = state.table.holds := by rw [Table.bind, hhold]; rfl
  refine ⟨?_, hsound.live, fun c l' pending phase hwork ↦ ?_, ?_, fun c h' hold' hlookup hhold' ↦ ?_, ?_, hsound.counted, ?_⟩
  · rw [Table.bind, hhold]
    exact hsound.linked.setHold hhold rfl rfl (.inr (hsound.linked.free hhold hfree))
  · have hknows := hsound.works c l' pending phase hwork
    refine ⟨by rw [hlinks]; exact hknows.link, fun h' hheld ↦ ?_, by rw [hholds]; exact hknows.holds, hknows.reread,
      hknows.caller, hknows.live⟩
    obtain ⟨hold', hhold', hchannel, hnone⟩ := hknows.held h' hheld
    refine ⟨hold', ?_, hchannel, hnone⟩
    rw [hget, if_neg]
    · exact hhold'
    · rintro rfl
      obtain rfl := Option.mem_unique hhold hhold'
      rw [hchannel, hwork] at hdone
      cases hdone
  · rw [hlinks]
    exact hsound.links
  · rw [hholds] at hlookup
    rw [hget] at hhold'
    split at hhold'
    · subst h'
      cases hhold'
      have hfirm := hsound.firm c h hold hlookup hhold
      exact ⟨hfirm.owner, hfirm.begun, hfirm.asked⟩
    · exact hsound.firm c h' hold' hlookup hhold'
  · rw [hlinks]
    exact hsound.calls
  · rw [hlinks]
    exact hsound.ahead

/-- An attach whose turn is over is granted a hold. -/
theorem Sound.grant (hsound : Sound timely state) (hlink : state.table.links[l]? = some link)
    (hdone : state.working.lookup link.request.channelId = none) (hhold : state.table.heap[h]? = some hold)
    (hfree : hold.link = none) (hcurrent : state.table.current h hold = true)
    (hchannel : hold.channelId = link.request.channelId) (hstate : link.state ≠ .suspended)
    (hturn : link.turn = times state.resets link.request.channelId)
    (hasked : timely → times state.ended link.request.channelId ≤ link.asked) : Sound timely { state with
      table := (state.table.bind h l).setLink l { link with stage := .answered (.granted h) } } := by
  have hbound := hsound.bind (l := l) hhold hfree (hchannel ▸ hdone)
  have hsame : (state.table.bind h l).links[l]? = some link := by rw [Table.bind, hhold]; exact hlink
  refine hbound.relink hsame (Table.bind_linked hsound.linked hhold hfree hcurrent hlink hstate hchannel) rfl rfl ?_
    ⟨fun _ _ _ ↦ hturn, fun htimely _ _ _ ↦ hasked htimely, fun _ ↦ by rintro _ ⟨⟩⟩ (by rintro ⟨⟩)
  intro c pending phase hwork
  obtain ⟨other, hother, hother', _⟩ := (hsound.works c l pending phase hwork).link
  obtain rfl := Option.mem_unique hlink hother
  rw [hother'] at hdone
  cases hdone.symm.trans hwork

/-- A document that nobody holds, and that has no turn, gets a hold. -/
theorem Sound.claimed (hsound : Sound timely state) (hnone : state.table.holds.lookup hold.channelId = none)
    (hdone : state.working.lookup hold.channelId = none) (hparked : hold.parked = none)
    (hfirm : Firm timely state.past hold) :
    Sound timely { state with table := { state.table with
      heap := state.table.heap ++ [hold]
      holds := Entries.set state.table.holds hold.channelId state.table.heap.length } } := by
  refine ⟨Table.hold_linked hsound.linked hnone hparked, hsound.live, fun c l' pending phase hwork ↦ ?_, hsound.links,
    fun c h' hold' hlookup hhold' ↦ ?_, hsound.calls, hsound.counted, hsound.ahead⟩
  · have hknows := hsound.works c l' pending phase hwork
    refine ⟨hknows.link, fun h' hheld ↦ ?_, fun h' hlookup ↦ ?_, hknows.reread, hknows.caller, hknows.live⟩
    · obtain ⟨hold', hhold', hrest⟩ := hknows.held h' hheld
      exact ⟨hold', (List.getElem?_append_left (List.getElem?_eq_some_iff.1 hhold').1).trans hhold', hrest⟩
    · have hset : (Entries.set state.table.holds hold.channelId state.table.heap.length).lookup c = some h' := hlookup
      rw [Entries.lookup_set, if_neg] at hset
      · exact hknows.holds h' hset
      · rintro rfl
        exact nomatch hdone.symm.trans hwork
  · have hset : (Entries.set state.table.holds hold.channelId state.table.heap.length).lookup c = some h' := hlookup
    have hget : (state.table.heap ++ [hold])[h']? = some hold' := hhold'
    rw [Entries.lookup_set] at hset
    split at hset
    · cases hset
      rw [List.getElem?_concat_length] at hget
      exact Option.some.inj hget ▸ hfirm
    · obtain ⟨other, hother, _⟩ := hsound.linked.holds c h' hset
      rw [List.getElem?_append_left (List.getElem?_eq_some_iff.1 hother).1] at hget
      exact hsound.firm c h' hold' hset hget

variable {after : Phase}

/-- What an attach awaits is determined; it awaits it still. -/
theorem answer_phase {request : AttachRequest} {reply : Reply} {agents : List (String × AgentState)}
    (hanswer : state.answer request reply phase = some (after, agents)) :
    after.caller = phase.caller ∧ after.early = phase.early ∧ after.held = phase.held ∧
      ∀ login generation, after = .confirm login generation (some true) → state.resolve reply login = true := by
  rw [answer.eq_def] at hanswer
  split at hanswer
  · cases hanswer
    exact ⟨rfl, rfl, rfl, by exact nofun⟩
  · cases hanswer
    exact ⟨rfl, rfl, rfl, by exact nofun⟩
  · cases hanswer
    exact ⟨rfl, rfl, rfl, by exact nofun⟩
  · cases hanswer
    exact ⟨rfl, rfl, rfl, by exact nofun⟩
  · obtain ⟨_, -, hafter⟩ := Option.map_eq_some_iff.1 hanswer
    cases hafter
    exact ⟨rfl, rfl, rfl, by exact nofun⟩
  · split at hanswer
    · cases hanswer
      exact ⟨rfl, rfl, rfl, by exact nofun⟩
    · cases hanswer
  · cases hanswer
    exact ⟨rfl, rfl, rfl, by exact nofun⟩
  · split at hanswer
    · cases hanswer
      exact ⟨rfl, rfl, rfl, by exact nofun⟩
    · cases hanswer
  · cases hanswer
    exact ⟨rfl, rfl, rfl, by exact nofun⟩
  · cases hanswer
    refine ⟨rfl, rfl, rfl, fun login generation heq ↦ ?_⟩
    obtain ⟨rfl, _, hlive⟩ := Phase.confirm.inj heq
    exact Option.some.inj hlive
  · cases hanswer
    exact ⟨rfl, rfl, rfl, by exact nofun⟩
  · cases hanswer

theorem Knows.next (hknows : Knows timely past table channelId l pending phase)
    (hearly : after.early = true ∨ table.holds.lookup channelId = none)
    (hheld : ∀ h, after.held = some h → pending.held = some h)
    (hcaller : ∀ login, after.caller = some login → login ∈ pending.sessionIds)
    (hlive : ∀ login generation, after = .confirm login generation (some true) → pending.invalidated = none →
      login ∉ past.revoked) : Knows timely past table channelId l pending after where
  link := hknows.link
  held := hknows.held
  holds h hlookup := ⟨(hknows.holds h hlookup).1, hearly.resolve_right fun hnone ↦ nomatch hnone.symm.trans hlookup⟩
  reread := hheld
  caller := hcaller
  live := hlive

/-- Past the rereading, the document that the attach is about has no hold. -/
theorem Knows.unheld (hknows : Knows timely past table channelId l pending phase) (hlate : phase.early = false) :
    table.holds.lookup channelId = none := by
  by_contra hsome
  obtain ⟨h, hlookup⟩ := Option.ne_none_iff_exists'.1 hsome
  exact nomatch hlate.symm.trans (hknows.holds h hlookup).2

variable {login : String}

/-- The attach goes on to await something about the login that it is for. -/
theorem Sound.goesOn (hsound : Sound timely state)
    (hknows : Knows timely state.past state.table channelId l pending phase) (hlogin : phase.caller = some login) (hcaller : after.caller = some login)
    (hearly : after.early = true ∨ state.table.holds.lookup channelId = none)
    (hheld : ∀ h, after.held = some h → pending.held = some h)
    (hlive : ∀ login generation, after ≠ .confirm login generation (some true)) :
    Sound timely (state.await channelId l pending after) := by
  refine hsound.await (hknows.next hearly hheld (fun other heq ↦ ?_) fun login' generation heq ↦
    absurd heq (hlive login' generation))
  obtain rfl := Option.mem_unique hcaller heq
  exact hknows.caller _ hlogin

/-- The hold that the caller has is dropped. -/
theorem Sound.drop (hsound : Sound timely state) (hknows : Knows timely state.past state.table channelId l pending phase)
    (hheld : pending.held = some h) : Sound timely { state with table := state.table.drop h } ∧
      (state.table.drop h).holds.lookup channelId = none ∧
      Knows timely state.past (state.table.drop h) channelId l pending phase := by
  obtain ⟨hold, hhold, hchannel, hfree⟩ := hknows.held h hheld
  have hgoes := Table.goes_drop hsound.linked.parks h
  obtain ⟨left, hleft, hstill⟩ := hgoes.heap.getElem?_left hhold
  have hdropped := Table.drop_linked hsound.linked h
  refine ⟨hsound.goes (hdropped.found (hdropped.free hleft ?_)) hgoes, ?_, hknows.goes hgoes⟩
  · exact hstill.link.elim (fun heq ↦ heq.trans hfree) id
  · by_contra hsome
    obtain ⟨h', hlookup⟩ := Option.ne_none_iff_exists'.1 hsome
    obtain rfl := Option.some.inj (hheld.symm.trans (hknows.holds h' (hgoes.holds channelId h' hlookup)).1)
    exact Table.drop_gone hhold (hchannel ▸ hlookup)

theorem allowed_sound (hsound : Sound timely state)
    (hknows : Knows timely state.past state.table channelId l pending (.access login (some .granted)))
    (hlink : state.table.links[l]? = some link) : Sound timely (state.allowed channelId l link pending login) := by
  rw [allowed]
  split
  · exact hsound.refused hknows hlink _
  · rename_i hvalid
    split
    · rename_i hnone
      rw [toClaim, hvalid]
      refine hsound.goesOn hknows rfl rfl (.inr ?_) nofun nofun
      by_contra hsome
      obtain ⟨h, hlookup⟩ := Option.ne_none_iff_exists'.1 hsome
      obtain ⟨hold, hhold, _⟩ := hsound.linked.holds channelId h hlookup
      rw [(hknows.holds h hlookup).1, Option.bind_some, hhold] at hnone
      cases hnone
    · rename_i h hold hsome
      obtain ⟨h', hheld, hpair⟩ := Option.bind_eq_some_iff.1 hsome
      obtain ⟨hold', hhold, heq⟩ := Option.map_eq_some_iff.1 hpair
      obtain ⟨rfl, rfl⟩ := Prod.mk.inj heq
      obtain ⟨other, hother, hchannel, -⟩ := hknows.held h' hheld
      obtain rfl := Option.mem_unique hhold hother
      dsimp only
      split
      · rename_i hcurrent
        rw [Bool.not_eq_true', ← Bool.not_eq_true, Table.current_iff, hchannel] at hcurrent
        rw [toClaim, hvalid]
        refine hsound.goesOn hknows rfl rfl (.inr ?_) nofun nofun
        by_contra hsome
        obtain ⟨h, hlookup⟩ := Option.ne_none_iff_exists'.1 hsome
        obtain rfl := Option.some.inj (hheld.symm.trans (hknows.holds h hlookup).1)
        exact hcurrent hlookup
      · have hkept : Sound timely (state.await channelId l pending (.readAgent login h' none)) := by
          refine hsound.goesOn hknows rfl rfl (.inl rfl) (fun h heq ↦ ?_) nofun
          exact heq ▸ hheld
        have hgiven : Sound timely
            ({ state with table := state.table.drop h' }.await channelId l pending (.release login h' false)) := by
          obtain ⟨hdropped, hnone, hknows⟩ := hsound.drop hknows hheld
          exact hdropped.goesOn hknows rfl rfl (.inr hnone) nofun nofun
        split
        · split
          · exact hkept
          · exact hgiven
        · split
          · exact hkept
          · exact hgiven

theorem reread_sound (hsound : Sound timely state) {stored : Option AgentState} {live : Bool}
    (hknows : Knows timely state.past state.table channelId l pending (.resolve login h stored (some live)))
    (hlink : state.table.links[l]? = some link) (hhold : state.table.heap[h]? = some hold) :
    Sound timely (state.reread channelId l link pending login h hold stored live) := by
  have hheld := hknows.reread h rfl
  rw [reread]
  split
  · exact hsound.refused hknows hlink _
  · rename_i hvalid
    split
    · rename_i hkept
      rw [Bool.and_eq_true, Bool.and_eq_true] at hkept
      obtain ⟨other, hother, hchannel, hfree⟩ := hknows.held h hheld
      obtain rfl := Option.mem_unique hhold hother
      obtain ⟨mine, hmine, hsame, hstage, hturn, hasked⟩ := hknows.link
      obtain rfl := Option.mem_unique hlink hmine
      have hstate := awake hsound.linked hlink fun h heq ↦ nomatch hstage.symm.trans heq
      have hidle := hsound.idle (idle_delete state.working channelId)
      refine hidle.grant hlink ?_ hhold hfree hkept.1.2 (hchannel.trans hsame.symm) hstate ?_ ?_
      · rw [hsame]
        show (Entries.delete state.working channelId).lookup channelId = none
        rw [Entries.lookup_delete, if_pos rfl]
      · rw [hsame]
        exact hturn hvalid
      · rw [hsame]
        exact hasked
    · obtain ⟨hdropped, hnone, hknows⟩ := hsound.drop hknows hheld
      dsimp only
      split
      · rw [toClaim, hvalid]
        exact hdropped.goesOn hknows rfl rfl (.inr hnone) nofun nofun
      · exact hdropped.goesOn hknows rfl rfl (.inr hnone) nofun nofun

theorem confirmed_sound (hsound : Sound timely state) {generation : Nat} {live : Bool}
    (hknows : Knows timely state.past state.table channelId l pending (.confirm login generation (some live)))
    (hlink : state.table.links[l]? = some link) :
    Sound timely (state.confirmed channelId l link pending login generation live) := by
  have hnone := hknows.unheld rfl
  rw [confirmed]
  split
  · exact hsound.goesOn hknows rfl rfl (.inr hnone) nofun nofun
  · rename_i hvalid
    rw [Option.or_eq_none_iff] at hvalid
    obtain ⟨hvalid, hlive⟩ := hvalid
    obtain rfl : live = true := by
      cases live
      · cases hlive
      · rfl
    obtain ⟨mine, hmine, hsame, hstage, hturn, hasked⟩ := hknows.link
    obtain rfl := Option.mem_unique hlink hmine
    subst hsame
    have hstate := awake hsound.linked hlink fun h heq ↦ nomatch hstage.symm.trans heq
    have hidle := hsound.idle (idle_delete state.working link.request.channelId)
    have hdone : (Entries.delete state.working link.request.channelId).lookup link.request.channelId = none := by
      rw [Entries.lookup_delete, if_pos rfl]
    have hfirm : Firm timely state.past (claimedHold link login generation) :=
      ⟨hknows.live login generation rfl hvalid, hturn hvalid, hasked⟩
    have hheld := hidle.claimed hnone hdone rfl hfirm
    refine hheld.grant hlink hdone List.getElem?_concat_length rfl (Table.current_iff.2 ?_) rfl hstate (hturn hvalid) hasked
    show (Entries.set state.table.holds link.request.channelId state.table.heap.length).lookup link.request.channelId = _
    rw [Entries.lookup_set, if_pos rfl]

variable {after : PlannerAttachments}

theorem go_sound (hsound : Sound timely state)
    (hknows : Knows timely state.past state.table channelId l pending phase) (hlink : state.table.links[l]? = some link)
    (hgo : state.go channelId l link pending phase = some after) : Sound timely after := by
  rw [go.eq_def] at hgo
  split at hgo
  · cases hgo
    exact hsound.refused hknows hlink _
  · rename_i login
    cases hgo
    refine hsound.await ⟨hknows.link, hknows.held, fun h hlookup ↦ ⟨(hknows.holds h hlookup).1, rfl⟩, by exact nofun, ?_,
      by exact nofun⟩
    intro other heq
    cases heq
    exact List.mem_append_right _ (List.mem_singleton.2 rfl)
  · cases hgo
    exact hsound.refused hknows hlink _
  · cases hgo
    exact hsound.refused hknows hlink _
  · cases hgo
    exact allowed_sound hsound hknows hlink
  · cases hgo
    rw [toClaim]
    split
    · exact hsound.refused hknows hlink _
    · exact hsound.goesOn hknows rfl rfl (.inr (hknows.unheld rfl)) nofun nofun
  · cases hgo
    exact hsound.goesOn hknows rfl rfl (.inl rfl) (fun h heq ↦ hknows.reread h heq) nofun
  · obtain ⟨hold, hhold, rfl⟩ := Option.map_eq_some_iff.1 hgo
    exact reread_sound hsound hknows hlink hhold
  · have hnone := hknows.unheld rfl
    cases hgo
    split
    · exact hsound.goesOn hknows rfl rfl (.inr hnone) nofun nofun
    · split
      · exact hsound.goesOn hknows rfl rfl (.inr hnone) nofun nofun
      · exact hsound.goesOn hknows rfl rfl (.inr hnone) nofun nofun
  · cases hgo
    exact hsound.goesOn hknows rfl rfl (.inr (hknows.unheld rfl)) nofun nofun
  · cases hgo
    split
    · exact hsound.goesOn hknows rfl rfl (.inr (hknows.unheld rfl)) nofun nofun
    · exact hsound.refused hknows hlink _
  · cases hgo
    exact hsound.refused hknows hlink _
  · cases hgo
    exact confirmed_sound hsound hknows hlink
  · cases hgo
    exact hsound.refused hknows hlink _
  · cases hgo

theorem fail_sound (hsound : Sound timely state)
    (hknows : Knows timely state.past state.table channelId l pending phase) (hlink : state.table.links[l]? = some link)
    (hfail : state.fail channelId l link pending phase = some after) : Sound timely after := by
  have hawait : ∀ login, phase.caller = some login → phase.early = false →
      Sound timely (state.await channelId l pending (.claimRefused login none)) := fun login hlogin hlate ↦
    hsound.goesOn hknows hlogin rfl (.inr (hknows.unheld hlate)) (by rintro _ ⟨⟩) (by rintro _ _ ⟨⟩)
  rw [fail.eq_def] at hfail
  split at hfail
  · cases hfail
  · cases hfail
  iterate 3
    · cases hfail
      split
      · exact hsound.refused hknows hlink _
      · exact hawait _ rfl rfl
  · cases hfail
    exact hsound.refused hknows hlink _

/-! ### A turn begins -/

/-- What a document's link finds: the hold that it has, of its account and without a link. -/
theorem entry_free {held : Option Nat} (hlinked : table.Linked none) (hfree : entry table link = .free held) :
    table.holds.lookup link.request.channelId = held ∧
      ∀ h, held = some h → ∃ hold, table.heap[h]? = some hold ∧ hold.channelId = link.request.channelId ∧ hold.link = none := by
  rw [entry] at hfree
  split at hfree
  · rename_i hnone
    cases hfree
    refine ⟨?_, by exact nofun⟩
    by_contra hsome
    obtain ⟨h, hlookup⟩ := Option.ne_none_iff_exists'.1 hsome
    obtain ⟨hold, hhold, _⟩ := hlinked.holds _ h hlookup
    rw [hlookup, Option.bind_some, hhold] at hnone
    cases hnone
  · rename_i h hold hsome
    obtain ⟨h', hlookup, hpair⟩ := Option.bind_eq_some_iff.1 hsome
    obtain ⟨hold', hhold, heq⟩ := Option.map_eq_some_iff.1 hpair
    obtain ⟨rfl, rfl⟩ := Prod.mk.inj heq
    split at hfree
    · rename_i hunlinked
      split at hfree
      · cases hfree
        refine ⟨hlookup, fun h heq ↦ ?_⟩
        cases heq
        obtain ⟨other, hother, hchannel⟩ := hlinked.holds _ h' hlookup
        obtain rfl := Option.mem_unique hhold hother
        exact ⟨hold', hhold, hchannel, hunlinked⟩
      · cases hfree
    · dsimp only at hfree
      split at hfree
      · split at hfree <;> exact nomatch hfree
      · split at hfree <;> exact nomatch hfree

theorem attach_sound (hsound : Sound timely state) (hlink : state.table.links[l]? = some link)
    (hchannel : link.request.channelId = channelId) (hqueued : ∃ offer, link.stage = .queued offer) {taking : Bool}
    (hasked : timely → times state.ended channelId ≤ link.asked)
    (hoffered : timely → taking = false → ∀ earlier login, entry state.table link = .earlier earlier login →
      times state.endings channelId ≤ link.asked) : Sound timely (state.attach channelId l link taking) := by
  obtain ⟨offer, hstage⟩ := hqueued
  have hstate := awake hsound.linked hlink fun h heq ↦ nomatch hstage.symm.trans heq
  have hidle := hsound.not_working hlink fun heq ↦ nomatch hstage.symm.trans heq
  -- What the attach is answered at once grants nothing.
  have hanswered : ∀ outcome : Outcome, (Stage.answered outcome).on = none →
      (timely → ∀ ending, (Stage.answered outcome).ending = some ending → ending ≤ link.asked) →
      Sound timely { state with
        table := state.table.setLink l { link with turn := times state.resets channelId, stage := .answered outcome } } := by
    intro outcome hon hending
    refine hsound.relink hlink ?_ rfl rfl hidle ⟨?_, ?_, hending⟩ nofun
    · exact hsound.linked.setLink hlink hstate hstate nofun nofun fun h heq ↦ nomatch hon.symm.trans heq
    · exact fun h heq ↦ nomatch hon.symm.trans heq
    · exact fun _ h heq ↦ nomatch hon.symm.trans heq
  have hsame : entry state.table { link with turn := times state.resets channelId } = entry state.table link := rfl
  rw [attach]
  dsimp only
  split
  · exact hanswered _ rfl fun _ ↦ nofun
  · rename_i earlier login hentry
    split
    · exact hanswered _ rfl fun _ ↦ nofun
    · rename_i htaking
      refine hanswered _ rfl fun htimely ending heq ↦ ?_
      cases heq
      exact hoffered htimely (Bool.not_eq_true _ ▸ htaking) earlier login (hsame ▸ hentry)
  · rename_i held hentry
    obtain ⟨hlookup, hheld⟩ := entry_free hsound.linked (hsame ▸ hentry)
    have hrunning : Sound timely { state with
        table := state.table.setLink l { link with turn := times state.resets channelId, stage := .running } } := by
      refine hsound.relink hlink ?_ rfl rfl hidle ⟨?_, ?_, ?_⟩ nofun
      · exact hsound.linked.setLink hlink hstate hstate nofun nofun nofun
      · exact nofun
      · exact fun _ ↦ nofun
      · exact fun _ ↦ nofun
    refine hrunning.await ⟨⟨_, (List.getElem?_set_of hlink _ _).trans (if_pos rfl), hchannel, rfl, fun _ ↦ rfl, hasked⟩,
      fun h heq ↦ ?_, fun h heq ↦ ⟨?_, rfl⟩, by exact nofun, by exact nofun, by exact nofun⟩
    · rw [← hchannel]
      exact hheld h heq
    · rw [← hchannel] at heq
      exact hlookup.symm.trans heq

theorem takeover_sound (hsound : Sound timely state) (hlink : state.table.links[l]? = some link)
    (hchannel : link.request.channelId = channelId) {earlier ending : Nat}
    (hstage : link.stage = .queued (some (earlier, ending)))
    (names kept : Bool) : Sound timely (state.takeover channelId l link earlier ending names kept) := by
  have hstate := awake hsound.linked hlink fun h heq ↦ nomatch hstage.symm.trans heq
  have hidle := hsound.not_working hlink fun heq ↦ nomatch hstage.symm.trans heq
  have hrefused : ∀ refusal, Sound timely { state with
      table := state.table.setLink l { link with stage := .answered (.refused refusal) } } := by
    intro refusal
    refine hsound.relink hlink ?_ rfl rfl hidle ⟨?_, ?_, ?_⟩ nofun
    · exact hsound.linked.setLink hlink hstate hstate nofun nofun nofun
    · exact nofun
    · exact fun _ ↦ nofun
    · exact fun _ ↦ nofun
  rw [takeover]
  dsimp only
  split
  · exact hrefused _
  · rename_i hsame
    rw [not_not] at hsame
    -- It was not ended since the offer, which an attach was asked for before.
    have hasked : timely → times state.ended channelId ≤ link.asked := by
      intro htimely
      have hoffered := (hsound.links l link hlink).offered htimely ending (hstage ▸ rfl)
      have hcounted := hsound.counted channelId
      omega
    split
    · exact attach_sound hsound hlink hchannel ⟨_, hstage⟩ hasked fun _ ↦ nofun
    · split
      · exact attach_sound hsound hlink hchannel ⟨_, hstage⟩ hasked fun _ ↦ nofun
      · rename_i current hcurrent
        split
        · exact hrefused _
        · have hgoes := Table.goes_disconnected hsound.linked.parks current false kept
          have hsound' := hsound.goes (Table.disconnected_linked hsound.linked current (.inl rfl)) hgoes
          obtain ⟨after, hafter, hstill⟩ := hgoes.links.getElem?_left hlink
          rw [hafter]
          refine attach_sound hsound' hafter (hstill.request ▸ hchannel) ⟨_, (hstill.called (hstage ▸ rfl)).trans hstage⟩ ?_
            fun _ ↦ nofun
          rw [hstill.asked]
          exact hasked

/-! ### What waits for its turn -/

@[simp] theorem times_once (counts : List (String × Nat)) (channelId c : String) :
    times (once counts channelId) c = if c = channelId then times counts channelId + 1 else times counts c := by
  rw [times, once, Entries.lookup_set]
  split
  · rfl
  · rfl

variable {task : Task}

theorem waiting_pop (hfirst : state.first channelId = some task) :
    ∃ rest, state.waiting channelId = task :: rest ∧
      ∀ c, waiting { state with queue := state.queue.eraseP (·.1 == channelId) } c =
        if c = channelId then rest else state.waiting c := by
  rw [first_eq] at hfirst
  obtain ⟨rest, hwaiting⟩ := List.head?_eq_some_iff.1 hfirst
  refine ⟨rest, hwaiting, fun c ↦ (waiting_eraseP state.queue channelId c).trans ?_⟩
  split
  · exact congrArg List.tail hwaiting
  · rfl

/-- A turn begins that does not end its document. -/
theorem Sound.pop (hsound : Sound timely state) (hfirst : state.first channelId = some task)
    (htask : task ≠ .ended) : Sound timely { state with queue := state.queue.eraseP (·.1 == channelId) } := by
  obtain ⟨rest, hwaiting, hpop⟩ := waiting_pop hfirst
  refine ⟨hsound.linked, hsound.live, hsound.works, hsound.links, hsound.firm, fun c l hcall ↦ ?_, fun c ↦ ?_,
    fun htimely c before l after hsplit ↦ ?_⟩
  · refine hsound.calls c l ?_
    rw [hpop] at hcall
    split at hcall
    · subst c
      rw [hwaiting]
      exact List.mem_cons_of_mem _ hcall
    · exact hcall
  · rw [hpop]
    have hcounted := hsound.counted c
    split
    · subst c
      rw [hwaiting, List.count_cons_of_ne htask] at hcounted
      exact hcounted
    · exact hcounted
  · rw [hpop] at hsplit
    split at hsplit
    · subst c
      intro link hlink hstage
      have hahead := hsound.ahead htimely channelId (task :: before) l after (by rw [hwaiting, hsplit]; rfl) link hlink hstage
      rw [List.count_cons_of_ne htask] at hahead
      exact hahead
    · exact hsound.ahead htimely c before l after hsplit

/-- One more waits for its turn. -/
theorem Sound.enqueue (hsound : Sound timely state) (htask : task ≠ .ended)
    (hcall : ∀ l, task = .call l → ∃ link : Link, state.table.links[l]? = some link ∧ link.request.channelId = channelId ∧
      (timely → link.stage = .queued none → times state.endings channelId ≤ link.asked)) :
    Sound timely { state with queue := state.queue ++ [(channelId, task)] } := by
  have hpush : ∀ c, waiting { state with queue := state.queue ++ [(channelId, task)] } c =
      state.waiting c ++ if c = channelId then [task] else [] := waiting_append state.queue (channelId, task)
  refine ⟨hsound.linked, hsound.live, hsound.works, hsound.links, hsound.firm, fun c l hmem ↦ ?_, fun c ↦ ?_,
    fun htimely c before l after hsplit ↦ ?_⟩
  · rw [hpush, List.mem_append] at hmem
    obtain hmem | hmem := hmem
    · exact hsound.calls c l hmem
    · split at hmem
      · subst c
        obtain ⟨link, hlink, hchannel, _⟩ := hcall l (List.mem_singleton.1 hmem).symm
        exact ⟨link, hlink, hchannel⟩
      · cases hmem
  · rw [hpush, List.count_append]
    split
    · rw [List.count_singleton, if_neg (by simpa using htask)]
      exact hsound.counted c
    · exact hsound.counted c
  · rw [hpush] at hsplit
    split at hsplit
    · subst c
      obtain ⟨rfl, rfl⟩ | ⟨rest, hbefore⟩ := List.concat_eq_append_cons hsplit
      · intro link hlink hstage
        obtain ⟨other, hother, _, hasked⟩ := hcall l rfl
        obtain rfl := Option.mem_unique hlink hother
        have hcounted := hsound.counted channelId
        have hendings := hasked htimely hstage
        show times state.ended channelId + (state.waiting channelId).count .ended ≤ link.asked
        omega
      · exact hsound.ahead htimely channelId before l rest hbefore
    · rw [List.append_nil] at hsplit
      exact hsound.ahead htimely c before l after hsplit

theorem Sound.enqueueEnded (hsound : Sound timely state) (channelId : String) :
    Sound timely { state with endings := once state.endings channelId, queue := state.queue ++ [(channelId, .ended)] } := by
  have hpush : ∀ c, waiting { state with
      endings := once state.endings channelId, queue := state.queue ++ [(channelId, .ended)] } c =
      state.waiting c ++ if c = channelId then [Task.ended] else [] := waiting_append state.queue (channelId, .ended)
  refine ⟨hsound.linked, hsound.live, hsound.works, hsound.links, hsound.firm, fun c l hmem ↦ ?_, fun c ↦ ?_,
    fun htimely c before l after hsplit ↦ ?_⟩
  · rw [hpush, List.mem_append] at hmem
    refine hsound.calls c l (hmem.resolve_right fun hlast ↦ ?_)
    split at hlast
    · exact nomatch List.mem_singleton.1 hlast
    · cases hlast
  · rw [hpush, List.count_append, times_once]
    have hcounted := hsound.counted c
    split
    · subst c
      rw [List.count_singleton_self]
      show times state.endings channelId + 1 = times state.ended channelId + _
      omega
    · exact hcounted
  · rw [hpush] at hsplit
    split at hsplit
    · obtain ⟨_, heq⟩ | ⟨rest, hbefore⟩ := List.concat_eq_append_cons hsplit
      · cases heq
      · exact hsound.ahead htimely c before l rest hbefore
    · rw [List.append_nil] at hsplit
      exact hsound.ahead htimely c before l after hsplit

/-! ### What ends a hold -/

/-- The same happened to every document but one. -/
structure Past.Apart (channelId : String) (past after : Past) : Prop where
  revoked : after.revoked = past.revoked
  ended : ∀ c, c ≠ channelId → times after.ended c = times past.ended c
  resets : ∀ c, c ≠ channelId → times after.resets c = times past.resets c

variable {next : Past}

theorem Knows.apart {c : String} (hknows : Knows timely past table c l pending phase)
    (hapart : past.Apart channelId next) (hne : c ≠ channelId) : Knows timely next table c l pending phase where
  link := by
    rw [hapart.ended c hne, hapart.resets c hne]
    exact hknows.link
  held := hknows.held
  holds := hknows.holds
  reread := hknows.reread
  caller := hknows.caller
  live := by
    rw [hapart.revoked]
    exact hknows.live

/-- Nobody holds the document that it happened to. -/
theorem Sound.links_apart (hsound : Sound timely state) (hnone : state.table.holds.lookup channelId = none)
    (hapart : state.past.Apart channelId next) (l : Nat) (link : Link) (hlink : state.table.links[l]? = some link) :
    Good timely next link := by
  have hgood := hsound.links l link hlink
  have hne : ∀ h, link.stage.on = some h → link.state ≠ .closed → link.request.channelId ≠ channelId := by
    intro h hon hopen hsame
    obtain ⟨hold, _, hchannel, _, hcurrent⟩ := hsound.linked.on l link h hlink hon hopen
    have hlookup := Table.current_iff.1 (hcurrent nofun)
    rw [hchannel, hsame] at hlookup
    exact nomatch hnone.symm.trans hlookup
  refine ⟨fun h hon hopen ↦ ?_, fun htimely h hon hopen ↦ ?_, hgood.offered⟩
  · rw [hapart.resets _ (hne h hon hopen)]
    exact hgood.turn h hon hopen
  · rw [hapart.ended _ (hne h hon hopen)]
    exact hgood.asked htimely h hon hopen

theorem Sound.firm_apart (hsound : Sound timely state) (hnone : state.table.holds.lookup channelId = none)
    (hapart : state.past.Apart channelId next) (c : String) (h : Nat) (hold : Hold)
    (hlookup : state.table.holds.lookup c = some h) (hhold : state.table.heap[h]? = some hold) :
    Firm timely next hold := by
  have hfirm := hsound.firm c h hold hlookup hhold
  obtain ⟨other, hother, hchannel⟩ := hsound.linked.holds c h hlookup
  obtain rfl := Option.mem_unique hhold hother
  have hne : hold.channelId ≠ channelId := by
    intro hsame
    rw [← hchannel, hsame] at hlookup
    exact nomatch hnone.symm.trans hlookup
  refine ⟨?_, ?_, fun htimely ↦ ?_⟩
  · rw [hapart.revoked]
    exact hfirm.owner
  · rw [hapart.resets _ hne]
    exact hfirm.begun
  · rw [hapart.ended _ hne]
    exact hfirm.asked htimely

/-- A document ends in its turn, and nobody holds it. -/
theorem Sound.over (hsound : Sound timely state) (hfirst : state.first channelId = some .ended)
    (hnone : state.table.holds.lookup channelId = none) (hdone : state.working.lookup channelId = none) :
    Sound timely { state with
      queue := state.queue.eraseP (·.1 == channelId), ended := once state.ended channelId } := by
  obtain ⟨rest, hwaiting, hpop⟩ := waiting_pop hfirst
  have hpop : ∀ c, waiting { state with
      queue := state.queue.eraseP (·.1 == channelId), ended := once state.ended channelId } c =
        if c = channelId then rest else state.waiting c := hpop
  have hapart : state.past.Apart channelId (past { state with
      queue := state.queue.eraseP (·.1 == channelId), ended := once state.ended channelId }) :=
    ⟨rfl, fun c hne ↦ (times_once _ _ _).trans (if_neg hne), fun _ _ ↦ rfl⟩
  refine ⟨hsound.linked, hsound.live, fun c l pending phase hwork ↦ ?_, hsound.links_apart hnone hapart,
    hsound.firm_apart hnone hapart, fun c l hcall ↦ ?_, fun c ↦ ?_, fun htimely c before l after hsplit ↦ ?_⟩
  · refine (hsound.works c l pending phase hwork).apart hapart ?_
    rintro rfl
    exact nomatch hdone.symm.trans hwork
  · refine hsound.calls c l ?_
    rw [hpop] at hcall
    split at hcall
    · subst c
      rw [hwaiting]
      exact List.mem_cons_of_mem _ hcall
    · exact hcall
  · have hcounted := hsound.counted c
    rw [hpop, times_once]
    split
    · subst c
      rw [hwaiting, List.count_cons_self] at hcounted
      show times state.endings channelId = _
      omega
    · exact hcounted
  · intro link hlink hstage
    rw [hpop] at hsplit
    rw [times_once]
    split at hsplit
    · subst c
      rw [if_pos rfl]
      have hahead := hsound.ahead htimely channelId (.ended :: before) l after (by rw [hwaiting, hsplit]; rfl) link hlink hstage
      rw [List.count_cons_self] at hahead
      omega
    · rename_i hne
      rw [if_neg hne]
      exact hsound.ahead htimely c before l after hsplit link hlink hstage

theorem Sound.invalidate (hsound : Sound timely state) (h : Nat) (refusal : AttachRefusal) :
    Sound timely { state with table := state.table.invalidate h refusal } :=
  hsound.goes (Table.invalidate_linked hsound.linked h refusal) (Table.goes_invalidate hsound.linked h refusal)

/-- The document whose hold is invalidated has none. -/
theorem Sound.unhold (hsound : Sound timely state) (hlookup : state.table.holds.lookup channelId = some h)
    (refusal : AttachRefusal) : (state.table.invalidate h refusal).holds.lookup channelId = none := by
  by_contra hsome
  obtain ⟨h', hlookup'⟩ := Option.ne_none_iff_exists'.1 hsome
  obtain ⟨hold, hhold, hchannel⟩ := hsound.linked.holds channelId h hlookup
  have hbefore := (Table.goes_invalidate hsound.linked h refusal).holds channelId h' hlookup'
  obtain rfl := Option.mem_unique hlookup hbefore
  exact Table.invalidate_gone hsound.linked hhold refusal (hchannel ▸ hlookup')

theorem reset_sound (hsound : Sound timely state) (hnone : state.table.holds.lookup channelId = none)
    (refusal : PendingAttach → AttachRefusal) :
    Sound timely { state with
      resets := once state.resets channelId
      working := match state.working.lookup channelId with
        | some work => Entries.set state.working channelId (invalidated refusal work)
        | none => state.working } := by
  have hapart : ∀ working, state.past.Apart channelId (past { state with resets := once state.resets channelId, working }) :=
    fun _ ↦ ⟨rfl, fun _ _ ↦ rfl, fun c hne ↦ (times_once _ _ _).trans (if_neg hne)⟩
  refine ⟨hsound.linked, hsound.live, fun c l pending phase hwork ↦ ?_, hsound.links_apart hnone (hapart _),
    hsound.firm_apart hnone (hapart _), hsound.calls, hsound.counted, hsound.ahead⟩
  dsimp only at hwork
  split at hwork
  · rename_i work hbefore
    rw [Entries.lookup_set] at hwork
    split at hwork
    · subst c
      cases work with
      | release h => exact nomatch Option.some.inj hwork
      | attach l' before phase' =>
        obtain ⟨rfl, rfl, rfl⟩ := Work.attach.inj (Option.some.inj hwork)
        have hknows := hsound.works channelId l' before phase' hbefore
        have hinvalid : before.invalidated.or (some (refusal before)) ≠ none :=
          fun hvalid ↦ nomatch (Option.or_eq_none_iff.1 hvalid).2
        obtain ⟨link, hlink, hchannel, hstage, _, hasked⟩ := hknows.link
        exact ⟨⟨link, hlink, hchannel, hstage, fun hvalid ↦ absurd hvalid hinvalid, hasked⟩, hknows.held, hknows.holds,
          hknows.reread, hknows.caller, fun _ _ _ hvalid ↦ absurd hvalid hinvalid⟩
    · rename_i hne
      exact (hsound.works c l pending phase hwork).apart (hapart _) hne
  · rename_i hdone
    refine (hsound.works c l pending phase hwork).apart (hapart _) ?_
    rintro rfl
    exact nomatch hdone.symm.trans hwork

theorem ownerReset_sound (hsound : Sound timely state) (channelId : String) :
    Sound timely (state.ownerReset channelId) := by
  rw [ownerReset]
  split
  · rename_i h hlookup
    exact reset_sound (hsound.invalidate h _) (hsound.unhold hlookup _) _
  · rename_i hnone
    exact reset_sound hsound hnone _

/-- The holds that a login owns are invalidated, one by one. -/
theorem foldl_endLogin (sessionId : String) (entries : List (String × Nat)) (hlinked : table.Linked none) :
    (entries.foldl (endLogin sessionId) table).Linked none ∧ table.Goes (entries.foldl (endLogin sessionId) table) ∧
      ∀ entry ∈ entries, ∀ hold, (entries.foldl (endLogin sessionId) table).heap[entry.2]? = some hold →
        hold.ownerSessionId = sessionId →
          (entries.foldl (endLogin sessionId) table).holds.lookup hold.channelId ≠ some entry.2 := by
  induction entries generalizing table with
  | nil => exact ⟨hlinked, .refl table, fun entry hmem ↦ nomatch hmem⟩
  | cons entry rest ih =>
    have hfirst : (endLogin sessionId table entry).Linked none ∧ table.Goes (endLogin sessionId table entry) ∧
        ∀ hold, table.heap[entry.2]? = some hold → hold.ownerSessionId = sessionId →
          (endLogin sessionId table entry).holds.lookup hold.channelId ≠ some entry.2 := by
      rw [endLogin]
      split
      · rename_i hnone
        exact ⟨hlinked, .refl table, fun hold hhold ↦ nomatch hnone.symm.trans hhold⟩
      · rename_i hold hhold
        split
        · refine ⟨Table.invalidate_linked hlinked _ _, Table.goes_invalidate hlinked _ _, fun other hother _ ↦ ?_⟩
          obtain rfl := Option.mem_unique hhold hother
          exact Table.invalidate_gone hlinked hhold _
        · rename_i hne
          refine ⟨hlinked, .refl table, fun other hother howner ↦ ?_⟩
          obtain rfl := Option.mem_unique hhold hother
          exact absurd howner hne
    obtain ⟨hlinked', hgoes, hgone⟩ := hfirst
    obtain ⟨hlast, hgoes', hrest⟩ := ih hlinked'
    rw [List.foldl_cons]
    refine ⟨hlast, hgoes.trans hgoes', fun other hmem hold hhold howner ↦ ?_⟩
    obtain rfl | hmem := List.mem_cons.1 hmem
    · intro hlookup
      obtain ⟨before, hbefore, hstill⟩ := (hgoes.trans hgoes').heap.getElem?_right hhold
      refine hgone before hbefore (hstill.ownerSessionId.symm.trans howner) ?_
      rw [← hstill.channelId]
      exact hgoes'.holds _ _ hlookup
    · exact hrest other hmem hold hhold howner

theorem sessionRevoked_sound (hsound : Sound timely state) {sessionId : String}
    (hover : state.logins.any (·.id == sessionId) = false) : Sound timely (state.sessionRevoked sessionId) := by
  obtain ⟨hlinked, hgoes, hgone⟩ := foldl_endLogin sessionId state.table.holds hsound.linked
  have hsound' := hsound.goes hlinked hgoes
  refine ⟨hlinked, fun login hlogin ↦ ?_, fun c l pending phase hwork ↦ ?_, ?_, fun c h hold hlookup hhold ↦ ?_,
    hsound'.calls, hsound.counted, hsound'.ahead⟩
  · refine List.not_mem_cons_of_ne_of_not_mem (fun heq ↦ ?_) (hsound.live login hlogin)
    rw [List.any_eq_false] at hover
    exact hover login hlogin (beq_iff_eq.2 heq)
  · have hmap : (state.working.map fun entry ↦ (entry.1, if restsOn sessionId entry.2 then
        invalidated (state.pendingRefusal sessionId) entry.2 else entry.2)).lookup c = some (.attach l pending phase) := hwork
    rw [Entries.lookup_map state.working fun work ↦ if restsOn sessionId work then
      invalidated (state.pendingRefusal sessionId) work else work] at hmap
    obtain ⟨work, hbefore, hafter⟩ := Option.map_eq_some_iff.1 hmap
    -- An attach that rests on the login is invalidated; the others rest on no login that ends.
    have hstill : ∃ before, state.working.lookup c = some (.attach l before phase) ∧
        pending = { before with invalidated := pending.invalidated } ∧
        (pending.invalidated = none → before.invalidated = none ∧ sessionId ∉ before.sessionIds) := by
      cases work with
      | release h => split at hafter <;> exact nomatch hafter
      | attach l' before phase' =>
        split at hafter
        · obtain ⟨rfl, rfl, rfl⟩ := Work.attach.inj hafter
          exact ⟨before, hbefore, rfl, fun hvalid ↦ nomatch (Option.or_eq_none_iff.1 hvalid).2⟩
        · rename_i hrests
          obtain ⟨rfl, rfl, rfl⟩ := Work.attach.inj hafter
          refine ⟨before, hbefore, rfl, fun hvalid ↦ ⟨hvalid, fun hmem ↦ hrests ?_⟩⟩
          exact List.contains_iff_mem.2 hmem
    obtain ⟨before, hworking, heq, hvalid⟩ := hstill
    have hknows := hsound'.works c l before phase hworking
    rw [heq]
    obtain ⟨link, hlink, hchannel, hstage, hturn, hasked⟩ := hknows.link
    refine ⟨⟨link, hlink, hchannel, hstage, fun hnone ↦ hturn (hvalid hnone).1, hasked⟩, hknows.held, hknows.holds,
      hknows.reread, hknows.caller, fun login generation hphase hnone ↦ ?_⟩
    refine List.not_mem_cons_of_ne_of_not_mem ?_ (hknows.live login generation hphase (hvalid hnone).1)
    rintro rfl
    exact (hvalid hnone).2 (hknows.caller login (hphase ▸ rfl))
  · intro l link hlink
    have hgood := hsound'.links l link hlink
    exact ⟨hgood.turn, hgood.asked, hgood.offered⟩
  · have hfirm := hsound'.firm c h hold hlookup hhold
    refine ⟨List.not_mem_cons_of_ne_of_not_mem (fun howner ↦ ?_) hfirm.owner, hfirm.begun, hfirm.asked⟩
    obtain ⟨other, hother, hchannel⟩ := hlinked.holds c h hlookup
    obtain rfl := Option.mem_unique hhold hother
    refine hgone (c, h) (Entries.mem_of_lookup (hgoes.holds c h hlookup)) hold hhold howner ?_
    rw [hchannel]
    exact hlookup

/-! ### A link hears -/

theorem hear_sound (hsound : Sound timely state) (hlink : state.table.links[l]? = some link) {outcome : Outcome}
    (hstage : link.stage = .answered outcome) : Sound timely
    { state with table := hear state.table l link outcome } := by
  have hstate := awake hsound.linked hlink fun h heq ↦ by cases hstage.symm.trans heq
  have hidle := hsound.not_working hlink fun heq ↦ by cases hstage.symm.trans heq
  have hgood := hsound.links l link hlink
  have hover : Good timely state.past { link with stage := .over } :=
    ⟨by rintro _ ⟨⟩, fun _ ↦ by rintro _ ⟨⟩, fun _ ↦ by rintro _ ⟨⟩⟩
  -- A link whose attach is refused, or that was closed meanwhile, is through.
  have hthrough : Sound timely { state with table := state.table.setLink l { link with stage := .over } } := by
    refine hsound.relink hlink ?_ rfl rfl hidle hover (by rintro ⟨⟩)
    exact hsound.linked.setLink hlink hstate hstate (by rintro _ ⟨⟩) (by rintro _ _ ⟨⟩) (by rintro _ ⟨⟩)
  rw [hear.eq_def]
  split
  · dsimp only
    split
    · rename_i h
      refine hthrough.goes (Table.detached_linked hthrough.linked h l fun after hafter hon ↦ ?_)
        (Table.goes_detached hthrough.linked.parks h l false)
      have hset := hafter
      dsimp only at hset
      rw [Table.setLink, List.getElem?_set_of hlink, if_pos rfl] at hset
      cases hset
      cases hon
    · exact hthrough
  · rename_i hopen
    split
    · rename_i refusal
      exact hthrough.goes (Table.revoke_linked hthrough.linked l refusal) (Table.goes_revoke hthrough.linked.parks l refusal)
    · rename_i h
      have hon : link.stage.on = some h := hstage ▸ rfl
      have hbound : Sound timely { state with
          table := state.table.setLink l { link with state := .attached, stage := .bound h link.resumable } } := by
        refine hsound.relink hlink ?_ rfl rfl hidle ⟨fun _ _ _ ↦ hgood.turn h hon hopen, fun htimely _ _ _ ↦
          hgood.asked htimely h hon hopen, fun _ ↦ by rintro _ ⟨⟩⟩ (by rintro ⟨⟩)
        refine hsound.linked.setLink hlink hstate (by rintro ⟨⟩) (by rintro _ ⟨⟩) (fun _ _ _ ↦ rfl) fun h' hon' _ ↦ ?_
        cases hon'
        exact hsound.linked.on l link h hlink hon hopen
      rw [bound]
      split
      · exact hbound
      · exact hbound.goes (Table.claim_linked hbound.linked h l) (Table.goes_claim hbound.linked.parks h l)
    · rename_i earlier ending
      refine hsound.relink hlink ?_ rfl rfl hidle ⟨by rintro _ ⟨⟩, fun _ ↦ by rintro _ ⟨⟩, fun htimely other heq ↦ ?_⟩
        (by rintro ⟨⟩)
      · exact hsound.linked.setLink hlink hstate (by rintro ⟨⟩) (by rintro _ ⟨⟩) (by rintro _ _ ⟨⟩) (by rintro _ ⟨⟩)
      · exact hgood.offered htimely other (hstage ▸ heq)

/-! ## Every operation -/

/-- No attach is offered a takeover in its turn while a call that ends the document waits for its own. -/
def offersInTime (state : PlannerAttachments) : Act → Bool
  | .start channelId _ _ =>
    match state.first channelId with
    | some (.call l) =>
      match state.table.links[l]? with
      | some link =>
        match link.stage, entry state.table link with
        | .queued none, .earlier _ _ => !(state.waiting channelId).contains .ended
        | _, _ => true
      | none => true
    | _ => true
  | _ => true

theorem not_ended_of_offersInTime {names kept : Bool}
    (htimely : state.offersInTime (.start channelId names kept) = true)
    (hfirst : state.first channelId = some (.call l)) (hlink : state.table.links[l]? = some link)
    (hstage : link.stage = .queued none) {earlier : Nat}
    (hentry : entry state.table link = .earlier earlier login) : .ended ∉ state.waiting channelId := by
  rw [offersInTime, hfirst] at htimely
  dsimp only at htimely
  rw [hlink] at htimely
  dsimp only at htimely
  rw [hstage, hentry] at htimely
  simpa using htimely

theorem start_sound (hsound : Sound timely state) {names kept : Bool}
    (hmet : timely → state.offersInTime (.start channelId names kept) = true)
    (hdone : state.working.lookup channelId = none) (hfirst : state.first channelId = some task)
    (hstart : { state with queue := state.queue.eraseP (·.1 == channelId) }.start channelId names kept task = some after) :
    Sound timely after := by
  obtain ⟨rest, hwaiting, -⟩ := waiting_pop hfirst
  cases task with
  | call l =>
    have hpopped := hsound.pop hfirst nofun
    obtain ⟨link, hlink, hchannel⟩ := hsound.calls channelId l (hwaiting ▸ List.mem_cons_self)
    have hsome : (state.table.links[l]?).bind _ = some after := hstart
    rw [hlink, Option.bind_some] at hsome
    split at hsome
    · rename_i hstage
      cases hsome
      have hahead : timely → times state.ended channelId ≤ link.asked := fun htimely ↦
        hsound.ahead htimely channelId [] l rest hwaiting link hlink hstage
      refine attach_sound hpopped hlink hchannel ⟨none, hstage⟩ hahead fun htimely _ earlier login hentry ↦ ?_
      have hcount := List.count_eq_zero.2 (not_ended_of_offersInTime (hmet htimely) hfirst hlink hstage hentry)
      have hcounted := hsound.counted channelId
      have hasked := hahead htimely
      show times state.endings channelId ≤ link.asked
      omega
    · rename_i earlier ending hstage
      cases hsome
      exact takeover_sound hpopped hlink hchannel hstage names kept
    · cases hsome
  | ended =>
    cases hstart
    dsimp only
    split
    · rename_i hnone
      exact hsound.over hfirst hnone hdone
    · rename_i h hlookup
      have hover := (hsound.invalidate h .documentEnded).over hfirst (hsound.unhold hlookup _) hdone
      exact hover.idle (idle_release state.working channelId h)
  | expire h =>
    have hpopped := hsound.pop hfirst nofun
    obtain ⟨hold, hhold, rfl⟩ := Option.map_eq_some_iff.1 hstart
    split
    · exact hpopped
    · rename_i hkept
      rw [Bool.or_eq_true, not_or, Bool.not_eq_true', Bool.not_eq_false, Bool.not_eq_true, Option.isSome_eq_false_iff,
        Option.isNone_iff_eq_none] at hkept
      have hgoes := Table.goes_drop hpopped.linked.parks h
      obtain ⟨left, hleft, hstill⟩ := hgoes.heap.getElem?_left hhold
      have hdropped := Table.drop_linked hpopped.linked h
      have hfree := hdropped.free hleft (hstill.link.elim (fun heq ↦ heq.trans hkept.2) id)
      exact (hpopped.goes (hdropped.found hfree) hgoes).idle (idle_release state.working channelId h)
  | stopMachine machineId message =>
    have hpopped := hsound.pop hfirst nofun
    cases hstart
    split
    · exact hpopped
    · dsimp only
      split
      · exact hpopped
      · exact (hpopped.invalidate _ _).idle (idle_release state.working channelId _)

/-- A link that asks to be attached. -/
theorem request_sound (hsound : Sound timely state) (hstage : link.stage = .queued none)
    (hstate : link.state = .attaching) (hasked : link.asked = times state.endings link.request.channelId) :
    Sound timely { state with
      table := { state.table with links := state.table.links ++ [link] }
      queue := state.queue ++ [(link.request.channelId, .call state.table.links.length)] } := by
  have hget : ∀ {l : Nat} {other : Link}, (state.table.links ++ [link])[l]? = some other →
      state.table.links[l]? = some other ∨ other = link := by
    intro l other hother
    rw [List.getElem?_append] at hother
    split at hother
    · exact .inl hother
    · exact .inr (List.mem_singleton.1 (List.mem_of_getElem? hother))
  have hkept : ∀ {l : Nat} {other : Link}, state.table.links[l]? = some other →
      (state.table.links ++ [link])[l]? = some other := fun hother ↦
    (List.getElem?_append_left (List.getElem?_eq_some_iff.1 hother).1).trans hother
  have hadded : Sound timely { state with table := { state.table with links := state.table.links ++ [link] } } := by
    refine ⟨⟨hsound.linked.holds, fun l other h hother hon hopen ↦ ?_, fun l other h claim hother hbound ↦ ?_,
      fun h hold l hhold hparked ↦ ?_, fun l other h hother hparked ↦ ?_, fun l other hother hsuspended ↦ ?_⟩, hsound.live,
      fun c l pending phase hwork ↦ ?_, fun l other hother ↦ ?_, hsound.firm, fun c l hcall ↦ ?_, hsound.counted,
      fun htimely c before l after hwaiting other hother hqueued ↦ ?_⟩
    · obtain hother | rfl := hget hother
      · exact hsound.linked.on l other h hother hon hopen
      · rw [hstage] at hon
        cases hon
    · obtain hother | rfl := hget hother
      · exact hsound.linked.bound l other h claim hother hbound
      · exact nomatch hstage.symm.trans hbound
    · obtain ⟨hcurrent, other, hother, hrest⟩ := hsound.linked.parked h hold l hhold hparked
      exact ⟨hcurrent, other, hkept hother, hrest⟩
    · obtain hother | rfl := hget hother
      · exact hsound.linked.kept l other h hother hparked
      · exact nomatch hstage.symm.trans hparked
    · obtain hother | rfl := hget hother
      · exact hsound.linked.suspended l other hother hsuspended
      · exact nomatch hstate.symm.trans hsuspended
    · have hknows := hsound.works c l pending phase hwork
      obtain ⟨other, hother, hrest⟩ := hknows.link
      exact ⟨⟨other, hkept hother, hrest⟩, hknows.held, hknows.holds, hknows.reread, hknows.caller, hknows.live⟩
    · obtain hother | rfl := hget hother
      · exact hsound.links l other hother
      · refine ⟨?_, fun _ ↦ ?_, fun _ ↦ ?_⟩ <;> rw [hstage] <;> exact nofun
    · obtain ⟨other, hother, hchannel⟩ := hsound.calls c l hcall
      exact ⟨other, hkept hother, hchannel⟩
    · obtain ⟨known, hknown, _⟩ := hsound.calls c l (by rw [show state.waiting c = _ from hwaiting]; simp)
      have hsame := (hkept hknown).symm.trans hother
      obtain rfl := Option.some.inj hsame
      exact hsound.ahead htimely c before l after hwaiting known hknown hqueued
  refine hadded.enqueue nofun fun l heq ↦ ?_
  obtain rfl := Task.call.inj heq
  exact ⟨link, List.getElem?_concat_length, rfl, fun _ _ ↦ Nat.le_of_eq hasked.symm⟩

theorem step_sound {act : Act} (hsound : Sound timely state)
    (hmet : timely → state.offersInTime act = true) (hstep : state.step act = some after) : Sound timely after := by
  cases act with
  | attach request resumable =>
    cases hstep
    exact request_sound hsound rfl rfl rfl
  | start channelId names kept =>
    rw [step] at hstep
    split at hstep
    · cases hstep
    · rename_i hdone
      obtain ⟨task, hfirst, hstart⟩ := Option.bind_eq_some_iff.1 hstep
      exact start_sound hsound hmet (Option.not_isSome_iff_eq_none.1 hdone) hfirst hstart
  | answer channelId reply =>
    obtain ⟨work, hwork, hanswer⟩ := Option.bind_eq_some_iff.1 hstep
    cases work with
    | attach l pending phase =>
      obtain ⟨link, hlink, hanswered⟩ := Option.bind_eq_some_iff.1 hanswer
      obtain ⟨⟨next, agents⟩, hnext, rfl⟩ := Option.map_eq_some_iff.1 hanswered
      obtain ⟨hcaller, hearly, hheld, hlive⟩ := answer_phase hnext
      have hknows := hsound.works channelId l pending phase hwork
      have hawait : Sound timely (state.await channelId l pending next) := by
        refine hsound.await (hknows.next ?_ (fun h heq ↦ hknows.reread h (hheld.symm.trans heq))
          (fun login heq ↦ hknows.caller login (hcaller.symm.trans heq)) fun login generation heq _ hrevoked ↦ ?_)
        · cases hphase : phase.early
          · exact .inr (hknows.unheld hphase)
          · exact .inl (hearly.trans hphase)
        · have hresolved := hlive login generation heq
          rw [resolve, Bool.and_eq_true, List.any_eq_true] at hresolved
          obtain ⟨⟨known, hknown, hsame⟩, _⟩ := hresolved
          exact hsound.live known hknown (beq_iff_eq.1 hsame ▸ hrevoked)
      exact ⟨hawait.linked, hawait.live, hawait.works, hawait.links, hawait.firm, hawait.calls, hawait.counted, hawait.ahead⟩
    | release h =>
      cases hanswer
      have hidle := hsound.idle (idle_delete state.working channelId)
      exact ⟨hidle.linked, hidle.live, hidle.works, hidle.links, hidle.firm, hidle.calls, hidle.counted, hidle.ahead⟩
  | go channelId =>
    obtain ⟨work, hwork, hgo⟩ := Option.bind_eq_some_iff.1 hstep
    cases work with
    | attach l pending phase =>
      obtain ⟨link, hlink, hgo⟩ := Option.bind_eq_some_iff.1 hgo
      exact go_sound hsound (hsound.works channelId l pending phase hwork) hlink hgo
    | release h => cases hgo
  | fail channelId =>
    obtain ⟨work, hwork, hfail⟩ := Option.bind_eq_some_iff.1 hstep
    cases work with
    | attach l pending phase =>
      obtain ⟨link, hlink, hfail⟩ := Option.bind_eq_some_iff.1 hfail
      exact fail_sound hsound (hsound.works channelId l pending phase hwork) hlink hfail
    | release h => cases hfail
  | hear l =>
    obtain ⟨link, hlink, hhear⟩ := Option.bind_eq_some_iff.1 hstep
    split at hhear
    · rename_i hstage
      cases hhear
      exact hear_sound hsound hlink hstage
    · cases hhear
  | confirm l =>
    obtain ⟨link, hlink, hconfirm⟩ := Option.bind_eq_some_iff.1 hstep
    split at hconfirm
    · rename_i earlier ending hstage
      cases hconfirm
      have hstate := awake hsound.linked hlink fun h heq ↦ nomatch hstage.symm.trans heq
      have hidle := hsound.not_working hlink fun heq ↦ nomatch hstage.symm.trans heq
      have hgood := hsound.links l link hlink
      have hqueued : Sound timely { state with
          table := state.table.setLink l { link with stage := .queued (some (earlier, ending)) } } := by
        refine hsound.relink hlink ?_ rfl rfl hidle ⟨by exact nofun, fun _ ↦ by exact nofun, fun htimely other heq ↦ ?_⟩
          nofun
        · exact hsound.linked.setLink hlink hstate hstate nofun nofun nofun
        · exact hgood.offered htimely other (hstage ▸ heq)
      refine hqueued.enqueue nofun fun l' heq ↦ ?_
      obtain rfl := Task.call.inj heq
      exact ⟨_, (List.getElem?_set_of hlink _ _).trans (if_pos rfl), rfl, fun _ ↦ by exact nofun⟩
    · cases hconfirm
  | claim l =>
    obtain ⟨link, hlink, hclaim⟩ := Option.bind_eq_some_iff.1 hstep
    split at hclaim
    · rename_i h hstage
      cases hclaim
      have hstate := hsound.linked.bound l link h true hlink hstage
      have hawake : link.state ≠ .suspended := fun heq ↦ nomatch hstate.symm.trans heq
      have hbound : Table.Linked (state.table.setLink l { link with stage := .bound h false }) none := by
        refine hsound.linked.setLink hlink hawake hawake nofun (fun _ _ _ ↦ hstate) fun h' hon hopen ↦ ?_
        cases hon
        exact hsound.linked.on l link h hlink (hstage ▸ rfl) hopen
      have hgoes : state.table.Goes (state.table.setLink l { link with stage := .bound h false }) :=
        Table.goes_setLink hlink ⟨rfl, rfl, rfl, fun heq ↦ (by rw [hstage] at heq; exact nomatch heq),
          .inr (.inr (.inr ⟨h, false, hstage, rfl⟩)), id⟩
      exact hsound.goes (Table.claim_linked hbound h l) (hgoes.trans (Table.goes_claim hbound.parks h l))
    · cases hclaim
  | disconnect l planned kept =>
    cases hstep
    exact hsound.goes (Table.disconnected_linked hsound.linked l (.inl rfl)) (Table.goes_disconnected hsound.linked.parks l _ _)
  | lapse l =>
    obtain ⟨link, hlink, hlapse⟩ := Option.bind_eq_some_iff.1 hstep
    split at hlapse
    · rename_i h hstage
      cases hlapse
      exact hsound.goes (Table.lapsed_linked hsound.linked hlink hstage) (Table.goes_lapsed hsound.linked hlink hstage)
    · cases hlapse
  | fire channelId =>
    obtain ⟨h, hlookup, hfire⟩ := Option.bind_eq_some_iff.1 hstep
    obtain ⟨hold, hhold, hfire⟩ := Option.bind_eq_some_iff.1 hfire
    split at hfire
    · cases hfire
      have hgoes : hold.Goes { hold with timer := false } := ⟨rfl, rfl, rfl, rfl, rfl, .inl rfl⟩
      have hlinked : Table.Linked (state.table.setHold h { hold with timer := false }) none :=
        hsound.linked.setHold hhold rfl rfl (.inl rfl)
      exact (hsound.goes hlinked (Table.goes_setHold hhold hgoes)).enqueue nofun nofun
    · cases hfire
  | sessionRevoked sessionId =>
    rw [step] at hstep
    split at hstep
    · cases hstep
    · rename_i hover
      cases hstep
      exact sessionRevoked_sound hsound (Bool.not_eq_true _ ▸ hover)
  | documentEnded channelId =>
    cases hstep
    exact hsound.enqueueEnded channelId
  | ownerReset channelId =>
    cases hstep
    exact ownerReset_sound hsound channelId
  | stopMachine channelId machineId message =>
    cases hstep
    exact hsound.enqueue nofun nofun
  | verify l live =>
    obtain ⟨link, hlink, hverify⟩ := Option.bind_eq_some_iff.1 hstep
    obtain ⟨h, hlookup, hverify⟩ := Option.bind_eq_some_iff.1 hverify
    obtain ⟨hold, hhold, hverify⟩ := Option.bind_eq_some_iff.1 hverify
    split at hverify
    · cases hverify
      exact hsound.invalidate h _
    · cases hverify
  | signIn login =>
    rw [step] at hstep
    split at hstep
    · cases hstep
    · rename_i hfresh
      cases hstep
      refine ⟨hsound.linked, fun other hmem ↦ ?_, hsound.works, hsound.links, hsound.firm, hsound.calls, hsound.counted,
        hsound.ahead⟩
      obtain hmem | hlast := List.mem_append.1 hmem
      · exact hsound.live other hmem
      · obtain rfl := List.mem_singleton.1 hlast
        rw [Bool.or_eq_true, not_or, List.contains_iff_mem] at hfresh
        exact hfresh.1
  | forget sessionId =>
    cases hstep
    exact ⟨hsound.linked, fun other hmem ↦ hsound.live other (List.mem_of_mem_filter hmem), hsound.works, hsound.links,
      hsound.firm, hsound.calls, hsound.counted, hsound.ahead⟩
  | cleared channelId =>
    obtain ⟨agent, -, rfl⟩ := Option.map_eq_some_iff.1 hstep
    exact ⟨hsound.linked, hsound.live, hsound.works, hsound.links, hsound.firm, hsound.calls, hsound.counted, hsound.ahead⟩

/-! ## Every run -/

/-- The link is attached through the hold: it was granted it, and neither was closed nor dropped since.  A takeover
that was offered is no grant. -/
def Attached (state : PlannerAttachments) (l : Nat) (link : Link) (h : Nat) : Prop :=
  state.table.links[l]? = some link ∧ link.stage.on = some h ∧ link.state ≠ .closed

/-- The hold is its document's. -/
def Held (state : PlannerAttachments) (h : Nat) (hold : Hold) : Prop :=
  state.table.heap[h]? = some hold ∧ state.table.holds.lookup hold.channelId = some h

/-- What every run keeps. -/
structure Kept (state : PlannerAttachments) : Prop where
  attached : ∀ l link h, state.Attached l link h →
    ∃ hold, state.Held h hold ∧ hold.channelId = link.request.channelId ∧ hold.link = some l
  one : ∀ l link h l' link' h', state.Attached l link h → state.Attached l' link' h' →
    link.request.channelId = link'.request.channelId → l = l'
  suspended : ∀ (l : Nat) (link : Link), state.table.links[l]? = some link → link.state = .suspended →
    (∃ h hold, state.Held h hold ∧ hold.parked = some l) ∧
      ∀ (h h' : Nat) (hold hold' : Hold), state.table.heap[h]? = some hold → hold.parked = some l →
        state.table.heap[h']? = some hold' → hold'.parked = some l → h = h'
  /-- No hold rests on a login that ended. -/
  revoked : ∀ h hold, state.Held h hold → hold.ownerSessionId ∉ state.revoked
  /-- The attach that made a hold, or that a link was granted one by, began after the last reset. -/
  reset : (∀ h hold, state.Held h hold → hold.begun = times state.resets hold.channelId) ∧
    ∀ l link h, state.Attached l link h → link.turn = times state.resets link.request.channelId

/-- The attach that made a hold, or that a link was granted one by, was asked for after the document last ended. -/
def Outlived (state : PlannerAttachments) : Prop :=
  (∀ h hold, state.Held h hold → times state.ended hold.channelId ≤ hold.asked) ∧
    ∀ l link h, state.Attached l link h → times state.ended link.request.channelId ≤ link.asked

theorem Sound.kept (hsound : Sound timely state) : state.Kept := by
  have hattached : ∀ l link h, state.Attached l link h →
      ∃ hold, state.Held h hold ∧ hold.channelId = link.request.channelId ∧ hold.link = some l := by
    rintro l link h ⟨hlink, hon, hopen⟩
    obtain ⟨hold, hhold, hchannel, hheld, hcurrent⟩ := hsound.linked.on l link h hlink hon hopen
    exact ⟨hold, ⟨hhold, Table.current_iff.1 (hcurrent nofun)⟩, hchannel, hheld⟩
  refine ⟨hattached, fun l link h l' link' h' hhas hhas' hsame ↦ ?_, fun l link hlink hstate ↦ ⟨?_, ?_⟩,
    fun h hold hheld ↦ ?_, fun h hold hheld ↦ ?_, fun l link h hhas ↦ ?_⟩
  · obtain ⟨hold, ⟨hhold, hlookup⟩, hchannel, hheld⟩ := hattached l link h hhas
    obtain ⟨hold', ⟨hhold', hlookup'⟩, hchannel', hheld'⟩ := hattached l' link' h' hhas'
    rw [hchannel, hsame, ← hchannel', hlookup'] at hlookup
    cases hlookup
    obtain rfl := Option.mem_unique hhold hhold'
    exact Option.mem_unique hheld hheld'
  · obtain ⟨h, hstage⟩ := hsound.linked.suspended l link hlink hstate
    obtain ⟨_, hold, hhold, hparked⟩ := hsound.linked.kept l link h hlink hstage
    obtain ⟨hcurrent, _⟩ := hsound.linked.parked h hold l hhold hparked
    exact ⟨h, hold, ⟨hhold, Table.current_iff.1 hcurrent⟩, hparked⟩
  · intro h h' hold hold' hhold hparked hhold' hparked'
    obtain ⟨_, other, hother, _, hstage⟩ := hsound.linked.parked h hold l hhold hparked
    obtain ⟨_, other', hother', _, hstage'⟩ := hsound.linked.parked h' hold' l hhold' hparked'
    obtain rfl := Option.mem_unique hother hother'
    exact Stage.parked.inj (hstage.symm.trans hstage')
  · exact (hsound.firm _ h hold hheld.2 hheld.1).owner
  · exact (hsound.firm _ h hold hheld.2 hheld.1).begun
  · exact (hsound.links l link hhas.1).turn h hhas.2.1 hhas.2.2

theorem Sound.outlived (hsound : Sound timely state) (htimely : timely) : state.Outlived :=
  ⟨fun h hold hheld ↦ (hsound.firm _ h hold hheld.2 hheld.1).asked htimely,
    fun l link h hhas ↦ (hsound.links l link hhas.1).asked htimely h hhas.2.1 hhas.2.2⟩

theorem new_sound (timely : Prop) : Sound timely new := by
  refine ⟨⟨?_, ?_, ?_, ?_, ?_, ?_⟩, ?_, ?_, ?_, ?_, ?_, fun _ ↦ rfl, ?_⟩
  · exact fun c h hlookup ↦ nomatch hlookup
  · exact fun l link h hlink ↦ nomatch hlink
  · exact fun l link h claim hlink ↦ nomatch hlink
  · exact fun h hold l hhold ↦ nomatch hhold
  · exact fun l link h hlink ↦ nomatch hlink
  · exact fun l link hlink ↦ nomatch hlink
  · exact fun login hlogin ↦ nomatch hlogin
  · exact fun c l pending phase hwork ↦ nomatch hwork
  · exact fun l link hlink ↦ nomatch hlink
  · exact fun c h hold hlookup ↦ nomatch hlookup
  · exact fun c l hcall ↦ nomatch hcall
  · exact fun _ c before l after hwaiting ↦ absurd hwaiting.symm (List.append_ne_nil_of_right_ne_nil _ (List.cons_ne_nil _ _))

end PlannerAttachments

open PlannerAttachments in
/-- **At most one client is attached to a document, and no hold outlives its login or a reset.**  No hold outlives its
document either, where no takeover is offered while the document waits to be ended. -/
theorem attachments_kept (acts : List Act) (state : PlannerAttachments) : (Runs step new acts state → state.Kept) ∧
      (Guarded (fun (state : PlannerAttachments) act ↦ state.offersInTime act = true) step new acts state →
        state.Kept ∧ state.Outlived) := by
  constructor
  · intro run
    have hsound : Sound False state :=
      run.invariant (new_sound False) fun _ _ _ hsound hstep ↦ step_sound hsound False.elim hstep
    exact hsound.kept
  · intro run
    have hsound : Sound True state :=
      run.invariant (new_sound True) fun _ _ _ hsound hmet hstep ↦ step_sound hsound (fun _ ↦ hmet) hstep
    exact ⟨hsound.kept, hsound.outlived trivial⟩

/-- What a person asks of the document, from their own machine's client. -/
def sampleRequest : AttachRequest :=
  { channelId := "c1", user := { id := "u1", login := "ada" }, login := none, machine := none, machineId := none }

/-- Every service answers, and an attach that has its turn is granted. -/
def sampleTurn : List Act :=
  let reply : Reply := { admitted := fun _ ↦ true, access := .granted, stored := true }
  [.answer "c1" reply, .go "c1", .answer "c1" reply, .go "c1", .answer "c1" reply, .go "c1", .answer "c1" reply, .go "c1"]

/-- A client is attached, and another of the same account asks to be. -/
def secondAsks : List Act :=
  [Act.signIn { id := "s1", userId := "u1", delegated := false }, Act.attach sampleRequest true,
    Act.start "c1" false false] ++ sampleTurn ++ [Act.hear 0, Act.claim 0, Act.attach sampleRequest true]

open PlannerAttachments in
/-- The document is ended before the other client's turn comes: it takes the document over, which has ended. -/
theorem ended_taken_over : ∃ state : PlannerAttachments,
    Runs step new (secondAsks ++ [Act.documentEnded "c1", Act.start "c1" false false, Act.start "c1" false false,
      Act.answer "c1" { admitted := fun _ ↦ true, access := .granted, stored := true }, Act.hear 1, Act.confirm 1,
      Act.start "c1" false false] ++ sampleTurn ++ [Act.hear 1]) state ∧
      times state.ended "c1" = 1 ∧ ¬state.Outlived := by
  refine ⟨_, runs_iff_foldlM.2 rfl, rfl, fun hlived ↦ ?_⟩
  have hasked := hlived.2 1 _ 1 ⟨rfl, rfl, nofun⟩
  exact absurd hasked (by decide)

open PlannerAttachments in
theorem attachments_kept_sample : ∃ state : PlannerAttachments,
    Guarded (fun (state : PlannerAttachments) act ↦ state.offersInTime act = true) step new
      (secondAsks ++ [Act.disconnect 0 false true, Act.start "c1" false false] ++ sampleTurn ++ [Act.hear 1]) state ∧
        (state.table.holds.lookup "c1" = some 0 ∧ (state.table.heap[0]?).bind (·.parked) = some 0) ∧
        state.Kept ∧ state.Outlived := by
  have run : Guarded (fun (state : PlannerAttachments) act ↦ state.offersInTime act = true) step new
      (secondAsks ++ [Act.disconnect 0 false true, Act.start "c1" false false] ++ sampleTurn ++ [Act.hear 1]) _ :=
    Guarded.of_foldlM (fun _ _ h ↦ h) rfl
  exact ⟨_, run, ⟨rfl, rfl⟩, (attachments_kept _ _).2 run⟩

end Chopin.Planners
