import Chopin.Client.Asks
import Chopin.Lib.Runs

/-!
# Every question of a remote client settles once

Over any chain of links, each of which resumes from what the one before left, a question is settled, or in the
map of the current link, or in the resumption that its caller has to try; so when no link and no resumption is
left, every question has settled.  A question that was withdrawn before a link resumes is not named to the
server, and one that the server gave back all the same is cancelled there.

A question settles locally as withdrawn when its cancellation could not be sent, and also, on a link that could
carry one, when its signal was aborted before it was asked: `settled_locally`.
-/

set_option autoImplicit false

namespace Chopin.Client

namespace AgentClient

variable {client next last : AgentClient} {link : Link}

/-! ## Reading a question -/

def result (client : AgentClient) (request : Nat) : Option Outcome := client.asks[request]?.bind (·.result)

def route (client : AgentClient) (request : Nat) : Option Nat := client.asks[request]?.map (·.route)

/-- The second must not follow the first: a link names a question that was withdrawn, a question settles as
withdrawn after its cancellation was sent, or as one that was not asked after it was. -/
def Clashes (earlier later : Event) : Prop :=
  (∃ request number named, earlier = .withdrawn request ∧ later = .sent number (.resume named) ∧
    request ∈ named.flatMap (·.2)) ∨
  (∃ request number, earlier = .sent number (.inputCancel request) ∧ later = .settled request .withdrawn) ∨
  ∃ request number session, earlier = .sent number (.inputRequest request session) ∧ later = .settled request .unasked

/-- Only a question that settles as withdrawn, or as one that was not asked, may follow what it must not. -/
theorem not_clashes {earlier : Event} {request : Nat} {outcome : Outcome} (hwithdrawn : outcome ≠ .withdrawn)
    (hunasked : outcome ≠ .unasked) : ¬Clashes earlier (.settled request outcome) := by
  rintro (⟨_, _, _, _, heq, _⟩ | ⟨_, _, _, heq⟩ | ⟨_, _, _, _, heq⟩)
  · cases heq
  · exact hwithdrawn (Event.settled.inj heq).2
  · exact hunasked (Event.settled.inj heq).2

/-- What an operation that settles questions leaves as it was. -/
structure Settles (client next : AgentClient) : Prop where
  link : next.link = client.link
  token : next.token = client.token
  links : next.links = client.links
  length : next.asks.length = client.asks.length
  withdrawn : ∀ request, next.isWithdrawn request = client.isWithdrawn request
  route : ∀ request, next.route request = client.route request
  result : ∀ request outcome, client.result request = some outcome → next.result request = some outcome
  log : ∃ events, next.log = client.log ++ events ∧ ∀ event ∈ events, ∃ request outcome,
    event = .settled request outcome ∧ ∀ earlier ∈ client.log, ¬Clashes earlier event

theorem Settles.refl (client : AgentClient) : Settles client client :=
  ⟨rfl, rfl, rfl, rfl, fun _ ↦ rfl, fun _ ↦ rfl, fun _ _ h ↦ h, [], (List.append_nil _).symm,
    fun _ h ↦ nomatch h⟩

theorem Settles.trans (first : Settles client next) (second : Settles next last) : Settles client last where
  link := second.link.trans first.link
  token := second.token.trans first.token
  links := second.links.trans first.links
  length := second.length.trans first.length
  withdrawn request := (second.withdrawn request).trans (first.withdrawn request)
  route request := (second.route request).trans (first.route request)
  result request outcome h := second.result request outcome (first.result request outcome h)
  log := by
    obtain ⟨events, hlog, hevents⟩ := first.log
    obtain ⟨more, hlog', hmore⟩ := second.log
    refine ⟨events ++ more, by rw [hlog', hlog, List.append_assoc], fun event hevent ↦ ?_⟩
    obtain hevent | hevent := List.mem_append.1 hevent
    · exact hevents event hevent
    · obtain ⟨request, outcome, heq, hclash⟩ := hmore event hevent
      exact ⟨request, outcome, heq, fun earlier hearlier ↦ hclash earlier (hlog ▸ List.mem_append_left _ hearlier)⟩

theorem getElem?_update (client : AgentClient) (request : Nat) (change : Ask → Ask) (other : Nat) :
    (client.update request change).asks[other]? =
      if request = other then client.asks[other]?.map change else client.asks[other]? := by
  rw [update, List.getElem?_modify]
  split <;> simp

theorem length_update (client : AgentClient) (request : Nat) (change : Ask → Ask) :
    (client.update request change).asks.length = client.asks.length := List.length_modify ..

/-- What settling sets of a question. -/
theorem getElem?_settle (client : AgentClient) (request : Nat) (outcome : Outcome) (other : Nat) :
    (client.settle request outcome).asks[other]? = client.asks[other]?.map fun ask ↦
      if request = other then { ask with result := ask.result.or (some outcome) } else ask := by
  rw [settle]
  cases hask : client.asks[request]? with
  | none =>
    by_cases hother : request = other
    · subst hother
      simp [hask]
    · simp [hother]
  | some ask =>
    dsimp only
    by_cases hresult : ask.result.isSome = true
    · rw [if_pos hresult]
      by_cases hother : request = other
      · subst hother
        obtain ⟨settled, hsettled⟩ := Option.isSome_iff_exists.1 hresult
        rw [hask, Option.map_some, if_pos rfl, hsettled]
        cases ask
        simp_all
      · simp [hother]
    · rw [if_neg hresult]
      rw [Option.not_isSome_iff_eq_none] at hresult
      refine (getElem?_update client request _ other).trans ?_
      by_cases hother : request = other
      · subst hother
        rw [if_pos rfl, hask]
        simp [hresult]
      · simp [hother]

theorem settle_settles (client : AgentClient) (request : Nat) (outcome : Outcome)
    (hclash : ∀ earlier ∈ client.log, ¬Clashes earlier (.settled request outcome)) :
    Settles client (client.settle request outcome) where
  link := by rw [settle]; split <;> [rfl; (split <;> rfl)]
  token := by rw [settle]; split <;> [rfl; (split <;> rfl)]
  links := by rw [settle]; split <;> [rfl; (split <;> rfl)]
  length := by
    rw [settle]
    split
    · rfl
    · split
      · rfl
      · exact length_update client request _
  withdrawn other := by
    rw [isWithdrawn, isWithdrawn, getElem?_settle]
    cases client.asks[other]? with
    | none => rfl
    | some ask => simp only [Option.map_some, Option.any_some]; split <;> rfl
  route other := by
    rw [route, route, getElem?_settle]
    cases client.asks[other]? with
    | none => rfl
    | some ask => simp only [Option.map_some]; split <;> rfl
  result other found hfound := by
    rw [result] at hfound ⊢
    rw [getElem?_settle]
    obtain ⟨ask, hask, hresult⟩ := Option.bind_eq_some_iff.1 hfound
    rw [hask, Option.map_some, Option.bind_some]
    split
    · rw [hresult, Option.some_or]
    · exact hresult
  log := by
    rw [settle]
    split
    · exact (Settles.refl client).log
    · split
      · exact (Settles.refl client).log
      · refine ⟨[.settled request outcome], rfl, fun event hevent ↦ ?_⟩
        rw [List.mem_singleton.1 hevent]
        exact ⟨request, outcome, rfl, hclash⟩

theorem result_settle (client : AgentClient) {request : Nat} (h : request < client.asks.length) (outcome : Outcome) :
    ((client.settle request outcome).result request).isSome = true := by
  rw [result, getElem?_settle, List.getElem?_eq_getElem h, Option.map_some, if_pos rfl, Option.bind_some]
  cases client.asks[request].result <;> rfl

theorem cancelAsks_settles (held : List Nat) (client : AgentClient) : Settles client (client.cancelAsks held) ∧
    ∀ request ∈ held, request < client.asks.length → ((client.cancelAsks held).result request).isSome = true := by
  induction held generalizing client with
  | nil => exact ⟨.refl client, fun request hrequest ↦ nomatch hrequest⟩
  | cons first rest ih =>
    have hfirst := settle_settles client first .closed fun _ _ ↦ not_clashes nofun nofun
    obtain ⟨hrest, hsettled⟩ := ih (client.settle first .closed)
    refine ⟨hfirst.trans hrest, fun request hrequest hlt ↦ ?_⟩
    obtain rfl | hrequest := List.mem_cons.1 hrequest
    · obtain ⟨outcome, houtcome⟩ := Option.isSome_iff_exists.1 (result_settle client hlt .closed)
      exact Option.isSome_iff_exists.2 ⟨outcome, hrest.result request outcome houtcome⟩
    · exact hsettled request hrequest (hfirst.length ▸ hlt)

/-! ## The invariant -/

/-- What the log says of the questions. -/
structure LogSound (client : AgentClient) : Prop where
  withdrawn : ∀ request, .withdrawn request ∈ client.log → client.isWithdrawn request = true
  cancelled : ∀ request number, .sent number (.inputCancel request) ∈ client.log → client.isWithdrawn request = true
  asked : ∀ request number session, .sent number (.inputRequest request session) ∈ client.log →
    request < client.asks.length
  order : client.log.Pairwise fun earlier later ↦ ¬Clashes earlier later

/-- What the current link says of the questions. -/
structure LinkSound (client : AgentClient) (link : Link) : Prop where
  resume : link.ready = false → client.token = link.resume
  taken : link.ready = true → client.token = none
  failed : link.ready = false → link.failed = true →
    ∀ request ∈ held link, request < client.asks.length → (client.result request).isSome = true
  connecting : link.socket = .connecting → link.ready = false
  idle : link.ready = false → link.asks = []
  route : ∀ request ∈ link.asks, client.result request = none → ∀ number, client.route request = some number →
    number = link.number
  cancelled : ∀ request ∈ link.asks, client.isWithdrawn request = true → link.socket = .opened →
    .sent link.number (.inputCancel request) ∈ client.log

/-- The question is in the current link's map, or in the resumption there is to try. -/
def Carried (client : AgentClient) (request : Nat) : Prop :=
  (∃ link, client.link = some link ∧ request ∈ link.asks) ∨
    ∃ token, client.token = some token ∧ request ∈ token.asks

structure Sound (client : AgentClient) : Prop where
  held : ∀ request < client.asks.length, (client.result request).isSome = true ∨ client.Carried request
  link : ∀ link, client.link = some link → client.LinkSound link
  log : client.LogSound

/-! ### Settling -/

theorem Settles.isSome (h : Settles client next) {request : Nat} (hsome : (client.result request).isSome = true) :
    (next.result request).isSome = true := by
  obtain ⟨outcome, houtcome⟩ := Option.isSome_iff_exists.1 hsome
  exact Option.isSome_iff_exists.2 ⟨outcome, h.result request outcome houtcome⟩

theorem Settles.isNone (h : Settles client next) {request : Nat} (hnone : next.result request = none) :
    client.result request = none := by
  cases hresult : client.result request with
  | none => rfl
  | some outcome => exact nomatch (h.result request outcome hresult).symm.trans hnone

theorem Settles.mem_log (h : Settles client next) {event : Event} (hmem : event ∈ next.log) :
    event ∈ client.log ∨ ∃ request outcome, event = .settled request outcome := by
  obtain ⟨events, hlog, hevents⟩ := h.log
  rw [hlog] at hmem
  obtain hmem | hmem := List.mem_append.1 hmem
  · exact .inl hmem
  · obtain ⟨request, outcome, heq, _⟩ := hevents event hmem
    exact .inr ⟨request, outcome, heq⟩

theorem Settles.subset_log (h : Settles client next) : client.log ⊆ next.log := by
  obtain ⟨events, hlog, _⟩ := h.log
  exact hlog ▸ List.subset_append_left _ _

theorem Settles.linkSound (h : Settles client next) (hlink : client.LinkSound link) : next.LinkSound link where
  resume hready := h.token.trans (hlink.resume hready)
  taken hready := h.token.trans (hlink.taken hready)
  failed hready hfailed request hrequest hlt := h.isSome (hlink.failed hready hfailed request hrequest (h.length ▸ hlt))
  connecting := hlink.connecting
  idle := hlink.idle
  route request hrequest hopen number hroute :=
    hlink.route request hrequest (h.isNone hopen) number ((h.route request).symm.trans hroute)
  cancelled request hrequest hwithdrawn hopened :=
    h.subset_log (hlink.cancelled request hrequest ((h.withdrawn request).symm.trans hwithdrawn) hopened)

theorem Settles.logSound (h : Settles client next) (hlog : client.LogSound) : next.LogSound where
  withdrawn request hmem := by
    obtain hmem | ⟨_, _, heq⟩ := h.mem_log hmem
    · exact (h.withdrawn request).trans (hlog.withdrawn request hmem)
    · cases heq
  cancelled request number hmem := by
    obtain hmem | ⟨_, _, heq⟩ := h.mem_log hmem
    · exact (h.withdrawn request).trans (hlog.cancelled request number hmem)
    · cases heq
  asked request number session hmem := by
    obtain hmem | ⟨_, _, heq⟩ := h.mem_log hmem
    · exact h.length ▸ hlog.asked request number session hmem
    · cases heq
  order := by
    obtain ⟨events, heq, hevents⟩ := h.log
    rw [heq]
    refine List.pairwise_append.2 ⟨hlog.order, ?_, fun earlier hearlier later hlater ↦ ?_⟩
    · -- What has settled is not what must not be followed.
      refine List.pairwise_of_forall_mem_list fun earlier hearlier later _ ↦ ?_
      obtain ⟨_, _, rfl, _⟩ := hevents earlier hearlier
      rintro (⟨_, _, _, heq, _⟩ | ⟨_, _, heq, _⟩ | ⟨_, _, _, heq, _⟩) <;> exact nomatch heq
    · obtain ⟨_, _, _, hclash⟩ := hevents later hlater
      exact hclash earlier hearlier

theorem Settles.sound (h : Settles client next) (hsound : client.Sound) : next.Sound where
  held request hlt := by
    obtain hsome | hcarried := hsound.held request (h.length ▸ hlt)
    · exact .inl (h.isSome hsome)
    · rw [Carried, h.link, h.token]
      exact .inr hcarried
  link link hlink := h.linkSound (hsound.link link (h.link ▸ hlink))
  log := h.logSound hsound.log

/-! ### Logging -/

/-- One more event, which says nothing false and follows nothing that it must not. -/
theorem LogSound.snoc (hlog : client.LogSound) {event : Event} (hlength : client.asks.length ≤ next.asks.length)
    (hwithdrawn : ∀ request, client.isWithdrawn request = true → next.isWithdrawn request = true)
    (hevent : next.log = client.log ++ [event])
    (htold : ∀ request, event = .withdrawn request ∨ (∃ number, event = .sent number (.inputCancel request)) →
      next.isWithdrawn request = true)
    (hasks : ∀ request number session, event = .sent number (.inputRequest request session) →
      request < next.asks.length) (hclash : ∀ earlier ∈ client.log, ¬Clashes earlier event) : next.LogSound where
  withdrawn request hmem := by
    obtain hmem | hmem := List.mem_append.1 (hevent ▸ hmem)
    · exact hwithdrawn request (hlog.withdrawn request hmem)
    · exact htold request (.inl (List.mem_singleton.1 hmem).symm)
  cancelled request number hmem := by
    obtain hmem | hmem := List.mem_append.1 (hevent ▸ hmem)
    · exact hwithdrawn request (hlog.cancelled request number hmem)
    · exact htold request (.inr ⟨number, (List.mem_singleton.1 hmem).symm⟩)
  asked request number session hmem := by
    obtain hmem | hmem := List.mem_append.1 (hevent ▸ hmem)
    · exact Nat.lt_of_lt_of_le (hlog.asked request number session hmem) hlength
    · exact hasks request number session (List.mem_singleton.1 hmem).symm
  order := by
    rw [hevent]
    refine List.pairwise_append.2 ⟨hlog.order, List.pairwise_singleton _ _, fun earlier hearlier later hlater ↦ ?_⟩
    rw [List.mem_singleton.1 hlater]
    exact hclash earlier hearlier

theorem sends_of_opened (hlink : client.link = some link) (hopened : link.socket = .opened) :
    client.sends link.number = true := by
  rw [sends, hlink]
  simp [hopened]

/-- Sending a message that asks nothing, names nothing that was withdrawn, and cancels what was. -/
theorem LogSound.send (hlog : client.LogSound) (number : Nat) {message : Message}
    (hrequest : ∀ request session, message ≠ .inputRequest request session)
    (hresume : ∀ named, message = .resume named → ∀ request ∈ named.flatMap (·.2), client.isWithdrawn request = false)
    (hcancel : ∀ request, message = .inputCancel request → client.isWithdrawn request = true) :
    (client.send number message).LogSound := by
  rw [AgentClient.send]
  split
  · refine hlog.snoc (Nat.le_refl _) (fun _ h ↦ h) rfl (fun request htold ↦ ?_) (fun request other session heq ↦ ?_)
      fun earlier hearlier ↦ ?_
    · obtain heq | ⟨_, heq⟩ := htold
      · cases heq
      · exact hcancel request (Event.sent.inj heq).2
    · exact absurd (Event.sent.inj heq).2 (hrequest request session)
    · rintro (⟨request, other, named, rfl, heq, hmem⟩ | ⟨_, _, _, heq⟩ | ⟨_, _, _, _, heq⟩)
      · have hnot := hresume named (Event.sent.inj heq).2 request hmem
        rw [hlog.withdrawn request hearlier] at hnot
        cases hnot
      · cases heq
      · cases heq
  · exact hlog

theorem send_sound (hsound : client.Sound) (number : Nat) (message : Message)
    (hlog : (client.send number message).LogSound) : (client.send number message).Sound := by
  rw [send] at hlog ⊢
  split at hlog
  · rename_i hsends
    rw [if_pos hsends]
    refine ⟨hsound.held, fun link hlink ↦ ?_, hlog⟩
    have h := hsound.link link hlink
    exact ⟨h.resume, h.taken, h.failed, h.connecting, h.idle, h.route, fun request hrequest hwithdrawn hopened ↦
      List.mem_append_left _ (h.cancelled request hrequest hwithdrawn hopened)⟩
  · rename_i hdown
    rw [if_neg hdown]
    exact hsound

/-- What the log says does not look at the link, nor at the resumption. -/
theorem LogSound.unlink (hlog : client.LogSound) {other : Option Link} {token : Option Resumption} :
    ({ client with link := other, token } : AgentClient).LogSound :=
  ⟨hlog.withdrawn, hlog.cancelled, hlog.asked, hlog.order⟩

theorem mem_resuming {request : Nat} (h : request ∈ (client.resuming link).flatMap (·.2)) :
    client.isWithdrawn request = false := by
  obtain ⟨entry, hentry, hrequest⟩ := List.mem_flatMap.1 h
  obtain ⟨session, _, rfl⟩ := List.mem_map.1 hentry
  have hfilter := (List.mem_filter.1 hrequest).2
  rw [Bool.and_eq_true, Bool.not_eq_true'] at hfilter
  exact hfilter.1

/-- The current link changes, and carries what it did, less what has settled. -/
theorem Sound.replace (hsound : client.Sound) {other : Link} (hlink : client.link = some link)
    (hasks : ∀ request ∈ link.asks, request < client.asks.length →
      (client.result request).isSome = true ∨ request ∈ other.asks) (hother : client.LinkSound other) :
    ({ client with link := some other } : AgentClient).Sound where
  held request hlt := by
    obtain hsome | ⟨found, hfound, hmem⟩ | htoken := hsound.held request hlt
    · exact .inl hsome
    · obtain rfl := Option.mem_unique hlink hfound
      exact (hasks request hmem hlt).imp_right fun hother ↦ .inl ⟨other, rfl, hother⟩
    · exact .inr (.inr htoken)
  link found hfound := by
    cases hfound
    exact ⟨hother.resume, hother.taken, hother.failed, hother.connecting, hother.idle, hother.route, hother.cancelled⟩
  log := hsound.log.unlink

theorem Sound.set (hsound : client.Sound) {other : Link} (hlink : client.link = some link)
    (hasks : link.asks ⊆ other.asks) (hother : client.LinkSound other) :
    ({ client with link := some other } : AgentClient).Sound :=
  hsound.replace hlink (fun _ hrequest _ ↦ .inr (hasks hrequest)) hother

/-- What a link's soundness reads of it. -/
theorem LinkSound.mono (h : client.LinkSound link) {other : Link} (hresume : other.resume = link.resume)
    (hready : other.ready = link.ready) (hfailed : other.failed = link.failed) (hsocket : other.socket = link.socket)
    (hnumber : other.number = link.number) (hasks : other.asks ⊆ link.asks) : client.LinkSound other where
  resume hnot := (h.resume (hready ▸ hnot)).trans hresume.symm
  taken hyes := h.taken (hready ▸ hyes)
  failed hnot hyes := by
    rw [AgentClient.held, hresume]
    exact h.failed (hready ▸ hnot) (hfailed ▸ hyes)
  connecting hconnecting := hready.trans (h.connecting (hsocket ▸ hconnecting))
  idle hnot := List.eq_nil_of_subset_nil (h.idle (hready ▸ hnot) ▸ hasks)
  route request hrequest hopen number hroute :=
    (h.route request (hasks hrequest) hopen number hroute).trans hnumber.symm
  cancelled request hrequest hwithdrawn hopened :=
    hnumber ▸ h.cancelled request (hasks hrequest) hwithdrawn (hsocket ▸ hopened)

/-! ### The ends of a link -/

/-- Settling does not look at the link. -/
theorem settle_set (client : AgentClient) (other : Option Link) (request : Nat) (outcome : Outcome) :
    ({ client with link := other } : AgentClient).settle request outcome =
      { client.settle request outcome with link := other } := by
  simp only [settle]
  cases client.asks[request]? with
  | none => rfl
  | some ask => dsimp only; split <;> rfl

theorem cancelAsks_set (held : List Nat) (client : AgentClient) (other : Option Link) :
    ({ client with link := other } : AgentClient).cancelAsks held = { client.cancelAsks held with link := other } := by
  induction held generalizing client with
  | nil => rfl
  | cons first rest ih =>
    refine Eq.trans ?_ (ih (client.settle first .closed))
    exact congrArg (fun client ↦ AgentClient.cancelAsks client rest) (settle_set client other first .closed)

theorem release_sound (hsound : client.Sound) (hlink : client.link = some link) : (client.release link).Sound := by
  have h := hsound.link link hlink
  rw [release]
  split
  · have hsettles := (cancelAsks_settles (link.asks.filter client.isWithdrawn) client).1
    have hsettled := hsettles.sound hsound
    refine ⟨fun request hlt ↦ ?_, fun _ hnone ↦ (nomatch hnone), hsettled.log.unlink⟩
    obtain hsome | ⟨found, hfound, hmem⟩ | ⟨token, htoken, hmem⟩ := hsettled.held request hlt
    · exact .inl hsome
    · obtain rfl := Option.some.inj (hlink.symm.trans (hsettles.link.symm.trans hfound))
      cases hready : link.ready with
      | true => exact .inr (.inr ⟨_, rfl, hmem⟩)
      | false => exact absurd (h.idle hready ▸ hmem) List.not_mem_nil
    · cases hready : link.ready with
      | true => exact nomatch (h.taken hready).symm.trans (hsettles.token.symm.trans htoken)
      | false => exact .inr (.inr ⟨token, htoken, hmem⟩)
  · obtain ⟨hsettles, hasks⟩ := cancelAsks_settles link.asks client
    have hsettled := hsettles.sound hsound
    refine ⟨fun request hlt ↦ ?_, fun _ hnone ↦ (nomatch hnone), hsettled.log.unlink⟩
    have hlt' : request < client.asks.length := hsettles.length ▸ hlt
    obtain hsome | ⟨found, hfound, hmem⟩ | ⟨token, htoken, hmem⟩ := hsettled.held request hlt
    · exact .inl hsome
    · obtain rfl := Option.some.inj (hlink.symm.trans (hsettles.link.symm.trans hfound))
      exact .inl (hasks request hmem hlt')
    · have htoken' := hsettles.token.symm.trans htoken
      cases hready : link.ready with
      | true => exact nomatch (h.taken hready).symm.trans htoken'
      | false =>
        have hresume : link.resume = some token := (h.resume hready).symm.trans htoken'
        cases hfailed : link.failed with
        | true =>
          refine .inl (hsettles.isSome (h.failed hready hfailed request ?_ hlt'))
          rw [AgentClient.held, hresume]
          exact hmem
        | false => exact .inr (.inr ⟨token, htoken, hmem⟩)

/-- The link fails before it is ready, and what its resumption holds ends. -/
theorem fails_sound (hsound : client.Sound) (hlink : client.link = some link) {other : Link}
    (hasks : other.asks = link.asks) (hnumber : other.number = link.number) (hready : other.ready = link.ready)
    (hresume : other.resume = link.resume) (hsocket : other.socket = link.socket ∨ other.socket = .closing) :
    (({ client with link := some other } : AgentClient).cancelAsks (held link)).Sound := by
  obtain ⟨hsettles, hheld⟩ := cancelAsks_settles (held link) client
  have hsettled := hsettles.sound hsound
  have h := hsettled.link link (hsettles.link.trans hlink)
  rw [cancelAsks_set]
  refine hsettled.set (hsettles.link.trans hlink) (hasks ▸ List.Subset.refl _) ⟨fun hnot ↦ ?_, fun hyes ↦ ?_, ?_, ?_, ?_, ?_, ?_⟩
  · rw [hresume]
    exact h.resume (hready ▸ hnot)
  · exact h.taken (hready ▸ hyes)
  · intro _ _ request hrequest hlt
    rw [held, hresume] at hrequest
    exact hheld request hrequest (hsettles.length ▸ hlt)
  · intro hconnecting
    rw [hready]
    obtain hsame | hclosing := hsocket
    · exact h.connecting (hsame ▸ hconnecting)
    · exact nomatch hclosing.symm.trans hconnecting
  · intro hnot
    rw [hasks]
    exact h.idle (hready ▸ hnot)
  · rw [hasks, hnumber]
    exact h.route
  · intro request hrequest hwithdrawn hopened
    rw [hnumber]
    obtain hsame | hclosing := hsocket
    · exact h.cancelled request (hasks ▸ hrequest) hwithdrawn (hsame ▸ hopened)
    · exact nomatch hclosing.symm.trans hopened

theorem failAttach_sound (hsound : client.Sound) (hlink : client.link = some link) (retry : Bool) :
    (client.failAttach link retry).Sound := by
  have h := hsound.link link hlink
  rw [failAttach]
  split
  · exact fails_sound hsound hlink rfl rfl rfl rfl (.inl rfl)
  · rename_i hfails
    rw [Bool.not_eq_true] at hfails
    refine hsound.set hlink (List.Subset.refl _) ⟨h.resume, h.taken, fun hready hfailed ↦ h.failed hready ?_, h.connecting,
      h.idle, h.route, h.cancelled⟩
    rwa [hfails, Bool.or_false] at hfailed

/-! ### Resuming -/

/-- What giving questions back keeps, one after another, as the link's map grows to `asks`. -/
structure Resumes (client : AgentClient) (link : Link) (next : AgentClient) (asks : List Nat) : Prop where
  current : next.link = some { link with asks }
  token : next.token = client.token
  length : next.asks.length = client.asks.length
  subset : link.asks ⊆ asks
  result : ∀ request, next.result request = client.result request
  route : ∀ request ∈ asks, next.result request = none → ∀ number, next.route request = some number →
    number = link.number
  log : next.LogSound

/-- What is in the map of an open link was cancelled there when it was withdrawn. -/
def Cancelled (client : AgentClient) (link : Link) (asks : List Nat) : Prop :=
  ∀ request ∈ asks, client.isWithdrawn request = true → link.socket = .opened →
    .sent link.number (.inputCancel request) ∈ client.log

theorem Sound.resumes (hsound : client.Sound) (hlink : client.link = some link) :
    Resumes client link client link.asks where
  current := hlink
  token := rfl
  length := rfl
  subset := List.Subset.refl _
  result _ := rfl
  route := (hsound.link link hlink).route
  log := hsound.log

/-- Where a cancellation goes is not what a question is. -/
theorem result_reroute (client : AgentClient) (request number other : Nat) :
    (client.update request fun ask ↦ { ask with route := number }).result other = client.result other := by
  rw [result, result, getElem?_update]
  split
  · cases client.asks[other]? <;> rfl
  · rfl

theorem isWithdrawn_reroute (client : AgentClient) (request number other : Nat) :
    (client.update request fun ask ↦ { ask with route := number }).isWithdrawn other = client.isWithdrawn other := by
  rw [isWithdrawn, isWithdrawn, getElem?_update]
  split
  · cases client.asks[other]? <;> rfl
  · rfl

theorem route_reroute (client : AgentClient) (request number other : Nat) :
    (client.update request fun ask ↦ { ask with route := number }).route other =
      if request = other then (client.route other).map fun _ ↦ number else client.route other := by
  rw [route, route, getElem?_update]
  split
  · cases client.asks[other]? <;> rfl
  · rfl

theorem Resumes.reroute {asks more : List Nat} (h : Resumes client link next asks) (request : Nat) (hsub : asks ⊆ more)
    (hnew : ∀ other ∈ more, other = request ∨ other ∈ asks) :
    Resumes client link
      { next.update request fun ask ↦ { ask with route := link.number } with link := some { link with asks := more } }
      more where
  current := rfl
  token := h.token
  length := (length_update next request _).trans h.length
  subset := List.Subset.trans h.subset hsub
  result other := (result_reroute next request link.number other).trans (h.result other)
  route other hother hopen number hroute := by
    have hroute := (route_reroute next request link.number other).symm.trans hroute
    split at hroute
    · obtain ⟨_, _, hnumber⟩ := Option.map_eq_some_iff.1 hroute
      exact hnumber.symm
    · rename_i hne
      have hother := (hnew other hother).resolve_left fun heq ↦ hne heq.symm
      exact h.route other hother ((result_reroute next request link.number other).symm.trans hopen) number hroute
  log := by
    refine ⟨fun other hmem ↦ ?_, fun other number hmem ↦ ?_, fun other number session hmem ↦ ?_, h.log.order⟩
    · exact (isWithdrawn_reroute next request link.number other).trans (h.log.withdrawn other hmem)
    · exact (isWithdrawn_reroute next request link.number other).trans (h.log.cancelled other number hmem)
    · exact Nat.lt_of_lt_of_eq (h.log.asked other number session hmem) (length_update next request _).symm

theorem Resumes.cancel {asks : List Nat} {request : Nat} (h : Resumes client link next asks)
    (hcancel : next.isWithdrawn request = true) :
    Resumes client link (next.send link.number (.inputCancel request)) asks := by
  have hlog : (next.send link.number (.inputCancel request)).LogSound := by
    refine h.log.send link.number (fun _ _ ↦ nofun) (fun _ ↦ nofun) fun other heq ↦ ?_
    obtain rfl := Message.inputCancel.inj heq
    exact hcancel
  rw [send] at hlog ⊢
  split at hlog
  · rename_i hsends
    rw [if_pos hsends]
    exact ⟨h.current, h.token, h.length, h.subset, h.result, h.route, hlog⟩
  · rename_i hdown
    rw [if_neg hdown]
    exact h

theorem Cancelled.send {asks : List Nat} {request : Nat} (hlink : next.link = some { link with asks })
    (h : ∀ other ∈ asks, other ≠ request → next.isWithdrawn other = true → link.socket = .opened →
      .sent link.number (.inputCancel other) ∈ next.log) :
    Cancelled (next.send link.number (.inputCancel request)) link asks := by
  intro other hother hwithdrawn hopened
  have hsends : next.sends link.number = true := @sends_of_opened next { link with asks } hlink hopened
  rw [AgentClient.send, if_pos hsends] at hwithdrawn ⊢
  by_cases heq : other = request
  · exact heq ▸ List.mem_concat_self
  · exact List.mem_append_left _ (h other hother heq hwithdrawn hopened)

theorem resumeAsk_resumes {asks : List Nat} (h : Resumes client link next asks) (hcancelled : Cancelled next link asks)
    (request : Nat) : ∃ more, Resumes client link (next.resumeAsk link.number request) more ∧
      Cancelled (next.resumeAsk link.number request) link more ∧ asks ⊆ more := by
  rw [resumeAsk, h.current]
  dsimp only
  split
  · exact ⟨asks, h, hcancelled, List.Subset.refl _⟩
  generalize hmore : (if asks.contains request = true then asks else asks ++ [request]) = more
  have hsub : asks ⊆ more := by
    subst hmore
    split
    · exact List.Subset.refl _
    · exact List.subset_append_left _ _
  have hnew : ∀ other ∈ more, other = request ∨ other ∈ asks := by
    intro other hother
    subst hmore
    split at hother
    · exact .inr hother
    · exact (List.mem_append.1 hother).symm.imp_left List.mem_singleton.1
  have hresumes := h.reroute request hsub hnew
  have hothers : ∀ other ∈ more, other ≠ request →
      (next.update request fun ask ↦ { ask with route := link.number }).isWithdrawn other = true →
      link.socket = .opened → .sent link.number (.inputCancel other) ∈ next.log := by
    intro other hother hne hwithdrawn
    rw [isWithdrawn_reroute] at hwithdrawn
    exact hcancelled other ((hnew other hother).resolve_left hne) hwithdrawn
  refine ⟨more, ?_⟩
  split
  · rename_i hcancel
    exact ⟨hresumes.cancel hcancel, Cancelled.send rfl hothers, hsub⟩
  · rename_i hkept
    refine ⟨hresumes, fun other hother hwithdrawn hopened ↦ hothers other hother ?_ hwithdrawn hopened, hsub⟩
    rintro rfl
    exact hkept hwithdrawn

theorem resumeAll_resumes (requests : List Nat) {asks : List Nat} (h : Resumes client link next asks)
    (hcancelled : Cancelled next link asks) :
    ∃ more, Resumes client link (requests.foldl (resumeAsk link.number) next) more ∧
      Cancelled (requests.foldl (resumeAsk link.number) next) link more := by
  induction requests generalizing next asks with
  | nil => exact ⟨asks, h, hcancelled⟩
  | cons first rest ih =>
    obtain ⟨more, hmore, hsent, _⟩ := resumeAsk_resumes h hcancelled first
    exact ih hmore hsent

theorem resumed_sound (hsound : client.Sound) (hlink : client.link = some link) (hopen : link.socket ≠ .connecting)
    (sessions : List (String × List Nat)) : (client.resumed link sessions).Sound := by
  have hbefore := hsound.link link hlink
  obtain ⟨asks, h, hsent⟩ := resumeAll_resumes (sessions.flatMap (·.2)) (hsound.resumes hlink) hbefore.cancelled
  rw [resumed]
  dsimp only
  rw [h.current]
  dsimp only
  generalize (sessions.flatMap (·.2)).foldl (resumeAsk link.number) client = next at h hsent ⊢
  obtain ⟨hsettles, hended⟩ := cancelAsks_settles ((held { link with asks }).filter fun request ↦ !asks.contains request) next
  have hlength : ∀ request, request < client.asks.length → request < next.asks.length := fun request hlt ↦ h.length ▸ hlt
  refine ⟨fun request hlt ↦ ?_, fun found hfound ↦ ?_, (hsettles.logSound h.log).unlink⟩
  · have hlt' : request < next.asks.length := hsettles.length ▸ hlt
    have hresult : (client.result request).isSome = true → _ := fun hsome ↦
      hsettles.isSome ((congrArg _ (h.result request)).trans hsome)
    obtain hsome | ⟨found, hfound, hmem⟩ | ⟨token, htoken, hmem⟩ := hsound.held request (h.length ▸ hlt')
    · exact .inl (hresult hsome)
    · obtain rfl := Option.mem_unique hlink hfound
      exact .inr (.inl ⟨_, rfl, h.subset hmem⟩)
    · -- What the resumption held is given back, or has ended.
      by_cases hasks : request ∈ asks
      · exact .inr (.inl ⟨_, rfl, hasks⟩)
      · refine .inl (hended request (List.mem_filter.2 ⟨?_, by simpa using hasks⟩) hlt')
        cases hready : link.ready with
        | true => exact nomatch (hbefore.taken hready).symm.trans htoken
        | false =>
          rw [held]
          dsimp only
          rw [← hbefore.resume hready, htoken]
          exact hmem
  · cases hfound
    refine ⟨fun hready ↦ (nomatch hready), fun _ ↦ rfl, fun hready ↦ (nomatch hready), fun hconnecting ↦
      absurd hconnecting hopen, fun hready ↦ (nomatch hready), fun request hrequest hnone number hnumber ↦ ?_,
      fun request hrequest hwithdrawn hopened ↦ ?_⟩
    · exact h.route request hrequest (hsettles.isNone hnone) number ((hsettles.route request).symm.trans hnumber)
    · exact hsettles.subset_log (hsent request hrequest ((hsettles.withdrawn request).symm.trans hwithdrawn) hopened)

/-! ### Messages -/

theorem inputResult_sound (hsound : client.Sound) (hlink : client.link = some link) (request : Nat) (status : String) :
    (client.serve link (.inputResult request status)).Sound := by
  have hsettles : Settles client
      (if link.asks.contains request then client.settle request (.answered status) else client) := by
    split
    · exact settle_settles client request (.answered status) fun _ _ ↦ not_clashes nofun nofun
    · exact .refl client
  have hanswered : request ∈ link.asks → request < client.asks.length →
      ((if link.asks.contains request then client.settle request (.answered status) else client).result
        request).isSome = true := by
    intro hmem hlt
    rw [if_pos (List.contains_iff_mem.2 hmem)]
    exact result_settle client hlt _
  rw [serve]
  generalize (if link.asks.contains request then client.settle request (.answered status) else client) = next
    at hsettles hanswered ⊢
  have hlink' := hsettles.link.trans hlink
  have hsettled : ({ next with link := some { link with asks := link.asks.filter (· != request) } } : AgentClient).Sound := by
    refine (hsettles.sound hsound).replace hlink' (fun other hother hlt ↦ ?_)
      ((hsettles.linkSound (hsound.link link hlink)).mono rfl rfl rfl rfl rfl (List.filter_subset_self _))
    by_cases hsame : other = request
    · subst hsame
      exact .inl (hanswered hother (hsettles.length ▸ hlt))
    · exact .inr (List.mem_filter.2 ⟨hother, by simpa using hsame⟩)
  split
  · exact send_sound hsettled link.number _ (hsettled.log.send link.number (fun _ _ ↦ nofun) (fun _ ↦ nofun) fun _ ↦ nofun)
  · exact hsettled

theorem serve_sound (hsound : client.Sound) (hlink : client.link = some link) (hopen : link.socket ≠ .connecting)
    (message : ServerMessage) : (client.serve link message).Sound := by
  have h := hsound.link link hlink
  cases message with
  | refused retry => exact failAttach_sound hsound hlink retry
  | error => exact failAttach_sound hsound hlink false
  | resumed sessions => exact resumed_sound hsound hlink hopen sessions
  | inputResult request status => exact inputResult_sound hsound hlink request status
  | start session accepted =>
    rw [serve]
    split
    · exact hsound.set hlink (List.Subset.refl _) (h.mono rfl rfl rfl rfl rfl (List.Subset.refl _))
    · exact hsound
  | destroy session => exact hsound.set hlink (List.Subset.refl _) (h.mono rfl rfl rfl rfl rfl (List.Subset.refl _))
  | attached features => exact hsound
  | malformed => exact hsound

theorem attached_sound (hsound : client.Sound) (hlink : client.link = some link) (hopen : link.socket ≠ .connecting)
    (features : Bool) : (client.message link (.attached features)).Sound := by
  have h := hsound.link link hlink
  rw [message]
  split
  · exact hsound
  split
  · have hset : ({ client with link := some { link with attached := true, features } } : AgentClient).Sound :=
      hsound.set hlink (List.Subset.refl _) (h.mono rfl rfl rfl rfl rfl (List.Subset.refl _))
    refine send_sound hset link.number _ (hset.log.send link.number (fun _ _ ↦ nofun) (fun named heq request hrequest ↦ ?_)
      fun _ ↦ nofun)
    obtain rfl := Message.resume.inj heq
    exact mem_resuming hrequest
  · -- The server keeps nothing for this client, so what the resumption held ends.
    obtain ⟨hsettles, hheld⟩ := cancelAsks_settles (held link) client
    have hsettled := hsettles.sound hsound
    have hafter := hsettles.linkSound h
    refine ⟨fun request hlt ↦ ?_, fun found hfound ↦ ?_, hsettled.log.unlink⟩
    · obtain hsome | ⟨found, hfound, hmem⟩ | ⟨token, htoken, hmem⟩ := hsettled.held request hlt
      · exact .inl hsome
      · obtain rfl := Option.some.inj ((hsettles.link.trans hlink).symm.trans hfound)
        exact .inr (.inl ⟨_, rfl, hmem⟩)
      · cases hready : link.ready with
        | true => exact nomatch (hafter.taken hready).symm.trans htoken
        | false =>
          refine .inl (hheld request ?_ (hsettles.length ▸ hlt))
          rw [AgentClient.held, (hafter.resume hready).symm.trans htoken]
          exact hmem
    · cases hfound
      exact ⟨fun hready ↦ (nomatch hready), fun _ ↦ rfl, fun hready ↦ (nomatch hready),
        fun hconnecting ↦ absurd hconnecting hopen, fun hready ↦ (nomatch hready), hafter.route, hafter.cancelled⟩

theorem message_sound (hsound : client.Sound) (hlink : client.link = some link) (hopen : link.socket ≠ .connecting)
    (message : ServerMessage) : (client.message link message).Sound := by
  have h := hsound.link link hlink
  have hserve : ∀ message, (if link.attached then client.serve link message else client).Sound := by
    intro message
    split
    · exact serve_sound hsound hlink hopen message
    · exact hsound
  cases message with
  | malformed =>
    rw [AgentClient.message]
    dsimp only
    split
    · rename_i hready
      refine release_sound (hsound.set hlink (List.Subset.refl _) ⟨h.resume, h.taken, fun hnot ↦ ?_, fun heq ↦ (nomatch heq),
        h.idle, h.route, fun _ _ _ heq ↦ (nomatch heq)⟩) rfl
      exact nomatch hready.symm.trans hnot
    · refine release_sound (fails_sound hsound hlink rfl rfl rfl rfl (.inr rfl)) ?_
      exact (cancelAsks_settles _ _).1.link
  | attached features => exact attached_sound hsound hlink hopen features
  | refused retry => exact failAttach_sound hsound hlink retry
  | error => exact hserve .error
  | resumed sessions => exact hserve (.resumed sessions)
  | inputResult request status => exact hserve (.inputResult request status)
  | start session accepted => exact hserve (.start session accepted)
  | destroy session => exact hserve (.destroy session)

/-! ### Asking -/

theorem getElem?_asked (asks : List Ask) (ask : Ask) (request : Nat) :
    (asks ++ [ask])[request]? = if request = asks.length then some ask else asks[request]? := by
  split
  · rename_i heq
    rw [heq, List.getElem?_concat_length]
  · rename_i hne
    obtain hlt | hgt := Nat.lt_or_gt_of_ne hne
    · exact List.getElem?_append_left hlt
    · rw [List.getElem?_eq_none (List.length_append ▸ hgt), List.getElem?_eq_none (Nat.le_of_lt hgt)]

/-- One more question. -/
def asked (client : AgentClient) (ask : Ask) : AgentClient := { client with asks := client.asks ++ [ask] }

theorem length_asked (client : AgentClient) (ask : Ask) : (client.asked ask).asks.length = client.asks.length + 1 :=
  List.length_append

theorem result_asked (client : AgentClient) (ask : Ask) (request : Nat) :
    (client.asked ask).result request = if request = client.asks.length then ask.result else client.result request := by
  rw [result, asked, getElem?_asked]
  split <;> rfl

theorem route_asked (client : AgentClient) (ask : Ask) (request : Nat) : (client.asked ask).route request =
    if request = client.asks.length then some ask.route else client.route request := by
  rw [route, asked, getElem?_asked]
  split <;> rfl

variable {ask : Ask}

theorem isWithdrawn_asked (client : AgentClient) (hkept : ask.withdrawn = false) (request : Nat) :
    (client.asked ask).isWithdrawn request = client.isWithdrawn request := by
  rw [isWithdrawn, isWithdrawn, asked, getElem?_asked]
  split
  · rename_i heq
    rw [heq, List.getElem?_eq_none (Nat.le_refl _)]
    exact hkept
  · rfl

/-- A question that ends before it is sent. -/
theorem ended_sound (hsound : client.Sound) {outcome : Outcome} (hkept : ask.withdrawn = false)
    (hresult : ask.result = some outcome) (houtcome : outcome ≠ .withdrawn) :
    ({ client.asked ask with log := client.log ++ [.settled client.asks.length outcome] } : AgentClient).Sound where
  held request hlt := by
    by_cases heq : request = client.asks.length
    · refine .inl ((congrArg _ ((result_asked client ask request).trans (if_pos heq))).trans ?_)
      rw [hresult]
      rfl
    · have hlt' : request < client.asks.length + 1 := Nat.lt_of_lt_of_eq hlt (length_asked client ask)
      obtain hsome | hcarried := hsound.held request (by omega)
      · exact .inl ((congrArg _ ((result_asked client ask request).trans (if_neg heq))).trans hsome)
      · exact .inr hcarried
  link link hlink := by
    have h := hsound.link link hlink
    refine ⟨h.resume, h.taken, fun hready hfailed request hrequest hlt ↦ ?_, h.connecting, h.idle,
      fun request hrequest hnone number hroute ↦ ?_, fun request hrequest hwithdrawn hopened ↦ ?_⟩
    · refine (congrArg _ (result_asked client ask request)).trans ?_
      split
      · rw [hresult]
        rfl
      · have hlt' : request < client.asks.length + 1 := Nat.lt_of_lt_of_eq hlt (length_asked client ask)
        exact h.failed hready hfailed request hrequest (by omega)
    · have hnone := (result_asked client ask request).symm.trans hnone
      have hroute := (route_asked client ask request).symm.trans hroute
      split at hnone
      · exact nomatch hresult.symm.trans hnone
      · rename_i hne
        exact h.route request hrequest hnone number ((if_neg hne).symm.trans hroute)
    · have hwithdrawn := (isWithdrawn_asked client hkept request).symm.trans hwithdrawn
      exact List.mem_append_left _ (h.cancelled request hrequest hwithdrawn hopened)
  log := by
    refine hsound.log.snoc (Nat.le_of_lt (Nat.lt_of_lt_of_eq (Nat.lt_succ_self _) (length_asked client ask).symm))
      (fun request h ↦ (isWithdrawn_asked client hkept request).trans h) rfl (fun request htold ↦ ?_)
      (fun _ _ _ heq ↦ (nomatch heq)) fun earlier hearlier hclash ↦ ?_
    · obtain heq | ⟨_, heq⟩ := htold <;> exact nomatch heq
    · obtain ⟨_, _, _, _, heq, _⟩ | ⟨_, _, _, heq⟩ | ⟨request, number, session, rfl, heq⟩ := hclash
      · cases heq
      · exact houtcome (Event.settled.inj heq).2
      · -- The number of a question that was asked is not this one's.
        have hlt := hsound.log.asked request number session hearlier
        rw [(Event.settled.inj heq).1] at hlt
        exact Nat.lt_irrefl _ hlt

/-- A question that is sent on a link that is ready. -/
theorem sent_sound (hsound : client.Sound) (hlink : client.link = some link) (hready : link.ready = true)
    (hkept : ask.withdrawn = false) (hroute : ask.route = link.number) (session : String) :
    ({ client.asked ask with
       link := some { link with asks := link.asks ++ [client.asks.length] }
       log := client.log ++ [.sent link.number (.inputRequest client.asks.length session)] } : AgentClient).Sound where
  held request hlt := by
    by_cases heq : request = client.asks.length
    · exact .inr (.inl ⟨_, rfl, List.mem_append_right _ (heq ▸ List.mem_singleton_self _)⟩)
    · have hlt' : request < client.asks.length + 1 := Nat.lt_of_lt_of_eq hlt (length_asked client ask)
      obtain hsome | ⟨found, hfound, hmem⟩ | htoken := hsound.held request (by omega)
      · exact .inl ((congrArg _ ((result_asked client ask request).trans (if_neg heq))).trans hsome)
      · obtain rfl := Option.mem_unique hlink hfound
        exact .inr (.inl ⟨_, rfl, List.mem_append_left _ hmem⟩)
      · exact .inr (.inr htoken)
  link found hfound := by
    cases hfound
    have h := hsound.link link hlink
    refine ⟨fun hnot ↦ (nomatch hready.symm.trans hnot), fun _ ↦ h.taken hready,
      fun hnot ↦ (nomatch hready.symm.trans hnot), fun hconnecting ↦ h.connecting hconnecting,
      fun hnot ↦ (nomatch hready.symm.trans hnot), fun request hrequest hnone number hnumber ↦ ?_,
      fun request hrequest hwithdrawn hopened ↦ ?_⟩
    · have hnone := (result_asked client ask request).symm.trans hnone
      have hnumber := (route_asked client ask request).symm.trans hnumber
      by_cases heq : request = client.asks.length
      · rw [if_pos heq] at hnumber
        exact (Option.some.inj hnumber).symm.trans hroute
      · rw [if_neg heq] at hnone hnumber
        have hrequest := (List.mem_append.1 hrequest).resolve_right fun hnew ↦ heq (List.mem_singleton.1 hnew)
        exact h.route request hrequest hnone number hnumber
    · have hwithdrawn := (isWithdrawn_asked client hkept request).symm.trans hwithdrawn
      obtain hrequest | hrequest := List.mem_append.1 hrequest
      · exact List.mem_append_left _ (h.cancelled request hrequest hwithdrawn hopened)
      · rw [List.mem_singleton.1 hrequest, isWithdrawn, List.getElem?_eq_none (Nat.le_refl _)] at hwithdrawn
        cases hwithdrawn
  log := by
    refine hsound.log.snoc (Nat.le_of_lt (Nat.lt_of_lt_of_eq (Nat.lt_succ_self _) (length_asked client ask).symm))
      (fun request h ↦ (isWithdrawn_asked client hkept request).trans h) rfl (fun request htold ↦ ?_)
      (fun request number session heq ↦ ?_) fun earlier hearlier hclash ↦ ?_
    · obtain heq | ⟨_, heq⟩ := htold
      · cases heq
      · exact nomatch (Event.sent.inj heq).2
    · obtain rfl := (Message.inputRequest.inj (Event.sent.inj heq).2).1
      exact Nat.lt_of_lt_of_eq (Nat.lt_succ_self _) (length_asked client ask).symm
    · obtain ⟨_, _, _, _, heq, _⟩ | ⟨_, _, _, heq⟩ | ⟨_, _, _, _, heq⟩ := hclash
      · exact nomatch (Event.sent.inj heq).2
      · cases heq
      · cases heq

theorem ask_sound (hsound : client.Sound) (current : Bool) (session : String) (aborted oversized : Bool) :
    (client.ask current session aborted oversized).Sound := by
  rw [ask]
  split
  · exact ended_sound hsound rfl rfl nofun
  split
  · exact ended_sound hsound rfl rfl nofun
  split
  · exact ended_sound hsound rfl rfl nofun
  · rename_i link hfound
    obtain ⟨hlink, hcan⟩ := Option.filter_eq_some_iff.1 hfound
    rw [Bool.and_eq_true, Bool.and_eq_true] at hcan
    exact sent_sound hsound hlink hcan.1.2 rfl rfl session

/-! ### Withdrawing -/

/-- A question is withdrawn. -/
def withdraw (client : AgentClient) (request : Nat) : AgentClient :=
  { client.update request fun ask ↦ { ask with withdrawn := true } with log := client.log ++ [.withdrawn request] }

theorem getElem?_withdraw (client : AgentClient) (request other : Nat) : (client.withdraw request).asks[other]? =
    if request = other then client.asks[other]?.map fun ask ↦ { ask with withdrawn := true } else client.asks[other]? :=
  getElem?_update client request _ other

theorem result_withdraw (client : AgentClient) (request other : Nat) :
    (client.withdraw request).result other = client.result other := by
  rw [result, result, getElem?_withdraw]
  split
  · cases client.asks[other]? <;> rfl
  · rfl

theorem route_withdraw (client : AgentClient) (request other : Nat) :
    (client.withdraw request).route other = client.route other := by
  rw [route, route, getElem?_withdraw]
  split
  · cases client.asks[other]? <;> rfl
  · rfl

theorem isWithdrawn_withdraw (client : AgentClient) {request : Nat} (h : request < client.asks.length) (other : Nat) :
    (client.withdraw request).isWithdrawn other = (decide (request = other) || client.isWithdrawn other) := by
  rw [isWithdrawn, isWithdrawn, getElem?_withdraw]
  split
  · rename_i heq
    subst heq
    rw [List.getElem?_eq_getElem h]
    simp
  · rename_i hne
    simp [hne]

theorem withdraw_logSound (hlog : client.LogSound) {request : Nat} (h : request < client.asks.length) :
    (client.withdraw request).LogSound := by
  refine hlog.snoc (Nat.le_of_eq (length_update client request _).symm) (fun other hother ↦ ?_) rfl
    (fun other htold ↦ ?_) (fun _ _ _ heq ↦ (nomatch heq)) fun _ _ hclash ↦ ?_
  · rw [isWithdrawn_withdraw client h, hother, Bool.or_true]
  · obtain heq | ⟨_, heq⟩ := htold
    · rw [isWithdrawn_withdraw client h, decide_eq_true (Event.withdrawn.inj heq), Bool.true_or]
    · cases heq
  · obtain ⟨_, _, _, _, heq, _⟩ | ⟨_, _, _, heq⟩ | ⟨_, _, _, _, heq⟩ := hclash <;> exact nomatch heq

/-- A question is withdrawn, and its cancellation was sent when the link that carries it is open. -/
theorem withdraw_sound (hsound : client.Sound) {request : Nat} (h : request < client.asks.length) {log : List Event}
    (hlog : ({ client.withdraw request with log } : AgentClient).LogSound) (hsub : client.log ⊆ log)
    (hcancel : ∀ link, client.link = some link → request ∈ link.asks → link.socket = .opened →
      .sent link.number (.inputCancel request) ∈ log) :
    ({ client.withdraw request with log } : AgentClient).Sound where
  held other hlt := by
    refine (hsound.held other (Nat.lt_of_lt_of_eq hlt (length_update client request _))).imp_left fun hsome ↦ ?_
    exact (congrArg _ (result_withdraw client request other)).trans hsome
  link link hlink := by
    have hbefore := hsound.link link hlink
    refine ⟨hbefore.resume, hbefore.taken, fun hready hfailed other hother hlt ↦ ?_, hbefore.connecting, hbefore.idle,
      fun other hother hnone number hroute ↦ ?_, fun other hother hwithdrawn hopened ↦ ?_⟩
    · refine (congrArg _ (result_withdraw client request other)).trans ?_
      exact hbefore.failed hready hfailed other hother (Nat.lt_of_lt_of_eq hlt (length_update client request _))
    · exact hbefore.route other hother ((result_withdraw client request other).symm.trans hnone) number
        ((route_withdraw client request other).symm.trans hroute)
    · have hwithdrawn := (isWithdrawn_withdraw client h other).symm.trans hwithdrawn
      rw [Bool.or_eq_true, decide_eq_true_iff] at hwithdrawn
      obtain rfl | hwithdrawn := hwithdrawn
      · exact hcancel link hlink hother hopened
      · exact hsub (hbefore.cancelled other hother hwithdrawn hopened)
  log := hlog

theorem abort_sound (hsound : client.Sound) (request : Nat) : (client.abort request).Sound := by
  rw [abort]
  split
  · exact hsound
  rename_i ask hask
  split
  · exact hsound
  rename_i hwaits
  rw [Bool.not_eq_true, Bool.or_eq_false_iff, Option.isSome_eq_false_iff, Option.isNone_iff_eq_none] at hwaits
  obtain ⟨hnone, hkept⟩ := hwaits
  have hlt : request < client.asks.length := (List.getElem?_eq_some_iff.1 hask).1
  have hlog := withdraw_logSound hsound.log hlt
  have hwithdrawn : (client.withdraw request).isWithdrawn request = true := by
    rw [isWithdrawn_withdraw client hlt, decide_eq_true rfl, Bool.true_or]
  -- The link whose map it is in is the one its cancellation goes to.
  have hroute : ∀ link, client.link = some link → request ∈ link.asks → ask.route = link.number := by
    intro link hlink hmem
    refine (hsound.link link hlink).route request hmem ?_ ask.route ?_
    · rw [result, hask, Option.bind_some, hnone]
    · rw [route, hask, Option.map_some]
  change (if (client.withdraw request).sends ask.route then (client.withdraw request).send ask.route (.inputCancel request)
    else (client.withdraw request).settle request .withdrawn).Sound
  split
  · rename_i hsends
    have hsent : ((client.withdraw request).send ask.route (.inputCancel request)).LogSound :=
      hlog.send ask.route (fun _ _ ↦ nofun) (fun _ ↦ nofun) fun other heq ↦ Message.inputCancel.inj heq ▸ hwithdrawn
    rw [send, if_pos hsends] at hsent ⊢
    refine withdraw_sound hsound hlt hsent (fun event hevent ↦ ?_) fun link hlink hmem _ ↦ ?_
    · exact List.mem_append_left _ (List.mem_append_left _ hevent)
    · rw [hroute link hlink hmem]
      exact List.mem_concat_self
  · rename_i hdown
    have hsettles := settle_settles (client.withdraw request) request .withdrawn fun earlier hearlier hclash ↦ by
      obtain ⟨_, _, _, _, heq, _⟩ | ⟨other, number, rfl, heq⟩ | ⟨_, _, _, _, heq⟩ := hclash
      · cases heq
      · obtain rfl := (Event.settled.inj heq).1
        obtain hearlier | hearlier := List.mem_append.1 hearlier
        · have hbefore := hsound.log.cancelled request number hearlier
          rw [isWithdrawn, hask, Option.any_some, hkept] at hbefore
          cases hbefore
        · exact nomatch List.mem_singleton.1 hearlier
      · exact nomatch (Event.settled.inj heq).2
    refine hsettles.sound (withdraw_sound hsound hlt hlog (List.subset_append_left _ _) fun link hlink hmem hopened ↦ ?_)
    refine absurd ?_ hdown
    rw [hroute link hlink hmem]
    exact @sends_of_opened (client.withdraw request) link hlink hopened

/-! ### Every step -/

theorem step_sound {act : Act} (hsound : client.Sound) (h : client.step act = some next) : next.Sound := by
  cases act with
  | connect resumable =>
    rw [step] at h
    split at h
    · cases h
    · rename_i hnone
      cases h
      refine ⟨fun request hlt ↦ ?_, fun link hlink ↦ ?_, hsound.log.withdrawn, hsound.log.cancelled, hsound.log.asked,
        hsound.log.order⟩
      · obtain hsome | ⟨link, hlink, _⟩ | htoken := hsound.held request hlt
        · exact .inl hsome
        · exact absurd (hlink ▸ rfl : client.link.isSome = true) hnone
        · exact .inr (.inr htoken)
      · cases hlink
        exact ⟨fun _ ↦ rfl, fun hready ↦ (nomatch hready), fun _ hfailed ↦ (nomatch hfailed), fun _ ↦ rfl, fun _ ↦ rfl,
          fun _ hmem ↦ (nomatch hmem), fun _ hmem ↦ nomatch hmem⟩
  | opened =>
    obtain ⟨link, hlink, h⟩ := Option.bind_eq_some_iff.1 h
    split at h
    · cases h
    · rename_i hsocket
      cases h
      have hlinked := hsound.link link hlink
      have hready := hlinked.connecting (Decidable.not_not.1 hsocket)
      refine hsound.set hlink (List.Subset.refl _) ⟨hlinked.resume, hlinked.taken, hlinked.failed, fun heq ↦ (nomatch heq),
        hlinked.idle, hlinked.route, fun request hmem ↦ ?_⟩
      exact absurd (hlinked.idle hready ▸ hmem) List.not_mem_nil
  | closing =>
    obtain ⟨link, hlink, rfl⟩ := Option.map_eq_some_iff.1 h
    have hlinked := hsound.link link hlink
    exact hsound.set hlink (List.Subset.refl _) ⟨hlinked.resume, hlinked.taken, hlinked.failed, fun heq ↦ (nomatch heq),
      hlinked.idle, hlinked.route, fun _ _ _ heq ↦ (nomatch heq)⟩
  | closed =>
    obtain ⟨link, hlink, rfl⟩ := Option.map_eq_some_iff.1 h
    exact release_sound hsound hlink
  | message message =>
    obtain ⟨link, hlink, h⟩ := Option.bind_eq_some_iff.1 h
    split at h
    · cases h
    · rename_i hopen
      cases h
      exact message_sound hsound hlink hopen message
  | ask current session aborted oversized =>
    cases h
    exact ask_sound hsound current session aborted oversized
  | abort request =>
    cases h
    exact abort_sound hsound request
  | detach =>
    obtain ⟨link, hlink, h⟩ := Option.bind_eq_some_iff.1 h
    split at h
    · cases h
    · cases h
      have hset : ({ client with link := some { link with ended := true } } : AgentClient).Sound :=
        hsound.set hlink (List.Subset.refl _) ((hsound.link link hlink).mono rfl rfl rfl rfl rfl (List.Subset.refl _))
      exact send_sound hset link.number _ (hset.log.send link.number (fun _ _ ↦ nofun) (fun _ ↦ nofun) fun _ ↦ nofun)

theorem new_sound : new.Sound where
  held _ hlt := absurd hlt (Nat.not_lt_zero _)
  link _ hlink := nomatch hlink
  log := ⟨fun _ h ↦ (nomatch h), fun _ _ h ↦ (nomatch h),
    fun _ _ _ h ↦ (nomatch h), .nil⟩

theorem runs_sound {acts : List Act} (run : Runs step new acts client) : client.Sound :=
  run.invariant new_sound fun _ _ _ ↦ step_sound

/-! ## What a question settles with -/

/-- What has settled stays as it is, and what settles does so as it may. -/
structure Keeps (may : Nat → Outcome → Prop) (client next : AgentClient) : Prop where
  kept : ∀ request outcome, client.result request = some outcome → next.result request = some outcome
  only : ∀ request outcome, next.result request = some outcome →
    client.result request = some outcome ∨ may request outcome

/-- Settling as the server said, or as a link that is gone. -/
def Remotely (_ : Nat) (outcome : Outcome) : Prop := outcome ≠ .withdrawn ∧ outcome ≠ .unasked

variable {may : Nat → Outcome → Prop}

theorem Keeps.of_result (h : ∀ request, next.result request = client.result request) : Keeps may client next :=
  ⟨fun request _ hresult ↦ (h request).trans hresult, fun request _ hresult ↦ .inl ((h request).symm.trans hresult)⟩

theorem Keeps.of_asks (h : next.asks = client.asks) : Keeps may client next :=
  .of_result fun request ↦ by rw [result, result, h]

theorem Keeps.trans (first : Keeps may client next) (second : Keeps may next last) : Keeps may client last where
  kept request outcome h := second.kept request outcome (first.kept request outcome h)
  only request outcome h := (second.only request outcome h).elim (first.only request outcome) .inr

/-- What a question has settled with does not look at the link. -/
theorem Keeps.of_link {other : Option Link} (h : Keeps may ({ client with link := other } : AgentClient) next) :
    Keeps may client next := ⟨h.kept, h.only⟩

theorem settle_keeps (client : AgentClient) {request : Nat} {outcome : Outcome} (h : may request outcome) :
    Keeps may client (client.settle request outcome) where
  kept other found hfound := by
    rw [result] at hfound ⊢
    rw [getElem?_settle]
    obtain ⟨ask, hask, hresult⟩ := Option.bind_eq_some_iff.1 hfound
    rw [hask, Option.map_some, Option.bind_some]
    split
    · rw [hresult, Option.some_or]
    · exact hresult
  only other found hfound := by
    rw [result, getElem?_settle] at hfound
    rw [result]
    cases hask : client.asks[other]? with
    | none => rw [hask] at hfound; exact nomatch hfound
    | some ask =>
      rw [hask, Option.map_some, Option.bind_some] at hfound
      rw [Option.bind_some]
      split at hfound
      · rename_i heq
        cases hresult : ask.result with
        | some settled => rw [hresult] at hfound; exact .inl hfound
        | none =>
          rw [hresult, Option.none_or] at hfound
          rw [← heq, ← Option.some.inj hfound]
          exact .inr h
      · exact .inl hfound

theorem cancelAsks_keeps (held : List Nat) (client : AgentClient) : Keeps Remotely client (client.cancelAsks held) := by
  induction held generalizing client with
  | nil => exact .of_asks rfl
  | cons first rest ih => exact (settle_keeps client ⟨nofun, nofun⟩).trans (ih (client.settle first .closed))

theorem asks_send (client : AgentClient) (number : Nat) (message : Message) :
    (client.send number message).asks = client.asks := by
  rw [send]
  split <;> rfl

theorem failAttach_keeps (client : AgentClient) (link : Link) (retry : Bool) :
    Keeps Remotely client (client.failAttach link retry) := by
  rw [failAttach]
  split
  · exact .of_link (cancelAsks_keeps _ _)
  · exact .of_asks rfl

theorem resumeAsk_keeps (client : AgentClient) (number request : Nat) :
    Keeps may client (client.resumeAsk number request) := by
  rw [resumeAsk]
  split
  · exact .of_asks rfl
  rename_i link _
  split
  · exact .of_asks rfl
  generalize (if link.asks.contains request then link.asks else link.asks ++ [request]) = asks
  dsimp only
  split
  · refine .of_result fun other ↦ Eq.trans ?_ (result_reroute client request number other)
    rw [result, result, asks_send]
  · exact .of_result fun other ↦ result_reroute client request number other

theorem resumed_keeps (client : AgentClient) (link : Link) (sessions : List (String × List Nat)) :
    Keeps Remotely client (client.resumed link sessions) := by
  have hall : ∀ (requests : List Nat) (client : AgentClient),
      Keeps Remotely client (requests.foldl (resumeAsk link.number) client) := by
    intro requests
    induction requests with
    | nil => exact fun client ↦ .of_asks rfl
    | cons first rest ih => exact fun client ↦ (resumeAsk_keeps client link.number first).trans (ih _)
  have hfirst := hall (sessions.flatMap (·.2)) client
  rw [resumed]
  dsimp only
  split
  · exact hfirst
  · exact (hfirst.trans (cancelAsks_keeps _ _)).trans (.of_asks rfl)

theorem release_keeps (client : AgentClient) (link : Link) : Keeps Remotely client (client.release link) := by
  rw [release]
  split
  · exact (cancelAsks_keeps _ client).trans (.of_asks rfl)
  · exact (cancelAsks_keeps _ client).trans (.of_asks rfl)

theorem serve_keeps (client : AgentClient) (link : Link) (message : ServerMessage) :
    Keeps Remotely client (client.serve link message) := by
  cases message with
  | refused retry => exact failAttach_keeps client link retry
  | error => exact failAttach_keeps client link false
  | resumed sessions => exact resumed_keeps client link sessions
  | inputResult request status =>
    have hsettled : Keeps Remotely client
        (if link.asks.contains request then client.settle request (.answered status) else client) := by
      split
      · exact settle_keeps client ⟨nofun, nofun⟩
      · exact .of_asks rfl
    rw [serve]
    split
    · exact hsettled.trans (.of_asks (asks_send _ _ _))
    · exact hsettled.trans (.of_asks rfl)
  | start session accepted =>
    rw [serve]
    split <;> exact .of_asks rfl
  | destroy session => exact .of_asks rfl
  | attached features => exact .of_asks rfl
  | malformed => exact .of_asks rfl

theorem message_keeps (client : AgentClient) (link : Link) (message : ServerMessage) :
    Keeps Remotely client (client.message link message) := by
  have hserve : ∀ message, Keeps Remotely client (if link.attached then client.serve link message else client) := by
    intro message
    split
    · exact serve_keeps client link message
    · exact .of_asks rfl
  cases message with
  | malformed =>
    rw [AgentClient.message]
    split
    · exact .of_link (release_keeps _ _)
    · exact (Keeps.of_link (cancelAsks_keeps _ _)).trans (release_keeps _ _)
  | attached features =>
    rw [AgentClient.message]
    split
    · exact .of_asks rfl
    split
    · exact .of_asks (asks_send _ _ _)
    · exact (cancelAsks_keeps (held link) client).trans (.of_asks rfl)
  | refused retry => exact failAttach_keeps client link retry
  | error => exact hserve .error
  | resumed sessions => exact hserve (.resumed sessions)
  | inputResult request status => exact hserve (.inputResult request status)
  | start session accepted => exact hserve (.start session accepted)
  | destroy session => exact hserve (.destroy session)

/-- How an action may settle a question: it settles as withdrawn only by its caller withdrawing it when the link
that its cancellation goes to is not open, and as one that was not asked only when it was withdrawn before. -/
def Act.May (client : AgentClient) (act : Act) (request : Nat) (outcome : Outcome) : Prop :=
  Remotely request outcome ∨
    (outcome = .withdrawn ∧ act = .abort request ∧
      ∀ number, client.route request = some number → client.sends number = false) ∨
    outcome = .unasked ∧ request = client.asks.length ∧
      ∃ current session oversized, act = .ask current session true oversized

theorem Keeps.mono {more : Nat → Outcome → Prop} (h : Keeps may client next)
    (hmore : ∀ request outcome, may request outcome → more request outcome) : Keeps more client next :=
  ⟨h.kept, fun request outcome hresult ↦ (h.only request outcome hresult).imp_right (hmore request outcome)⟩

theorem asked_keeps (client : AgentClient)
    (h : ∀ outcome, ask.result = some outcome → may client.asks.length outcome) :
    Keeps may client (client.asked ask) where
  kept request outcome hresult := by
    refine (result_asked client ask request).trans ((if_neg fun heq ↦ ?_).trans hresult)
    rw [result, heq, List.getElem?_eq_none (Nat.le_refl _)] at hresult
    cases hresult
  only request outcome hresult := by
    rw [result_asked] at hresult
    split at hresult
    · rename_i heq
      exact .inr (heq ▸ h outcome hresult)
    · exact .inl hresult

theorem ask_keeps (client : AgentClient) (current : Bool) (session : String) (aborted oversized : Bool) :
    Keeps (Act.May client (.ask current session aborted oversized)) client
      (client.ask current session aborted oversized) := by
  have hended : ∀ ask : Ask, ∀ outcome, ask.result = some outcome → outcome ≠ .withdrawn → outcome ≠ .unasked →
      Keeps (Act.May client (.ask current session aborted oversized)) client (client.asked ask) := by
    intro ask outcome hresult hwithdrawn hunasked
    refine asked_keeps client fun found hfound ↦ .inl ?_
    obtain rfl := Option.mem_unique hresult hfound
    exact ⟨hwithdrawn, hunasked⟩
  rw [ask]
  split
  · rename_i haborted
    subst haborted
    refine Keeps.trans (asked_keeps client fun found hfound ↦ ?_) (.of_asks rfl)
    cases hfound
    exact .inr (.inr ⟨rfl, rfl, current, session, oversized, rfl⟩)
  split
  · exact (hended _ .failed rfl nofun nofun).trans (.of_asks rfl)
  split
  · exact (hended _ .closed rfl nofun nofun).trans (.of_asks rfl)
  · exact (asked_keeps client fun _ hfound ↦ (nomatch hfound)).trans (.of_asks rfl)

theorem abort_keeps (client : AgentClient) (request : Nat) :
    Keeps (Act.May client (.abort request)) client (client.abort request) := by
  rw [abort]
  split
  · exact .of_asks rfl
  rename_i ask hask
  split
  · exact .of_asks rfl
  have hwithdraw : Keeps (Act.May client (.abort request)) client (client.withdraw request) :=
    .of_result (result_withdraw client request)
  refine hwithdraw.trans ?_
  change Keeps _ _ (if (client.withdraw request).sends ask.route
    then (client.withdraw request).send ask.route (.inputCancel request)
    else (client.withdraw request).settle request .withdrawn)
  split
  · exact .of_asks (asks_send _ _ _)
  · rename_i hdown
    refine settle_keeps _ (.inr (.inl ⟨rfl, rfl, fun number hnumber ↦ ?_⟩))
    rw [route, hask] at hnumber
    rw [← Option.some.inj hnumber]
    exact Bool.eq_false_iff.2 hdown

theorem step_keeps {act : Act} (h : client.step act = some next) : Keeps (act.May client) client next := by
  have hremotely : ∀ {next}, Keeps Remotely client next → Keeps (act.May client) client next :=
    fun h ↦ h.mono fun _ _ ↦ .inl
  cases act with
  | connect resumable =>
    rw [step] at h
    split at h
    · cases h
    · exact .of_asks (congrArg AgentClient.asks (Option.some.inj h)).symm
  | opened =>
    obtain ⟨link, _, h⟩ := Option.bind_eq_some_iff.1 h
    split at h
    · cases h
    · exact .of_asks (congrArg AgentClient.asks (Option.some.inj h)).symm
  | closing =>
    obtain ⟨link, _, rfl⟩ := Option.map_eq_some_iff.1 h
    exact .of_asks rfl
  | closed =>
    obtain ⟨link, _, rfl⟩ := Option.map_eq_some_iff.1 h
    exact hremotely (release_keeps client link)
  | message message =>
    obtain ⟨link, _, h⟩ := Option.bind_eq_some_iff.1 h
    split at h
    · cases h
    · cases h
      exact hremotely (message_keeps client link message)
  | ask current session aborted oversized =>
    cases h
    exact ask_keeps client current session aborted oversized
  | abort request =>
    cases h
    exact abort_keeps client request
  | detach =>
    obtain ⟨link, _, h⟩ := Option.bind_eq_some_iff.1 h
    split at h
    · cases h
    · cases h
      exact .of_asks (asks_send _ _ _)

theorem runs_kept {acts : List Act} (run : Runs step client acts next) {request : Nat} {outcome : Outcome}
    (h : client.result request = some outcome) : next.result request = some outcome := by
  induction run with
  | nil => exact h
  | snoc _ last ih => exact (step_keeps last).kept request outcome ih

end AgentClient

/-! ## Every question settles once -/

open AgentClient

/-- A question whose signal was aborted before settles as withdrawn, although the link is open and could carry a
cancellation. -/
theorem settled_locally : ∃ client next,
    Runs step new [.connect true, .opened, .message (.attached true), .message (.resumed [])] client ∧
      client.step (.ask true "planner" true false) = some next ∧ client.sends 0 = true ∧ next.sends 0 = true ∧
      client.result 0 = none ∧ next.result 0 = some .unasked := by
  refine ⟨_, _, runs_iff_foldlM.2 rfl, rfl, ?_⟩
  decide

/-- Over any chain of links, what a question settles with stays; a question has settled or is carried by the link
there is or by the resumption that its caller has to try, so that when there is neither, all have settled.  No
link names a question that was withdrawn before, what an open link carries of the withdrawn was cancelled on it,
and a question settles as withdrawn only when its cancellation cannot be sent or when its signal was aborted
before it was asked. -/
theorem questions_settle_once {acts : List Act} {client : AgentClient} (run : Runs step new acts client) :
    (∀ more last request outcome, Runs step client more last → client.result request = some outcome →
      last.result request = some outcome) ∧
    (∀ request < client.asks.length, (client.result request).isSome = true ∨ client.Carried request) ∧
    (client.link = none → client.token = none → ∀ request < client.asks.length, (client.result request).isSome = true) ∧
    (client.log.Pairwise fun earlier later ↦ ¬Clashes earlier later) ∧
    (∀ link, client.link = some link → link.socket = .opened → ∀ request ∈ link.asks,
      client.isWithdrawn request = true → .sent link.number (.inputCancel request) ∈ client.log) ∧
    ∀ act next request, client.step act = some next → client.result request = none →
      (next.result request = some .withdrawn →
        act = .abort request ∧ ∀ number, client.route request = some number → client.sends number = false) ∧
      (next.result request = some .unasked → ∃ current session oversized, act = .ask current session true oversized) := by
  have hsound := runs_sound run
  refine ⟨fun more last request outcome hrun h ↦ runs_kept hrun h, hsound.held, fun hlink htoken request hlt ↦ ?_,
    hsound.log.order, fun link hlink hopened request hmem hwithdrawn ↦
      (hsound.link link hlink).cancelled request hmem hwithdrawn hopened, fun act next request h hnone ↦ ⟨?_, ?_⟩⟩
  · obtain hsome | ⟨link, hcurrent, _⟩ | ⟨token, htaken, _⟩ := hsound.held request hlt
    · exact hsome
    · exact nomatch hlink.symm.trans hcurrent
    · exact nomatch htoken.symm.trans htaken
  · intro hresult
    obtain hbefore | ⟨hremotely, _⟩ | ⟨_, hact, hdown⟩ | ⟨heq, _⟩ := (step_keeps h).only request .withdrawn hresult
    · exact nomatch hnone.symm.trans hbefore
    · exact absurd rfl hremotely
    · exact ⟨hact, hdown⟩
    · exact nomatch heq
  · intro hresult
    obtain hbefore | ⟨_, hremotely⟩ | ⟨heq, _⟩ | ⟨_, _, hact⟩ := (step_keeps h).only request .unasked hresult
    · exact nomatch hnone.symm.trans hbefore
    · exact absurd rfl hremotely
    · exact nomatch heq
    · exact hact

/-- The link drops with two questions open, one of them is withdrawn once the next link is resuming, and both are
given back. -/
def dropped : List Act := [.connect true, .opened, .message (.attached true), .message (.resumed []),
  .message (.start "planner" true), .ask true "planner" false false, .ask true "planner" false false, .closing, .closed,
  .connect true, .opened, .message (.attached true), .abort 1, .message (.resumed [("planner", [0, 1])]),
  .message (.inputResult 0 "answered")]

theorem questions_settle_once_sample : ∃ client, Runs step new dropped client ∧
    (client.result 0 = some (.answered "answered") ∧ client.result 1 = some .withdrawn) ∧
    (∀ more last request outcome, Runs step client more last → client.result request = some outcome →
      last.result request = some outcome) ∧
    ∀ link, client.link = some link → link.socket = .opened → ∀ request ∈ link.asks,
      client.isWithdrawn request = true → .sent link.number (.inputCancel request) ∈ client.log := by
  have run : Runs step new dropped _ := runs_iff_foldlM.2 rfl
  obtain ⟨hkept, _, _, _, hcancelled, _⟩ := questions_settle_once run
  exact ⟨_, run, by decide, hkept, hcancelled⟩

end Chopin.Client
