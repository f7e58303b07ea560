import Chopin.Lib.Runs
import Chopin.Remote.Replies
import Mathlib.Data.List.Nodup

/-!
# Every answer is settled once

In any order of questions, answers, acknowledgements, drops, returns and ends, an answer is owed in one place or
its `delivered` was called once, and not both; nothing is owed once the last link ended.  What was sent to a
client that can acknowledge is delivered when the client says so, or can never be.

A client that did not offer `resumable-sessions` cannot acknowledge: for it an answer is delivered once it is
sent, as `sent_unacknowledged` shows.

Runs in which a socket throws, a request is used again while an answer under it is owed, or a client waits on one
answer in two sessions are left out: `Chain.regular`.
-/

set_option autoImplicit false

namespace Chopin.Remote

/-- How many of the answers have this number. -/
def tally (number : Nat) (replies : List Reply) : Nat := replies.countP (·.number == number)

theorem tally_append (number : Nat) (front back : List Reply) :
    tally number (front ++ back) = tally number front + tally number back := List.countP_append

@[simp]
theorem tally_nil (number : Nat) : tally number [] = 0 := rfl

theorem tally_cons (number : Nat) (reply : Reply) (rest : List Reply) :
    tally number (reply :: rest) = tally number [reply] + tally number rest := tally_append number [reply] rest

theorem tally_self (reply : Reply) : tally reply.number [reply] = 1 := by simp [tally]

variable {replies : List Reply}

theorem tally_pos {reply : Reply} (h : reply ∈ replies) : 1 ≤ tally reply.number replies :=
  List.countP_pos_iff.2 ⟨reply, h, beq_self_eq_true _⟩

theorem tally_split (number : Nat) (replies : List Reply) (p : Reply → Bool) :
    tally number replies = tally number (replies.filter p) + tally number (replies.filter fun reply ↦ !p reply) :=
  List.countP_eq_countP_filter_add replies _ p

/-- Answers that a test tells apart are taken out of a list once. -/
theorem tally_take {taken : List Reply} {p : Reply → Bool} (hnodup : replies.Nodup) (htaken : taken.Nodup)
    (h : ∀ reply, reply ∈ taken ↔ reply ∈ replies ∧ p reply = true) (number : Nat) :
    tally number replies = tally number taken + tally number (replies.filter fun reply ↦ !p reply) := by
  have hperm : (replies.filter p).Perm taken :=
    (List.perm_ext_iff_of_nodup (hnodup.filter _) htaken).2 fun reply ↦ List.mem_filter.trans (h reply).symm
  rw [tally_split number replies p, tally, hperm.countP_eq]
  rfl

theorem eq_of_tally {number : Nat} (h : tally number replies ≤ 1) {first second : Reply}
    (hfirst : first ∈ replies) (hsecond : second ∈ replies) (hnumber : first.number = number)
    (hnumber' : second.number = number) : first = second := by
  rw [tally, List.countP_eq_length_filter] at h
  have hfirst : first ∈ replies.filter (·.number == number) := List.mem_filter.2 ⟨hfirst, beq_iff_eq.2 hnumber⟩
  have hsecond : second ∈ replies.filter (·.number == number) := List.mem_filter.2 ⟨hsecond, beq_iff_eq.2 hnumber'⟩
  obtain ⟨i, hi, rfl⟩ := List.mem_iff_getElem.1 hfirst
  obtain ⟨j, hj, rfl⟩ := List.mem_iff_getElem.1 hsecond
  obtain rfl : i = j := by omega
  rfl

theorem nodup_of_tally (h : ∀ number, tally number replies ≤ 1) : replies.Nodup := by
  refine List.nodup_iff_count_le_one.2 fun reply ↦ Nat.le_trans ?_ (h reply.number)
  refine List.countP_mono_left fun other _ hother ↦ ?_
  rw [beq_iff_eq] at hother ⊢
  rw [hother]

namespace Chain

/-! ## The invariant -/

def opened (chain : Chain) (number : Nat) : Nat := tally number chain.asking

def owed (chain : Chain) (number : Nat) : Nat := tally number chain.unacked + tally number chain.outbox

/-- How often `delivered` of the answer was called. -/
def ran (chain : Chain) (number : Nat) : Nat := tally number (chain.delivered.map (·.1))

/-- No answer was given to the client yet, or it is owed, or in hand. -/
def Live (chain : Chain) (pending : List Reply) (reply : Reply) : Prop :=
  reply ∈ chain.asking ∨ reply ∈ chain.unacked ∨ reply ∈ chain.outbox ∨ reply ∈ pending

/-- With some answers in hand, which are neither owed nor delivered yet. -/
structure Sound (pending : List Reply) (chain : Chain) : Prop where
  once : ∀ number, chain.opened number + chain.owed number + chain.ran number + tally number pending =
    if number < chain.count then 1 else 0
  apart : ∀ reply other, chain.Live pending reply → chain.Live pending other → reply.request = other.request →
    reply = other
  closed : chain.state = .closed → chain.unacked = [] ∧ chain.outbox = []
  attached : chain.state = .attached → chain.outbox = []
  suspended : chain.state = .suspended → chain.unacked = [] ∧ chain.resumable = true
  reason : chain.resumable = true → ∀ entry ∈ chain.delivered, entry.2 ≠ .unacknowledgeable

variable {chain : Chain} {pending : List Reply} {reply : Reply}

theorem Sound.le_one (h : Sound pending chain) (number : Nat) :
    chain.opened number + chain.owed number + chain.ran number + tally number pending ≤ 1 := by
  rw [h.once]
  split <;> omega

variable {next : Chain}

/-- An operation that moves answers, and says nothing of others. -/
theorem Sound.move {others : List Reply} (h : Sound pending chain)
    (htally : ∀ number, next.opened number + next.owed number + next.ran number + tally number others =
      chain.opened number + chain.owed number + chain.ran number + tally number pending)
    (hcount : next.count = chain.count) (hlive : ∀ reply, next.Live others reply → chain.Live pending reply)
    (hclosed : next.state = .closed → next.unacked = [] ∧ next.outbox = [])
    (hattached : next.state = .attached → next.outbox = [])
    (hsuspended : next.state = .suspended → next.unacked = [] ∧ next.resumable = true)
    (hreason : next.resumable = true → ∀ entry ∈ next.delivered, entry.2 ≠ .unacknowledgeable) : Sound others next where
  once number := by rw [htally, hcount, h.once]
  apart first second hfirst hsecond := h.apart first second (hlive first hfirst) (hlive second hsecond)
  closed := hclosed
  attached := hattached
  suspended := hsuspended
  reason := hreason

theorem ran_deliver (chain : Chain) (replies : List Reply) (reason : Reason) (number : Nat) :
    (chain.deliver replies reason).ran number = chain.ran number + tally number replies := by
  have hmap : (replies.map fun reply ↦ (reply, reason)).map (·.1) = replies := by
    rw [List.map_map]
    exact List.map_id replies
  rw [ran, deliver, List.map_append, hmap, tally_append, ran]

theorem mem_deliver {reason : Reason} {entry : Reply × Reason}
    (h : entry ∈ (chain.deliver replies reason).delivered) : entry ∈ chain.delivered ∨ entry.2 = reason := by
  obtain h | h := List.mem_append.1 h
  · exact .inl h
  · obtain ⟨_, _, rfl⟩ := List.mem_map.1 h
    exact .inr rfl

/-- Calling `delivered` for some answers says nothing of clients that cannot acknowledge. -/
theorem Sound.reason_deliver (h : Sound pending chain) (replies : List Reply) (reason : Reason)
    (hreason : reason ≠ .unacknowledgeable) (hresumable : chain.resumable = true) :
    ∀ entry ∈ (chain.deliver replies reason).delivered, entry.2 ≠ .unacknowledgeable := by
  intro entry hentry
  obtain hentry | hentry := mem_deliver hentry
  · exact h.reason hresumable entry hentry
  · exact hentry ▸ hreason

/-! ## Answering -/

theorem Live.cons (h : chain.Live pending reply) (other : Reply) : chain.Live (other :: pending) reply :=
  h.imp_right (Or.imp_right (Or.imp_right (List.mem_cons_of_mem _)))

theorem live_head (chain : Chain) (reply : Reply) (pending : List Reply) : chain.Live (reply :: pending) reply :=
  .inr (.inr (.inr List.mem_cons_self))

/-- An answer in hand is delivered. -/
theorem Sound.deliver_pending (h : Sound (reply :: pending) chain) {reason : Reason}
    (hreason : chain.resumable = true → reason ≠ .unacknowledgeable) :
    Sound pending (chain.deliver [reply] reason) := by
  refine h.move (fun number ↦ ?_) rfl (fun other hother ↦ Live.cons hother reply) h.closed h.attached h.suspended
    fun hresumable ↦ h.reason_deliver [reply] reason (hreason hresumable) hresumable
  rw [ran_deliver, tally_cons number reply pending]
  simp only [opened, owed, deliver]
  omega

/-- Nothing owed has the request of an answer in hand. -/
theorem Sound.request_free (h : Sound (reply :: pending) chain) :
    ∀ other ∈ chain.unacked, other.request ≠ reply.request := by
  intro other hother heq
  obtain rfl := h.apart other reply (.inr (.inl hother)) (.inr (.inr (.inr List.mem_cons_self))) heq
  have hone := h.le_one other.number
  have hpos := tally_pos hother
  rw [tally_cons, tally_self, owed] at hone
  omega

theorem awaitAck_unacked (h : ∀ other ∈ chain.unacked, other.request ≠ reply.request) :
    (chain.awaitAck reply).unacked = chain.unacked ++ [reply] := by
  rw [awaitAck, Entries.put, if_neg]
  rw [List.any_eq_true]
  rintro ⟨other, hother, heq⟩
  exact h other hother (beq_iff_eq.1 heq)

theorem answer_suspended (hstate : chain.state = .suspended) (sending : Sending) :
    (chain.answer reply sending).1 = { chain with outbox := chain.outbox ++ [reply] } := by
  simp only [answer, hstate]

theorem answer_closed (hstate : chain.state = .closed) (sending : Sending) :
    (chain.answer reply sending).1 = chain.deliver [reply] .unsent := by
  simp only [answer, hstate]

theorem answer_written (hstate : chain.state = .attached) (hresumable : chain.resumable = true) :
    (chain.answer reply .written).1 = { chain with offered := chain.offered ++ [reply.number] }.awaitAck reply := by
  simp only [answer, hstate, hresumable, if_true]

variable {sending : Sending}

theorem answer_sound (h : Sound (reply :: pending) chain) (hsending : sending ≠ .throws) :
    Sound pending (chain.answer reply sending).1 := by
  cases hstate : chain.state with
  | suspended =>
    rw [answer_suspended hstate]
    refine h.move (fun number ↦ ?_) rfl (fun other hother ↦ ?_) (fun hclosed ↦ nomatch hstate.symm.trans hclosed)
      (fun hattached ↦ nomatch hstate.symm.trans hattached) h.suspended h.reason
    · rw [tally_cons number reply pending]
      simp only [opened, owed, ran, tally_append]
      omega
    · obtain hother | hother | hother | hother := hother
      · exact .inl hother
      · exact .inr (.inl hother)
      · obtain hother | hother := List.mem_append.1 hother
        · exact .inr (.inr (.inl hother))
        · exact List.mem_singleton.1 hother ▸ live_head chain reply pending
      · exact .inr (.inr (.inr (List.mem_cons_of_mem _ hother)))
  | closed =>
    rw [answer_closed hstate]
    exact h.deliver_pending fun _ ↦ nofun
  | attached =>
    have hoffered : Sound (reply :: pending) { chain with offered := chain.offered ++ [reply.number] } :=
      ⟨h.once, h.apart, h.closed, h.attached, h.suspended, h.reason⟩
    cases sending with
    | throws => exact absurd rfl hsending
    | oversized =>
      simp only [answer, hstate]
      simp only [hstate] at hoffered
      exact hoffered.deliver_pending fun _ ↦ nofun
    | written =>
      by_cases hresumable : chain.resumable = true
      · rw [answer_written hstate hresumable]
        have hunacked := awaitAck_unacked hoffered.request_free
        refine hoffered.move (fun number ↦ ?_) rfl (fun other hother ↦ ?_) (fun hclosed ↦ nomatch hstate.symm.trans hclosed)
          h.attached (fun hsuspended ↦ nomatch hstate.symm.trans hsuspended) h.reason
        · rw [tally_cons number reply pending, owed, hunacked, tally_append]
          simp only [opened, owed, ran, awaitAck]
          omega
        · rw [Live, hunacked] at hother
          obtain hother | hother | hother | hother := hother
          · exact .inl hother
          · obtain hother | hother := List.mem_append.1 hother
            · exact .inr (.inl hother)
            · obtain rfl := List.mem_singleton.1 hother
              exact live_head _ other pending
          · exact .inr (.inr (.inl hother))
          · exact .inr (.inr (.inr (List.mem_cons_of_mem _ hother)))
      · simp only [answer, hstate, if_neg hresumable]
        simp only [hstate] at hoffered
        exact hoffered.deliver_pending fun h ↦ absurd h hresumable

theorem answer_throws (hsending : sending ≠ .throws) : (chain.answer reply sending).2 = false := by
  rw [answer]
  split
  · rfl
  · rfl
  · cases sending with
    | written => dsimp only; split <;> rfl
    | oversized => rfl
    | throws => exact absurd rfl hsending

theorem reply_eq {first : Sending} (hfirst : first ≠ .throws) (second : Sending) :
    chain.reply reply first second = (chain.answer reply first).1 := by
  rw [Chain.reply, answer_throws hfirst]
  rfl

/-! ## Letting go -/

theorem Sound.nodup_outbox (h : Sound pending chain) : chain.outbox.Nodup :=
  nodup_of_tally fun number ↦ by have := h.le_one number; rw [owed] at this; omega

theorem Sound.nodup_unacked (h : Sound pending chain) : chain.unacked.Nodup :=
  nodup_of_tally fun number ↦ by have := h.le_one number; rw [owed] at this; omega

theorem Sound.nodup_asking (h : Sound pending chain) : chain.asking.Nodup :=
  nodup_of_tally fun number ↦ by have := h.le_one number; rw [opened] at this; omega

theorem teardown_sound (h : Sound pending chain) : Sound pending chain.teardown := by
  refine h.move (fun number ↦ ?_) rfl (fun reply hreply ↦ ?_) (fun _ ↦ ⟨rfl, rfl⟩) (fun hattached ↦ nomatch hattached)
    (fun hsuspended ↦ nomatch hsuspended) fun hresumable entry hentry ↦ ?_
  · have hran : chain.teardown.ran number = chain.ran number + tally number chain.unacked + tally number chain.outbox :=
      (ran_deliver (chain.deliver chain.unacked .torn) chain.outbox .torn number).trans
        (congrArg (· + _) (ran_deliver chain chain.unacked .torn number))
    rw [hran]
    simp only [opened, owed, teardown, deliver, tally_nil]
    omega
  · obtain hreply | hreply | hreply | hreply := hreply
    · exact .inl hreply
    · cases hreply
    · cases hreply
    · exact .inr (.inr (.inr hreply))
  · have hentry : entry ∈ ((chain.deliver chain.unacked .torn).deliver chain.outbox .torn).delivered := hentry
    obtain hentry | hentry := mem_deliver hentry
    · exact h.reason_deliver chain.unacked .torn nofun hresumable entry hentry
    · exact hentry ▸ nofun

theorem suspend_sound (h : Sound pending chain) (hstate : chain.state = .attached) (hresumable : chain.resumable = true)
    (kept : List String) : Sound pending (chain.suspend kept) := by
  have houtbox := h.attached hstate
  refine h.move (fun number ↦ ?_) rfl (fun reply hreply ↦ ?_) (fun hclosed ↦ nomatch hclosed)
    (fun hattached ↦ nomatch hattached) (fun _ ↦ ⟨rfl, hresumable⟩) fun hresumable ↦ h.reason_deliver _ _ nofun hresumable
  · have hsplit := tally_split number chain.unacked fun owed ↦ kept.contains owed.session
    have hran : (chain.suspend kept).ran number = chain.ran number + _ := ran_deliver chain _ .letGo number
    rw [hran]
    simp only [opened, owed, suspend, deliver, tally_append, tally_nil]
    omega
  · obtain hreply | hreply | hreply | hreply := hreply
    · exact .inl hreply
    · cases hreply
    · obtain hreply | hreply := List.mem_append.1 hreply
      · exact .inr (.inr (.inl hreply))
      · exact .inr (.inl (List.mem_filter.1 hreply).1)
    · exact .inr (.inr (.inr hreply))

/-- The answers of a session that is let go are delivered. -/
theorem letGo_sound (h : Sound pending chain) (session : String) (sessions : List String)
    (inputs : List (String × String)) : Sound pending
      { chain.deliver (chain.unacked.filter (·.session == session)) .letGo with
        sessions, inputs, unacked := chain.unacked.filter (·.session != session) } := by
  refine h.move (fun number ↦ ?_) rfl (fun reply hreply ↦ ?_) (fun hclosed ↦ ?_) h.attached (fun hsuspended ↦ ?_)
    fun hresumable ↦ h.reason_deliver _ _ nofun hresumable
  · have hsplit := tally_split number chain.unacked (·.session == session)
    have hran := ran_deliver chain (chain.unacked.filter (·.session == session)) .letGo number
    simp only [ran, opened, owed, deliver, bne] at hran ⊢
    omega
  · exact hreply.imp_right (Or.imp_left fun hmem ↦ (List.mem_filter.1 hmem).1)
  · obtain ⟨hunacked, houtbox⟩ := h.closed hclosed
    exact ⟨by simp [hunacked], houtbox⟩
  · obtain ⟨hunacked, hresumable⟩ := h.suspended hsuspended
    exact ⟨by simp [hunacked], hresumable⟩

theorem forget_sound (h : Sound pending chain) (session : String) : Sound pending (chain.forget session) := by
  have hgone := letGo_sound h session (chain.sessions.filter (· != session)) (chain.inputs.filter (·.2 != session))
  rw [forget]
  dsimp only
  split
  · exact teardown_sound hgone
  · exact hgone

variable {held : List (String × List String)}

theorem mem_owedTo (h : reply ∈ chain.owedTo held) : reply ∈ chain.outbox := by
  obtain ⟨session, _, hreply⟩ := List.mem_flatMap.1 h
  split at hreply
  · cases hreply
  · exact (List.mem_filter.1 hreply).1

/-- What the client is owed is in hand. -/
theorem hand_sound (h : Sound [] chain) (hstate : chain.state = .suspended)
    (hnodup : (chain.owedTo held).Nodup) : Sound (chain.hand held).2 (chain.hand held).1 := by
  refine h.move (fun number ↦ ?_) rfl (fun reply hreply ↦ ?_) (fun hclosed ↦ nomatch hclosed) (fun _ ↦ rfl)
    (fun hsuspended ↦ nomatch hsuspended) fun _ ↦ h.reason_deliver _ _ nofun (h.suspended hstate).2
  · have htake := tally_take (p := fun reply ↦ (chain.owedTo held).contains reply) h.nodup_outbox hnodup (fun reply ↦ by
      rw [List.contains_iff_mem]
      exact ⟨fun hmem ↦ ⟨mem_owedTo hmem, hmem⟩, And.right⟩) number
    have hran := ran_deliver chain (chain.outbox.filter fun reply ↦ !(chain.owedTo held).contains reply) .unnamed number
    simp only [hand, ran, opened, owed, deliver, tally_nil] at hran ⊢
    omega
  · obtain hreply | hreply | hreply | hreply := hreply
    · exact .inl hreply
    · exact .inr (.inl hreply)
    · cases hreply
    · exact .inr (.inr (.inl (mem_owedTo hreply)))

theorem answer_state (chain : Chain) (reply : Reply) (sending : Sending) :
    (chain.answer reply sending).1.state = chain.state := by
  rw [answer]
  split
  · rfl
  · rfl
  · cases sending with
    | written => dsimp only; split <;> rfl
    | oversized | throws => rfl

variable {sends : Nat → Sending}

theorem answerAll_sound : ∀ {replies : List Reply} {chain : Chain}, Sound replies chain →
    (∀ reply ∈ replies, sends reply.number ≠ .throws) → Sound [] (answerAll sends replies chain) := by
  intro replies
  induction replies with
  | nil => intro chain h _; exact h
  | cons first rest ih =>
    intro chain h hsends
    have hfirst := hsends first List.mem_cons_self
    rw [answerAll, answer_throws hfirst]
    exact ih (answer_sound h hfirst) fun reply hreply ↦ hsends reply (List.mem_cons_of_mem _ hreply)

/-! ## Every order -/

/-- No socket throws, no request is used again while an answer under it is owed, and the client waits on no
answer in two sessions. -/
def regular (chain : Chain) : Act → Bool
  | .ask request _ _ sending => sending != .throws &&
    (chain.inputs.any (·.1 == request) || chain.inputIds.contains request ||
      (chain.asking ++ chain.unacked ++ chain.outbox).all (·.request != request))
  | .settle _ first _ => first != .throws
  | .resume held resumed sends =>
    resumed != .throws && decide (chain.owedTo held).Nodup && chain.outbox.all fun owed ↦ sends owed.number != .throws
  | _ => true

variable {request : String}

/-- A question that is asked is in hand. -/
theorem asked_sound (h : Sound [] chain) (session : String) (inputIds : List String)
    (hfree : ∀ reply, chain.Live [] reply → reply.request ≠ request) :
    Sound [{ number := chain.count, request, session }] { chain with inputIds, count := chain.count + 1 } where
  once number := by
    have honce := h.once number
    rw [tally_nil] at honce
    have hasked : tally number [{ number := chain.count, request, session }] = if chain.count = number then 1 else 0 := by
      simp [tally, List.countP_cons]
    rw [hasked]
    simp only [opened, owed, ran] at honce ⊢
    split at honce <;> split <;> split <;> omega
  apart first second hfirst hsecond heq := by
    have hcases : ∀ reply, ({ chain with inputIds, count := chain.count + 1 } : Chain).Live
        [{ number := chain.count, request, session }] reply →
        chain.Live [] reply ∨ reply = { number := chain.count, request, session } := by
      intro reply hreply
      obtain hreply | hreply | hreply | hreply := hreply
      · exact .inl (.inl hreply)
      · exact .inl (.inr (.inl hreply))
      · exact .inl (.inr (.inr (.inl hreply)))
      · exact .inr (List.mem_singleton.1 hreply)
    obtain hlive | rfl := hcases first hfirst
    · obtain hlive' | rfl := hcases second hsecond
      · exact h.apart first second hlive hlive' heq
      · exact absurd heq (hfree first hlive)
    · obtain hlive' | rfl := hcases second hsecond
      · exact absurd heq.symm (hfree second hlive')
      · rfl
  closed := h.closed
  attached := h.attached
  suspended := h.suspended
  reason := h.reason

theorem ask_sound (h : Sound [] chain) {session : String} {available : Bool}
    (hregular : chain.regular (.ask request session available sending) = true) :
    Sound [] (chain.ask request session available sending) := by
  rw [regular, Bool.and_eq_true, bne_iff_ne] at hregular
  rw [ask]
  split
  · exact teardown_sound h
  rename_i hnew
  rw [Bool.not_eq_true] at hnew
  rw [hnew, Bool.false_or, List.all_eq_true] at hregular
  have hasked := asked_sound h session (if REMEMBERED_INPUTS < (chain.inputIds ++ [request]).length then
    (chain.inputIds ++ [request]).drop 1 else chain.inputIds ++ [request]) fun reply hreply ↦ by
      refine bne_iff_ne.1 (hregular.2 reply ?_)
      simp only [List.mem_append]
      obtain hreply | hreply | hreply | hreply := hreply
      · exact .inl (.inl hreply)
      · exact .inl (.inr hreply)
      · exact .inr hreply
      · cases hreply
  dsimp only
  split
  · exact answer_sound hasked hregular.1
  · refine hasked.move (fun number ↦ ?_) rfl (fun reply hreply ↦ ?_) h.closed h.attached h.suspended h.reason
    · simp only [opened, owed, ran, tally_append, tally_nil]
      omega
    · obtain hreply | hreply | hreply | hreply := hreply
      · obtain hreply | hreply := List.mem_append.1 hreply
        · exact .inl hreply
        · exact .inr (.inr (.inr hreply))
      · exact .inr (.inl hreply)
      · exact .inr (.inr (.inl hreply))
      · cases hreply

theorem settle_sound (h : Sound [] chain) (number : Nat) {first : Sending} (hfirst : first ≠ .throws)
    (second : Sending) : Sound [] (chain.settle number first second) := by
  rw [settle]
  split
  · exact h
  rename_i asked hfind
  have hmem := List.mem_of_find?_eq_some hfind
  have hnumber : asked.number = number := by simpa using List.find?_some hfind
  have htaken : Sound [asked] { chain with asking := chain.asking.filter (·.number != number) } := by
    refine h.move (fun other ↦ ?_) rfl (fun reply hreply ↦ ?_) h.closed h.attached h.suspended h.reason
    · have htake := tally_take (p := (·.number == number)) h.nodup_asking (List.nodup_singleton asked) (fun reply ↦ ?_) other
      · simp only [opened, owed, ran, tally_nil, bne] at htake ⊢
        omega
      · rw [List.mem_singleton, beq_iff_eq]
        refine ⟨fun heq ↦ heq ▸ ⟨hmem, hnumber⟩, fun hreply ↦ ?_⟩
        have hone := h.le_one number
        rw [opened] at hone
        exact eq_of_tally (by omega) hreply.1 hmem hreply.2 hnumber
    · obtain hreply | hreply | hreply | hreply := hreply
      · exact .inl (List.mem_filter.1 hreply).1
      · exact .inr (.inl hreply)
      · exact .inr (.inr (.inl hreply))
      · exact .inl (List.mem_singleton.1 hreply ▸ hmem)
  have hanswered := answer_sound htaken hfirst
  dsimp only
  rw [reply_eq hfirst]
  exact ⟨hanswered.once, hanswered.apart, hanswered.closed, hanswered.attached, hanswered.suspended, hanswered.reason⟩

theorem ack_sound (h : Sound [] chain) (hstate : chain.state = .attached) (request : String) :
    Sound [] (chain.ack request) := by
  rw [ack]
  split
  · exact teardown_sound h
  split
  · exact h
  rename_i owed hfind
  have hmem := List.mem_of_find?_eq_some hfind
  have hrequest : owed.request = request := by simpa using List.find?_some hfind
  refine h.move (fun number ↦ ?_) rfl (fun reply hreply ↦ ?_) (fun hclosed ↦ nomatch hstate.symm.trans hclosed) h.attached
    (fun hsuspended ↦ nomatch hstate.symm.trans hsuspended) fun hresumable ↦ h.reason_deliver _ _ nofun hresumable
  · have htake := tally_take (p := (·.request == request)) h.nodup_unacked (List.nodup_singleton owed) (fun reply ↦ ?_) number
    · have hran := ran_deliver chain [owed] .acknowledged number
      simp only [ran, opened, Chain.owed, deliver, bne] at hran htake ⊢
      omega
    · rw [List.mem_singleton, beq_iff_eq]
      refine ⟨fun heq ↦ heq ▸ ⟨hmem, hrequest⟩, fun hreply ↦ ?_⟩
      exact h.apart reply owed (.inr (.inl hreply.1)) (.inr (.inl hmem)) (hreply.2.trans hrequest.symm)
  · exact hreply.imp_right (Or.imp_left fun hmem ↦ (List.mem_filter.1 hmem).1)

theorem step_sound {act : Act} (h : Sound [] chain) (hregular : chain.regular act = true)
    (hstep : chain.step act = some next) : Sound [] next := by
  cases act with
  | startSession session =>
    obtain ⟨_, hstep⟩ := Option.ite_none_left_eq_some.1 hstep
    cases hstep
    exact ⟨h.once, h.apart, h.closed, h.attached, h.suspended, h.reason⟩
  | ask request session available sending =>
    obtain ⟨_, hstep⟩ := Option.ite_none_left_eq_some.1 hstep
    cases hstep
    exact ask_sound h hregular
  | settle number first second =>
    cases hstep
    exact settle_sound h number (bne_iff_ne.1 hregular) second
  | ack request =>
    obtain ⟨hstate, hstep⟩ := Option.ite_none_left_eq_some.1 hstep
    cases hstep
    exact ack_sound h (not_not.1 hstate) request
  | disconnected planned resumable working =>
    obtain ⟨hstate, hstep⟩ := Option.ite_none_left_eq_some.1 hstep
    cases hstep
    rw [disconnected]
    split
    · rename_i hkept
      simp only [Bool.and_eq_true] at hkept
      exact suspend_sound h (not_not.1 hstate) hkept.1.2 _
    · exact teardown_sound h
  | forget session =>
    cases hstep
    exact forget_sound h session
  | terminate =>
    obtain ⟨_, hstep⟩ := Option.ite_none_left_eq_some.1 hstep
    cases hstep
    exact teardown_sound h
  | resume held resumed sends =>
    obtain ⟨hstate, hstep⟩ := Option.ite_none_left_eq_some.1 hstep
    cases hstep
    simp only [regular, Bool.and_eq_true, bne_iff_ne, decide_eq_true_eq, List.all_eq_true] at hregular
    obtain ⟨⟨hresumed, hnodup⟩, hsends⟩ := hregular
    rw [resume, if_neg hresumed]
    exact answerAll_sound (hand_sound h (not_not.1 hstate) hnodup) fun reply hreply ↦ hsends reply (mem_owedTo hreply)

/-! ## Acknowledgements -/

/-- No answer was found to be acknowledged. -/
def Unheard (before after : List (Reply × Reason)) : Prop :=
  ∀ reply, (reply, .acknowledged) ∈ after → (reply, .acknowledged) ∈ before

theorem Unheard.refl (entries : List (Reply × Reason)) : Unheard entries entries := fun _ hmem ↦ hmem

theorem Unheard.trans {first second third : List (Reply × Reason)} (h : Unheard first second)
    (h' : Unheard second third) : Unheard first third := fun reply hmem ↦ h reply (h' reply hmem)

theorem deliver_unheard (chain : Chain) (replies : List Reply) (reason : Reason) (h : reason ≠ .acknowledged) :
    Unheard chain.delivered (chain.deliver replies reason).delivered := by
  intro reply hmem
  obtain hmem | heq := mem_deliver hmem
  · exact hmem
  · exact absurd heq.symm h

theorem answer_unheard (chain : Chain) (reply : Reply) (sending : Sending) :
    Unheard chain.delivered (chain.answer reply sending).1.delivered := by
  rw [answer]
  split
  · exact .refl _
  · exact deliver_unheard chain [reply] .unsent nofun
  · cases sending with
    | written =>
      dsimp only
      split
      · exact .refl _
      · exact deliver_unheard chain [reply] .unacknowledgeable nofun
    | oversized | throws => exact deliver_unheard chain [reply] .unsent nofun

theorem answerAll_unheard (sends : Nat → Sending) (replies : List Reply) (chain : Chain) :
    Unheard chain.delivered (answerAll sends replies chain).delivered := by
  induction replies generalizing chain with
  | nil => exact .refl _
  | cons first rest ih =>
    rw [answerAll]
    split
    · exact answer_unheard chain first _
    · exact (answer_unheard chain first _).trans (ih _)

theorem teardown_unheard (chain : Chain) : Unheard chain.delivered chain.teardown.delivered :=
  (deliver_unheard chain chain.unacked .torn nofun).trans
    (deliver_unheard (chain.deliver chain.unacked .torn) chain.outbox .torn nofun)

theorem ask_unheard (chain : Chain) (request session : String) (available : Bool) (sending : Sending) :
    Unheard chain.delivered (chain.ask request session available sending).delivered := by
  rw [ask]
  dsimp only
  split
  · exact teardown_unheard chain
  · split
    · refine Unheard.trans ?_ (answer_unheard _ _ sending)
      exact .refl _
    · exact .refl _

theorem settle_unheard (chain : Chain) (number : Nat) (first second : Sending) :
    Unheard chain.delivered (chain.settle number first second).delivered := by
  rw [settle]
  split
  · exact .refl _
  rename_i asked _
  have hfirst := answer_unheard { chain with asking := chain.asking.filter (·.number != number) } asked first
  dsimp only [Chain.reply]
  split
  · exact hfirst.trans (answer_unheard _ asked second)
  · exact hfirst

theorem forget_unheard (chain : Chain) (session : String) :
    Unheard chain.delivered (chain.forget session).delivered := by
  have hgone := deliver_unheard chain (chain.unacked.filter (·.session == session)) .letGo nofun
  rw [forget]
  dsimp only
  split
  · refine Unheard.trans ?_ (teardown_unheard _)
    exact hgone
  · exact hgone

theorem resume_unheard (chain : Chain) (held : List (String × List String)) (resumed : Sending)
    (sends : Nat → Sending) : Unheard chain.delivered (chain.resume held resumed sends).delivered := by
  have hhand : Unheard chain.delivered (chain.hand held).1.delivered := deliver_unheard chain _ .unnamed nofun
  rw [resume]
  split
  · exact hhand
  · exact hhand.trans (answerAll_unheard sends _ _)

/-- Only the client's acknowledgement of an answer says that it has it. -/
theorem step_acknowledged {act : Act} (hstep : chain.step act = some next)
    (hmem : (reply, .acknowledged) ∈ next.delivered) :
    (reply, .acknowledged) ∈ chain.delivered ∨ act = .ack reply.request := by
  cases act with
  | startSession session =>
    obtain ⟨_, hstep⟩ := Option.ite_none_left_eq_some.1 hstep
    cases hstep
    exact .inl hmem
  | ask request session available sending =>
    obtain ⟨_, hstep⟩ := Option.ite_none_left_eq_some.1 hstep
    cases hstep
    exact .inl (ask_unheard chain request session available sending reply hmem)
  | settle number first second =>
    cases hstep
    exact .inl (settle_unheard chain number first second reply hmem)
  | ack request =>
    obtain ⟨_, hstep⟩ := Option.ite_none_left_eq_some.1 hstep
    cases hstep
    rw [ack] at hmem
    split at hmem
    · exact .inl (teardown_unheard chain reply hmem)
    split at hmem
    · exact .inl hmem
    rename_i owed hfind
    have hrequest : owed.request = request := by simpa using List.find?_some hfind
    obtain hmem | hmem := List.mem_append.1 hmem
    · exact .inl hmem
    · obtain ⟨rfl, _⟩ := Prod.mk.inj (List.mem_singleton.1 hmem)
      exact .inr (hrequest ▸ rfl)
  | disconnected planned resumable working =>
    obtain ⟨_, hstep⟩ := Option.ite_none_left_eq_some.1 hstep
    cases hstep
    refine .inl ?_
    rw [disconnected] at hmem
    split at hmem
    · exact deliver_unheard chain _ .letGo nofun reply hmem
    · exact teardown_unheard chain reply hmem
  | forget session =>
    cases hstep
    exact .inl (forget_unheard chain session reply hmem)
  | terminate =>
    obtain ⟨_, hstep⟩ := Option.ite_none_left_eq_some.1 hstep
    cases hstep
    exact .inl (teardown_unheard chain reply hmem)
  | resume held resumed sends =>
    obtain ⟨_, hstep⟩ := Option.ite_none_left_eq_some.1 hstep
    cases hstep
    exact .inl (resume_unheard chain held resumed sends reply hmem)

/-! ## Sending again -/

theorem answer_offered (hstate : chain.state = .attached) (reply : Reply) (sending : Sending) :
    (chain.answer reply sending).1.offered = chain.offered ++ [reply.number] := by
  simp only [answer, hstate]
  cases sending with
  | written => dsimp only; split <;> rfl
  | oversized | throws => rfl

theorem answerAll_offered : ∀ {replies : List Reply} {chain : Chain}, chain.state = .attached →
    (∀ reply ∈ replies, sends reply.number ≠ .throws) →
    (answerAll sends replies chain).offered = chain.offered ++ replies.map (·.number) := by
  intro replies
  induction replies with
  | nil => intro chain _ _; exact (List.append_nil _).symm
  | cons first rest ih =>
    intro chain hstate hsends
    have hstate' : (chain.answer first (sends first.number)).1.state = .attached := (answer_state _ _ _).trans hstate
    rw [answerAll, answer_throws (hsends first List.mem_cons_self)]
    refine (ih hstate' fun reply hreply ↦ hsends reply (List.mem_cons_of_mem _ hreply)).trans ?_
    rw [answer_offered hstate, List.append_assoc]
    rfl

/-- What the client still waits on, in a session it still holds, is sent to it again. -/
theorem resume_offers {resumed : Sending} (hregular : chain.regular (.resume held resumed sends) = true)
    (hstep : chain.step (.resume held resumed sends) = some next) {owed : Reply} (howed : owed ∈ chain.outbox)
    (hsession : owed.session ∈ chain.sessions) {requests : List String}
    (hwaiting : waiting held owed.session = some requests)
    (hrequest : owed.request ∈ requests) : owed.number ∈ next.offered.drop chain.offered.length := by
  obtain ⟨_, hstep⟩ := Option.ite_none_left_eq_some.1 hstep
  cases hstep
  simp only [regular, Bool.and_eq_true, bne_iff_ne, List.all_eq_true] at hregular
  obtain ⟨⟨hresumed, _⟩, hsends⟩ := hregular
  have hoffered : (chain.resume held resumed sends).offered = chain.offered ++ (chain.owedTo held).map (·.number) := by
    rw [resume, if_neg hresumed]
    exact answerAll_offered rfl fun reply hreply ↦ hsends reply (mem_owedTo hreply)
  rw [hoffered, List.drop_left]
  refine List.mem_map_of_mem (List.mem_flatMap.2 ⟨owed.session, hsession, ?_⟩)
  rw [hwaiting]
  exact List.mem_filter.2 ⟨howed, List.contains_iff_mem.2 hrequest⟩

end Chain

/-! ## Once -/

/-- On a link whose client did not offer `resumable-sessions`, an answer that is written is delivered, and the
client never said that it has it. -/
theorem sent_unacknowledged : ∃ chain, Runs Chain.step (.new false)
    [.startSession "s", .ask "r" "s" true .written, .settle 0 .written .written] chain ∧
    chain.delivered = [({ number := 0, request := "r", session := "s" }, .unacknowledgeable)] ∧ chain.offered = [0] ∧
    chain.state = .attached :=
  ⟨_, runs_iff_foldlM.2 rfl, rfl, rfl, rfl⟩

/-- In every order of questions, answers, acknowledgements, drops, returns and ends: the question is open, or
its answer is owed in one place, or `delivered` was called, once; nothing is owed on a link that ended, and what
is owed on one that is suspended waits for the client's return.  A client that can acknowledge was never taken to
have an answer for its being sent, and none was without its acknowledgement.  And what a returning client still
waits on, in a session it still holds, is sent again. -/
theorem answers_settle_once {resumable : Bool} {acts : List Chain.Act} {chain : Chain}
    (run : Guarded (fun (chain : Chain) act ↦ chain.regular act = true) Chain.step (.new resumable) acts chain) :
    (∀ number < chain.count, chain.opened number + chain.owed number + chain.ran number = 1) ∧
    (chain.state = .closed → ∀ number, chain.owed number = 0) ∧ (chain.state = .suspended → chain.unacked = []) ∧
    (chain.resumable = true → ∀ entry ∈ chain.delivered, entry.2 ≠ .unacknowledgeable) ∧
    (∀ reply, (reply, .acknowledged) ∈ chain.delivered → .ack reply.request ∈ acts) ∧
    ∀ held resumed sends next, chain.regular (.resume held resumed sends) = true →
      chain.step (.resume held resumed sends) = some next →
      ∀ owed ∈ chain.outbox, owed.session ∈ chain.sessions → ∀ requests, Chain.waiting held owed.session = some requests →
        owed.request ∈ requests → owed.number ∈ next.offered.drop chain.offered.length := by
  have hsound : Chain.Sound [] chain := by
    refine run.invariant ?_ fun chain act next h hregular hstep ↦ Chain.step_sound h hregular hstep
    refine ⟨fun number ↦ rfl, fun reply _ hreply ↦ ?_, fun _ ↦ ⟨rfl, rfl⟩, fun _ ↦ rfl, fun h ↦ (nomatch h), fun _ _ h ↦ ?_⟩
    · simp [Chain.Live, Chain.new] at hreply
    · exact nomatch h
  refine ⟨fun number hlt ↦ ?_, fun hclosed number ↦ ?_, fun hsuspended ↦ (hsound.suspended hsuspended).1, hsound.reason,
    fun reply hmem ↦ ?_, fun held resumed sends next hregular hstep owed howed hsession requests hwaiting hrequest ↦
      Chain.resume_offers hregular hstep howed hsession hwaiting hrequest⟩
  · have honce := hsound.once number
    rwa [tally_nil, if_pos hlt] at honce
  · rw [Chain.owed, (hsound.closed hclosed).1, (hsound.closed hclosed).2]
    rfl
  · clear hsound
    induction run with
    | nil => exact nomatch hmem
    | snoc _ _ last ih =>
      obtain hbefore | rfl := Chain.step_acknowledged last hmem
      · exact List.mem_append_left _ (ih hbefore)
      · exact List.mem_concat_self

/-- An answer is sent, the link drops, and the client returns for it and acknowledges it; then its link ends
with another answer still owed. -/
def returning : List Chain.Act :=
  [.startSession "s", .ask "a" "s" true .written, .ask "b" "s" true .written, .settle 0 .written .written,
    .disconnected false ["s"] [], .settle 1 .written .written, .resume [("s", ["a", "b"])] .written fun _ ↦ .written,
    .ack "a", .disconnected true [] []]

theorem answers_settle_once_sample : ∃ chain,
    Guarded (fun (chain : Chain) act ↦ chain.regular act = true) Chain.step (.new true) returning chain ∧
    chain.offered = [0, 0, 1] ∧ chain.delivered.map (·.2) = [.acknowledged, .torn] ∧
    (∀ number < chain.count, chain.opened number + chain.owed number + chain.ran number = 1) ∧
    (chain.state = .closed → ∀ number, chain.owed number = 0) ∧ (chain.state = .suspended → chain.unacked = []) ∧
    (chain.resumable = true → ∀ entry ∈ chain.delivered, entry.2 ≠ .unacknowledgeable) ∧
    (∀ reply, (reply, .acknowledged) ∈ chain.delivered → .ack reply.request ∈ returning) ∧
    ∀ held resumed sends next, chain.regular (.resume held resumed sends) = true →
      chain.step (.resume held resumed sends) = some next →
      ∀ owed ∈ chain.outbox, owed.session ∈ chain.sessions → ∀ requests, Chain.waiting held owed.session = some requests →
        owed.request ∈ requests → owed.number ∈ next.offered.drop chain.offered.length := by
  have run : Guarded (fun (chain : Chain) act ↦ chain.regular act = true) Chain.step (.new true) returning _ :=
    Guarded.of_foldlM (fun _ _ h ↦ h) rfl
  exact ⟨_, run, by decide, by decide, answers_settle_once run⟩

end Chopin.Remote
