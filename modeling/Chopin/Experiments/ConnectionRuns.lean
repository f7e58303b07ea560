import Chopin.Experiments.Handover

/-!
# Runs of connected machines

The connector and the routes call the connections in any order.  `Called` is what they test before
they call: a build is given to a connection that holds no other's, is queued behind another's, and
moves to an open connection.
-/

set_option autoImplicit false

open Script (Call)

namespace Chopin.Experiments

open Connections

/-! ## Connections that end -/

/-- These connections end. -/
structure Closes (s : Connections) (ids : List String) (t : Connections) : Prop where
  assigned : ∀ c, t.assigned c = if c ∈ ids then none else s.assigned c
  queuedOn : ∀ c, t.queuedOn c = if c ∈ ids then [] else s.queuedOn c
  lookup : ∀ c, t.connections.lookup c = if c ∈ ids then none else s.connections.lookup c

theorem Closes.none (s : Connections) : Closes s [] s :=
  ⟨fun _ ↦ (if_neg List.not_mem_nil).symm, fun _ ↦ (if_neg List.not_mem_nil).symm,
    fun _ ↦ (if_neg List.not_mem_nil).symm⟩

variable {s t : Connections} {ids : List String}

theorem Closes.cons {u : Connections} {id : String} (first : Closes s [id] t)
    (rest : Closes t ids u) : Closes s (id :: ids) u := by
  refine ⟨fun c ↦ ?_, fun c ↦ ?_, fun c ↦ ?_⟩
  · rw [rest.assigned, first.assigned]
    by_cases hrest : c ∈ ids <;> by_cases hid : c = id <;> simp [hrest, hid]
  · rw [rest.queuedOn, first.queuedOn]
    by_cases hrest : c ∈ ids <;> by_cases hid : c = id <;> simp [hrest, hid]
  · rw [rest.lookup, first.lookup]
    by_cases hrest : c ∈ ids <;> by_cases hid : c = id <;> simp [hrest, hid]

theorem closes_revoke (s : Connections) (now : Int) (id : String) : Closes s [id] (s.revoke now id) := by
  refine ⟨fun c ↦ ?_, fun c ↦ ?_, fun c ↦ ?_⟩
  · rw [(revoke_maps s now id c).1]; simp only [List.mem_singleton]
  · rw [(revoke_maps s now id c).2.1]; simp only [List.mem_singleton]
  · rw [(revoke_maps s now id c).2.2]; simp only [List.mem_singleton]

/-- Connections that end one after another. -/
theorem closes_foldl {closing : Connections → String → Connections}
    (hend : ∀ s id, Handed s → Handed (closing s id) ∧ Closes s [id] (closing s id)) (ids : List String) :
    ∀ s, Handed s → Handed (ids.foldl closing s) ∧ Closes s ids (ids.foldl closing s) := by
  induction ids with
  | nil => exact fun s h ↦ ⟨h, .none s⟩
  | cons id rest ih =>
    intro s h
    obtain ⟨hfirst, hcloses⟩ := hend s id h
    obtain ⟨hrest, hothers⟩ := ih (closing s id) hfirst
    exact ⟨hrest, hcloses.cons hothers⟩

/-- Why a token is refused is kept apart from who holds what. -/
theorem Handed.revokeFor (h : Handed s) (now : Int) (code id : String) :
    Handed (s.revokeFor now code id) ∧ Closes s [id] (s.revokeFor now code id) := by
  refine ⟨Handed.revoke (s := { s with revoked := _ }) ?_ now id, ?_⟩
  · exact ⟨h.open, h.holder, h.apart, h.nodup, h.runTokens, h.tokens⟩
  · obtain ⟨hassigned, hqueue, hlookup⟩ := closes_revoke s now id
    exact ⟨hassigned, hqueue, hlookup⟩

theorem Handed.revokeMachine (h : Handed s) (now : Int) (machineId code : String) :
    Handed (s.revokeMachine now machineId code) ∧ Closes s
      ((s.connections.filter (·.2.machineId == machineId)).map Prod.fst) (s.revokeMachine now machineId code) :=
  closes_foldl (fun _ id h ↦ h.revokeFor now code id) _ s h

theorem Handed.sweep (h : Handed s) (now : Int) : Handed (s.sweep now) ∧
    Closes s ((s.connections.filter (·.2.expiresAt ≤ now)).map Prod.fst) (s.sweep now) := by
  have hone (s : Connections) (id : String) (h : Handed s) :
      Handed (s.revoke now id) ∧ Closes s [id] (s.revoke now id) := ⟨h.revoke now id, closes_revoke s now id⟩
  obtain ⟨hswept, hcloses⟩ := closes_foldl hone ((s.connections.filter (·.2.expiresAt ≤ now)).map Prod.fst) s h
  exact ⟨⟨hswept.open, hswept.holder, hswept.apart, hswept.nodup, hswept.runTokens, hswept.tokens⟩,
    ⟨hcloses.assigned, hcloses.queuedOn, hcloses.lookup⟩⟩

variable {c : String}

/-- A connection that a sweep leaves has not expired. -/
theorem swept_live (h : Handed s) {now : Int} (hopen : (s.sweep now).has c = true) :
    ∃ connection, (s.sweep now).get c now = some connection := by
  obtain ⟨connection, hfound⟩ := Option.isSome_iff_exists.1 hopen
  have hlookup := (h.sweep now).2.lookup c
  rw [hfound] at hlookup
  split at hlookup
  · cases hlookup
  · rename_i hkept
    refine ⟨connection, ?_⟩
    rw [Connections.get, hfound, Option.filter_some, if_pos]
    rw [decide_eq_true_eq]
    by_contra hexpired
    exact hkept (List.mem_map.2 ⟨(c, connection), List.mem_filter.2 ⟨Entries.mem_of_lookup hlookup.symm,
      by simpa using hexpired⟩, rfl⟩)

/-! ## A machine comes online -/

/-- A connection under a fresh id, where nothing names it yet. -/
theorem Handed.opened (h : Handed s) (id fingerprint : String) (connection : Connection) :
    Handed { s with
      connections := Entries.set s.connections id connection
      tokens := Entries.set s.tokens fingerprint { connectionId := id, run := none } } := by
  have hkept (c : String) (hopen : s.has c = true) :
      ((Entries.set s.connections id connection).lookup c).isSome = true := by
    rw [Entries.lookup_set]
    split
    · rfl
    · exact hopen
  have hnew : ((Entries.set s.connections id connection).lookup id).isSome = true := by
    rw [Entries.lookup_set, if_pos rfl]
    rfl
  refine ⟨fun c d hheld ↦ hkept c (h.open c d hheld), h.holder, h.apart, h.nodup,
    fun entry hmem ↦ hkept _ (h.runTokens entry hmem), fun entry hmem ↦ ?_⟩
  rcases Entries.mem_set hmem with hold | rfl
  · exact hkept _ (h.tokens entry hold)
  · exact hnew

/-- The machine is swept in, and refused or given its connection. -/
theorem run_openConnection (fingerprint : String → String) (now : Int) (id token : String) (machine : Machine)
    (checkouts : List Source) (s : Connections) :
    ((openConnection fingerprint now id token machine checkouts).run s).2 = s.sweep now ∨
    ∃ connection, ((openConnection fingerprint now id token machine checkouts).run s).2 =
      { s.sweep now with
        connections := Entries.set (s.sweep now).connections id connection
        tokens := Entries.set (s.sweep now).tokens (fingerprint token) { connectionId := id, run := none } } := by
  rw [openConnection, Call.run_bind, Call.run_modify]
  simp only [Call.run_bind, Call.run_get]
  generalize (_ || _ : Bool) = refused
  cases refused with
  | true => exact .inl rfl
  | false => exact .inr ⟨_, rfl⟩

/-! ## Runs -/

inductive Act
  | «open» (now : Int) (id token : String) (machine : Machine) (checkouts : List Source)
  | assign (connectionId documentId : String)
  | enqueue (connectionId documentId : String)
  | release (connectionId documentId : String)
  | use (documentId connectionId : String)
  | runToken (connectionId documentId id : String) (generation : Nat) (kind : RunKind) (token : String)
  | adopt (token connectionId : String) (run : Run)
  | rebind (fromId toId documentId runId : String)
  | revoke (now : Int) (id : String)
  | revokeMachine (now : Int) (machineId code : String)
  | sweep (now : Int)
  | touch (now : Int) (id : String)

def step (fingerprint : String → String) (s : Connections) : Act → Option Connections
  | .open now id token machine checkouts =>
    some ((openConnection fingerprint now id token machine checkouts).run s).2
  | .assign c d => some (s.assign c d)
  | .enqueue c d => some (s.enqueue c d)
  | .release c d => some (s.release c d)
  | .use d c => some (s.use d c)
  | .runToken c d id generation kind token => some (s.runToken fingerprint c d id generation kind token)
  | .adopt token c run => some (s.adopt fingerprint token c run)
  | .rebind fromId toId d runId => some (s.rebind fromId toId d runId)
  | .revoke now id => some (s.revoke now id)
  | .revokeMachine now machineId code => some (s.revokeMachine now machineId code)
  | .sweep now => some (s.sweep now)
  | .touch now id => some (s.touch now id)

/-- What the connector and the routes test before they call. -/
def Called (s : Connections) : Act → Prop
  | .open _ id _ _ _ => s.has id = false
  | .assign c d => s.assigned c = none ∨ s.assigned c = some d
  | .enqueue c d => s.assigned c ≠ none ∧ s.assigned c ≠ some d
  | .runToken c _ _ _ _ _ => s.has c = true
  | .rebind fromId toId d _ =>
    fromId ≠ toId ∧ s.has toId = true ∧ (s.assigned toId = none ∨ s.assigned toId = some d)
  | _ => True

instance (s : Connections) : (act : Act) → Decidable (Called s act)
  | .open _ _ _ _ _ => inferInstanceAs (Decidable (_ = _))
  | .assign _ _ => inferInstanceAs (Decidable (_ ∨ _))
  | .enqueue _ _ => inferInstanceAs (Decidable (_ ∧ _))
  | .runToken _ _ _ _ _ _ => inferInstanceAs (Decidable (_ = _))
  | .rebind _ _ _ _ => inferInstanceAs (Decidable (_ ∧ _ ∧ _))
  | .release _ _ | .use _ _ | .adopt _ _ _ | .revoke _ _ | .revokeMachine _ _ _ | .sweep _
  | .touch _ _ => .isTrue trivial

/-- No document waits behind a build that moves. -/
def MovesAlone (s : Connections) : Act → Prop
  | .rebind fromId _ d _ => s.assigned fromId = some d → s.queuedOn fromId = []
  | _ => True

instance (s : Connections) : (act : Act) → Decidable (MovesAlone s act)
  | .rebind _ _ _ _ => inferInstanceAs (Decidable (_ → _))
  | .open _ _ _ _ _ | .assign _ _ | .enqueue _ _ | .runToken _ _ _ _ _ _ | .release _ _ | .use _ _
  | .adopt _ _ _ | .revoke _ _ | .revokeMachine _ _ _ | .sweep _ | .touch _ _ => .isTrue trivial

theorem has_touch (s : Connections) (now : Int) (id c : String) : (s.touch now id).has c = s.has c := by
  rw [has, has, Connections.touch, Bool.eq_iff_iff, List.lookup_isSome_iff, List.lookup_isSome_iff]
  constructor
  · rintro ⟨entry, hmem, hkey⟩
    obtain ⟨old, hold, rfl⟩ := List.mem_map.1 hmem
    refine ⟨old, hold, ?_⟩
    split at hkey
    · rename_i hid; rw [hid]; exact hkey
    · exact hkey
  · rintro ⟨entry, hmem, hkey⟩
    refine ⟨_, List.mem_map_of_mem hmem, ?_⟩
    split
    · rename_i hid; rw [← hid]; exact hkey
    · exact hkey

theorem Handed.touch (h : Handed s) (now : Int) (id : String) : Handed (s.touch now id) := by
  refine ⟨fun c d hheld ↦ ?_, h.holder, h.apart, h.nodup, fun entry hmem ↦ ?_, fun entry hmem ↦ ?_⟩
  · rw [has_touch]; exact h.open c d hheld
  · rw [has_touch]; exact h.runTokens entry hmem
  · rw [has_touch]; exact h.tokens entry hmem

/-- **Every call keeps queues behind their holders**, when a build that moves leaves none behind. -/
theorem Handed.step {fingerprint : String → String} {act : Act} (h : Handed s)
    (hcalled : Called s act) (halone : MovesAlone s act) (hstep : step fingerprint s act = some t) : Handed t := by
  cases act with
  | «open» now id token machine checkouts =>
    cases hstep
    have hswept := (h.sweep now).1
    rcases run_openConnection fingerprint now id token machine checkouts s with heq | ⟨connection, heq⟩
    · rw [heq]; exact hswept
    · rw [heq]; exact hswept.opened id _ connection
  | assign c d => obtain rfl := Option.some.inj hstep; exact h.assign hcalled
  | enqueue c d => obtain rfl := Option.some.inj hstep; exact h.enqueue hcalled.1 hcalled.2
  | release c d => obtain rfl := Option.some.inj hstep; exact h.release c d
  | use d c =>
    cases hstep
    exact ⟨h.open, h.holder, h.apart, h.nodup, h.runTokens, h.tokens⟩
  | runToken c d id generation kind token =>
    obtain rfl := Option.some.inj hstep; exact h.runToken fingerprint hcalled d id generation kind token
  | adopt token c run => obtain rfl := Option.some.inj hstep; exact h.adopt fingerprint token c run
  | rebind fromId toId d runId => obtain rfl := Option.some.inj hstep; exact h.rebind hcalled.2.1 halone
  | revoke now id => obtain rfl := Option.some.inj hstep; exact h.revoke now id
  | revokeMachine now machineId code =>
    obtain rfl := Option.some.inj hstep; exact (h.revokeMachine now machineId code).1
  | sweep now => obtain rfl := Option.some.inj hstep; exact (h.sweep now).1
  | touch now id => obtain rfl := Option.some.inj hstep; exact h.touch now id

/-! ## First in, first out -/

/-- How one call may change what a connection holds and what waits for it. -/
inductive Passes (s t : Connections) (c : String) : Prop
  /-- The holder stays, and documents may join at the end. -/
  | kept (new : List String) (same : t.assigned c = s.assigned c) (joined : t.queuedOn c = s.queuedOn c ++ new)
  /-- The holder stays, and a document that waited leaves. -/
  | left (d : String) (same : t.assigned c = s.assigned c) (rest : t.queuedOn c = (s.queuedOn c).filter (· != d))
  /-- The holder is released, and the first of those who waited takes its place. -/
  | handed (d : String) (held : s.assigned c = some d) (next : t.assigned c = (s.queuedOn c).head?)
      (rest : t.queuedOn c = (s.queuedOn c).tail)
  /-- Nobody waited, and nobody does. -/
  | idle (before : s.queuedOn c = []) (after : t.queuedOn c = [])
  /-- The connection ended, and nothing waits for it any more. -/
  | ended (closed : t.has c = false) (after : t.queuedOn c = [])

theorem Passes.same (hassigned : t.assigned c = s.assigned c) (hqueue : t.queuedOn c = s.queuedOn c) : Passes s t c :=
  .kept [] hassigned (hqueue.trans (List.append_nil _).symm)

/-- Another connection's beginning changes nothing for this one. -/
theorem Passes.reopened (h : Passes s t c) {connections : List (String × Connection)} {tokens : List (String × Grant)}
    (hhas : Connections.has { t with connections, tokens } c = t.has c) :
    Passes s { t with connections, tokens } c := by
  cases h with
  | kept new same joined => exact .kept new same joined
  | left d same rest => exact .left d same rest
  | handed d held next rest => exact .handed d held next rest
  | idle before after => exact .idle before after
  | ended closed after => exact .ended (hhas.trans closed) after

theorem Closes.passes (h : Closes s ids t) (c : String) : Passes s t c := by
  by_cases hmem : c ∈ ids
  · refine .ended ?_ ((h.queuedOn c).trans (if_pos hmem))
    rw [has, h.lookup, if_pos hmem]
    rfl
  · exact .same ((h.assigned c).trans (if_neg hmem)) ((h.queuedOn c).trans (if_neg hmem))

theorem passes_assign (h : Handed s) {d : String}
    (hfree : s.assigned c = none ∨ s.assigned c = some d) (other : String) : Passes s (s.assign c d) other := by
  have hqueue : (s.assign c d).queuedOn other = s.queuedOn other := by rw [queuedOn_assign]
  by_cases hopen : s.has c = true
  · cases hholder : s.assigned other with
    | none =>
      have hempty := h.queue_empty hholder
      exact .idle hempty (hqueue.trans hempty)
    | some holder =>
      refine .same ?_ hqueue
      rw [assigned_assign hopen]
      split
      · rename_i hother
        rw [hother] at hholder ⊢
        exact (hfree.resolve_left (by rw [hholder]; exact Option.some_ne_none _)).symm
      · rfl
  · refine .same ?_ hqueue
    rw [Connections.assign, if_neg hopen]

theorem passes_enqueue (s : Connections) (c d other : String) : Passes s (s.enqueue c d) other := by
  rw [Connections.enqueue]
  split
  · exact .same rfl rfl
  · simp only
    split
    · exact .same rfl rfl
    · refine .kept (if other = c then [d] else []) rfl ?_
      rw [queuedOn, Entries.lookup_set]
      split
      · rename_i hother
        rw [hother]
        rfl
      · exact (List.append_nil _).symm

theorem passes_release (s : Connections) (c d other : String) : Passes s (s.release c d) other := by
  by_cases hother : other = c
  · subst hother
    by_cases hheld : s.assigned other = some d
    · exact .handed d hheld (release_holder hheld).1 (release_holder hheld).2
    · rw [Connections.release, if_neg (by simpa using hheld)]
      refine .left d (by rw [assigned_setQueue]) ?_
      rw [queuedOn_setQueue, if_pos rfl]
  · exact .same (release_others hother).1 (release_others hother).2

theorem passes_rebind (h : Handed s) {fromId toId d runId : String} (hne : fromId ≠ toId)
    (hopen : s.has toId = true) (halone : s.assigned fromId = some d → s.queuedOn fromId = []) (c : String) :
    Passes s (s.rebind fromId toId d runId) c := by
  have hqueue : (s.rebind fromId toId d runId).queuedOn c = s.queuedOn c :=
    congrFun (moveBuild_kept s fromId toId d).2 c
  have hassigned : (s.rebind fromId toId d runId).assigned c = _ := assigned_moveBuild hne hopen d c
  by_cases hempty : s.queuedOn c = []
  · exact .idle hempty (hqueue.trans hempty)
  · obtain ⟨holder, hholder⟩ := h.holder c hempty
    refine .same (hassigned.trans ?_) hqueue
    split
    · rename_i hfrom
      rw [hfrom] at hempty hholder ⊢
      rw [if_neg fun hheld ↦ hempty (halone hheld)]
    · split
      · rename_i hto
        rw [hto] at hholder ⊢
        rw [hholder]
        rfl
      · rfl

theorem passes_step {fingerprint : String → String} {act : Act} (h : Handed s) (hcalled : Called s act)
    (halone : MovesAlone s act) (hstep : step fingerprint s act = some t) (c : String) : Passes s t c := by
  cases act with
  | «open» now id token machine checkouts =>
    cases hstep
    obtain ⟨hswept, hcloses⟩ := h.sweep now
    have hpasses := hcloses.passes c
    rcases run_openConnection fingerprint now id token machine checkouts s with heq | ⟨connection, heq⟩
    · rw [heq]; exact hpasses
    · rw [heq]
      by_cases hid : c = id
      · refine .idle (h.queue_closed (hid ▸ hcalled)) (hswept.queue_closed ?_)
        rw [has, hcloses.lookup, hid]
        split
        · rfl
        · exact hcalled
      · exact hpasses.reopened (by rw [has, Entries.lookup_set, if_neg hid]; rfl)
  | assign c d => obtain rfl := Option.some.inj hstep; exact passes_assign h hcalled _
  | enqueue c d => obtain rfl := Option.some.inj hstep; exact passes_enqueue s c d _
  | release c d => obtain rfl := Option.some.inj hstep; exact passes_release s c d _
  | use d c => obtain rfl := Option.some.inj hstep; exact .same rfl rfl
  | runToken c d id generation kind token =>
    cases hstep
    rw [Connections.runToken]
    split <;> exact .same rfl rfl
  | adopt token c run =>
    cases hstep
    rw [Connections.adopt]
    split <;> exact .same rfl rfl
  | rebind fromId toId d runId =>
    obtain rfl := Option.some.inj hstep; exact passes_rebind h hcalled.1 hcalled.2.1 halone c
  | revoke now id => obtain rfl := Option.some.inj hstep; exact (closes_revoke s now id).passes c
  | revokeMachine now machineId code =>
    obtain rfl := Option.some.inj hstep; exact (h.revokeMachine now machineId code).2.passes c
  | sweep now => obtain rfl := Option.some.inj hstep; exact (h.sweep now).2.passes c
  | touch now id => obtain rfl := Option.some.inj hstep; exact .same rfl rfl

/-! ## What a connection's end leaves -/

/-- No assignment, queue or token names the connection. -/
structure Unnamed (s : Connections) (id : String) : Prop where
  assigned : s.assigned id = none
  queuedOn : s.queuedOn id = []
  runTokens : ∀ entry ∈ s.runTokens, entry.1.connectionId ≠ id
  tokens : ∀ entry ∈ s.tokens, entry.2.connectionId ≠ id

theorem Handed.unnamed (h : Handed s) {id : String} (hclosed : s.has id = false) : Unnamed s id := by
  refine ⟨h.assigned_closed hclosed, h.queue_closed hclosed, fun entry hmem heq ↦ ?_,
    fun entry hmem heq ↦ ?_⟩
  · have hopen := h.runTokens entry hmem
    rw [heq, hclosed] at hopen
    cases hopen
  · have hopen := h.tokens entry hmem
    rw [heq, hclosed] at hopen
    cases hopen

theorem Closes.closed (h : Closes s ids t) {id : String} (hmem : id ∈ ids) : t.has id = false := by
  rw [has, h.lookup, if_pos hmem]
  rfl

/-- What holds of the connections after a run of calls, and of the call after it. -/
structure HandedOver (fingerprint : String → String) (s : Connections) : Prop where
  /-- A queue stands behind an assigned document of an open connection, each document once. -/
  handed : Handed s
  /-- Releases serve a queue in order until it is empty. -/
  drained : ∀ c d, s.assigned c = some d → ∀ count, count ≤ (s.queuedOn c).length + 1 →
    let after := ((d :: s.queuedOn c).take count).foldl (fun s document ↦ s.release c document) s
    after.assigned c = (d :: s.queuedOn c)[count]? ∧ after.queuedOn c = (s.queuedOn c).drop count
  /-- Other calls may come between them: each leaves the order as it was. -/
  passes : ∀ act t, Called s act → MovesAlone s act → step fingerprint s act = some t →
    ∀ c, Passes s t c
  /-- After a sweep the connections with queues have not expired. -/
  live : ∀ now c, (s.sweep now).queuedOn c ≠ [] →
    ∃ connection, (s.sweep now).get c now = some connection
  /-- Nothing names a connection that is not open, such as one that was revoked. -/
  closed : ∀ id, s.has id = false → Unnamed s id
  revoked : ∀ now id, Unnamed (s.revoke now id) id
  machine : ∀ now machineId code entry, entry ∈ s.connections → entry.2.machineId = machineId →
    Unnamed (s.revokeMachine now machineId code) entry.1

theorem Handed.handedOver (h : Handed s) (fingerprint : String → String) :
    HandedOver fingerprint s where
  handed := h
  drained c d hheld := Experiments.drained hheld rfl
  passes act t hcalled halone hstep := passes_step h hcalled halone hstep
  live now c hqueue := by
    have hswept := (h.sweep now).1
    obtain ⟨d, hd⟩ := hswept.holder c hqueue
    exact swept_live h (hswept.open c d hd)
  closed id hclosed := h.unnamed hclosed
  revoked now id := (h.revoke now id).unnamed ((closes_revoke s now id).closed (List.mem_singleton_self id))
  machine now machineId code entry hmem hmachine := by
    obtain ⟨hrevoked, hcloses⟩ := h.revokeMachine now machineId code
    refine hrevoked.unnamed (hcloses.closed ?_)
    exact List.mem_map_of_mem (List.mem_filter.2 ⟨hmem, beq_iff_eq.2 hmachine⟩)

/-- **Queues are handed over.**  In every run of calls made as the connector and the routes make
them, and in which no build moves with a queue behind it, every queue has a holder whose release
serves it, in order, and what ended is named by nothing. -/
theorem handed_over {fingerprint : String → String} {acts : List Act} {s : Connections}
    (run : Guarded (fun s act ↦ Called s act ∧ MovesAlone s act) (step fingerprint) .empty acts s) :
    HandedOver fingerprint s :=
  (run.invariant Handed.empty fun _ _ _ h hmet hstep ↦ h.step hmet.1 hmet.2 hstep).handedOver fingerprint

/-! ## Two connections of a machine -/

/-- A machine registers twice, and two documents want its first connection. -/
def registeredTwice : List Act :=
  let machine : Machine := { id := "m1", owner := "u1", protocol := some 6 }
  [.open 0 "a" "t1" machine [{ repositoryId := "r1" }], .assign "a" "d1", .enqueue "a" "d2",
    .open 10 "b" "t2" machine [{ repositoryId := "r1" }]]

theorem handed_over_sample : ∃ s, HandedOver id s ∧ s.assigned "b" = some "d2" := by
  have hrun : ((registeredTwice ++ [Act.release "a" "d1", .rebind "a" "b" "d2" "r2"]).foldlM
      (fun s act ↦ if decide (Called s act ∧ MovesAlone s act) then step id s act else none)
      Connections.empty).any (fun s ↦ s.assigned "b" == some "d2") = true := by decide +kernel
  obtain ⟨s, hs, hmoved⟩ := (Option.any_eq_true _ _).1 hrun
  exact ⟨s, handed_over (Guarded.of_foldlM (fun _ _ ↦ of_decide_eq_true) hs), beq_iff_eq.1 hmoved⟩

/-- **A run that strands a build.**  The first document's build moves to the newer connection, and
the second document waits behind nothing. -/
theorem stranded : ∃ s, Guarded Called (step id) .empty (registeredTwice ++ [Act.rebind "a" "b" "d1" "r1"]) s ∧
      s.queuedOn "a" = ["d2"] ∧ s.assigned "a" = none := by
  have hrun : ((registeredTwice ++ [Act.rebind "a" "b" "d1" "r1"]).foldlM
      (fun s act ↦ if decide (Called s act) then step id s act else none) Connections.empty).any
      (fun s ↦ s.queuedOn "a" == ["d2"] && s.assigned "a" == none) = true := by decide +kernel
  obtain ⟨s, hs, hstranded⟩ := (Option.any_eq_true _ _).1 hrun
  obtain ⟨hqueue, hassigned⟩ := Bool.and_eq_true_iff.1 hstranded
  exact ⟨s, Guarded.of_foldlM (fun _ _ ↦ of_decide_eq_true) hs, beq_iff_eq.1 hqueue, beq_iff_eq.1 hassigned⟩

end Chopin.Experiments
