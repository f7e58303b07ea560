import Chopin.Lib.Runs
import Chopin.Remote.Stops

/-!
# No Stop is lost

Across any order of Stops and Resumes, answers in time and late, timeouts, drops of the link and returns of
the client, a Stop stays owed (unanswered, or held for the client's return) until the client answers it, a
Resume sent after it is answered, or the session ends.

This needs one thing of the order.  A Resume that the client answers undoes every unanswered Stop of the runs
it covers, also a Stop that was sent after it, which it did not supersede: `overtaken_stop` loses one that
way.  `timely` asks that no such Stop is waiting when a Resume is answered.
-/

set_option autoImplicit false

namespace Chopin.Remote

/-! ## A session -/

inductive Act
  /-- `reaches` is whether the link takes the request. -/
  | stop (run : Option String) (reaches : Bool)
  | resume (run : Option String) (reaches : Bool)
  /-- The client answers a control, in time or late. -/
  | result (request : Nat) (ok : Bool)
  | timeout (request : Nat)
  /-- A control of another session on the link runs out of time. -/
  | otherLate
  | runs (cards : List (String × Bool))
  | drop
  | rebind
  | deliver (reaches : Nat → Bool)
  | shutdown
  | ends

def step (session : Session) (act : Act) : Option Session :=
  if session.ended then none
  else
    match act with
    | .stop run reaches => some (session.stop run reaches false)
    | .resume run reaches => some (session.resume run reaches)
    | .result request ok => if session.linked then some (session.result request ok) else none
    | .timeout request => some (session.timeout request)
    | .otherLate =>
      if session.linked then some { session.remember session.clock with clock := session.clock + 1 } else none
    | .runs cards => if session.linked then some { session with cards } else none
    | .drop => if session.linked then some session.drop else none
    | .rebind => if session.linked then none else some session.rebind
    | .deliver reaches => some (session.deliverHeldStops reaches)
    | .shutdown => some { session with stopping := true }
    | .ends => some { session with ended := true }

namespace Session

variable {session next last : Session} {run : Option String} {time : Nat}

/-! ## What it is not to be lost -/

/-- A Stop of the first runs stops the second as well. -/
def Covers (stop run : Option String) : Prop := stop = none ∨ stop = run

theorem Covers.refl (run : Option String) : Covers run run := .inr rfl

theorem Covers.trans {first second third : Option String} (h : Covers first second) (h' : Covers second third) :
    Covers first third := by
  obtain rfl | rfl := h
  · exact .inl rfl
  · exact h'

/-- The Stop in this place is the one asked for then, or was sent again for it. -/
def Stands (session : Session) (run : Option String) (time place : Nat) : Prop :=
  ∃ owed, session.stops[place]? = some owed ∧ owed.origin = none ∧ Covers owed.run run ∧
    (owed.time = time ∨ owed.resent = true ∧ time < owed.time)

/-- The Stop is among the unanswered or the held ones. -/
def Owed (session : Session) (run : Option String) (time : Nat) : Prop :=
  (∃ place ∈ session.unanswered, session.Stands run time place) ∨ ∃ held ∈ session.held, Covers held run

/-- The session ended, the client answered the Stop, or it answered a Resume that was sent after it. -/
def Excused (session : Session) (run : Option String) (time : Nat) : Prop :=
  session.ended = true ∨ (∃ place ∈ session.heard, session.Stands run time place) ∨
    ∃ resume ∈ session.resumes, time < resume

def Kept (session : Session) (run : Option String) (time : Nat) : Prop :=
  session.Owed run time ∨ session.Excused run time

/-- Every Stop that was asked for. -/
def Asked (session : Session) (run : Option String) (time : Nat) : Prop :=
  ∃ told ∈ session.told, told.run = run ∧ told.time = time

/-! ## What an operation keeps -/

structure Keeps (session next : Session) : Prop where
  stops : session.stops <+: next.stops
  heard : session.heard ⊆ next.heard
  resumes : session.resumes ⊆ next.resumes
  ended : session.ended = true → next.ended = true
  held : ∀ held ∈ session.held, ∃ other ∈ next.held, Covers other held
  unanswered : ∀ place ∈ session.unanswered, ∀ owed, session.stops[place]? = some owed → owed.origin = none →
    place ∈ next.unanswered ∨ place ∈ next.heard ∨ (∃ held ∈ next.held, Covers held owed.run) ∨
      ∃ resume ∈ next.resumes, owed.time < resume

/-- Operations that change none of this. -/
theorem Keeps.of_eq (hstops : next.stops = session.stops) (hheard : next.heard = session.heard)
    (hresumes : next.resumes = session.resumes) (hended : next.ended = session.ended)
    (hheld : next.held = session.held) (hunanswered : next.unanswered = session.unanswered) : Keeps session next where
  stops := hstops ▸ List.prefix_refl _
  heard := hheard ▸ List.Subset.refl _
  resumes := hresumes ▸ List.Subset.refl _
  ended h := hended.trans h
  held held hmem := ⟨held, hheld ▸ hmem, .refl held⟩
  unanswered _ hplace _ _ _ := .inl (hunanswered ▸ hplace)

theorem Keeps.refl (session : Session) : Keeps session session := .of_eq rfl rfl rfl rfl rfl rfl

variable {place : Nat}

theorem getElem?_of_extends {α : Type} {xs ys : List α} (h : xs <+: ys) {x : α}
    (hget : xs[place]? = some x) : ys[place]? = some x := by
  obtain ⟨rest, rfl⟩ := h
  rw [List.getElem?_append_left (List.getElem?_eq_some_iff.1 hget).1]
  exact hget

theorem Keeps.trans (first : Keeps session next) (second : Keeps next last) : Keeps session last where
  stops := first.stops.trans second.stops
  heard := List.Subset.trans first.heard second.heard
  resumes := List.Subset.trans first.resumes second.resumes
  ended h := second.ended (first.ended h)
  held held hmem := by
    obtain ⟨other, hother, hcovers⟩ := first.held held hmem
    obtain ⟨third, hthird, hcovers'⟩ := second.held other hother
    exact ⟨third, hthird, hcovers'.trans hcovers⟩
  unanswered place hplace owed hget horigin := by
    obtain h | h | ⟨held, hheld, hcovers⟩ | ⟨resume, hresume, hlt⟩ := first.unanswered place hplace owed hget horigin
    · exact second.unanswered place h owed (getElem?_of_extends first.stops hget) horigin
    · exact .inr (.inl (second.heard h))
    · obtain ⟨other, hother, hcovers'⟩ := second.held held hheld
      exact .inr (.inr (.inl ⟨other, hother, hcovers'.trans hcovers⟩))
    · exact .inr (.inr (.inr ⟨resume, second.resumes hresume, hlt⟩))

theorem Stands.mono (h : session.stops <+: next.stops) (hstands : session.Stands run time place) :
    next.Stands run time place := by
  obtain ⟨owed, hget, rest⟩ := hstands
  exact ⟨owed, getElem?_of_extends h hget, rest⟩

theorem Keeps.kept (h : Keeps session next) (hkept : session.Kept run time) : next.Kept run time := by
  obtain (⟨place, hplace, hstands⟩ | ⟨held, hheld, hcovers⟩) | hended | ⟨place, hplace, hstands⟩ |
    ⟨resume, hresume, hlt⟩ := hkept
  · have hstands' := hstands.mono h.stops
    obtain ⟨owed, hget, horigin, hcovers, htime⟩ := hstands
    obtain hin | hin | ⟨held, hheld, hcovers'⟩ | ⟨resume, hresume, hlt⟩ := h.unanswered place hplace owed hget horigin
    · exact .inl (.inl ⟨place, hin, hstands'⟩)
    · exact .inr (.inr (.inl ⟨place, hin, hstands'⟩))
    · exact .inl (.inr ⟨held, hheld, hcovers'.trans hcovers⟩)
    · refine .inr (.inr (.inr ⟨resume, hresume, ?_⟩))
      omega
  · obtain ⟨other, hother, hcovers'⟩ := h.held held hheld
    exact .inl (.inr ⟨other, hother, hcovers'.trans hcovers⟩)
  · exact .inr (.inl (h.ended hended))
  · exact .inr (.inr (.inl ⟨place, h.heard hplace, hstands.mono h.stops⟩))
  · exact .inr (.inr (.inr ⟨resume, h.resumes hresume, hlt⟩))

/-- An operation that keeps what is kept and asks for no new Stop. -/
structure Quiet (session next : Session) : Prop extends Keeps session next where
  clock : session.clock ≤ next.clock
  asked : ∀ run time, next.Asked run time → session.Asked run time

theorem Quiet.refl (session : Session) : Quiet session session := ⟨.refl session, Nat.le_refl _, fun _ _ h ↦ h⟩

theorem Quiet.trans (first : Quiet session next) (second : Quiet next last) : Quiet session last :=
  ⟨first.toKeeps.trans second.toKeeps, Nat.le_trans first.clock second.clock,
    fun run time h ↦ first.asked run time (second.asked run time h)⟩

/-- Operations that change nothing of a Stop but where its request is. -/
theorem Quiet.of_eq (hstops : next.stops = session.stops) (hheard : next.heard = session.heard)
    (hresumes : next.resumes = session.resumes) (hended : next.ended = session.ended) (hheld : next.held = session.held)
    (hunanswered : next.unanswered = session.unanswered) (hclock : next.clock = session.clock)
    (htold : next.told = session.told) : Quiet session next where
  toKeeps := .of_eq hstops hheard hresumes hended hheld hunanswered
  clock := Nat.le_of_eq hclock.symm
  asked run time h := by rwa [Asked, htold] at h

/-! ## Holding -/

theorem hold_held (session : Session) (run : Option String) : (∃ held ∈ (session.hold run).held, Covers held run) ∧
      ∀ held ∈ session.held, ∃ other ∈ (session.hold run).held, Covers other held := by
  rw [hold]
  by_cases hany : session.held.any (fun held ↦ held.isNone || held == run) = true
  · rw [if_pos hany]
    obtain ⟨held, hheld, hcovers⟩ := List.any_eq_true.1 hany
    rw [Bool.or_eq_true, Option.isNone_iff_eq_none, beq_iff_eq] at hcovers
    exact ⟨⟨held, hheld, hcovers⟩, fun other hother ↦ ⟨other, hother, .refl other⟩⟩
  · rw [if_neg hany]
    have hlast : run ∈ (if run.isNone then [] else session.held) ++ [run] :=
      List.mem_concat_self
    refine ⟨⟨run, hlast, .refl run⟩, fun held hheld ↦ ?_⟩
    by_cases hnone : run.isNone = true
    · exact ⟨run, hlast, .inl (Option.isNone_iff_eq_none.1 hnone)⟩
    · refine ⟨held, List.mem_append_left _ ?_, .refl held⟩
      rwa [if_neg hnone]

/-- Holding a Stop changes what is held. -/
theorem hold_eq (session : Session) (run : Option String) :
    session.hold run = { session with held := (session.hold run).held } := by
  rw [hold]
  split <;> rfl

theorem hold_quiet (session : Session) (run : Option String) : Quiet session (session.hold run) := by
  have hheld := (session.hold_held run).2
  rw [hold_eq]
  exact ⟨⟨List.prefix_refl _, List.Subset.refl _, List.Subset.refl _, id, hheld, fun _ hplace _ _ _ ↦ .inl hplace⟩,
    Nat.le_refl _, fun _ _ h ↦ h⟩

/-! ## Answers -/

theorem resolve_quiet (session : Session) (request : Nat) (outcome : Outcome) :
    Quiet session (session.resolve request outcome) where
  toKeeps := .of_eq rfl rfl rfl rfl rfl rfl
  clock := Nat.le_refl _
  asked run time h := by
    obtain ⟨told, hmem, hrun, htime⟩ := h
    obtain ⟨before, hbefore, rfl⟩ := List.mem_map.1 hmem
    refine ⟨before, hbefore, ?_⟩
    split at hrun <;> split at htime <;> exact ⟨hrun, htime⟩

theorem answered_quiet (session : Session) (owed : Nat) : Quiet session (session.answered owed) where
  stops := List.prefix_refl _
  heard := List.subset_append_left _ _
  resumes := List.Subset.refl _
  ended := id
  held held hheld := ⟨held, hheld, .refl held⟩
  unanswered place hplace stop hget horigin := by
    by_cases heq : place = owed
    · exact .inr (.inl (List.mem_append_right _ (List.mem_singleton.2 heq)))
    · refine .inl (List.mem_filter.2 ⟨hplace, ?_⟩)
      simp [heq, hget, horigin]
  clock := Nat.le_refl _
  asked _ _ h := h

/-! ## Undoing -/

/-- A Resume of these runs undoes the Stop, or part of it. -/
def undoes (resumed : Option String) (owed : OwedStop) : Bool :=
  !(resumed.isSome && owed.run.isSome && owed.run != resumed)

/-- Of the unanswered Stops, a Resume takes out those in some places that it undoes. -/
structure Undoes (resumed : Option String) (session next : Session) (places : List Nat) : Prop where
  stops : session.stops <+: next.stops
  same : next = { session with stops := next.stops, unanswered := next.unanswered }
  unanswered : ∀ place ∈ session.unanswered, ∀ owed, session.stops[place]? = some owed →
    place ∈ next.unanswered ∨ place ∈ places ∧ undoes resumed owed = true

variable {resumed : Option String} {places : List Nat}

theorem Undoes.refl (resumed : Option String) (session : Session) (places : List Nat) :
    Undoes resumed session session places :=
  ⟨List.prefix_refl _, rfl, fun _ hplace _ _ ↦ .inl hplace⟩

theorem Undoes.trans {others : List Nat} (first : Undoes resumed session next places)
    (second : Undoes resumed next last others) : Undoes resumed session last (places ++ others) where
  stops := first.stops.trans second.stops
  same := by rw [second.same, first.same]
  unanswered place hplace owed hget := by
    obtain h | ⟨h, hundoes⟩ := first.unanswered place hplace owed hget
    · obtain h | ⟨h, hundoes⟩ := second.unanswered place h owed (getElem?_of_extends first.stops hget)
      · exact .inl h
      · exact .inr ⟨List.mem_append_right _ h, hundoes⟩
    · exact .inr ⟨List.mem_append_left _ h, hundoes⟩

theorem split_undoes (owed : OwedStop) (place : Nat) (session : Session) (card : String × Bool) :
    Undoes resumed session (split owed place resumed session card) [] := by
  rw [split]
  split
  · exact .refl resumed session []
  · exact ⟨List.prefix_append _ _, rfl, fun _ hplace _ _ ↦ .inl (List.mem_append_left _ hplace)⟩

theorem splits_undoes (owed : OwedStop) (place : Nat) (cards : List (String × Bool)) (session : Session) :
    Undoes resumed session (cards.foldl (split owed place resumed) session) [] := by
  induction cards generalizing session with
  | nil => exact .refl resumed session []
  | cons card cards ih => exact (split_undoes owed place session card).trans (ih _)

theorem undoStop_undoes (session : Session) (place : Nat) :
    Undoes resumed session (undoStop resumed session place) [place] := by
  rw [undoStop]
  cases hget : session.stops[place]? with
  | none => exact .refl resumed session [place]
  | some owed =>
    dsimp only
    by_cases hskip : (resumed.isSome && owed.run.isSome && owed.run != resumed) = true
    · rw [if_pos hskip]
      exact .refl resumed session [place]
    · rw [if_neg hskip]
      have hundoes : undoes resumed owed = true := by rw [undoes, Bool.eq_false_iff.2 hskip, Bool.not_false]
      have hout : Undoes resumed session { session with unanswered := session.unanswered.filter (· != place) } [place] := by
        refine ⟨List.prefix_refl _, rfl, fun other hother stop hstop ↦ ?_⟩
        by_cases heq : other = place
        · refine .inr ⟨List.mem_singleton.2 heq, ?_⟩
          rw [heq, hget] at hstop
          rwa [← Option.some.inj hstop]
        · exact .inl (List.mem_filter.2 ⟨hother, bne_iff_ne.2 heq⟩)
      split
      · exact hout
      · exact hout.trans (splits_undoes owed place session.cards _)

theorem undoStops_undoes (session : Session) (resumed : Option String) :
    Undoes resumed session (session.undoStops resumed) session.unanswered := by
  rw [undoStops]
  generalize session.unanswered = places
  induction places generalizing session with
  | nil => exact .refl resumed session []
  | cons place places ih => exact (undoStop_undoes session place).trans (ih _)

variable {request : Nat}

/-- An answered Resume, when every Stop it undoes was sent before it. -/
theorem undone_quiet (h : ∀ place ∈ session.unanswered, ∀ owed, session.stops[place]? = some owed →
    undoes resumed owed = true → owed.time < request) :
    Quiet session { session.undoStops resumed with resumes := session.resumes ++ [request] } := by
  have hundoes := undoStops_undoes session resumed
  rw [hundoes.same]
  refine ⟨⟨hundoes.stops, List.Subset.refl _, List.subset_append_left _ _, id,
    fun held hheld ↦ ⟨held, hheld, .refl held⟩, fun place hplace owed hget _ ↦ ?_⟩, Nat.le_refl _, fun _ _ h ↦ h⟩
  obtain hin | ⟨_, hundone⟩ := hundoes.unanswered place hplace owed hget
  · exact .inl hin
  · exact .inr (.inr (.inr ⟨request, List.mem_concat_self,
      h place hplace owed hget hundone⟩))

/-- How a command ends.  Only an answered Resume takes a Stop out that it was not about. -/
theorem finish_quiet (command : Command) (ending : Ending)
    (h : ending = .ok → command.owed = none → ∀ place ∈ session.unanswered, ∀ owed, session.stops[place]? = some owed →
      undoes command.run owed = true → owed.time < command.request) : Quiet session (session.finish command ending) := by
  rw [finish.eq_def]
  cases howed : command.owed with
  | some owed =>
    have hanswered := fun outcome ↦ (answered_quiet session owed).trans (resolve_quiet _ command.request outcome)
    cases ending with
    | ok => exact hanswered .done
    | refused =>
      dsimp only
      split
      · exact resolve_quiet _ _ _
      · exact hanswered .failed
    | unanswered | closed =>
      dsimp only
      split <;> exact resolve_quiet _ _ _
  | none =>
    cases ending with
    | ok =>
      exact undone_quiet (h rfl howed)
    | refused | unanswered | closed => exact .refl session

/-! ## Dropping -/

theorem keep_quiet (session : Session) (place : Nat) : Quiet session (session.keep place) := by
  rw [keep]
  split
  · exact .refl session
  · refine Quiet.trans ?_ (hold_quiet _ _)
    exact .of_eq rfl rfl rfl rfl rfl rfl rfl rfl

theorem keep_stops (session : Session) (place : Nat) : (session.keep place).stops = session.stops := by
  rw [keep]
  split
  · rfl
  · rw [hold_eq]

theorem keep_held {owed : OwedStop} (h : session.stops[place]? = some owed) :
    ∃ held ∈ (session.keep place).held, Covers held owed.run := by
  rw [keep, h]
  exact (hold_held _ _).1

/-- Everything unanswered is held. -/
theorem keepAll_held (places : List Nat) (session : Session) : Quiet session (places.foldl keep session) ∧
    ∀ place ∈ places, ∀ owed, session.stops[place]? = some owed →
      ∃ held ∈ (places.foldl keep session).held, Covers held owed.run := by
  induction places generalizing session with
  | nil => exact ⟨.refl session, fun place hplace ↦ nomatch hplace⟩
  | cons first rest ih =>
    obtain ⟨hquiet, hheld⟩ := ih (session.keep first)
    refine ⟨(keep_quiet session first).trans hquiet, fun place hplace owed hget ↦ ?_⟩
    obtain rfl | hrest := List.mem_cons.1 hplace
    · obtain ⟨held, hmem, hcovers⟩ := keep_held hget
      obtain ⟨other, hother, hcovers'⟩ := hquiet.held held hmem
      exact ⟨other, hother, hcovers'.trans hcovers⟩
    · exact hheld place hrest owed (keep_stops session first ▸ hget)

theorem suspend_quiet (session : Session) : Quiet session session.suspend := by
  rw [suspend]
  obtain ⟨hquiet, hheld⟩ := keepAll_held session.unanswered
    { session with suspended := session.suspended || !session.stopping }
  exact ⟨⟨hquiet.stops, hquiet.heard, hquiet.resumes, hquiet.ended, hquiet.held,
    fun place hplace owed hget _ ↦ .inr (.inr (.inl (hheld place hplace owed hget)))⟩, hquiet.clock, hquiet.asked⟩

theorem closed_quiet (commands : List Command) (session : Session) :
    Quiet session (commands.foldl (fun session command ↦ session.finish command .closed) session) := by
  induction commands generalizing session with
  | nil => exact .refl session
  | cons command commands ih => exact (finish_quiet command .closed fun h ↦ nomatch h).trans (ih _)

theorem drop_quiet (session : Session) : Quiet session session.drop := by
  rw [drop]
  refine (suspend_quiet session).trans (Quiet.trans ?_ (closed_quiet _ _))
  exact .of_eq rfl rfl rfl rfl rfl rfl rfl rfl

theorem timeout_quiet (session : Session) (request : Nat) : Quiet session (session.timeout request) := by
  rw [timeout]
  split
  · exact .refl session
  · refine Quiet.trans ?_ (finish_quiet _ .unanswered fun h ↦ nomatch h)
    exact .of_eq rfl rfl rfl rfl rfl rfl rfl rfl

/-! ## Stopping -/

/-- An operation that keeps what is kept and asks for one Stop, which is owed after it. -/
structure Adds (session next : Session) (run : Option String) (resent : Bool) : Prop extends Keeps session next where
  clock : session.clock < next.clock
  asked : ∀ other time, next.Asked other time → session.Asked other time ∨ other = run ∧ time = session.clock
  kept : ∀ other time, Covers run other → time = session.clock ∨ resent = true ∧ time < session.clock →
    next.Kept other time

theorem Adds.quiet {resent : Bool} (h : Adds session next run resent) (hquiet : Quiet next last) :
    Adds session last run resent where
  toKeeps := h.toKeeps.trans hquiet.toKeeps
  clock := Nat.lt_of_lt_of_le h.clock hquiet.clock
  asked other time hasked := h.asked other time (hquiet.asked other time hasked)
  kept other time hcovers htime := hquiet.kept (h.kept other time hcovers htime)

/-- Who is asked for once one more Stop is told of. -/
theorem asked_append {told : Told} (htold : next.told = session.told ++ [told]) {other : Option String}
    (h : next.Asked other time) : session.Asked other time ∨ other = told.run ∧ time = told.time := by
  obtain ⟨found, hfound, hrun, htime⟩ := h
  rw [htold] at hfound
  obtain hfound | hfound := List.mem_append.1 hfound
  · exact .inl ⟨found, hfound, hrun, htime⟩
  · rw [List.mem_singleton.1 hfound] at hrun htime
    exact .inr ⟨hrun.symm, htime.symm⟩

theorem owe_adds (session : Session) (run : Option String) (resent : Bool) :
    Adds session (session.owe run resent) run resent where
  stops := List.prefix_append _ _
  heard := List.Subset.refl _
  resumes := List.Subset.refl _
  ended := id
  held held hheld := ⟨held, hheld, .refl held⟩
  unanswered place hplace owed _ _ := .inl (List.mem_append_left _ hplace)
  clock := Nat.lt_succ_self _
  asked other time h := asked_append rfl h
  kept other time hcovers htime := by
    refine .inl (.inl ⟨session.stops.length, List.mem_concat_self, ?_⟩)
    exact ⟨_, List.getElem?_concat_length, rfl, hcovers, htime.imp_left Eq.symm⟩

theorem stop_adds (session : Session) (run : Option String) (reaches resent : Bool) :
    Adds session (session.stop run reaches resent) run resent := by
  rw [stop]
  by_cases hsuspended : session.suspended = true
  · rw [if_pos hsuspended]
    have hkeeps := (hold_quiet session run).toKeeps
    obtain ⟨held, hheld, hcovers⟩ := (hold_held session run).1
    have htold : (session.hold run).told = session.told := by rw [hold_eq]
    refine ⟨⟨hkeeps.stops, hkeeps.heard, hkeeps.resumes, hkeeps.ended, hkeeps.held, hkeeps.unanswered⟩,
      Nat.lt_succ_self _, fun other time h ↦ asked_append rfl h, fun other time hcovers' _ ↦ ?_⟩
    exact .inl (.inr ⟨held, hheld, hcovers.trans hcovers'⟩)
  · rw [if_neg hsuspended]
    dsimp only
    split
    · exact (owe_adds session run resent).quiet (.of_eq rfl rfl rfl rfl rfl rfl rfl rfl)
    · exact (owe_adds session run resent).quiet (resolve_quiet _ _ _)

theorem resume_quiet (session : Session) (run : Option String) (reaches : Bool) :
    Quiet session (session.resume run reaches) := by
  rw [resume]
  split
  all_goals exact ⟨.of_eq rfl rfl rfl rfl rfl rfl, Nat.le_succ _, fun _ _ h ↦ h⟩

/-! ## The invariant -/

/-- Every Stop that was asked for is kept. -/
def Sound (session : Session) : Prop :=
  ∀ run time, session.Asked run time → time < session.clock ∧ session.Kept run time

theorem Quiet.sound (h : Quiet session next) (hsound : session.Sound) : next.Sound := by
  intro run time hasked
  obtain ⟨hlt, hkept⟩ := hsound run time (h.asked run time hasked)
  exact ⟨Nat.lt_of_lt_of_le hlt h.clock, h.kept hkept⟩

theorem Adds.sound {resent : Bool} (h : Adds session next run resent) (hsound : session.Sound) : next.Sound := by
  intro other time hasked
  obtain hasked | ⟨rfl, rfl⟩ := h.asked other time hasked
  · obtain ⟨hlt, hkept⟩ := hsound other time hasked
    exact ⟨Nat.lt_trans hlt h.clock, h.toKeeps.kept hkept⟩
  · exact ⟨h.clock, h.kept _ _ (.refl _) (.inl rfl)⟩

/-- The held Stops that are not sent yet stand for what they hold until they are. -/
theorem deliver_sound {reaches : Nat → Bool} : ∀ {runs : List (Option String)} {session : Session},
    (∀ run time, session.Asked run time → time < session.clock ∧
      (session.Kept run time ∨ ∃ held ∈ runs, Covers held run)) →
    (runs.foldl (fun session run ↦ session.stop run (reaches session.clock) true) session).Sound := by
  intro runs
  induction runs with
  | nil =>
    intro session h run time hasked
    obtain ⟨hlt, hkept | ⟨held, hheld, _⟩⟩ := h run time hasked
    · exact ⟨hlt, hkept⟩
    · cases hheld
  | cons first rest ih =>
    intro session h
    have hadds := stop_adds session first (reaches session.clock) true
    refine ih fun run time hasked ↦ ?_
    obtain hasked | ⟨rfl, rfl⟩ := hadds.asked run time hasked
    · obtain ⟨hlt, hkept | ⟨held, hheld, hcovers⟩⟩ := h run time hasked
      · exact ⟨Nat.lt_trans hlt hadds.clock, .inl (hadds.toKeeps.kept hkept)⟩
      · refine ⟨Nat.lt_trans hlt hadds.clock, ?_⟩
        obtain rfl | hrest := List.mem_cons.1 hheld
        · exact .inl (hadds.kept run time hcovers (.inr ⟨rfl, hlt⟩))
        · exact .inr ⟨held, hrest, hcovers⟩
    · exact ⟨hadds.clock, .inl (hadds.kept _ _ (.refl _) (.inl rfl))⟩

theorem deliverHeldStops_sound (reaches : Nat → Bool) (hsound : session.Sound) :
    (session.deliverHeldStops reaches).Sound := by
  refine deliver_sound fun run time hasked ↦ ?_
  obtain ⟨hlt, (hunanswered | hheld) | hexcused⟩ := hsound run time hasked
  · exact ⟨hlt, .inl (.inl (.inl hunanswered))⟩
  · exact ⟨hlt, .inr hheld⟩
  · exact ⟨hlt, .inl (.inr hexcused)⟩

/-! ## Every order -/

/-- No Stop that an answered Resume undoes was sent after the Resume. -/
def timely (session : Session) : Act → Bool
  | .result request true => session.controls.all fun command ↦
    command.request != request || command.owed.isSome || session.unanswered.all fun place ↦
      (session.stops[place]?).all fun owed ↦ !undoes command.run owed || decide (owed.time < command.request)
  | _ => true

theorem timely_result (h : session.timely (.result request true) = true) {command : Command}
    (hcommand : command ∈ session.controls) (hrequest : command.request = request) (howed : command.owed = none) :
    ∀ place ∈ session.unanswered, ∀ owed, session.stops[place]? = some owed → undoes command.run owed = true →
      owed.time < command.request := by
  intro place hplace owed hget hundoes
  have hall := List.all_eq_true.1 h command hcommand
  simp only [hrequest, howed, bne_self_eq_false, Option.isSome_none, Bool.false_or, List.all_eq_true] at hall
  have hplace := hall place hplace
  simp only [hget, Option.all_some, hundoes, Bool.not_true, Bool.false_or, decide_eq_true_eq] at hplace
  omega

theorem result_quiet {ok : Bool} (h : session.timely (.result request ok) = true) :
    Quiet session (session.result request ok) := by
  rw [result]
  dsimp only
  generalize hmid : (if session.late.contains request = true then _ else _ : Session) = mid
  have hquiet : Quiet session mid ∧ mid.stops = session.stops ∧ mid.unanswered ⊆ session.unanswered := by
    subst hmid
    split
    · split
      · refine ⟨Quiet.trans ?_ (answered_quiet _ _), rfl, List.filter_sublist.subset⟩
        exact .of_eq rfl rfl rfl rfl rfl rfl rfl rfl
      · exact ⟨.of_eq rfl rfl rfl rfl rfl rfl rfl rfl, rfl, List.Subset.refl _⟩
    · exact ⟨.of_eq rfl rfl rfl rfl rfl rfl rfl rfl, rfl, List.Subset.refl _⟩
  obtain ⟨hquiet, hstops, hsub⟩ := hquiet
  cases hfind : session.controls.find? (·.request == request) with
  | none => exact hquiet
  | some command =>
    refine hquiet.trans (finish_quiet command _ fun hok howed place hplace owed hget ↦ ?_)
    cases ok with
    | false => cases hok
    | true =>
      have hrequest : command.request = request := by simpa using List.find?_some hfind
      exact timely_result h (List.mem_of_find?_eq_some hfind) hrequest howed place (hsub hplace) owed (hstops ▸ hget)

theorem step_sound {act : Act} (hsound : session.Sound) (htimely : session.timely act = true)
    (h : step session act = some next) : next.Sound := by
  rw [step.eq_def] at h
  split at h
  · cases h
  cases act with
  | stop run reaches =>
    cases h
    exact (stop_adds session run reaches false).sound hsound
  | resume run reaches =>
    cases h
    exact (resume_quiet session run reaches).sound hsound
  | result request ok =>
    obtain ⟨_, h⟩ := Option.ite_none_right_eq_some.1 h
    cases h
    exact (result_quiet htimely).sound hsound
  | timeout request =>
    cases h
    exact (timeout_quiet session request).sound hsound
  | otherLate =>
    obtain ⟨_, h⟩ := Option.ite_none_right_eq_some.1 h
    cases h
    have hquiet : Quiet session { session.remember session.clock with clock := session.clock + 1 } :=
      ⟨.of_eq rfl rfl rfl rfl rfl rfl, Nat.le_succ _, fun _ _ h ↦ h⟩
    exact hquiet.sound hsound
  | runs cards =>
    obtain ⟨_, h⟩ := Option.ite_none_right_eq_some.1 h
    cases h
    exact Quiet.sound (.of_eq rfl rfl rfl rfl rfl rfl rfl rfl) hsound
  | drop =>
    obtain ⟨_, h⟩ := Option.ite_none_right_eq_some.1 h
    cases h
    exact (drop_quiet session).sound hsound
  | rebind =>
    obtain ⟨_, h⟩ := Option.ite_none_left_eq_some.1 h
    cases h
    exact Quiet.sound (.of_eq rfl rfl rfl rfl rfl rfl rfl rfl) hsound
  | deliver reaches =>
    cases h
    exact deliverHeldStops_sound reaches hsound
  | shutdown =>
    cases h
    exact Quiet.sound (.of_eq rfl rfl rfl rfl rfl rfl rfl rfl) hsound
  | ends =>
    cases h
    intro run time hasked
    exact ⟨(hsound run time hasked).1, .inr (.inl rfl)⟩

end Session

/-! ## No Stop is lost -/

/-- A Resume of one run is sent, then a Stop of every run, and the client answers the Resume first: the Stop
is undone, and when the wait for its answer runs out it is reported as owed, and is not. -/
theorem overtaken_stop : ∃ session,
    Runs step .new [.resume (some "run") true, .stop none true, .result 0 true, .timeout 1] session ∧
      { run := none, time := 1, outcome := some .unconfirmed } ∈ session.told ∧ ¬session.Kept none 1 := by
  refine ⟨_, runs_iff_foldlM.2 rfl, by decide, ?_⟩
  rintro ((⟨place, hplace, _⟩ | ⟨held, hheld, _⟩) | hended | ⟨place, hplace, _⟩ | ⟨resume, hresume, hlt⟩)
  · exact nomatch hplace
  · exact nomatch hheld
  · exact nomatch hended
  · exact nomatch hplace
  · rw [List.mem_singleton.1 hresume] at hlt
    exact absurd hlt (by decide)

/-- Where Resumes are answered before a Stop is sent after them, every Stop that resolved as held or
unanswered is owed until the client answers it, a later Resume is answered, or the session ends. -/
theorem stop_never_lost {acts : List Act} {session : Session}
    (run : Guarded (fun (session : Session) act ↦ session.timely act = true) step .new acts session) :
    ∀ told ∈ session.told, told.outcome = some .held ∨ told.outcome = some .unconfirmed →
      session.Owed told.run told.time ∨ session.Excused told.run told.time := by
  have hsound : session.Sound := by
    refine run.invariant ?_ fun session act next hsound htimely h ↦ Session.step_sound hsound htimely h
    intro run time hasked
    obtain ⟨told, htold, _⟩ := hasked
    exact nomatch htold
  intro told htold _
  exact (hsound told.run told.time ⟨told, htold, rfl, rfl⟩).2

/-- A Stop that went unanswered is held over a drop, sent again on the client's return, and then a run is
resumed. -/
def returned : List Act := [.runs [("a", true), ("b", true)], .stop none true, .timeout 0, .drop, .stop (some "b") true,
  .rebind, .deliver fun _ ↦ true, .resume (some "a") true, .result 3 true]

theorem stop_never_lost_sample : ∃ session,
    Guarded (fun (session : Session) act ↦ session.timely act = true) step .new returned session ∧
      ({ run := some "b", time := 1, outcome := some .held } ∈ session.told ∧ session.heard = []) ∧
      ∀ told ∈ session.told, told.outcome = some .held ∨ told.outcome = some .unconfirmed →
        session.Owed told.run told.time ∨ session.Excused told.run told.time := by
  have run : Guarded (fun (session : Session) act ↦ session.timely act = true) step .new returned _ :=
    Guarded.of_foldlM (fun _ _ h ↦ h) rfl
  exact ⟨_, run, by decide, stop_never_lost run⟩

end Chopin.Remote
