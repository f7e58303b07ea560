import Chopin.Answers.DeliverySteps

/-!
# A delivery's own calls

`Sound` is kept by each call of a delivery, answered or failed, the write made or not.  A claim's turn is
fresh, so no row and no accepted turn is the turn's before; a release is of a turn that was claimed by
this process and never accepted.
-/

set_option autoImplicit false

namespace Chopin.Answers

variable {platform : Platform} {s t : Machine} {turn : String} {answers : List Answer} {rest : List Work}

/-! ## The next delivery -/

theorem Sound.waits (sound : Sound s) (h : step platform s .pending = some t) : Sound t := by
  rw [step] at h
  split at h
  · cases h
    refine ⟨sound.toCore.delivery _ _, ?_⟩
    rintro _ ⟨⟩
    exact ⟨trivial, List.forall_mem_nil _, .nil⟩
  · cases h
    exact ⟨sound.toCore.delivery _ _, fun delivery hdelivery ↦
      ⟨(sound.delivery delivery hdelivery).stage, (sound.delivery delivery hdelivery).rest,
        (sound.delivery delivery hdelivery).apart⟩⟩

theorem Sound.read (sound : Sound s) (h : step platform s .read = some t) : Sound t := by
  rw [step] at h
  split at h
  · cases h
    exact sound.toCore.next sound.works sound.apart
  · cases h

theorem Sound.crashed (sound : Sound s) (h : step platform s .crash = some t) : Sound t := by
  cases h
  refine ⟨⟨sound.known, sound.rows, sound.keys, sound.claims, fun claim hmem ↦ ?_, sound.turns, sound.accepted,
    sound.once⟩, nofun⟩
  exact Nat.le_succ_of_le (sound.processes claim hmem)

/-! ## Claiming -/

/-- After a claim of the answers' free rows. -/
def Machine.claiming (s : Machine) (turn : String) (answers : List Answer) : Machine :=
  { s with rows := (Rows.claim turn s.rows answers).1, claims := s.claims ++ [(turn, s.process)] }

/-- The turn was never claimed under. -/
def FreshTurn (s : Machine) (turn : String) : Prop := ∀ process, (turn, process) ∉ s.claims

theorem keys_claim (turn : String) (rows : Rows) (answers : List Answer) (h : (rows.map (·.1)).Nodup) :
    ((Rows.claim turn rows answers).1.map (·.1)).Nodup := by
  induction answers generalizing rows with
  | nil => exact h
  | cons answer rest ih =>
    rw [Rows.claim]
    split
    · split
      · exact ih _ (Entries.nodup_set h _ _)
      · exact ih rows h
    · exact ih rows h

theorem Core.not_waits (core : Core s) (fresh : FreshTurn s turn) {answer : Answer}
    (h : Waits s.rows turn answer) : False := by
  obtain ⟨row, hrow, -, hturn⟩ := h.held
  obtain ⟨process, hclaim⟩ := (core.rows _ _ hrow).2 turn hturn
  exact fresh process hclaim

theorem Core.turn_ne (core : Core s) (fresh : FreshTurn s turn) {entry : Acceptance} (h : entry ∈ s.accepted) :
    entry.turn ≠ turn := by
  rintro rfl
  obtain ⟨process, hclaim⟩ := (core.accepted entry h).1
  exact fresh process hclaim

theorem Core.claiming (core : Core s) (fresh : FreshTurn s turn) (answers : List Answer) :
    Core (s.claiming turn answers) where
  known := core.known
  rows := by
    intro id row hrow
    rw [Machine.claiming, lookup_claim, Option.map_eq_some_iff] at hrow
    obtain ⟨old, hold, rfl⟩ := hrow
    obtain ⟨hsettled, hturn⟩ := core.rows id old hold
    split
    · refine ⟨hsettled, fun other hother ↦ ⟨s.process, ?_⟩⟩
      cases hother
      exact List.mem_concat_self
    · refine ⟨hsettled, fun other hother ↦ ?_⟩
      obtain ⟨process, hclaim⟩ := hturn other hother
      exact ⟨process, List.mem_append_left _ hclaim⟩
  keys := keys_claim turn s.rows answers core.keys
  claims := by
    rw [Machine.claiming, List.map_append, List.nodup_append]
    refine ⟨core.claims, List.nodup_cons.2 ⟨List.not_mem_nil, .nil⟩, fun other hother new hnew ↦ ?_⟩
    obtain rfl := List.mem_singleton.1 hnew
    obtain ⟨claim, hclaim, rfl⟩ := List.mem_map.1 hother
    rintro rfl
    exact fresh claim.2 hclaim
  processes := by
    intro claim hmem
    rcases List.mem_append.1 hmem with hold | hnew
    · exact core.processes claim hold
    · obtain rfl := List.mem_singleton.1 hnew
      exact Nat.le_refl _
  turns := core.turns
  accepted := by
    intro entry hmem
    obtain ⟨⟨process, hclaim⟩, hsettled, hwaits, hheld⟩ := core.accepted entry hmem
    refine ⟨⟨process, List.mem_append_left _ hclaim⟩, hsettled, fun answer h ↦ ?_, fun answer h hcurrent ↦ ?_⟩
    · rcases Waits.of_claim h with hold | ⟨hsame, -⟩
      · exact hwaits answer hold
      · exact absurd hsame (core.turn_ne fresh hmem)
    · exact (hheld answer h hcurrent).claim
  once := core.once

/-- The claim leaves the work that is apart from its answers. -/
theorem Leaves.claiming (fresh : FreshTurn s turn) {work : Work} (ok : WorkOk s work)
    (apart : Apart (.fresh answers) work) : Leaves s (s.claiming turn answers) work where
  settled := fun _ h ↦ h
  claims := fun _ h ↦ List.mem_append_left _ h
  still := fun _ _ h ↦ h
  rows := by
    cases work with
    | group other others =>
      obtain ⟨process, hclaim⟩ := ok.1
      refine ⟨fun answer h ↦ ?_, fun answer _ _ h ↦ h.claim⟩
      rcases Waits.of_claim h with hold | ⟨rfl, -⟩
      · exact hold
      · exact absurd hclaim (fresh process)
    | fresh others => exact fun answer hmem _ h ↦ h.claim fun claimed hclaimed ↦ apart claimed hclaimed answer hmem

/-- The answers' rows are the turn's now. -/
theorem WorkOk.claiming (core : Core s) (fresh : FreshTurn s turn) (ok : WorkOk s (.fresh answers)) :
    WorkOk (s.claiming turn answers) (.group turn answers) := by
  refine ⟨⟨s.process, List.mem_concat_self⟩, ok.1, fun answer h ↦ ?_,
    fun answer hmem hcurrent ↦ (ok.2 answer hmem hcurrent).claimed hmem⟩
  rcases Waits.of_claim h with hold | ⟨-, hmem⟩
  · exact absurd hold (core.not_waits fresh)
  · exact hmem

variable {reply : Reply}

theorem Sound.claimed (sound : Sound s) (h : step platform s (.claimed turn reply) = some t) : Sound t := by
  rw [step] at h
  split at h
  · rename_i answers rest hdelivery
    split at h
    · cases h
    · rename_i hfresh
      cases h
      have fresh : FreshTurn s turn := fun process hmem ↦
        hfresh (List.any_eq_true.2 ⟨_, hmem, beq_self_eq_true _⟩)
      obtain ⟨hstage, hrest, hapart⟩ := sound.delivery _ hdelivery
      obtain ⟨hfirst, hothers⟩ := List.pairwise_cons.1 hapart
      have core := sound.toCore.claiming fresh answers
      have others : ∀ work ∈ rest, WorkOk (s.claiming turn answers) work := fun work hmem ↦
        (hrest work hmem).leaves (Leaves.claiming fresh (hrest work hmem) (hfirst work hmem))
      cases reply with
      | done =>
        rw [Machine.claim]
        split
        · exact core.next others hothers
        · refine ⟨core.delivery _ _, ?_⟩
          rintro _ ⟨⟩
          refine ⟨⟨WorkOk.claiming sound.toCore fresh hstage, fun _ ↦ ⟨?_, fun entry hmem ↦ ?_⟩, trivial⟩, others,
            List.pairwise_cons.2 ⟨fun work hmem ↦ ?_, hothers⟩⟩
          · exact List.mem_concat_self
          · exact sound.toCore.turn_ne fresh hmem
          · cases work with
            | group other others =>
              obtain ⟨process, hclaim⟩ := (hrest _ hmem).1
              rintro rfl
              exact fresh process hclaim
            | fresh others => trivial
      | failed applied =>
        cases applied with
        | false => exact (sound.toCore.claiming fresh []).threw
        | true => exact core.threw
  · cases h

/-! ## Composing and starting -/

/-- The instruction carries the answers that are current, and the plan's present state decides which. -/
theorem mem_live {plan : Plan} {instruction : Instruction}
    (h : answerInstruction platform plan turn answers = some instruction) {answer : Answer} :
    answer ∈ instruction.live ↔ answer ∈ answers ∧ current plan answer = true := by
  rw [answerInstruction] at h
  split at h
  · cases h
  · rename_i first others hlive
    cases h
    show answer ∈ first :: others ↔ _
    rw [← hlive, List.mem_filter]

theorem none_live {plan : Plan} (h : answerInstruction platform plan turn answers = none) :
    ∀ answer ∈ answers, current plan answer = false := by
  rw [answerInstruction] at h
  split at h
  · rename_i hnone
    exact fun answer hmem ↦ Bool.eq_false_iff.2 (List.filter_eq_nil_iff.1 hnone answer hmem)
  · cases h

theorem Core.composed (core : Core s) (work : WorkOk s (.group turn answers)) :
    ComposedOk s turn answers (some (answerInstruction platform s.plan turn answers)) := by
  cases hcomposed : answerInstruction platform s.plan turn answers with
  | none => exact none_live hcomposed
  | some instruction =>
    refine ⟨fun answer hmem hcurrent ↦ (mem_live hcomposed).2 ⟨hmem, hcurrent⟩,
      fun answer hmem ↦ ((mem_live hcomposed).1 hmem).1, fun answer hmem entry hentry hcarried ↦ ?_⟩
    obtain ⟨hanswer, hcurrent⟩ := (mem_live hcomposed).1 hmem
    obtain ⟨-, -, -, hheld⟩ := core.accepted entry hentry
    exact (hheld answer hcarried hcurrent).unique (work.2.2.2 answer hanswer hcurrent)

theorem Sound.composed (sound : Sound s) (h : step platform s .compose = some t) : Sound t := by
  rw [step] at h
  split at h
  · rename_i turn answers claimedNow composed rest hdelivery
    cases h
    obtain ⟨⟨hwork, hnow, -⟩, hrest, hapart⟩ := sound.delivery _ hdelivery
    refine ⟨⟨sound.known, sound.rows, sound.keys, sound.claims, sound.processes, sound.turns, sound.accepted,
      sound.once⟩, ?_⟩
    rintro _ ⟨⟩
    exact ⟨⟨hwork, hnow, sound.toCore.composed hwork⟩, hrest, hapart⟩
  · cases h

/-- A delivery that goes on to mark or to release the turn. -/
theorem Core.goesOn (core : Core s) {stage : Stage} (hstage : StageOk s stage)
    (hwork : stage.work = some (.group turn [])) (hrest : ∀ work ∈ rest, WorkOk s work)
    (hapart : (Work.group turn answers :: rest).Pairwise Apart) :
    Sound { s with delivery := some { stage, rest } } := by
  refine ⟨core.delivery _ _, ?_⟩
  rintro _ ⟨⟩
  refine ⟨?_, hrest, ?_⟩
  · cases stage <;> exact hstage
  · rw [hwork]
    obtain ⟨hfirst, hothers⟩ := List.pairwise_cons.1 hapart
    refine List.pairwise_cons.2 ⟨fun work hmem ↦ ?_, hothers⟩
    have := hfirst work hmem
    cases work with
    | group other others => exact this
    | fresh others => trivial

variable {outcome : Outcome}

theorem Core.afterStart (core : Core s) {claimedNow : Bool}
    {composed : Option (Option Instruction)} (work : WorkOk s (.group turn answers))
    (unstarted : outcome ≠ .accepted → claimedNow = true → Unstarted s turn)
    (hcomposed : composed = some none → ∀ answer ∈ answers, current s.plan answer = false)
    (haccepted : outcome = .accepted → ∃ entry ∈ s.accepted, entry.turn = turn)
    (hdropped : outcome = .drop → turn ∈ s.dropped) (hrest : ∀ work ∈ rest, WorkOk s work)
    (hapart : (Work.group turn answers :: rest).Pairwise Apart) :
    Sound (afterStart outcome turn claimedNow composed rest s) := by
  rw [Answers.afterStart]
  split
  · rename_i hmark
    refine core.goesOn (show StageOk s (.marking turn) from ⟨work.1, ?_⟩) rfl hrest hapart
    rcases hmark with h | h | h
    · exact .inl (haccepted h)
    · exact .inr (.inl (hdropped h))
    · exact .inr (.inr fun answer hwaits ↦ hcomposed h answer (work.2.2.1 answer hwaits))
  · rename_i hkept
    split
    · rename_i hnow
      have hstage : StageOk s (.releasing turn) := unstarted (fun h ↦ hkept (.inl h)) hnow
      exact core.goesOn hstage rfl hrest hapart
    · exact core.next hrest (List.pairwise_cons.1 hapart).2

/-- Chat took the turn, now or before. -/
theorem Sound.accepts (sound : Sound s) {composed : Option (Option Instruction)}
    (hwork : WorkOk s (.group turn answers)) (hcomposed : ComposedOk s turn answers composed)
    (h : s.accept turn composed = some t) : Core t ∧ (∃ entry ∈ t.accepted, entry.turn = turn) ∧ t.plan = s.plan ∧
      ∀ work, WorkOk s work → WorkOk t work := by
  unfold Machine.accept at h
  split at h
  · rename_i hany
    cases h
    obtain ⟨entry, hmem, hturn⟩ := List.any_eq_true.1 hany
    exact ⟨sound.toCore, ⟨entry, hmem, beq_iff_eq.1 hturn⟩, rfl, fun _ ok ↦ ok⟩
  · rename_i hany
    split at h
    · rename_i instruction
      cases h
      have hnew : ∀ entry ∈ s.accepted, entry.turn ≠ turn := fun entry hmem heq ↦
        hany (List.any_eq_true.2 ⟨entry, hmem, beq_iff_eq.2 heq⟩)
      obtain ⟨hlive, hsub, honce⟩ := hcomposed
      refine ⟨⟨sound.known, sound.rows, sound.keys, sound.claims, sound.processes, ?_, ?_, ?_⟩,
        ⟨_, List.mem_concat_self, rfl⟩, rfl, fun work ok ↦ ?_⟩
      · rw [List.map_append, List.nodup_append]
        refine ⟨sound.turns, List.nodup_cons.2 ⟨List.not_mem_nil, .nil⟩, fun other hother new hmem ↦ ?_⟩
        obtain rfl := List.mem_singleton.1 hmem
        obtain ⟨entry, hentry, rfl⟩ := List.mem_map.1 hother
        exact hnew entry hentry
      · intro entry hmem
        rcases List.mem_append.1 hmem with hold | hadded
        · exact sound.accepted entry hold
        · obtain rfl := List.mem_singleton.1 hadded
          exact ⟨hwork.1, fun answer hanswer ↦ hwork.2.1 answer (hsub answer hanswer),
            fun answer hwaits hcurrent ↦ hlive answer (hwork.2.2.1 answer hwaits) hcurrent,
            fun answer hanswer ↦ hwork.2.2.2 answer (hsub answer hanswer)⟩
      · intro left hleft right hright answer hmem hmem'
        rcases List.mem_append.1 hleft with hold | hadded <;> rcases List.mem_append.1 hright with hold' | hadded'
        · exact sound.once left hold right hold' answer hmem hmem'
        · obtain rfl := List.mem_singleton.1 hadded'
          exact honce answer hmem' left hold hmem
        · obtain rfl := List.mem_singleton.1 hadded
          exact (honce answer hmem right hold' hmem').symm
        · obtain rfl := List.mem_singleton.1 hadded
          obtain rfl := List.mem_singleton.1 hadded'
          rfl
      · cases work with
        | group other others => exact ok
        | fresh others => exact ok
    · cases h

theorem Sound.started (sound : Sound s) (h : step platform s (.started outcome) = some t) : Sound t := by
  rw [step] at h
  split at h
  · rename_i turn answers claimedNow composed rest hdelivery
    obtain ⟨⟨hwork, hnow, hcomposed⟩, hrest, hapart⟩ := sound.delivery _ hdelivery
    have dead : composed = some none → ∀ answer ∈ answers, current s.plan answer = false := by
      rintro rfl
      exact hcomposed
    cases outcome with
    | accepted =>
      obtain ⟨next, hnext, rfl⟩ := Option.map_eq_some_iff.1 h
      obtain ⟨core, haccepted, hplan, hkept⟩ := sound.accepts hwork hcomposed hnext
      exact core.afterStart (hkept _ hwork) (fun hne ↦ absurd rfl hne) (hplan ▸ dead) (fun _ ↦ haccepted) (by rintro ⟨⟩)
        (fun work hmem ↦ hkept work (hrest work hmem)) hapart
    | drop =>
      cases h
      have core : Core { s with dropped := s.dropped ++ [turn] } := ⟨sound.known, sound.rows, sound.keys,
        sound.claims, sound.processes, sound.turns, sound.accepted, sound.once⟩
      have hkept : ∀ work, WorkOk s work → WorkOk { s with dropped := s.dropped ++ [turn] } work := by
        intro work ok
        cases work with
        | group other others => exact ok
        | fresh others => exact ok
      exact core.afterStart (hkept _ hwork) (fun _ ↦ hnow) dead (by rintro ⟨⟩)
        (fun _ ↦ List.mem_concat_self)
        (fun work hmem ↦ hkept work (hrest work hmem)) hapart
    | refused =>
      cases h
      exact sound.toCore.afterStart hwork (fun _ ↦ hnow) dead (by rintro ⟨⟩) (by rintro ⟨⟩) hrest hapart
    | failed =>
      cases h
      exact sound.toCore.afterStart hwork (fun _ ↦ hnow) dead (by rintro ⟨⟩) (by rintro ⟨⟩) hrest hapart
  · cases h

/-! ## Marking and releasing -/

/-- A write to the rows that wait for the turn, which gives no row to another turn. -/
structure Rewritten (s : Machine) (turn : String) (rows : Rows) : Prop where
  lookup : ∀ id row, rows.lookup id = some row → ∃ old, s.rows.lookup id = some old ∧
    old.generation = row.generation ∧ ∀ other, row.turnId = some other → old.turnId = some other
  keys : rows.map (·.1) = s.rows.map (·.1)
  waits : ∀ other answer, Waits rows other answer → Waits s.rows other answer
  held : ∀ other answer, (∃ entry ∈ s.accepted, entry.turn = other) ∨ other ≠ turn →
    Held s.rows other answer → Held rows other answer
  free : ∀ answer, Free s.rows answer → Free rows answer

variable {rows : Rows}

theorem Core.rewritten (core : Core s) (h : Rewritten s turn rows) : Core { s with rows } where
  known := core.known
  rows := by
    intro id row hrow
    obtain ⟨old, hold, hgeneration, hturn⟩ := h.lookup id row hrow
    rw [← hgeneration]
    exact ⟨(core.rows id old hold).1, fun other hother ↦ (core.rows id old hold).2 other (hturn other hother)⟩
  keys := h.keys ▸ core.keys
  claims := core.claims
  processes := core.processes
  turns := core.turns
  accepted := by
    intro entry hmem
    obtain ⟨hclaim, hsettled, hwaits, hheld⟩ := core.accepted entry hmem
    exact ⟨hclaim, hsettled, fun answer hanswer ↦ hwaits answer (h.waits _ _ hanswer),
      fun answer hanswer hcurrent ↦ h.held _ _ (.inl ⟨entry, hmem, rfl⟩) (hheld answer hanswer hcurrent)⟩
  once := core.once

theorem WorkOk.rewritten {work : Work} (h : Rewritten s turn rows) (ok : WorkOk s work)
    (apart : Apart (.group turn []) work) : WorkOk { s with rows } work := by
  refine ok.leaves ⟨fun _ hmem ↦ hmem, fun _ hmem ↦ hmem, fun _ _ hcurrent ↦ hcurrent, ?_⟩
  cases work with
  | group other others =>
    exact ⟨fun answer ↦ h.waits other answer, fun answer _ _ ↦ h.held other answer (.inr (Ne.symm apart))⟩
  | fresh others => exact fun answer _ _ ↦ h.free answer

/-- The write of a delivery's call on the store, made or not, and what the delivery does next. -/
theorem Sound.stored (sound : Sound s) {stage : Stage} (h : Rewritten s turn rows)
    (hdelivery : s.delivery = some { stage, rest }) (hwork : stage.work = some (.group turn []))
    (reply : Reply) : Sound (s.stored rows rest reply) := by
  obtain ⟨-, hrest, hapart⟩ := sound.delivery _ hdelivery
  rw [hwork] at hapart
  obtain ⟨hfirst, hothers⟩ := List.pairwise_cons.1 hapart
  have core := sound.toCore.rewritten h
  cases reply with
  | done => exact core.next (fun work hmem ↦ (hrest work hmem).rewritten h (hfirst work hmem)) hothers
  | failed applied =>
    cases applied with
    | false => exact sound.toCore.threw
    | true => exact core.threw

theorem Sound.marked (sound : Sound s) {now : Int} (h : step platform s (.marked now reply) = some t) : Sound t := by
  rw [step] at h
  split at h
  · rename_i turn rest hdelivery
    cases h
    refine sound.stored (show Rewritten s turn _ from ⟨fun id row hrow ↦ ?_, ?_,
      fun _ _ ↦ Waits.of_delivered, fun _ _ _ ↦ Held.delivered, fun _ ↦ Free.delivered⟩) hdelivery rfl reply
    · rw [lookup_delivered, Option.map_eq_some_iff] at hrow
      obtain ⟨old, hold, rfl⟩ := hrow
      refine ⟨old, hold, ?_, fun other hother ↦ ?_⟩
      · split <;> rfl
      · split at hother <;> exact hother
    · rw [Rows.delivered, List.map_map]
      rfl
  · cases h

theorem Sound.released (sound : Sound s) (h : step platform s (.released reply) = some t) : Sound t := by
  rw [step] at h
  split at h
  · rename_i turn rest hdelivery
    cases h
    have unstarted : Unstarted s turn := (sound.delivery _ hdelivery).stage
    refine sound.stored (show Rewritten s turn _ from ⟨fun id row hrow ↦ ?_, ?_,
      fun _ _ ↦ Waits.of_release, fun other answer hother hheld ↦ hheld.release ?_,
      fun _ ↦ Free.release⟩) hdelivery rfl reply
    · rw [lookup_release, Option.map_eq_some_iff] at hrow
      obtain ⟨old, hold, rfl⟩ := hrow
      refine ⟨old, hold, ?_, fun other hother ↦ ?_⟩
      · split <;> rfl
      · split at hother
        · cases hother
        · exact hother
    · rw [Rows.release, List.map_map]
      rfl
    · rcases hother with ⟨entry, hmem, rfl⟩ | hne
      · exact unstarted.2 entry hmem
      · exact hne
  · cases h

/-- **Every step keeps the invariant.** -/
theorem Sound.stepped (sound : Sound s) {event : Event} (h : step platform s event = some t) : Sound t := by
  cases event with
  | ask id questions followUp => exact sound.asked h
  | settle id owner answers choices => exact sound.answeredBy h
  | reopen id => exact sound.reopened h
  | discard id => exact sound.discarded h
  | answered answer savedAt =>
    rw [step] at h
    split at h
    · rename_i hsettled
      cases h
      exact (sound.toCore.answered savedAt (List.contains_iff_mem.1 hsettled)).sound rfl sound rfl
    · cases h
  | pending => exact sound.waits h
  | read => exact sound.read h
  | claimed turn reply => exact sound.claimed h
  | compose => exact sound.composed h
  | started outcome => exact sound.started h
  | marked now reply => exact sound.marked h
  | released reply => exact sound.released h
  | crash => exact sound.crashed h

end Chopin.Answers
