import Chopin.Runs.Publishing

/-!
# What is stored for a run

A publication writes only what differs from what is believed to be stored, so the belief has to be right after every
write, also where a later one fails, where the document cannot be stored, and where stages that should have been
removed are still there.  It is right for every run of which no report has two cards: the second card would be
compared with what was stored before the first.
-/

set_option autoImplicit false
set_option linter.dupNamespace false

open Entries

namespace Chopin.Runs

variable {run : String} {stored : Stored} {card : Run} {write : Write} {writes : List Write} {failing : Option Nat}

/-! ## One write -/

/-- What is believed of a run is what is stored for it. -/
def Trusted (run : String) (stored : Stored) : Prop :=
  ∀ belief, get stored.known run = some belief →
    get stored.store run = some belief.json ∧ ∃ card : Run, belief = beliefOf card

/-- The run's stages are those of the card, and are known to be. -/
def Holds (stored : Stored) (card : Run) : Prop :=
  get stored.known card.id = some (beliefOf card) ∧
    get stored.store card.id = some (collect RunStage.id card.stages)

theorem Holds.trusted (h : Holds stored card) : Trusted card.id stored := fun belief hbelief ↦ by
  rw [h.1] at hbelief
  cases hbelief
  exact ⟨h.2, card, rfl⟩

theorem appends_iff {before : Belief} : appends before card = true ↔ before.ids <+: card.stages.map RunStage.id ∧
      (collect RunStage.id card.stages).length = card.stages.length := by
  rw [appends, Bool.and_eq_true, List.isPrefixOf_iff_prefix, beq_iff_eq, beliefOf, List.length_map]

/-- What is believed of a card that has each stage once are its stages. -/
theorem beliefOf_prefix {old : Run} (h : (beliefOf old).ids <+: card.stages.map RunStage.id)
    (hnodup : (card.stages.map RunStage.id).Nodup) : (beliefOf old).json = old.stages := by
  have hold : (old.stages.map RunStage.id).Nodup := hnodup.sublist h.sublist
  exact collect_of_nodup hold

/-- The stages of a card that differ from what is believed bring that up to the card. -/
theorem puts_of_appends {old : Run} (h : appends (beliefOf old) card = true) : puts RunStage.id (beliefOf old).json
        (card.stages.filter fun stage ↦ decide ((beliefOf old).json.find? (·.id == stage.id) ≠ some stage)) =
      collect RunStage.id card.stages := by
  obtain ⟨hids, hlength⟩ := appends_iff.1 h
  have hnodup := nodup_of_length hlength
  have hjson := beliefOf_prefix hids hnodup
  rw [hjson, collect_of_nodup hnodup]
  exact puts_diff hnodup hids

/-- The stored state after a write. -/
def written (stored : Stored) (write : Write) : Stored where
  known := set stored.known write.card write.belief
  store := stored.store.put write.put

theorem writeOf_names {known : List (String × Belief)} (h : writeOf known card = some write) :
    write.card = card.id ∧ write.put.runId = card.id := by
  rw [writeOf] at h
  split at h
  · split at h
    · cases h
    · cases h
      exact ⟨rfl, rfl⟩
  · simp only at h
    split at h
    · split at h
      · cases h
      · cases h
        exact ⟨rfl, rfl⟩
    · cases h
      exact ⟨rfl, rfl⟩

/-- After the write of a card its stages are stored. -/
theorem writeOf_holds (htrusted : Trusted card.id stored) {known : List (String × Belief)}
    (hknown : get known card.id = get stored.known card.id) (h : writeOf known card = some write) :
    Holds (written stored write) card := by
  rw [writeOf, hknown] at h
  cases hbefore : get stored.known card.id with
  | none =>
    simp only [hbefore] at h
    split at h
    · cases h
    · cases h
      exact ⟨by simp [written, get_set], by simp [written, StageStore.put, get_set, collect]⟩
  | some before =>
    simp only [hbefore] at h
    obtain ⟨hstore, old, rfl⟩ := htrusted before hbefore
    split at h
    · rename_i happends
      split at h
      · cases h
      · cases h
        refine ⟨by simp [written, get_set], ?_⟩
        rw [written, StageStore.put, get_set, if_pos rfl, ← puts_of_appends happends, hstore]
        rfl
    · cases h
      exact ⟨by simp [written, get_set], by simp [written, StageStore.put, get_set, collect]⟩

/-- A card that needs no write shows all of its stages, or its stages are stored. -/
theorem writeOf_none (htrusted : Trusted card.id stored) (h : writeOf stored.known card = none) :
    (card.stages.length ≤ cardStages ∧ card.earlier = 0) ∨
      get stored.store card.id = some (collect RunStage.id card.stages) := by
  rw [writeOf] at h
  cases hbefore : get stored.known card.id with
  | none =>
    simp only [hbefore] at h
    split at h
    · rename_i hshort
      exact .inl (by simpa using hshort)
    · cases h
  | some before =>
    simp only [hbefore] at h
    obtain ⟨hstore, old, rfl⟩ := htrusted before hbefore
    split at h
    · rename_i happends
      split at h
      · rename_i hempty
        have := puts_of_appends happends
        rw [List.isEmpty_iff.1 hempty, puts_nil] at this
        exact .inr (this ▸ hstore)
      · cases h
    · cases h

/-! ## The writes of a publication -/

/-- What is known and stored of a run is not touched. -/
def Untouched (run : String) (before after : Stored) : Prop :=
  get after.known run = get before.known run ∧ get after.store run = get before.store run

theorem written_untouched (hcard : write.card ≠ run) (hput : write.put.runId ≠ run) :
    Untouched run stored (written stored write) := by
  constructor
  · rw [written, get_set, if_neg (Ne.symm hcard)]
  · rw [written, StageStore.put, get_set, if_neg (Ne.symm hput)]

theorem runWrites_cons (stored : Stored) (write : Write) (rest : List Write) (failing : Option Nat) :
    runWrites stored (write :: rest) failing =
      if failing = some 0 then (stored, false)
      else runWrites (written stored write) rest (failing.map (· - 1)) := by
  cases failing with
  | none => rfl
  | some count => cases count <;> rfl

/-- Writes of other runs leave a run alone. -/
theorem runWrites_untouched (h : ∀ write ∈ writes, write.card ≠ run ∧ write.put.runId ≠ run) (stored : Stored)
    (failing : Option Nat) : Untouched run stored (runWrites stored writes failing).1 := by
  induction writes generalizing stored failing with
  | nil => exact ⟨rfl, rfl⟩
  | cons write rest ih =>
    obtain ⟨hwrite, hrest⟩ := List.forall_mem_cons.1 h
    rw [runWrites_cons]
    split
    · exact ⟨rfl, rfl⟩
    · obtain ⟨hknown, hstore⟩ := ih hrest (written stored write) (failing.map (· - 1))
      obtain ⟨hknown', hstore'⟩ := written_untouched hwrite.1 hwrite.2
      exact ⟨hknown.trans hknown', hstore.trans hstore'⟩

theorem runWrites_append (first second : List Write) : runWrites stored (first ++ second) failing =
    if (runWrites stored first failing).2 then
      runWrites (runWrites stored first failing).1 second (failing.map (· - first.length))
    else runWrites stored first failing := by
  induction first generalizing stored failing with
  | nil =>
    cases failing with
    | none => rfl
    | some count => rfl
  | cons write rest ih =>
    rw [List.cons_append, runWrites_cons, runWrites_cons]
    split
    · rfl
    · rw [ih, Option.map_map]
      have hcount : ((· - rest.length) ∘ (· - 1) : Nat → Nat) = (· - (write :: rest).length) := by
        funext count
        simp only [Function.comp_apply, List.length_cons]
        omega
      rw [hcount]

/-- A report has at most one card of the run. -/
def Single (run : String) (cards : List Run) : Prop := (cards.filter (·.id == run)).length ≤ 1

variable {cards : List Run}

theorem writes_untouched (known : List (String × Belief)) (h : ∀ card ∈ cards, card.id ≠ run) :
    ∀ write ∈ cards.filterMap (writeOf known), write.card ≠ run ∧ write.put.runId ≠ run := by
  intro write hwrite
  obtain ⟨card, hcard, hwrite⟩ := List.mem_filterMap.1 hwrite
  obtain ⟨hname, hput⟩ := writeOf_names hwrite
  rw [hname, hput]
  exact ⟨h card hcard, h card hcard⟩

theorem Trusted.congr {after : Stored} (h : Trusted run stored) (hsame : Untouched run stored after) :
    Trusted run after := by
  intro belief hbelief
  rw [hsame.1] at hbelief
  rw [hsame.2]
  exact h belief hbelief

/-- The one card of a run among the others. -/
theorem Single.split (h : Single run cards) (hcard : card ∈ cards) (hid : card.id = run) :
    ∃ front back, cards = front ++ card :: back ∧ (∀ other ∈ front, other.id ≠ run) ∧
      ∀ other ∈ back, other.id ≠ run := by
  obtain ⟨front, back, rfl⟩ := List.append_of_mem hcard
  have hpos : (card.id == run) = true := beq_iff_eq.2 hid
  rw [Single, List.filter_append, List.filter_cons, if_pos hpos, List.length_append, List.length_cons] at h
  have hnone : ∀ part : List Run, (part.filter (·.id == run)).length = 0 → ∀ other ∈ part, other.id ≠ run := by
    intro part hpart other hother hsame
    have := List.filter_eq_nil_iff.1 (List.length_eq_zero_iff.1 hpart) other hother
    exact this (beq_iff_eq.2 hsame)
  exact ⟨front, back, rfl, hnone front (by omega), hnone back (by omega)⟩

/-- **What a publication stores of a run**: the belief stays right, and once all is written the stages of the run's
card are stored, unless it shows all of them. -/
theorem storeStages_spec (failing : Option Nat) (htrusted : Trusted run stored) (hsingle : Single run cards) :
    Trusted run (storeStages stored cards failing).1 ∧
      ((storeStages stored cards failing).2 = true → ∀ card ∈ cards, card.id = run →
        (card.stages.length ≤ cardStages ∧ card.earlier = 0) ∨
          get (storeStages stored cards failing).1.store run = some (collect RunStage.id card.stages)) := by
  by_cases hnone : ∀ card ∈ cards, card.id ≠ run
  · have hsame := runWrites_untouched (writes_untouched stored.known hnone) stored failing
    exact ⟨htrusted.congr hsame, fun _ card hcard hid ↦ (hnone card hcard hid).elim⟩
  · rw [not_forall] at hnone
    obtain ⟨card, hnone⟩ := hnone
    rw [Classical.not_imp, not_not] at hnone
    obtain ⟨hcard, rfl⟩ := hnone
    obtain ⟨front, back, rfl, hfront, hback⟩ := hsingle.split hcard rfl
    have hone : ∀ other ∈ front ++ card :: back, other.id = card.id → other = card := by
      intro other hother hid
      obtain hother | hother := List.mem_append.1 hother
      · exact (hfront other hother hid).elim
      · exact (List.mem_cons.1 hother).resolve_right fun hother ↦ hback other hother hid
    have hfrontWrites := writes_untouched stored.known hfront
    have hbackWrites := writes_untouched stored.known hback
    rw [storeStages, List.filterMap_append, List.filterMap_cons]
    cases hwrite : writeOf stored.known card with
    | none =>
      have hsame := runWrites_untouched (List.forall_mem_append.2 ⟨hfrontWrites, hbackWrites⟩) stored failing
      refine ⟨htrusted.congr hsame, fun _ other hother hid ↦ ?_⟩
      rw [hone other hother hid]
      exact (writeOf_none htrusted hwrite).imp_right fun h ↦ hsame.2.trans h
    | some write =>
      have hbefore := runWrites_untouched hfrontWrites stored failing
      have hmiddle := htrusted.congr hbefore
      have hholds := writeOf_holds hmiddle hbefore.1.symm hwrite
      simp only
      rw [runWrites_append]
      split
      · rw [runWrites_cons]
        split
        · exact ⟨hmiddle, fun h ↦ absurd h Bool.false_ne_true⟩
        · have hafter := runWrites_untouched hbackWrites (written (runWrites stored
            (front.filterMap (writeOf stored.known)) failing).1 write)
            (Option.map (· - 1) (Option.map (· - (front.filterMap (writeOf stored.known)).length) failing))
          refine ⟨hholds.trusted.congr hafter, fun _ other hother hid ↦ .inr ?_⟩
          rw [hone other hother hid]
          exact hafter.2.trans hholds.2
      · rename_i hfailed
        exact ⟨hmiddle, fun h ↦ (hfailed h).elim⟩

/-! ## Forgetting -/

/-- Dropping the belief, and the stages if that can be done, leaves the belief right. -/
theorem Trusted.forget (h : Trusted run stored) (shown : List Run) (retains : Bool) :
    Trusted run (forgetStages stored shown retains) := by
  intro belief hbelief
  have hknown : get (forgetStages stored shown retains).known run =
      if (shown.map Run.id).contains run then get stored.known run else none :=
    lookup_filter stored.known (fun name ↦ (shown.map Run.id).contains name) run
  rw [hknown] at hbelief
  split at hbelief
  · rename_i hshown
    obtain ⟨hstore, hmade⟩ := h belief hbelief
    refine ⟨?_, hmade⟩
    rw [forgetStages]
    cases retains with
    | false => exact hstore
    | true =>
      exact (lookup_filter stored.store (fun name ↦ (shown.map Run.id).contains name) run).trans
        ((if_pos hshown).trans hstore)
  · cases hbelief

/-- What is stored of a run that is shown is not removed. -/
theorem store_forget {shown : List Run} (h : run ∈ shown.map Run.id) (retains : Bool) :
    get (forgetStages stored shown retains).store run = get stored.store run := by
  rw [forgetStages]
  cases retains with
  | false => rfl
  | true =>
    exact (lookup_filter stored.store (fun name ↦ (shown.map Run.id).contains name) run).trans
      (if_pos (List.contains_iff_mem.2 h))

theorem Single.sublist {part : List Run} (h : Single run cards) (hpart : List.Sublist part cards) :
    Single run part := Nat.le_trans (hpart.filter _).length_le h

/-! ## One publication -/

variable {chat after : Chat} {report : Report} {moment : Moment}

theorem stored_publishReport (chat : Chat) (report : Report) (moment : Moment) :
    (chat.publishReport report moment).stored =
      if chat.succeeds report moment &&
          chat.prior.any fun run ↦ !((chat.cards report moment).map Run.id).contains run.id then
        forgetStages (storeStages chat.stored (chat.storable report) moment.failing).1
          ((chat.next report moment).getD []) moment.retains
      else (storeStages chat.stored (chat.storable report) moment.failing).1 := by
  rw [Chat.publishReport]
  cases hsucceeds : chat.succeeds report moment with
  | true =>
    rw [Chat.succeeds] at hsucceeds
    simp only [hsucceeds, if_true, Bool.true_and]
  | false =>
    rw [Chat.succeeds] at hsucceeds
    simp only [hsucceeds, Bool.false_eq_true, if_false, Bool.false_and]

theorem cardWindow_congr {other : Run} (hstages : card.stages = other.stages)
    (hearlier : card.earlierStages = other.earlierStages) : (cardWindow card).stages = (cardWindow other).stages ∧
      (cardWindow card).earlierStages = (cardWindow other).earlierStages := by
  rw [cardWindow, cardWindow, Run.earlier, Run.earlier, hstages, hearlier]
  split
  · exact ⟨hstages, hearlier⟩
  · exact ⟨rfl, rfl⟩

/-- A card with stages is shown with the latest of them. -/
theorem shown_publishReport (h : chat.succeeds report moment = true) (hcard : card ∈ report.cards)
    (hstages : card.stages ≠ []) : ∃ shown ∈ (chat.publishReport report moment).prior, shown.id = card.id ∧
      shown.stages = (cardWindow card).stages ∧ shown.earlierStages = (cardWindow card).earlierStages := by
  obtain ⟨own, hown, hid, hsame, hearlier⟩ := mem_own chat moment hcard
  have hnot : keptFrom chat.prior card = none := by
    rw [keptFrom, if_neg]
    exact fun hempty ↦ hstages (List.isEmpty_iff.1 hempty)
  rw [incomingCard, hnot] at hsame hearlier
  have hcards : own ∈ chat.cards report moment :=
    (cards_perm chat report moment).mem_iff.2 (List.mem_append_right _ hown)
  rw [prior_publishReport, if_pos h]
  exact ⟨cardWindow own, List.mem_map_of_mem hcards, cardWindow_id.trans hid,
    cardWindow_congr (hsame.trans begun_stages.1) (hearlier.trans begun_stages.2)⟩

/-! ## Every run of publications -/

/-- What is believed of the run is stored for it, and no report that waits, or that could not be saved, has two cards of
it. -/
structure Sound (run : String) (chat : Chat) : Prop where
  trusted : Trusted run chat.stored
  queued : ∀ report ∈ chat.publishing, Single run report.cards
  kept : ∀ entry ∈ chat.unsaved, Single run entry.2

/-- No report has two cards of the run. -/
def Once (run : String) : Act → Prop
  | .report _ cards _ => Single run (cards.getD [])
  | _ => True

theorem Single.empty : Single run [] := Nat.zero_le 1

theorem trusted_publishReport (h : Trusted run chat.stored) (hsingle : Single run report.cards) :
    Trusted run (chat.publishReport report moment).stored := by
  obtain ⟨hstored, -⟩ := storeStages_spec moment.failing h
    (hsingle.sublist (List.filter_sublist : List.Sublist (chat.storable report) report.cards))
  rw [stored_publishReport]
  split
  · exact hstored.forget _ _
  · exact hstored

theorem kept_publishReport (h : ∀ entry ∈ chat.unsaved, Single run entry.2) (hsingle : Single run report.cards) :
    ∀ entry ∈ (chat.publishReport report moment).unsaved, Single run entry.2 := by
  have hdelete : ∀ entry ∈ delete chat.unsaved report.session, Single run entry.2 := fun entry hentry ↦
    h entry (mem_delete.1 hentry).1
  rw [Chat.publishReport]
  simp only
  split
  · exact hdelete
  · simp only [Chat.keepUnsaved]
    split
    · rename_i cards hcards
      rw [Report.cards, hcards, Option.getD_some] at hsingle
      split
      · exact hdelete
      · intro entry hentry
        obtain hold | rfl := mem_set hentry
        · exact h entry hold
        · exact hsingle
    · exact hdelete

/-- One step keeps what is believed right. -/
theorem Sound.step (h : Sound run chat) {act : Act} (honce : Once run act) (hstep : step chat act = some after) :
    Sound run after := by
  cases act with
  | report session cards followUp =>
    cases hstep
    refine ⟨h.trusted, fun report hreport ↦ ?_, h.kept⟩
    obtain hreport | hreport := List.mem_append.1 hreport
    · exact h.queued report hreport
    · rw [List.mem_singleton.1 hreport]
      exact honce
  | release session =>
    cases hstep
    refine ⟨h.trusted, fun report hreport ↦ ?_, h.kept⟩
    obtain hreport | hreport := List.mem_append.1 hreport
    · exact h.queued report hreport
    · rw [List.mem_singleton.1 hreport, Report.cards]
      cases hkept : get chat.unsaved session with
      | none => exact Single.empty
      | some cards => exact h.kept _ (mem_of_lookup hkept)
  | publish moment =>
    rw [Runs.step] at hstep
    split at hstep
    · cases hstep
    · rename_i report rest hqueue
      cases hstep
      have hsingle := h.queued report (hqueue ▸ List.mem_cons_self)
      have hqueued : ∀ other ∈ rest, Single run other.cards := fun other hother ↦
        h.queued other (hqueue ▸ List.mem_cons_of_mem report hother)
      refine ⟨trusted_publishReport h.trusted hsingle, fun other hother ↦ hqueued other ?_,
        kept_publishReport h.kept hsingle⟩
      rwa [Chat.publishReport, apply_ite Chat.publishing, ite_self] at hother
  | leave session =>
    cases hstep
    exact ⟨h.trusted, h.queued, h.kept⟩

/-- The pages that are read are the stages there are. -/
theorem loadStages_all {store : StageStore} {stages : List RunStage} (h : get store run = some stages) {limit : Nat}
    (hlimit : 0 < limit) : ∀ steps, stages.length + 1 ≤ steps → loadStages store run limit steps [] = some stages := by
  have hrest : ∀ steps loaded, loaded ≤ stages.length → stages.length + 1 ≤ steps + loaded →
      loadStages store run limit steps (stages.take loaded) = some stages := by
    intro steps
    induction steps with
    | zero => intro loaded hle hsteps; omega
    | succ steps ih =>
      intro loaded hle hsteps
      have hlength : (stages.take loaded).length = loaded := List.length_take_of_le hle
      rw [loadStages]
      simp only [StageStore.list, h, Option.getD_some, hlength]
      rw [← List.take_add]
      split
      · rename_i hdone
        rw [Bool.or_eq_true, List.isEmpty_iff, List.take_eq_nil_iff, List.drop_eq_nil_iff, decide_eq_true_eq,
          List.length_take] at hdone
        exact congrArg some (List.take_of_length_le (by omega))
      · rename_i hmore
        rw [Bool.or_eq_true, decide_eq_true_eq, List.length_take, not_or] at hmore
        have hshort : loaded + limit < stages.length := by omega
        exact ih (loaded + limit) (Nat.le_of_lt hshort) (by omega)
  intro steps hsteps
  exact hrest steps 0 (Nat.zero_le _) hsteps

/-- What a card shows are stages of its own. -/
theorem ids_cardWindow (card : Run) : (cardWindow card).stages.map RunStage.id ⊆ card.stages.map RunStage.id := by
  rw [cardWindow]
  split
  · exact List.Subset.refl _
  · obtain ⟨marked, hsettled⟩ := settledStages_eq card.stages
    simp only [hsettled, List.map_drop, List.map_map]
    have hids : (RunStage.id ∘ settle false marked) = RunStage.id := funext fun stage ↦ settle_id
    rw [hids]
    exact List.drop_subset _ _

theorem keys_stageWindow {shown : Run} (h : shown.stages = (cardWindow card).stages) :
    (stageWindow (collect RunStage.id card.stages) shown).map RunStage.id =
      (collect RunStage.id card.stages).map RunStage.id := by
  have hall : collect RunStage.id (collect RunStage.id card.stages) = collect RunStage.id card.stages :=
    collect_of_nodup (nodup_collect _ _)
  rw [stageWindow, hall]
  refine keys_puts_of_subset fun id hid ↦ ?_
  rw [h] at hid
  exact mem_keys_puts.2 (.inr (ids_cardWindow card hid))

theorem mem_storable (hsingle : Single card.id report.cards) (hcard : card ∈ report.cards)
    (hstages : card.stages ≠ []) : card ∈ chat.storable report := by
  rw [Chat.storable]
  refine List.mem_filter.2 ⟨hcard, ?_⟩
  rw [Bool.not_eq_true', List.contains_eq_mem, decide_eq_false_iff_not, List.mem_map]
  rintro ⟨other, hother, hid⟩
  rw [List.mem_filter] at hother
  -- The one card of the run has stages, and is none that keeps those shown.
  obtain ⟨front, back, hcards, hfront, hback⟩ := hsingle.split hcard rfl
  have hsame : other = card := by
    obtain hmem | hmem := List.mem_append.1 (hcards ▸ hother.1)
    · exact (hfront other hmem hid).elim
    · exact (List.mem_cons.1 hmem).resolve_right fun hmem ↦ hback other hmem hid
  have hnot : keptFrom chat.prior card = none := by
    rw [keptFrom, if_neg]
    exact fun hempty ↦ hstages (List.isEmpty_iff.1 hempty)
  rw [hsame, hnot] at hother
  cases hother.2

/-- The store after a successful publication, for a run that is shown. -/
theorem store_publishReport (h : chat.succeeds report moment = true)
    (hshown : run ∈ (chat.publishReport report moment).prior.map Run.id) :
    get (chat.publishReport report moment).stored.store run =
      get (storeStages chat.stored (chat.storable report) moment.failing).1.store run := by
  rw [Chat.prior, runs_publishReport, if_pos h] at hshown
  rw [stored_publishReport]
  split
  · exact store_forget hshown moment.retains
  · rfl

theorem sound_restore (run : String) (runs : Option (List Run)) (entries : List Ending) (now : Nat)
    (store : StageStore) : Sound run (restore runs entries now store) where
  trusted := fun _ h ↦ nomatch h
  queued := fun _ h ↦ nomatch h
  kept := fun _ h ↦ nomatch h

/-- **The stored stages are the reported ones**: in every run of reports, releases and publications, with any write
failing, no report of which has two cards of one run, a publication that succeeds shows each card it reported with
stages, and where that hides some, the store has the reported stages, by their ids, latest content first reported
first.  They are what is read page by page, and with the card they list each stage once. -/
theorem stages_stored {runs : Option (List Run)} {entries : List Ending} {now : Nat} {store : StageStore}
    {acts : List Act} (hrun : Runs step (restore runs entries now store) acts chat) {rest : List Report}
    (hqueue : chat.publishing = report :: rest) (hsucceeds : chat.succeeds report moment = true)
    (hstep : step chat (.publish moment) = some after) (hcard : card ∈ report.cards) (hstages : card.stages ≠ [])
    (honce : ∀ act ∈ acts, Once card.id act) :
    ∃ shown ∈ after.prior, shown.id = card.id ∧ shown.stages = (cardWindow card).stages ∧
      shown.earlierStages = (cardWindow card).earlierStages ∧ (0 < shown.earlier →
        get after.stored.store card.id = some (collect RunStage.id card.stages) ∧
        (∀ limit, 0 < limit → ∃ enough, ∀ steps, enough ≤ steps →
          loadStages after.stored.store card.id limit steps [] = some (collect RunStage.id card.stages)) ∧
        (stageWindow (collect RunStage.id card.stages) shown).map RunStage.id =
          (collect RunStage.id card.stages).map RunStage.id ∧
        ((stageWindow (collect RunStage.id card.stages) shown).map RunStage.id).Nodup) := by
  have hsound : Sound card.id chat := by
    have hguarded : Guarded (fun _ act ↦ Once card.id act) step (restore runs entries now store) acts chat :=
      hrun.guarded fun act hact _ ↦ honce act hact
    exact hguarded.invariant (sound_restore card.id runs entries now store) fun _ _ _ hsound hact hnext ↦
      hsound.step hact hnext
  have hsingle := hsound.queued report (hqueue ▸ List.mem_cons_self)
  rw [step, hqueue] at hstep
  obtain rfl := Option.some.inj hstep
  -- The report is taken off the queue, which nothing else reads.
  have hsucceeds' : { chat with publishing := rest }.succeeds report moment = true := hsucceeds
  obtain ⟨shown, hshown, hid, hlatest, hearlier⟩ := shown_publishReport hsucceeds' hcard hstages
  refine ⟨shown, hshown, hid, hlatest, hearlier, fun hhides ↦ ?_⟩
  have hstore : get ({ chat with publishing := rest }.publishReport report moment).stored.store card.id =
      some (collect RunStage.id card.stages) := by
    rw [store_publishReport hsucceeds' (hid ▸ List.mem_map_of_mem hshown)]
    obtain ⟨-, hwritten⟩ := storeStages_spec moment.failing hsound.trusted
      (hsingle.sublist (List.filter_sublist : List.Sublist (chat.storable report) report.cards))
    rw [Chat.succeeds, Bool.and_eq_true] at hsucceeds
    obtain ⟨hshort, hnone⟩ | hstored := hwritten hsucceeds.1 card (mem_storable hsingle hcard hstages) rfl
    · rw [Run.earlier, hearlier, cardWindow_of_short hshort, ← Run.earlier, hnone] at hhides
      exact absurd hhides (Nat.lt_irrefl 0)
    · exact hstored
  have hkeys := keys_stageWindow hlatest
  exact ⟨hstore, fun limit hlimit ↦ ⟨_, fun steps ↦ loadStages_all hstore hlimit steps⟩, hkeys,
    hkeys ▸ nodup_collect _ _⟩

/-! ## Two cards of one run -/

/-- A card of one run with these stages. -/
def cardOf (stages : List RunStage) : Run := { id := "run", name := "check", status := .running, stages }

def stageOf (id : String) (status : StageStatus) : RunStage := { id, name := id, status }

/-- More stages than a card shows, all running. -/
def thirteen : List RunStage :=
  ["a", "b", "c", "d", "e", "f", "g", "h", "i", "j", "k", "l", "m"].map (stageOf · .running)

/-- The first of them failed. -/
def failedFirst : List RunStage := stageOf "a" .failed :: thirteen.tail

def fourteen : List RunStage := thirteen ++ [stageOf "n" .running]

theorem stages_stored_sample :
    ∃ after, step ((restore none [] 0 []).publishRuns ⟨0, some [cardOf thirteen], false, false⟩)
        (.publish { now := 1 }) = some after ∧
      ∃ shown ∈ after.prior, 0 < shown.earlier ∧ get after.stored.store "run" = some thirteen := by
  have hrun : Runs step (restore none [] 0 []) ([] ++ [Act.report 0 (some [cardOf thirteen]) false])
      ((restore none [] 0 []).publishRuns ⟨0, some [cardOf thirteen], false, false⟩) := .snoc (.nil _) rfl
  have hcard : cardOf thirteen ∈ (⟨0, some [cardOf thirteen], false, false⟩ : Report).cards := List.mem_cons_self
  have hsucceeds : ((restore none [] 0 []).publishRuns ⟨0, some [cardOf thirteen], false, false⟩).succeeds
      ⟨0, some [cardOf thirteen], false, false⟩ { now := 1 } = true := by decide +kernel
  refine ⟨_, rfl, ?_⟩
  obtain ⟨shown, hshown, -, -, hearlier, hstored⟩ := stages_stored hrun rfl hsucceeds rfl hcard (by decide)
    fun act hact ↦ by
      obtain rfl := List.mem_singleton.1 hact
      exact (by decide +kernel : ([cardOf thirteen].filter (·.id == "run")).length ≤ 1)
  have hhides : 0 < shown.earlier := by
    rw [Run.earlier, hearlier]
    decide +kernel
  have hall : collect RunStage.id thirteen = thirteen := by decide +kernel
  exact ⟨shown, hshown, hhides, hall ▸ (hstored hhides).1⟩

/-- Reports of one run, the second with two cards of it. -/
def twoCards : List Act :=
  [.report 0 (some [cardOf thirteen]) false, .publish { now := 1 },
    .report 0 (some [cardOf failedFirst, cardOf fourteen]) false, .publish { now := 2 },
    .report 0 (some [cardOf fourteen]) false]

/-- A report has two cards of a run, of which only the first changes a stage: the second is compared with what was
stored before the report, so the change stays stored, and a later report of the second card finds nothing to write. -/
theorem second_card_lost : ∃ chat report rest after, ∃ card ∈ report.cards,
    Runs step (restore none [] 0 []) twoCards chat ∧ chat.publishing = report :: rest ∧
      chat.succeeds report { now := 3 } = true ∧ step chat (.publish { now := 3 }) = some after ∧ card.stages ≠ [] ∧
      ∃ shown ∈ after.prior, shown.id = card.id ∧ shown.stages = (cardWindow card).stages ∧
        shown.earlierStages = (cardWindow card).earlierStages ∧ 0 < shown.earlier ∧
        get after.stored.store card.id ≠ some (collect RunStage.id card.stages) := by
  let chat := (twoCards.foldlM step (restore none [] 0 [])).getD {}
  let after := (step chat (.publish { now := 3 })).getD {}
  have hrun : Runs step (restore none [] 0 []) twoCards chat := runs_iff_foldlM.2 (by decide +kernel)
  exact ⟨chat, ⟨0, some [cardOf fourteen], false, false⟩, [], after, cardOf fourteen, List.mem_cons_self, hrun,
    by decide +kernel⟩

end Chopin.Runs
