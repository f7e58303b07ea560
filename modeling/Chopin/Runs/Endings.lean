import Chopin.Runs.Publishing

/-!
# Whose cards, and which ends are told

A publication leaves the live cards of other sessions alone, stops those of sessions that are gone, and tells the end of
each run that it saves as ended and that was not so saved before.  What was saved of a run is not what is shown of it:
an ended card goes as soon as another session reports a new run, and if its own session then reports it once more, its
end is told a second time.
-/

set_option autoImplicit false
set_option linter.dupNamespace false

open Entries

namespace Chopin.Runs

variable {runs : List Run} {run card : Run} {id : String} {chat : Chat} {report : Report} {moment : Moment}

/-! ## Runs that are shown -/

/-- The cards of a run among others. -/
def cardsOf (id : String) (runs : List Run) : Nat := runs.countP (·.id == id)

/-- A run that has not ended is shown once. -/
def LiveOnce (runs : List Run) : Prop :=
  ∀ id, cardsOf id runs ≤ 1 ∨ ∀ run ∈ runs, run.id = id → run.status.ended = true

theorem cardsOf_eq_zero : cardsOf id runs = 0 ↔ id ∉ runs.map Run.id := by
  rw [cardsOf, List.countP_eq_zero, List.mem_map]
  exact ⟨fun h ⟨run, hrun, hid⟩ ↦ h run hrun (beq_iff_eq.2 hid), fun h run hrun hid ↦ h ⟨run, hrun, beq_iff_eq.1 hid⟩⟩

/-- The ids decide how many cards there are. -/
theorem cardsOf_congr {other : List Run} (h : runs.map Run.id = other.map Run.id) :
    cardsOf id runs = cardsOf id other := by
  have hcount : ∀ part : List Run, cardsOf id part = (part.map Run.id).countP (· == id) := fun part ↦ by
    rw [List.countP_map]
    rfl
  rw [hcount, hcount, h]

theorem eq_of_cardsOf (h : cardsOf id runs ≤ 1) (hrun : run ∈ runs) (hcard : card ∈ runs) (hid : run.id = id)
    (hsame : card.id = id) : run = card := by
  rw [cardsOf, List.countP_eq_length_filter] at h
  have hmem : ∀ {other : Run}, other ∈ runs → other.id = id → other ∈ runs.filter (·.id == id) := fun hother hsame ↦
    List.mem_filter.2 ⟨hother, beq_iff_eq.2 hsame⟩
  obtain ⟨only, honly⟩ | hnone : (∃ only, runs.filter (·.id == id) = [only]) ∨ runs.filter (·.id == id) = [] := by
    cases hfilter : runs.filter (·.id == id) with
    | nil => exact .inr rfl
    | cons only rest =>
      rw [hfilter, List.length_cons] at h
      exact .inl ⟨only, by rw [List.length_eq_zero_iff.1 (show rest.length = 0 by omega)]⟩
  · rw [honly] at hmem
    exact (List.mem_singleton.1 (hmem hrun hid)).trans (List.mem_singleton.1 (hmem hcard hsame)).symm
  · rw [hnone] at hmem
    exact absurd (hmem hrun hid) List.not_mem_nil

theorem before_eq_none : before runs id = none ↔ id ∉ runs.map Run.id := by
  rw [before, Option.map_eq_none_iff, List.find?_eq_none, List.mem_map]
  simp only [List.mem_reverse, beq_iff_eq]
  exact ⟨fun h ⟨run, hrun, hid⟩ ↦ h run hrun hid, fun h run hrun hid ↦ h ⟨run, hrun, hid⟩⟩

/-- What was before says of each shown card whether its run has ended. -/
theorem LiveOnce.before (h : LiveOnce runs) (hrun : run ∈ runs) :
    ∃ status, before runs run.id = some status ∧ status.ended = run.status.ended := by
  cases hbefore : Runs.before runs run.id with
  | none => exact (before_eq_none.1 hbefore (List.mem_map_of_mem hrun)).elim
  | some status =>
    refine ⟨status, rfl, ?_⟩
    rw [Runs.before, Option.map_eq_some_iff] at hbefore
    obtain ⟨last, hlast, rfl⟩ := hbefore
    have hmem : last ∈ runs := List.mem_reverse.1 (List.mem_of_find?_eq_some hlast)
    have hid : last.id = run.id := beq_iff_eq.1 (List.find?_some (p := fun card : Run ↦ card.id == run.id) hlast)
    obtain honce | hended := h run.id
    · rw [eq_of_cardsOf honce hmem hrun hid rfl]
    · rw [hended last hmem hid, hended run hrun rfl]

theorem LiveOnce.endedBefore (h : LiveOnce runs) (hrun : run ∈ runs) : endedBefore runs run.id = run.status.ended := by
  obtain ⟨status, hbefore, hended⟩ := h.before hrun
  rw [Runs.endedBefore, hbefore]
  exact hended

theorem LiveOnce.map {shows : Run → Run} (h : LiveOnce runs)
    (hshows : ∀ run, (shows run).id = run.id ∧ (shows run).status = run.status) : LiveOnce (runs.map shows) := by
  intro id
  have hids : (runs.map shows).map Run.id = runs.map Run.id := by
    rw [List.map_map]
    exact List.map_congr_left fun run _ ↦ (hshows run).1
  rw [cardsOf_congr hids]
  refine (h id).imp_right fun hended after hafter hid ↦ ?_
  obtain ⟨run, hrun, rfl⟩ := List.mem_map.1 hafter
  rw [(hshows run).2]
  exact hended run hrun ((hshows run).1.symm.trans hid)

/-- Restored cards have all ended. -/
theorem restored_ended {stored : Option (List Run)} {now : Nat} {entries : List Ending} {store : StageStore} :
    ∀ run ∈ (restore stored entries now store).prior, run.status.ended = true := by
  intro run hrun
  rw [restore, Chat.prior, restoreRuns] at hrun
  simp only at hrun
  split at hrun
  · cases hrun
  · obtain ⟨old, -, rfl⟩ := List.mem_map.1 hrun
    exact (stops_run old now).2.2.2

/-! ## The cards after a publication -/

variable {session : Session}

theorem theirs_congr (h : card.id = run.id) : chat.theirs session card = chat.theirs session run := by
  rw [Chat.theirs, Chat.theirs, h]

/-- The card is of no session, or of another one that is gone, and has not ended. -/
def Chat.left (chat : Chat) (session : Session) (run : Run) : Bool :=
  !run.status.ended && !chat.theirs session run && decide (get chat.owners run.id ≠ some session)

/-- One of the session's own cards, as it stands or stopped. -/
theorem mem_mine {now : Nat} : card ∈ chat.mine session now ↔
    ∃ run ∈ chat.prior, chat.theirs session run = false ∧
      card = if chat.left session run then stopped run now else run := by
  rw [Chat.mine, List.mem_map]
  refine exists_congr fun run ↦ ?_
  rw [List.mem_filter, Bool.not_eq_true', and_assoc]
  refine and_congr_right fun _ ↦ and_congr_right fun htheirs ↦ ?_
  have hleft : (get chat.owners run.id = some session ∨ run.status.ended = true) ↔ ¬chat.left session run = true := by
    rw [Chat.left, htheirs]
    by_cases hholds : get chat.owners run.id = some session <;> cases run.status.ended <;> simp [hholds]
  by_cases hkeeps : get chat.owners run.id = some session ∨ run.status.ended = true
  · rw [if_pos hkeeps, if_neg (hleft.1 hkeeps), eq_comm]
  · rw [if_neg hkeeps, if_pos (not_not.1 fun h ↦ hkeeps (hleft.2 h)), eq_comm]

theorem ids_mine (session : Session) (now : Nat) : (chat.mine session now).map Run.id =
    (chat.prior.filter fun run ↦ !chat.theirs session run).map Run.id := by
  rw [Chat.mine, List.map_map]
  refine List.map_congr_left fun run _ ↦ ?_
  rw [Function.comp_apply]
  split <;> rfl

/-- A card is of another session or the session's own, not both. -/
theorem cardsOf_others_mine (id : String) (chat : Chat) (session : Session) (now : Nat) :
    cardsOf id (chat.others session) + cardsOf id (chat.mine session now) = cardsOf id chat.prior := by
  rw [cardsOf_congr (ids_mine session now), cardsOf, cardsOf, cardsOf, Chat.others]
  exact (List.countP_eq_countP_filter_add chat.prior (·.id == id) (chat.theirs session)).symm

/-- The report has a new run, for the session. -/
def Chat.renews (chat : Chat) (report : Report) (moment : Moment) : Bool :=
  report.cards.any fun card ↦ !((chat.mine report.session moment.now).map Run.id).contains card.id

/-- What a report merges into the session's cards: those reported, and if no new run is, the ended ones. -/
theorem merged_cards (h : report.runs ≠ none) : mergeRuns (chat.mine report.session moment.now)
      (report.runs.map (List.map (incomingCard chat.prior))) moment.now =
    if chat.renews report moment then report.cards.map (incomingCard chat.prior)
    else ((chat.mine report.session moment.now).filter fun run ↦
        run.status.ended && !(report.cards.map Run.id).contains run.id) ++
      report.cards.map (incomingCard chat.prior) := by
  obtain ⟨cards, hruns⟩ := Option.ne_none_iff_exists'.1 h
  have hcards : report.cards = cards := by rw [Report.cards, hruns, Option.getD_some]
  have hids : (cards.map (incomingCard chat.prior)).map Run.id = cards.map Run.id := by
    rw [List.map_map]
    exact List.map_congr_left fun card _ ↦ incomingCard_id
  have hany : (cards.map (incomingCard chat.prior)).any
        (fun card ↦ !((chat.mine report.session moment.now).map Run.id).contains card.id) =
      chat.renews report moment := by
    rw [List.any_map, Chat.renews, hcards]
    exact congrArg cards.any (funext fun card ↦ by rw [Function.comp_apply, incomingCard_id])
  rw [hruns, Option.map_some, mergeRuns, hcards]
  simp only [hany, hids]

theorem ids_incoming : (report.cards.map (incomingCard chat.prior)).map Run.id = report.cards.map Run.id := by
  rw [List.map_map]
  exact List.map_congr_left fun card _ ↦ incomingCard_id

/-- A report without cards ends all of the session's. -/
theorem merged_none (h : report.runs = none) : mergeRuns (chat.mine report.session moment.now)
      (report.runs.map (List.map (incomingCard chat.prior))) moment.now =
    (chat.mine report.session moment.now).map fun run ↦ if run.status.ended then run else stopped run moment.now := by
  rw [h]
  rfl

/-- The ids of the session's cards. -/
theorem ids_own (chat : Chat) (report : Report) (moment : Moment) : (chat.own report moment).map Run.id =
    if report.runs = none then (chat.mine report.session moment.now).map Run.id
    else if chat.renews report moment then report.cards.map Run.id
    else (((chat.mine report.session moment.now).filter fun run ↦
      run.status.ended && !(report.cards.map Run.id).contains run.id).map Run.id) ++ report.cards.map Run.id := by
  obtain ⟨shows, hown, hshows⟩ := own_eq chat report moment
  have hids : Run.id ∘ shows = Run.id := funext fun run ↦ (hshows run).1
  rw [hown, List.map_map, hids]
  by_cases hruns : report.runs = none
  · rw [merged_none hruns, if_pos hruns, List.map_map]
    exact List.map_congr_left fun run _ ↦ (stops_run run moment.now).1
  · rw [merged_cards hruns, if_neg hruns]
    split
    · exact ids_incoming
    · rw [List.map_append, ids_incoming]

/-- An own card is one that was reported, or has ended. -/
theorem own_cases (h : card ∈ chat.own report moment) : (∃ reported ∈ report.cards, reported.id = card.id ∧
        card.status.ended = (report.releasing || (begun reported).status.ended)) ∨
      (card.id ∈ (chat.mine report.session moment.now).map Run.id ∧ card.id ∉ report.cards.map Run.id ∧
        card.status.ended = true) := by
  obtain ⟨shows, hown, hshows⟩ := own_eq chat report moment
  rw [hown] at h
  obtain ⟨run, hrun, rfl⟩ := List.mem_map.1 h
  obtain ⟨hid, -, -, hended, -⟩ := hshows run
  rw [hid, hended]
  have hreported : ∀ run ∈ report.cards.map (incomingCard chat.prior), ∃ reported ∈ report.cards,
      reported.id = run.id ∧
        (report.releasing || run.status.ended) = (report.releasing || (begun reported).status.ended) := by
    intro run hrun
    obtain ⟨reported, hmem, rfl⟩ := List.mem_map.1 hrun
    exact ⟨reported, hmem, incomingCard_id.symm, by rw [incomingCard_status]⟩
  by_cases hruns : report.runs = none
  · rw [merged_none hruns] at hrun
    obtain ⟨old, hold, rfl⟩ := List.mem_map.1 hrun
    obtain ⟨holdId, -, -, holdEnded⟩ := stops_run old moment.now
    right
    rw [Report.cards, hruns, holdId, holdEnded, Bool.or_true]
    exact ⟨List.mem_map_of_mem hold, List.not_mem_nil, rfl⟩
  · rw [merged_cards hruns] at hrun
    split at hrun
    · exact .inl (hreported run hrun)
    · obtain hkept | hrun := List.mem_append.1 hrun
      · right
        rw [List.mem_filter, Bool.and_eq_true, Bool.not_eq_true', List.contains_eq_mem,
          decide_eq_false_iff_not] at hkept
        obtain ⟨hmine, hendedRun, hnot⟩ := hkept
        rw [hendedRun, Bool.or_true]
        exact ⟨List.mem_map_of_mem hmine, hnot, rfl⟩
      · exact .inl (hreported run hrun)

theorem mem_cards : card ∈ chat.cards report moment ↔ (card ∈ chat.prior ∧ chat.theirs report.session card = true ∧
        (chat.fresh report && card.status.ended) = false) ∨ card ∈ chat.own report moment := by
  rw [(cards_perm chat report moment).mem_iff, List.mem_append, List.mem_filter, Chat.others, List.mem_filter,
    Bool.not_eq_true', and_assoc]

theorem cardsOf_cards_le (id : String) (chat : Chat) (report : Report) (moment : Moment) :
    cardsOf id (chat.cards report moment) ≤
      cardsOf id (chat.others report.session) + cardsOf id (chat.own report moment) := by
  rw [cardsOf, (cards_perm chat report moment).countP_eq, List.countP_append]
  exact Nat.add_le_add_right (List.filter_sublist.countP_le) _

/-- A report with one card of each run leaves its session at most the cards it had of a run, and one of a run that is
reported. -/
theorem cardsOf_own (chat : Chat) (moment : Moment) (hnodup : (report.cards.map Run.id).Nodup) :
    (id ∈ report.cards.map Run.id → cardsOf id (chat.own report moment) ≤ 1) ∧
      (id ∉ report.cards.map Run.id → cardsOf id (chat.own report moment) ≤
        cardsOf id (chat.mine report.session moment.now)) := by
  have hreported : cardsOf id report.cards ≤ 1 := by
    have hcount : cardsOf id report.cards = (report.cards.map Run.id).count id := by
      rw [List.count, List.countP_map]
      rfl
    rw [hcount]
    exact List.nodup_iff_count_le_one.1 hnodup id
  have hids := ids_own chat report moment
  split at hids
  · rename_i hruns
    rw [cardsOf_congr hids, Report.cards, hruns]
    exact ⟨fun h ↦ (by cases h), fun _ ↦ Nat.le_refl _⟩
  · split at hids
    · rw [cardsOf_congr hids]
      exact ⟨fun _ ↦ hreported, fun hnot ↦ by rw [cardsOf_eq_zero.2 hnot]; exact Nat.zero_le _⟩
    · rw [← List.map_append] at hids
      have hsum : cardsOf id (chat.own report moment) =
          cardsOf id ((chat.mine report.session moment.now).filter fun run ↦
            run.status.ended && !(report.cards.map Run.id).contains run.id) + cardsOf id report.cards := by
        rw [cardsOf_congr hids, cardsOf, List.countP_append]
        rfl
      rw [hsum]
      refine ⟨fun hmem ↦ ?_, fun hnot ↦ ?_⟩
      · rw [cardsOf_eq_zero.2, Nat.zero_add]
        · exact hreported
        · intro h
          obtain ⟨run, hrun, rfl⟩ := List.mem_map.1 h
          have hother := (List.mem_filter.1 hrun).2
          rw [Bool.and_eq_true, Bool.not_eq_true', List.contains_eq_mem, decide_eq_false_iff_not] at hother
          exact hother.2 hmem
      · rw [cardsOf_eq_zero.2 hnot, Nat.add_zero]
        exact List.filter_sublist.countP_le

/-! ## Publications that end no run again -/

/-- A chat, and the last status saved of each run. -/
structure Ledger where
  chat : Chat
  saved : String → Option RunStatus

/-- A publication that shows each run once and ends none again. -/
structure Clear (ledger : Ledger) (report : Report) : Prop where
  /-- The report has one card of each run. -/
  once : (report.cards.map Run.id).Nodup
  /-- What it reports is not shown as the card of another session that is not gone. -/
  own : ∀ card ∈ report.cards, card.id ∈ ledger.chat.prior.map Run.id →
    ledger.chat.theirs report.session card = false
  /-- A run that was saved as ended and is not shown any more is not reported as ended. -/
  ends : ∀ card ∈ report.cards, card.id ∉ ledger.chat.prior.map Run.id →
    (ledger.saved card.id).any RunStatus.ended = true → (report.releasing || (begun card).status.ended) = false

variable {ledger after : Ledger} {act : Act}

theorem Clear.reported (h : Clear ledger report) (hreported : id ∈ report.cards.map Run.id) :
    cardsOf id (ledger.chat.cards report moment) ≤ 1 := by
  have hothers : cardsOf id (ledger.chat.others report.session) = 0 := by
    refine cardsOf_eq_zero.2 fun hmem ↦ ?_
    obtain ⟨run, hrun, rfl⟩ := List.mem_map.1 hmem
    obtain ⟨hprior, htheirs⟩ := List.mem_filter.1 hrun
    obtain ⟨card, hcard, hid⟩ := List.mem_map.1 hreported
    have hown := h.own card hcard (hid ▸ List.mem_map_of_mem hprior)
    rw [theirs_congr hid, htheirs] at hown
    cases hown
  have hle := cardsOf_cards_le id ledger.chat report moment
  have hin := (cardsOf_own ledger.chat moment h.once).1 hreported
  omega

theorem Clear.single (h : Clear ledger report) (honce : cardsOf id ledger.chat.prior ≤ 1) :
    cardsOf id (ledger.chat.cards report moment) ≤ 1 := by
  by_cases hreported : id ∈ report.cards.map Run.id
  · exact h.reported hreported
  · have hle := cardsOf_cards_le id ledger.chat report moment
    have hsplit := cardsOf_others_mine id ledger.chat report.session moment.now
    have hout := (cardsOf_own ledger.chat moment h.once).2 hreported
    omega

/-- No live run is shown twice after the publication. -/
theorem Clear.liveOnce (h : Clear ledger report) (honce : LiveOnce ledger.chat.prior) :
    LiveOnce (ledger.chat.cards report moment) := by
  intro id
  obtain hsingle | hended := honce id
  · exact .inl (h.single hsingle)
  · by_cases hreported : id ∈ report.cards.map Run.id
    · exact .inl (h.reported hreported)
    · refine .inr fun card hcard hid ↦ ?_
      obtain ⟨hprior, -, -⟩ | hown := mem_cards.1 hcard
      · exact hended card hprior hid
      · obtain ⟨reported, hmem, hsame, -⟩ | ⟨-, -, hstatus⟩ := own_cases hown
        · exact (hreported (hid ▸ hsame ▸ List.mem_map_of_mem hmem)).elim
        · exact hstatus

/-! ## Ends that are told -/

/-- The ends of a run that are told in the transcript. -/
def told (chat : Chat) (id : String) : Nat := cardsOf id (chat.entries.map Ending.run)

/-- The cards of a run that ended. -/
def endsOf (id : String) (runs : List Run) : Nat := runs.countP fun run ↦ run.id == id && run.status.ended

theorem endsOf_of_not_mem (h : id ∉ runs.map Run.id) : endsOf id runs = 0 := by
  rw [endsOf, List.countP_eq_zero]
  intro run hrun hends
  rw [Bool.and_eq_true, beq_iff_eq] at hends
  exact h (hends.1 ▸ List.mem_map_of_mem hrun)

theorem endsOf_of_mem (h : cardsOf run.id runs ≤ 1) (hrun : run ∈ runs) :
    endsOf run.id runs = if run.status.ended then 1 else 0 := by
  have hone : cardsOf run.id runs = 1 := by
    have hpos : cardsOf run.id runs ≠ 0 := fun hzero ↦ cardsOf_eq_zero.1 hzero (List.mem_map_of_mem hrun)
    omega
  have hsame : ∀ card ∈ runs, card.id = run.id → card = run := fun card hcard hid ↦
    eq_of_cardsOf h hcard hrun hid rfl
  cases hended : run.status.ended with
  | true =>
    rw [if_pos rfl, ← hone, endsOf, cardsOf]
    refine List.countP_congr fun card hcard ↦ ?_
    rw [Bool.and_eq_true, beq_iff_eq]
    exact ⟨And.left, fun hid ↦ ⟨hid, hsame card hcard hid ▸ hended⟩⟩
  | false =>
    rw [if_neg Bool.false_ne_true, endsOf, List.countP_eq_zero]
    intro card hcard hends
    rw [Bool.and_eq_true, beq_iff_eq] at hends
    rw [hsame card hcard hends.1, hended] at hends
    exact Bool.false_ne_true hends.2

theorem told_publishReport (h : chat.succeeds report moment = true) :
    told (chat.publishReport report moment) id = told chat id +
      if endedBefore chat.prior id then 0
      else endsOf id (chat.cards report moment) + endsOf id (chat.replaced report moment) := by
  have hentries := entries_publishReport chat report moment
  rw [if_pos h] at hentries
  rw [told, cardsOf, hentries.countP_eq, List.countP_append]
  refine congrArg _ ?_
  rw [Chat.ending, List.countP_filter]
  have hone : ∀ run : Run, (run.id == id && (run.status.ended && !endedBefore chat.prior run.id)) =
      (!endedBefore chat.prior id && (run.id == id && run.status.ended)) := by
    intro run
    cases hid : run.id == id with
    | false => rw [Bool.false_and, Bool.false_and, Bool.and_false]
    | true => rw [Bool.true_and, Bool.true_and, beq_iff_eq.1 hid, Bool.and_comm]
  simp only [hone]
  cases endedBefore chat.prior id with
  | true => exact List.countP_eq_zero.2 fun _ _ ↦ Bool.false_ne_true
  | false =>
    simp only [Bool.not_false, Bool.true_and]
    exact List.countP_append

theorem told_failed (h : chat.succeeds report moment = false) :
    told (chat.publishReport report moment) id = told chat id := by
  have hentries := entries_publishReport chat report moment
  rw [h, if_neg Bool.false_ne_true, List.append_nil] at hentries
  exact hentries.countP_eq _

/-- The last status saved of a run: that of its card, and of one whose session is gone that it was stopped, also where
the card is replaced. -/
def Chat.saves (chat : Chat) (report : Report) (shown : List Run) (saved : String → Option RunStatus) (id : String) :
    Option RunStatus :=
  match before shown id with
  | some status => some status
  | none =>
    if chat.prior.any fun run ↦ run.id == id && chat.left report.session run then some .stopped else saved id

/-- The report that an act publishes. -/
def Chat.turn (chat : Chat) : Act → Option (Report × Moment)
  | .publish moment => chat.publishing.head?.map (·, moment)
  | _ => none

/-- A step, with what it saves of each run. -/
def Ledger.track (ledger : Ledger) (act : Act) : Option Ledger :=
  (step ledger.chat act).map fun chat ↦
    { chat
      saved := match ledger.chat.turn act with
        | some (report, moment) =>
          if ledger.chat.succeeds report moment then ledger.chat.saves report chat.prior ledger.saved
          else ledger.saved
        | none => ledger.saved }

/-- A step publishes a report, or changes neither what is shown nor the transcript nor what is saved. -/
theorem track_cases (h : ledger.track act = some after) :
    (∃ report moment, ledger.chat.turn act = some (report, moment) ∧ ledger.chat.succeeds report moment = true ∧
      after.chat.prior = (ledger.chat.cards report moment).map cardWindow ∧
      (∀ id, told after.chat id = told (ledger.chat.publishReport report moment) id) ∧
      after.saved = ledger.chat.saves report after.chat.prior ledger.saved) ∨
    (after.chat.prior = ledger.chat.prior ∧ (∀ id, told after.chat id = told ledger.chat id) ∧
      after.saved = ledger.saved ∧
      ∀ report moment, ledger.chat.turn act = some (report, moment) → ledger.chat.succeeds report moment = false) := by
  rw [Ledger.track, Option.map_eq_some_iff] at h
  obtain ⟨chat, hstep, rfl⟩ := h
  have hnothing : ∀ report moment, (none : Option (Report × Moment)) = some (report, moment) →
      ledger.chat.succeeds report moment = false := fun _ _ h ↦ nomatch h
  cases act with
  | report session cards followUp =>
    cases hstep
    exact .inr ⟨rfl, fun _ ↦ rfl, rfl, hnothing⟩
  | release session =>
    cases hstep
    exact .inr ⟨rfl, fun _ ↦ rfl, rfl, hnothing⟩
  | leave session =>
    cases hstep
    exact .inr ⟨rfl, fun _ ↦ rfl, rfl, hnothing⟩
  | publish moment =>
    rw [step] at hstep
    split at hstep
    · cases hstep
    · rename_i report rest hqueue
      cases hstep
      have hturn : ledger.chat.turn (.publish moment) = some (report, moment) := by
        rw [Chat.turn, hqueue]
        rfl
      simp only [hturn]
      cases hsucceeds : ledger.chat.succeeds report moment with
      | true =>
        have hsame : { ledger.chat with publishing := rest }.succeeds report moment = true := hsucceeds
        refine .inl ⟨report, moment, rfl, hsucceeds, ?_, fun id ↦ ?_, rfl⟩
        · exact prior_publishReport.trans (if_pos hsame)
        · exact (told_publishReport hsame).trans (told_publishReport hsucceeds).symm
      | false =>
        have hsame : { ledger.chat with publishing := rest }.succeeds report moment = false := hsucceeds
        refine .inr ⟨?_, fun id ↦ told_failed hsame, rfl, ?_⟩
        · rw [prior_publishReport, hsame, if_neg Bool.false_ne_true]
          rfl
        · rintro _ _ ⟨⟩
          exact hsucceeds

/-! ## One publication -/

/-- What holds of a ledger: no live run is shown twice, what is saved agrees with what is shown, and a live card shows
all of the stages it has. -/
structure Kept (ledger : Ledger) : Prop where
  once : LiveOnce ledger.chat.prior
  agrees : ∀ run ∈ ledger.chat.prior, ∃ status, ledger.saved run.id = some status ∧ status.ended = run.status.ended
  short : ∀ run ∈ ledger.chat.prior, run.status.ended = false → run.stages.length ≤ cardStages

/-- The run was not ended as last saved, and now is. -/
def Ledger.ends (ledger after : Ledger) (id : String) : Bool :=
  !(ledger.saved id).any RunStatus.ended && (after.saved id).any RunStatus.ended

theorem Kept.ended (h : Kept ledger) (hrun : run ∈ ledger.chat.prior) :
    (ledger.saved run.id).any RunStatus.ended = run.status.ended := by
  obtain ⟨status, hsaved, hended⟩ := h.agrees run hrun
  rw [hsaved]
  exact hended

theorem endedBefore_of_not_mem (h : id ∉ runs.map Run.id) : endedBefore runs id = false := by
  rw [endedBefore, before_eq_none.2 h]
  rfl

/-- A live card of another session is shown as it is. -/
theorem others_stay (moment : Moment) (hshort : run.stages.length ≤ cardStages) (hrun : run ∈ chat.prior)
    (hlive : run.status.ended = false) (htheirs : chat.theirs report.session run = true) :
    run ∈ (chat.cards report moment).map cardWindow := by
  refine List.mem_map.2 ⟨run, mem_cards.2 (.inl ⟨hrun, htheirs, ?_⟩), cardWindow_of_short hshort⟩
  rw [hlive, Bool.and_false]

/-- A card that is left is stopped, or a new run replaces it. -/
theorem left_stops (moment : Moment) (hshort : run.stages.length ≤ cardStages) (hrun : run ∈ chat.prior)
    (hleft : chat.left report.session run = true) (hnot : run.id ∉ report.cards.map Run.id) :
    stopped run moment.now ∈ (chat.cards report moment).map cardWindow ∨
      run.id ∉ (chat.cards report moment).map Run.id := by
  have htheirs : chat.theirs report.session run = false := by
    rw [Chat.left, Bool.and_eq_true, Bool.and_eq_true, Bool.not_eq_true'] at hleft
    simpa using hleft.1.2
  have hmine : stopped run moment.now ∈ chat.mine report.session moment.now :=
    mem_mine.2 ⟨run, hrun, htheirs, (if_pos hleft).symm⟩
  have hids := ids_own chat report moment
  obtain ⟨shows, hown, hshows⟩ := own_eq chat report moment
  have hstays : stopped run moment.now ∈ mergeRuns (chat.mine report.session moment.now)
      (report.runs.map (List.map (incomingCard chat.prior))) moment.now →
      stopped run moment.now ∈ (chat.cards report moment).map cardWindow := by
    intro hmem
    have hshown : stopped run moment.now ∈ chat.own report moment := by
      rw [hown]
      exact List.mem_map.2 ⟨_, hmem, (hshows _).2.2.2.2 rfl rfl⟩
    exact List.mem_map.2 ⟨_, mem_cards.2 (.inr hshown), cardWindow_of_short hshort⟩
  by_cases hruns : report.runs = none
  · refine .inl (hstays ?_)
    rw [merged_none hruns]
    exact List.mem_map.2 ⟨_, hmine, if_pos rfl⟩
  · rw [if_neg hruns] at hids
    cases hnew : chat.renews report moment with
    | true =>
      rw [hnew, if_pos rfl] at hids
      refine .inr fun hmem ↦ ?_
      obtain ⟨card, hcard, hid⟩ := List.mem_map.1 hmem
      obtain ⟨-, hother, -⟩ | hcard := mem_cards.1 hcard
      · rw [theirs_congr hid, htheirs] at hother
        cases hother
      · exact hnot (hids ▸ hid ▸ List.mem_map_of_mem hcard)
    | false =>
      refine .inl (hstays ?_)
      rw [merged_cards hruns, hnew, if_neg Bool.false_ne_true]
      refine List.mem_append_left _ (List.mem_filter.2 ⟨hmine, ?_⟩)
      rw [Bool.and_eq_true, Bool.not_eq_true', List.contains_eq_mem, decide_eq_false_iff_not]
      exact ⟨rfl, hnot⟩

/-! ## One publication tells what it ends -/

theorem replaced_not_shown (h : id ∈ (chat.cards report moment).map Run.id) :
    id ∉ (chat.replaced report moment).map Run.id := by
  intro hmem
  obtain ⟨run, hrun, rfl⟩ := List.mem_map.1 hmem
  have hgone := (List.mem_filter.1 hrun).2
  rw [Bool.not_eq_true', List.contains_eq_mem, decide_eq_false_iff_not] at hgone
  exact hgone h

theorem ids_cardWindow_map (cards : List Run) : (cards.map cardWindow).map Run.id = cards.map Run.id := by
  rw [List.map_map]
  exact List.map_congr_left fun run _ ↦ cardWindow_id

variable {shown : List Run}

/-- What is saved of a run that is shown after the publication is what its card says. -/
theorem saves_shown (chat : Chat) (report : Report) (saved : String → Option RunStatus)
    (h : LiveOnce shown) (hrun : run ∈ shown) :
    ∃ status, chat.saves report shown saved run.id = some status ∧ status.ended = run.status.ended := by
  obtain ⟨status, hbefore, hended⟩ := h.before hrun
  refine ⟨status, ?_, hended⟩
  rw [Chat.saves, hbefore]

theorem saves_hidden (h : id ∉ shown.map Run.id) {saved : String → Option RunStatus} :
    chat.saves report shown saved id =
      if chat.prior.any fun run ↦ run.id == id && chat.left report.session run then some .stopped else saved id := by
  rw [Chat.saves, before_eq_none.2 h]

theorem replaced_not_prior (h : id ∉ chat.prior.map Run.id) : id ∉ (chat.replaced report moment).map Run.id := by
  intro hmem
  obtain ⟨card, hcard, rfl⟩ := List.mem_map.1 hmem
  obtain ⟨run, hrun, -, rfl⟩ := mem_mine.1 (List.mem_filter.1 hcard).1
  refine h (List.mem_map.2 ⟨run, hrun, ?_⟩)
  split <;> rfl

/-- How many ends a publication tells of a run. -/
def Chat.ends (chat : Chat) (report : Report) (moment : Moment) (id : String) : Nat :=
  if endedBefore chat.prior id then 0
  else endsOf id (chat.cards report moment) + endsOf id (chat.replaced report moment)

/-- What the publication saves of a run that is shown after it. -/
theorem ends_shown (hclear : Clear ledger report) (honce : LiveOnce ledger.chat.prior)
    (hsingle : cardsOf id ledger.chat.prior ≤ 1) (hbefore : endedBefore ledger.chat.prior id = false)
    (hcard : card ∈ ledger.chat.cards report moment) (hid : card.id = id) :
    ledger.chat.ends report moment id = (if card.status.ended then 1 else 0) ∧
      (ledger.chat.saves report ((ledger.chat.cards report moment).map cardWindow) ledger.saved id).any
        RunStatus.ended = card.status.ended := by
  subst hid
  have hmem := List.mem_map_of_mem (f := Run.id) hcard
  have hafter : LiveOnce ((ledger.chat.cards report moment).map cardWindow) :=
    (hclear.liveOnce honce).map fun run ↦ ⟨cardWindow_id, cardWindow_status⟩
  obtain ⟨status, hsaves, hended⟩ := saves_shown ledger.chat report ledger.saved hafter
    (List.mem_map_of_mem (f := cardWindow) hcard)
  rw [cardWindow_id] at hsaves
  rw [cardWindow_status] at hended
  rw [Chat.ends, hbefore, if_neg Bool.false_ne_true, endsOf_of_not_mem (replaced_not_shown hmem), Nat.add_zero,
    endsOf_of_mem (hclear.single hsingle) hcard, hsaves]
  exact ⟨rfl, hended⟩

/-- What the publication saves of a live run that is not shown after it: it was stopped, or dropped as it was. -/
theorem ends_hidden (h : Kept ledger) (hrun : run ∈ ledger.chat.prior) (hlive : run.status.ended = false)
    (hshown : run.id ∉ (ledger.chat.cards report moment).map Run.id) :
    ledger.chat.ends report moment run.id = (if ledger.chat.left report.session run then 1 else 0) ∧
      (ledger.chat.saves report ((ledger.chat.cards report moment).map cardWindow) ledger.saved run.id).any
        RunStatus.ended = ledger.chat.left report.session run := by
  have hbefore := h.once.endedBefore hrun
  rw [hlive] at hbefore
  have hsingle : cardsOf run.id ledger.chat.prior ≤ 1 := (h.once run.id).resolve_right fun hall ↦ by
    rw [hall run hrun rfl] at hlive
    cases hlive
  -- The card is gone, so it was the session's own.
  have htheirs : ledger.chat.theirs report.session run = false := by
    rw [← Bool.not_eq_true]
    intro htheirs
    have hstays := others_stay moment (h.short run hrun hlive) hrun hlive htheirs
    exact hshown (ids_cardWindow_map (ledger.chat.cards report moment) ▸ List.mem_map_of_mem hstays)
  have hleft : (ledger.chat.prior.any fun other ↦
      other.id == run.id && ledger.chat.left report.session other) = ledger.chat.left report.session run := by
    rw [Bool.eq_iff_iff, List.any_eq_true]
    constructor
    · rintro ⟨other, hother, hsame⟩
      rw [Bool.and_eq_true, beq_iff_eq] at hsame
      exact eq_of_cardsOf hsingle hother hrun hsame.1 rfl ▸ hsame.2
    · exact fun hleft ↦ ⟨run, hrun, by rw [hleft, beq_self_eq_true]; rfl⟩
  obtain ⟨card, hcard⟩ : ∃ card, card = if ledger.chat.left report.session run then stopped run moment.now else run :=
    ⟨_, rfl⟩
  have hid : card.id = run.id := by
    rw [hcard]
    split <;> rfl
  have hreplaced : card ∈ ledger.chat.replaced report moment := by
    refine List.mem_filter.2 ⟨mem_mine.2 ⟨run, hrun, htheirs, hcard⟩, ?_⟩
    rw [Bool.not_eq_true', List.contains_eq_mem, decide_eq_false_iff_not, hid]
    exact hshown
  have hone : cardsOf card.id (ledger.chat.replaced report moment) ≤ 1 := by
    have hpart : cardsOf run.id (ledger.chat.replaced report moment) ≤
        cardsOf run.id (ledger.chat.mine report.session moment.now) := List.filter_sublist.countP_le
    have hsplit := cardsOf_others_mine run.id ledger.chat report.session moment.now
    rw [hid]
    omega
  have hcount := endsOf_of_mem hone hreplaced
  rw [hid] at hcount
  rw [Chat.ends, hbefore, if_neg Bool.false_ne_true, endsOf_of_not_mem hshown, Nat.zero_add, hcount,
    saves_hidden (by rwa [ids_cardWindow_map]), hleft, hcard]
  cases ledger.chat.left report.session run with
  | true => exact ⟨rfl, rfl⟩
  | false => exact ⟨by rw [if_neg Bool.false_ne_true, hlive], (h.ended hrun).trans hlive⟩

/-- A run that is shown anew was reported, and had not been saved as ended if it now ends. -/
theorem saved_of_new (hclear : Clear ledger report) (hprior : card.id ∉ ledger.chat.prior.map Run.id)
    (hcard : card ∈ ledger.chat.cards report moment) (hended : card.status.ended = true) :
    (ledger.saved card.id).any RunStatus.ended = false := by
  rw [← Bool.not_eq_true]
  intro hsaved
  obtain ⟨hold, -⟩ | hown := mem_cards.1 hcard
  · exact hprior (List.mem_map_of_mem hold)
  · obtain ⟨reported, hreported, hid, hstatus⟩ | ⟨hmine, -⟩ := own_cases hown
    · have hlive := hclear.ends reported hreported (hid ▸ hprior) (hid ▸ hsaved)
      rw [hstatus, hlive] at hended
      cases hended
    · rw [ids_mine] at hmine
      obtain ⟨run, hrun, hid⟩ := List.mem_map.1 hmine
      exact hprior (hid ▸ List.mem_map_of_mem (List.mem_of_mem_filter hrun))

/-- **A publication tells exactly the ends that it saves.** -/
theorem ends_saved (moment : Moment) (h : Kept ledger) (hclear : Clear ledger report) (id : String) :
    ledger.chat.ends report moment id = if !(ledger.saved id).any RunStatus.ended &&
      (ledger.chat.saves report ((ledger.chat.cards report moment).map cardWindow) ledger.saved id).any
        RunStatus.ended then 1 else 0 := by
  by_cases hprior : id ∈ ledger.chat.prior.map Run.id
  · obtain ⟨run, hrun, rfl⟩ := List.mem_map.1 hprior
    have hbefore := h.once.endedBefore hrun
    have hsaved := h.ended hrun
    cases hended : run.status.ended with
    | true =>
      rw [Chat.ends, hbefore, hended, if_pos rfl, hsaved, hended]
      rfl
    | false =>
      rw [hended] at hbefore hsaved
      rw [hsaved, Bool.not_false, Bool.true_and]
      by_cases hshown : run.id ∈ (ledger.chat.cards report moment).map Run.id
      · obtain ⟨card, hcard, hid⟩ := List.mem_map.1 hshown
        have hsingle : cardsOf run.id ledger.chat.prior ≤ 1 := (h.once run.id).resolve_right fun hall ↦ by
          rw [hall run hrun rfl] at hended
          cases hended
        obtain ⟨hends, hsaves⟩ := ends_shown hclear h.once hsingle hbefore hcard hid
        rw [hends, hsaves]
      · obtain ⟨hends, hsaves⟩ := ends_hidden h hrun hended hshown
        rw [hends, hsaves]
  · have hbefore := endedBefore_of_not_mem hprior
    by_cases hshown : id ∈ (ledger.chat.cards report moment).map Run.id
    · obtain ⟨card, hcard, rfl⟩ := List.mem_map.1 hshown
      have hsingle : cardsOf card.id ledger.chat.prior ≤ 1 := by
        rw [cardsOf_eq_zero.2 hprior]
        exact Nat.zero_le 1
      obtain ⟨hends, hsaves⟩ := ends_shown hclear h.once hsingle hbefore hcard rfl
      rw [hends, hsaves]
      cases hended : card.status.ended with
      | false => rw [Bool.and_false]
      | true =>
        rw [saved_of_new hclear hprior hcard hended]
        rfl
    · have hnone : (ledger.chat.prior.any fun run ↦ run.id == id && ledger.chat.left report.session run) = false := by
        rw [List.any_eq_false]
        intro run hrun hsame
        rw [Bool.and_eq_true, beq_iff_eq] at hsame
        exact hprior (hsame.1 ▸ List.mem_map_of_mem hrun)
      rw [Chat.ends, hbefore, if_neg Bool.false_ne_true, endsOf_of_not_mem hshown,
        endsOf_of_not_mem (replaced_not_prior hprior), saves_hidden (by rwa [ids_cardWindow_map]), hnone,
        if_neg Bool.false_ne_true]
      cases (ledger.saved id).any RunStatus.ended <;> rfl

/-! ## Every run -/

/-- A chat that comes back with what was stored, all of which is saved. -/
def opened (runs : Option (List Run)) (entries : List Ending) (now : Nat) (store : StageStore) : Ledger where
  chat := restore runs entries now store
  saved := before (restore runs entries now store).prior

/-- Nothing is published that ends a run again. -/
def Plainly (ledger : Ledger) (act : Act) : Prop :=
  ∀ report moment, ledger.chat.turn act = some (report, moment) → moment.persists = true → Clear ledger report

theorem kept_opened (runs : Option (List Run)) (entries : List Ending) (now : Nat) (store : StageStore) :
    Kept (opened runs entries now store) := by
  have honce : LiveOnce (opened runs entries now store).chat.prior := fun id ↦
    .inr fun run hrun _ ↦ restored_ended run hrun
  refine ⟨honce, fun run hrun ↦ honce.before hrun, fun run hrun hlive ↦ ?_⟩
  rw [restored_ended run hrun] at hlive
  cases hlive

/-- A report that is published meets the condition. -/
theorem Plainly.clear (h : Plainly ledger act) (hturn : ledger.chat.turn act = some (report, moment))
    (hsucceeds : ledger.chat.succeeds report moment = true) : Clear ledger report := by
  rw [Chat.succeeds, Bool.and_eq_true] at hsucceeds
  exact h report moment hturn hsucceeds.2

/-- One step keeps the ledger. -/
theorem Kept.track (h : Kept ledger) (hplain : Plainly ledger act) (hstep : ledger.track act = some after) :
    Kept after := by
  obtain ⟨report, moment, hturn, hsucceeds, hprior, -, hsaved⟩ | ⟨hprior, -, hsaved, -⟩ := track_cases hstep
  · have honce : LiveOnce after.chat.prior := by
      rw [hprior]
      exact ((hplain.clear hturn hsucceeds).liveOnce h.once).map fun run ↦ ⟨cardWindow_id, cardWindow_status⟩
    refine ⟨honce, fun run hrun ↦ ?_, fun run hrun _ ↦ ?_⟩
    · rw [hsaved]
      exact saves_shown ledger.chat report ledger.saved honce hrun
    · rw [hprior] at hrun
      obtain ⟨card, -, rfl⟩ := List.mem_map.1 hrun
      exact cardWindow_short
  · refine ⟨?_, ?_, ?_⟩ <;> rw [hprior]
    · exact h.once
    · rw [hsaved]
      exact h.agrees
    · exact h.short

/-- **Cards belong to their session, and each end is told once**: in every run whose publications end no run again, a
step leaves a live card alone that another session holds which is not gone; a live card of no such session is stopped by
the next report that does not have it, unless a new run replaces the card; and each run is told once more in the
transcript exactly if it is now saved as ended and was not before. -/
theorem ends_told {runs : Option (List Run)} {entries : List Ending} {now : Nat} {store : StageStore} {acts : List Act}
    (hrun : Guarded Plainly Ledger.track (opened runs entries now store) acts ledger) (hplain : Plainly ledger act)
    (hstep : ledger.track act = some after) :
    (∀ run ∈ ledger.chat.prior, run.status.ended = false → ∀ holder, get ledger.chat.owners run.id = some holder →
      holder ∉ ledger.chat.gone →
      (∀ report moment, ledger.chat.turn act = some (report, moment) → report.session ≠ holder) →
      run ∈ after.chat.prior) ∧
    (∀ report moment, ledger.chat.turn act = some (report, moment) → ledger.chat.succeeds report moment = true →
      ∀ run ∈ ledger.chat.prior, run.status.ended = false →
      (∀ holder, get ledger.chat.owners run.id = some holder →
        holder ∈ ledger.chat.gone ∧ holder ≠ report.session) →
      run.id ∉ report.cards.map Run.id →
      stopped run moment.now ∈ after.chat.prior ∨
        run.id ∉ after.chat.prior.map Run.id ∧ after.saved run.id = some .stopped) ∧
    ∀ id, told after.chat id = told ledger.chat id + if ledger.ends after id then 1 else 0 := by
  have hkept : Kept ledger := hrun.invariant (kept_opened runs entries now store) fun _ _ _ hkept hplain hstep ↦
    hkept.track hplain hstep
  obtain ⟨report, moment, hturn, hsucceeds, hprior, htold, hsaved⟩ | ⟨hprior, htold, hsaved, hfailed⟩ :=
    track_cases hstep
  · refine ⟨fun run hrun hlive holder hholds hthere hother ↦ ?_,
      fun report' moment' hturn' _ run hrun hlive hleft hnot ↦ ?_, fun id ↦ ?_⟩
    · have htheirs : ledger.chat.theirs report.session run = true := by
        rw [Chat.theirs, hholds]
        simpa [hthere] using (hother report moment hturn).symm
      rw [hprior]
      exact others_stay moment (hkept.short run hrun hlive) hrun hlive htheirs
    · obtain ⟨rfl, rfl⟩ := Prod.mk.inj (Option.mem_unique hturn hturn')
      have hmark : ledger.chat.left report.session run = true := by
        rw [Chat.left, hlive, Chat.theirs]
        cases hholds : get ledger.chat.owners run.id with
        | none => rfl
        | some holder =>
          obtain ⟨hgone, hother⟩ := hleft holder hholds
          simpa [hgone] using hother
      rw [hprior, ids_cardWindow_map]
      refine (left_stops moment (hkept.short run hrun hlive) hrun hmark hnot).imp_right fun hshown ↦ ⟨hshown, ?_⟩
      rw [hsaved, saves_hidden (by rwa [hprior, ids_cardWindow_map]), if_pos]
      exact List.any_eq_true.2 ⟨run, hrun, by rw [hmark, beq_self_eq_true]; rfl⟩
    · have hends := ends_saved moment hkept (hplain.clear hturn hsucceeds) id
      rw [htold, told_publishReport hsucceeds, Ledger.ends, hsaved, hprior, ← hends, Chat.ends]
  · refine ⟨fun run hrun _ _ _ _ _ ↦ hprior ▸ hrun, fun report moment hturn hsucceeds ↦ ?_, fun id ↦ ?_⟩
    · rw [hfailed report moment hturn] at hsucceeds
      cases hsucceeds
    · rw [htold, Ledger.ends, hsaved]
      cases (ledger.saved id).any RunStatus.ended <;> rfl

/-! ## An end that is told twice -/

/-- A run that finished. -/
def built : Run := { id := "build", name := "build", status := .finished, ended := some 1 }

/-- A run that goes on. -/
def going (id : String) : Run := { id, name := id, status := .running }

theorem ends_told_sample :
    ∃ after, (⟨(restore none [] 0 []).publishRuns ⟨0, some [built], false, false⟩, fun _ ↦ none⟩ : Ledger).track
      (.publish { now := 1 }) = some after ∧ told after.chat "build" = 1 := by
  have hrun : Guarded Plainly Ledger.track (opened none [] 0 []) ([] ++ [Act.report 0 (some [built]) false])
      ⟨(restore none [] 0 []).publishRuns ⟨0, some [built], false, false⟩, fun _ ↦ none⟩ :=
    .snoc (.nil _) (fun _ _ h ↦ nomatch h) rfl
  have hplain : Plainly ⟨(restore none [] 0 []).publishRuns ⟨0, some [built], false, false⟩, fun _ ↦ none⟩
      (.publish { now := 1 }) := by
    rintro _ _ ⟨⟩ -
    exact ⟨by decide +kernel, by decide +kernel, by decide +kernel⟩
  refine ⟨_, rfl, ?_⟩
  obtain ⟨-, -, htold⟩ := ends_told hrun hplain rfl
  rw [htold "build"]
  decide +kernel

/-- A session reports a run that ended and one that goes on, and then the same in vain.  Another session reports a new
run, so the ended card goes; the first session is released, and reports what could not be saved. -/
def reportedAgain : List Act :=
  [.report 0 (some [built, going "test"]) false, .publish { now := 1 },
    .report 0 (some [built, going "test"]) false, .publish { now := 2, persists := false },
    .report 1 (some [going "lint"]) false, .publish { now := 3 }, .release 0]

/-- The end of the run is told a second time, though it was saved as ended all along. -/
theorem told_again : ∃ ledger after, Runs Ledger.track (opened none [] 0 []) reportedAgain ledger ∧
    ledger.track (.publish { now := 4 }) = some after ∧ ledger.saved "build" = some .finished ∧
    after.saved "build" = some .finished ∧ told ledger.chat "build" = 1 ∧ told after.chat "build" = 2 := by
  have hrun : ((reportedAgain.foldlM Ledger.track (opened none [] 0 [])).bind fun ledger ↦
      (ledger.track (.publish { now := 4 })).map fun after ↦
        decide (ledger.saved "build" = some .finished ∧ after.saved "build" = some .finished ∧
          told ledger.chat "build" = 1 ∧ told after.chat "build" = 2)) = some true := by decide +kernel
  obtain ⟨ledger, hledger, hrun⟩ := Option.bind_eq_some_iff.1 hrun
  obtain ⟨after, hafter, hfacts⟩ := Option.map_eq_some_iff.1 hrun
  exact ⟨ledger, after, runs_iff_foldlM.2 hledger, hafter, of_decide_eq_true hfacts⟩

end Chopin.Runs
