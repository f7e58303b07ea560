import Chopin.Runs.Reports
import Mathlib.Algebra.GroupWithZero.Nat

/-!
# Split reports

The parts of a report mean the same as the report: the server comes to the same runs and keeps the same stages, each
part fits a message, and a report of which no part would fit is refused before anything is sent.

A count of earlier stages that is zero is the one thing that is lost: a full card is seen as it is in the first part,
and in each later one as a delta, of which the server carries on the count that it saw, unless that is zero.
-/

set_option autoImplicit false
set_option linter.dupNamespace false

open Entries

namespace Chopin.Runs

/-! ## Sizes -/

@[simp] theorem bytes_append (left right : String) : bytes (left ++ right) = bytes left + bytes right :=
  String.utf8ByteSize_append

theorem commas_cons {rest : List String} (item : String) (h : rest ≠ []) :
    commas (item :: rest) = item ++ "," ++ commas rest := by
  cases rest with
  | nil => exact absurd rfl h
  | cons next rest => rfl

/-- An item counts with its own size, wherever it stands. -/
theorem bytes_commas_swap (front back : List String) (left right : String) :
    bytes (commas (front ++ left :: back)) + bytes right = bytes (commas (front ++ right :: back)) + bytes left := by
  induction front with
  | nil =>
    cases back with
    | nil => exact Nat.add_comm _ _
    | cons next back =>
      simp only [List.nil_append, commas, bytes_append]
      omega
  | cons item front ih =>
    have hne : ∀ text, front ++ text :: back ≠ [] := fun text ↦ by simp
    rw [List.cons_append, List.cons_append, commas_cons item (hne left), commas_cons item (hne right)]
    simp only [bytes_append]
    omega

/-- The comma before an item that comes last. -/
def comma {α : Type} : List α → Nat
  | [] => 0
  | _ :: _ => 1

theorem comma_le {α : Type} (items : List α) : comma items ≤ 1 := by
  cases items with
  | nil => exact Nat.zero_le 1
  | cons => exact Nat.le_refl 1

theorem bytes_commas_snoc (items : List String) (item : String) :
    bytes (commas (items ++ [item])) = bytes (commas items) + bytes item + comma items := by
  induction items with
  | nil => exact (Nat.zero_add _).symm
  | cons first items ih =>
    have hcomma : bytes "," = 1 := rfl
    rw [List.cons_append, commas_cons first (by simp), bytes_append, bytes_append, ih, hcomma]
    cases items with
    | nil =>
      have hnone : bytes "" = 0 := rfl
      simp only [commas, comma]
      omega
    | cons next rest =>
      rw [commas_cons first (by simp), bytes_append, bytes_append, hcomma]
      simp only [comma]
      omega

theorem bytes_object_swap (front back : List (Option String)) (name left right : String) :
    bytes (objectText (front ++ member name left :: back)) + bytes right =
      bytes (objectText (front ++ member name right :: back)) + bytes left := by
  have hmembers : ∀ text : String, (front ++ member name text :: back).filterMap id =
      front.filterMap id ++ (stringText name ++ ":" ++ text) :: back.filterMap id := fun text ↦ by
    rw [List.filterMap_append]
    rfl
  have hswap := bytes_commas_swap (front.filterMap id) (back.filterMap id) (stringText name ++ ":" ++ left)
    (stringText name ++ ":" ++ right)
  simp only [bytes_append] at hswap
  simp only [objectText, hmembers, bytes_append]
  omega

variable {card : LinkRun} {cards : List LinkRun} {pending : Pending} {session : String} {runs : RunsReport}

/-- A card grows by a stage and a comma at most. -/
theorem bytes_add (card : LinkRun) (stage : RunStage) : bytes (card.add [stage]).text =
    bytes card.text + bytes stage.text + comma card.stages := by
  have harray : ∀ stages : List RunStage, bytes (arrayText ((stages ++ [stage]).map RunStage.text)) =
      bytes (arrayText (stages.map RunStage.text)) + bytes stage.text + comma stages := by
    intro stages
    have hsnoc := bytes_commas_snoc (stages.map RunStage.text) stage.text
    have hcomma : comma (stages.map RunStage.text) = comma stages := by cases stages <;> rfl
    rw [hcomma] at hsnoc
    simp only [arrayText, bytes_append, List.map_append, List.map_cons, List.map_nil, hsnoc]
    omega
  cases card with
  | full fields stages earlierStages =>
    have hswap := bytes_object_swap fields.members [member "earlierStages" (earlierStages.map toString)] "stages"
      (arrayText ((stages ++ [stage]).map RunStage.text)) (arrayText (stages.map RunStage.text))
    rw [harray] at hswap
    simp only [LinkRun.add, LinkRun.text, LinkRun.stages]
    omega
  | delta fields stages =>
    have hswap := bytes_object_swap (fields.members ++ [member "stagesDelta" (some "true")]) [] "stages"
      (arrayText ((stages ++ [stage]).map RunStage.text)) (arrayText (stages.map RunStage.text))
    rw [harray, List.append_assoc, List.append_assoc] at hswap
    simp only [LinkRun.add, LinkRun.text, LinkRun.stages]
    simp only [List.singleton_append] at hswap
    omega

/-- The message of a report with other cards. -/
def withCards (session : String) (runs : RunsReport) (cards : List LinkRun) : Message :=
  ⟨session, { runs with cards }⟩

/-- Where a card is replaced, the message grows by as much as the card. -/
theorem bytes_withCards (session : String) (runs : RunsReport) (front back : List LinkRun) (left right : LinkRun) :
    bytes (withCards session runs (front ++ left :: back)).text + bytes right.text =
      bytes (withCards session runs (front ++ right :: back)).text + bytes left.text := by
  have hcards := bytes_commas_swap (front.map LinkRun.text) (back.map LinkRun.text) left.text right.text
  have hswap := bytes_object_swap [member "type" (stringText "runs"), member "session" (stringText session),
      member "active" (arrayText (runs.active.map stringText)),
      member "paused" (arrayText (runs.paused.map stringText))] [] "cards"
    (arrayText ((front ++ left :: back).map LinkRun.text)) (arrayText ((front ++ right :: back).map LinkRun.text))
  simp only [List.map_append, List.map_cons, arrayText, bytes_append, List.cons_append, List.nil_append] at hswap
  simp only [withCards, Message.text, List.map_append, List.map_cons, arrayText]
  omega

theorem pushStage_eq {front back : List LinkRun} (h : cards = front ++ card :: back)
    (hindex : pending.index = front.length) : pushStage cards pending = front ++ card.add [pending.stage] :: back := by
  rw [pushStage, h, hindex, List.modify_eq_take_cons_drop (by simp), List.take_left]
  simp

/-- The size of a message once a stage is put into it. -/
theorem bytes_push (session : String) (runs : RunsReport) (h : pending.index < cards.length) :
    bytes (withCards session runs (pushStage cards pending)).text =
      bytes (withCards session runs cards).text + bytes pending.stage.text + comma cards[pending.index].stages := by
  have hsplit : cards = cards.take pending.index ++ cards[pending.index] :: cards.drop (pending.index + 1) := by simp
  have hfront : pending.index = (cards.take pending.index).length := by rw [List.length_take]; omega
  have hpush := pushStage_eq hsplit hfront
  have hgrow := bytes_add cards[pending.index] pending.stage
  have hswap := bytes_withCards session runs (cards.take pending.index) (cards.drop (pending.index + 1))
    (cards[pending.index].add [pending.stage]) cards[pending.index]
  rw [← hpush, ← hsplit] at hswap
  omega

theorem bytes_pushAll (session : String) (runs : RunsReport) (taken : List Pending) (cards : List LinkRun) :
    bytes (withCards session runs (taken.foldl pushStage cards)).text ≤
      bytes (withCards session runs cards).text + (taken.map Pending.size).sum := by
  induction taken generalizing cards with
  | nil => simp
  | cons next taken ih =>
    have hnext : bytes (withCards session runs (pushStage cards next)).text ≤
        bytes (withCards session runs cards).text + next.size := by
      by_cases h : next.index < cards.length
      · rw [bytes_push session runs h, Pending.size]
        have := comma_le cards[next.index].stages
        omega
      · rw [pushStage, List.modify_eq_self (Nat.le_of_not_lt h)]
        exact Nat.le_add_right _ _
    rw [List.foldl_cons, List.map_cons, List.sum_cons]
    have hrest := ih (pushStage cards next)
    omega

/-- A part grows by a stage at least. -/
theorem bytes_partOf_snoc (session : String) (runs : RunsReport) (first : Bool) (taken : List Pending)
    (pending : Pending) (h : pending.index < runs.cards.length) :
    bytes (partOf session runs first taken).text + bytes pending.stage.text ≤
      bytes (partOf session runs first (taken ++ [pending])).text := by
  have hlength : (taken.foldl pushStage (runs.cards.map (.inPart first))).length = runs.cards.length := by
    have hpush : ∀ (taken : List Pending) (cards : List LinkRun),
        (taken.foldl pushStage cards).length = cards.length := by
      intro taken
      induction taken with
      | nil => exact fun _ ↦ rfl
      | cons next taken ih => exact fun cards ↦ (ih (pushStage cards next)).trans (List.length_modify _ _ _)
    rw [hpush, List.length_map]
  have hgrow := bytes_push session runs (hlength.symm ▸ h)
  rw [partOf, partOf, List.foldl_append]
  exact Nat.le_trans (Nat.le_add_right _ _) (Nat.le_of_eq hgrow.symm)

/-! ## Filling parts -/

theorem fill_append (size : Nat) (pending : List Pending) :
    (fill size pending).1 ++ (fill size pending).2 = pending := by
  induction pending generalizing size with
  | nil => rfl
  | cons next rest ih =>
    rw [fill]
    split
    · exact congrArg (next :: ·) (ih (size + next.size))
    · rfl

theorem fill_fits (size : Nat) (pending : List Pending) : (fill size pending).1 = [] ∨
    size + ((fill size pending).1.map Pending.size).sum ≤ maxMessageBytes := by
  induction pending generalizing size with
  | nil => exact .inl rfl
  | cons next rest ih =>
    rw [fill]
    split
    · rename_i hfits
      right
      rw [List.map_cons, List.sum_cons]
      obtain hnone | hrest := ih (size + next.size)
      · rwa [hnone, List.map_nil, List.sum_nil, Nat.add_zero]
      · omega
    · exact .inl rfl

/-- The parts that segments of the pending stages fill. -/
def partsOf (session : String) (runs : RunsReport) : Bool → List (List Pending) → List Message
  | _, [] => []
  | first, taken :: rest => partOf session runs first taken :: partsOf session runs false rest

/-- The loop ends, within a round for each pending stage and two more. -/
theorem splitLoop_ends (session : String) (runs : RunsReport) (rounds : Nat) (first : Bool) (pending : List Pending)
    (h : pending.length + 2 ≤ rounds) : ∃ result, splitLoop session runs rounds first pending = some result := by
  induction rounds generalizing first pending with
  | zero => omega
  | succ rounds ih =>
    rw [splitLoop]
    split
    · exact ⟨_, rfl⟩
    · rename_i hmore
      have happend := fill_append (bytes (partOf session runs first []).text) pending
      generalize fill (bytes (partOf session runs first []).text) pending = filled at happend
      obtain ⟨taken, left⟩ := filled
      dsimp only at happend ⊢
      split
      · exact ⟨_, rfl⟩
      · rename_i hprogress
        obtain ⟨result, hresult⟩ : ∃ result, splitLoop session runs rounds false left = some result := by
          cases taken with
          | cons next taken =>
            have hlength := congrArg List.length happend
            rw [List.length_append, List.length_cons] at hlength
            exact ih false left (by omega)
          | nil =>
            -- Nothing is left, so the next round is the last.
            cases left with
            | cons => exact absurd rfl hprogress
            | nil =>
              cases rounds with
              | zero => omega
              | succ rounds => exact ⟨_, rfl⟩
        exact ⟨_, by rw [hresult]; rfl⟩

variable {rounds : Nat}

theorem splitLoop_succ {first : Bool} {pending : List Pending} {result : Except Failure (List Message)}
    (h : splitLoop session runs rounds first pending = some result) :
    splitLoop session runs (rounds + 1) first pending = some result := by
  induction rounds generalizing first pending result with
  | zero => cases h
  | succ rounds ih =>
    rw [splitLoop] at h ⊢
    split at h
    · rw [if_pos ‹_›]
      exact h
    · rw [if_neg ‹_›]
      generalize fill (bytes (partOf session runs first []).text) pending = filled at h ⊢
      obtain ⟨taken, left⟩ := filled
      dsimp only at h ⊢
      split at h
      · rw [if_pos ‹_›]
        exact h
      · rw [if_neg ‹_›]
        obtain ⟨parts, hparts, rfl⟩ := Option.map_eq_some_iff.1 h
        rw [ih hparts]
        rfl

variable {parts : List Message}

/-- What the loop cuts: segments of the pending stages, each of which fits its part. -/
theorem splitLoop_spec {first : Bool} {pending : List Pending}
    (h : splitLoop session runs rounds first pending = some (.ok parts)) :
    ∃ segments, segments.flatten = pending ∧ parts = partsOf session runs first segments ∧
      (first = true → segments ≠ []) ∧
      ((∀ part ∈ parts, bytes part.text ≤ maxMessageBytes) ∨ (first = true ∧ segments = [[]])) := by
  induction rounds generalizing first pending parts with
  | zero => cases h
  | succ rounds ih =>
    rw [splitLoop] at h
    split at h
    · rename_i hdone
      rw [Bool.and_eq_true, List.isEmpty_iff, Bool.not_eq_true'] at hdone
      obtain ⟨rfl, rfl⟩ := hdone
      cases h
      exact ⟨[], rfl, rfl, fun h ↦ absurd h Bool.false_ne_true, .inl fun _ h ↦ nomatch h⟩
    · rename_i hmore
      have happend := fill_append (bytes (partOf session runs first []).text) pending
      have hfits := fill_fits (bytes (partOf session runs first []).text) pending
      generalize fill (bytes (partOf session runs first []).text) pending = filled at h happend hfits
      obtain ⟨taken, left⟩ := filled
      dsimp only at h happend hfits
      split at h
      · cases h
      · rename_i hprogress
        obtain ⟨result, hrest, hresult⟩ := Option.map_eq_some_iff.1 h
        cases result with
        | error failure => cases hresult
        | ok rest =>
          cases hresult
          obtain ⟨segments, hflatten, rfl, -, hsizes⟩ := ih hrest
          refine ⟨taken :: segments, by rw [List.flatten_cons, hflatten, happend], rfl,
            fun _ ↦ List.cons_ne_nil _ _, ?_⟩
          obtain rfl | hfits := hfits
          · -- A part without stages is the only one.
            have hleft : left = [] := by
              cases left with
              | nil => rfl
              | cons => exact absurd rfl hprogress
            subst hleft
            subst happend
            have hfirst : first = true := by simpa using hmore
            refine .inr ⟨hfirst, ?_⟩
            cases rounds with
            | zero => cases hrest
            | succ rounds =>
              rw [splitLoop, if_pos (by rfl)] at hrest
              cases segments with
              | nil => rfl
              | cons => cases hrest
          · have hpart : bytes (partOf session runs first taken).text ≤ maxMessageBytes :=
              Nat.le_trans (bytes_pushAll session runs taken (runs.cards.map (.inPart first))) hfits
            refine .inl (List.forall_mem_cons.2 ⟨hpart, ?_⟩)
            exact hsizes.resolve_right fun h ↦ Bool.false_ne_true h.1

/-! ## Sending -/

variable {takesDeltas isOpen : Bool}

theorem sendAll_fits (isOpen : Bool) {messages : List Message}
    (h : ∀ message ∈ messages, bytes message.text ≤ maxMessageBytes) :
    sendAll isOpen messages = ⟨if isOpen then messages else [], none⟩ := by
  induction messages with
  | nil => cases isOpen <;> rfl
  | cons message rest ih =>
    obtain ⟨hmessage, hrest⟩ := List.forall_mem_cons.1 h
    rw [sendAll, if_neg (Nat.not_lt.2 hmessage), ih hrest]
    cases isOpen <;> rfl

theorem splitRuns_ends (session : String) (runs : RunsReport) : ∃ result,
    ∀ rounds, (pendingOf runs.cards).length + 2 ≤ rounds → splitRuns rounds session runs = some result := by
  by_cases hwhole : bytes (Message.text ⟨session, runs⟩) ≤ maxMessageBytes
  · exact ⟨_, fun rounds _ ↦ if_pos hwhole⟩
  · obtain ⟨result, hresult⟩ := splitLoop_ends session runs _ true (pendingOf runs.cards) (Nat.le_refl _)
    refine ⟨result, fun rounds hrounds ↦ ?_⟩
    rw [splitRuns, if_neg hwhole]
    induction hrounds with
    | refl => exact hresult
    | step _ ih => exact splitLoop_succ ih

/-- The parts of a report: the report itself, or segments of its pending stages in as many parts. -/
theorem splitRuns_spec (h : splitRuns rounds session runs = some (.ok parts)) :
    (parts = [⟨session, runs⟩] ∧ bytes (Message.text ⟨session, runs⟩) ≤ maxMessageBytes) ∨
      ∃ taken rest, taken ++ rest.flatten = pendingOf runs.cards ∧ parts = partsOf session runs true (taken :: rest) ∧
        ((∀ part ∈ parts, bytes part.text ≤ maxMessageBytes) ∨ (taken = [] ∧ rest = [])) := by
  rw [splitRuns] at h
  split at h
  · cases h
    exact .inl ⟨rfl, ‹_›⟩
  · obtain ⟨segments, hflatten, hparts, hsome, hsizes⟩ := splitLoop_spec h
    cases segments with
    | nil => exact (hsome rfl rfl).elim
    | cons taken rest =>
      refine .inr ⟨taken, rest, hflatten, hparts, hsizes.imp_right fun h ↦ ?_⟩
      exact List.cons.inj h.2

/-! ## What the server makes of a card -/

variable {kept : Option (List RunStage)} {earlier : Option Nat} {id : String}

@[simp] theorem takeCard_id : (takeCard kept earlier card).2.id = card.id := by
  cases card with
  | full fields stages earlierStages =>
    simp only [takeCard]
    split <;> rfl
  | delta fields stages => rfl

@[simp] theorem add_id (card : LinkRun) (more : List RunStage) : (card.add more).id = card.id := by
  cases card <;> rfl

@[simp] theorem add_nil (card : LinkRun) : card.add [] = card := by
  cases card <;> simp [LinkRun.add]

theorem counted_counted (earlierStages : Option Nat) : counted (counted earlierStages) = counted earlierStages := by
  rw [counted, counted, Option.filter_filter]
  simp

/-- A run as it is seen, where a count of zero is none. -/
def plainRun (run : Run) : Run := { run with earlierStages := counted run.earlierStages }

/-- A card and then a delta with more stages are the card with more stages. -/
theorem takeCard_twice (hearlier : counted earlier = earlier) (more : List RunStage)
    (h : card.isDelta = true ∨ more = [] ∧ (card.stages.map RunStage.id).Nodup) :
    let once := takeCard kept earlier card
    let twice := takeCard (some once.1) (counted once.2.earlierStages) (.delta card.fields more)
    let whole := takeCard kept earlier (card.add more)
    twice.1 = whole.1 ∧ plainRun twice.2 = plainRun whole.2 := by
  cases card with
  | delta fields stages =>
    simp only [takeCard, LinkRun.add, LinkRun.fields, Option.getD_some, puts_append, RunFields.card, hearlier,
      and_self]
  | full fields stages earlierStages =>
    obtain ⟨rfl, hnodup⟩ := h.resolve_left Bool.false_ne_true
    rw [add_nil]
    simp only [takeCard, LinkRun.fields]
    split
    · simp only [Option.getD_some, puts_nil, RunFields.card, hearlier, and_self]
    · have hall : collect RunStage.id stages = stages := collect_of_nodup hnodup
      simp only [Option.getD_some, puts_nil, RunFields.card, hall, plainRun, counted_counted, and_self]

/-! ## What the server makes of a report -/

variable {previous : List Run} {stages : KeptStages} {taken : List Pending}

theorem takeCards_cons (previous : List Run) (stages : KeptStages) (first : LinkRun) (rest : List LinkRun) :
    takeCards previous stages (first :: rest) =
      ((takeCards previous (set stages first.id
          (takeCard (get stages first.id) (earlierOf previous first.id) first).1) rest).1,
        (takeCard (get stages first.id) (earlierOf previous first.id) first).2 ::
          (takeCards previous (set stages first.id
            (takeCard (get stages first.id) (earlierOf previous first.id) first).1) rest).2) := rfl

/-- Each card is taken on its own, where each run has one. -/
theorem takeCards_spec (previous : List Run) (stages : KeptStages) (h : (cards.map LinkRun.id).Nodup) :
    (takeCards previous stages cards).2 =
        cards.map (fun card ↦ (takeCard (get stages card.id) (earlierOf previous card.id) card).2) ∧
      (∀ card ∈ cards, get (takeCards previous stages cards).1 card.id =
        some (takeCard (get stages card.id) (earlierOf previous card.id) card).1) ∧
      ∀ id, id ∉ cards.map LinkRun.id → get (takeCards previous stages cards).1 id = get stages id := by
  induction cards generalizing stages with
  | nil => exact ⟨rfl, fun _ h ↦ (nomatch h), fun _ _ ↦ rfl⟩
  | cons first rest ih =>
    rw [List.map_cons, List.nodup_cons] at h
    obtain ⟨hfirst, hrest⟩ := h
    obtain ⟨hseen, hkept, hother⟩ := ih (set stages first.id
      (takeCard (get stages first.id) (earlierOf previous first.id) first).1) hrest
    have hget : ∀ card ∈ rest, get (set stages first.id
        (takeCard (get stages first.id) (earlierOf previous first.id) first).1) card.id = get stages card.id := by
      intro card hcard
      rw [get_set, if_neg]
      exact fun hsame ↦ hfirst (hsame ▸ List.mem_map_of_mem hcard)
    rw [takeCards_cons]
    refine ⟨?_, List.forall_mem_cons.2 ⟨?_, fun card hcard ↦ ?_⟩, fun id hid ↦ ?_⟩
    · rw [List.map_cons, hseen]
      exact congrArg _ (List.map_congr_left fun card hcard ↦ by rw [hget card hcard])
    · rw [hother first.id hfirst, get_set, if_pos rfl]
    · rw [hkept card hcard, hget card hcard]
    · rw [List.map_cons, List.mem_cons, not_or] at hid
      rw [hother id hid.2, get_set, if_neg hid.1]

theorem takeCards_congr (cards : List LinkRun) {others : List Run} {same : KeptStages}
    (hprevious : ∀ id, earlierOf previous id = earlierOf others id) (hstages : ∀ id, get stages id = get same id) :
    (takeCards previous stages cards).2 = (takeCards others same cards).2 ∧
      ∀ id, get (takeCards previous stages cards).1 id = get (takeCards others same cards).1 id := by
  induction cards generalizing stages same with
  | nil => exact ⟨rfl, hstages⟩
  | cons first rest ih =>
    have hset : ∀ id, get (set stages first.id
          (takeCard (get stages first.id) (earlierOf previous first.id) first).1) id =
        get (set same first.id (takeCard (get same first.id) (earlierOf others first.id) first).1) id := by
      intro id
      rw [get_set, get_set, hstages, hprevious, hstages]
    obtain ⟨hseen, hkept⟩ := ih hset
    rw [takeCards_cons, takeCards_cons]
    exact ⟨by rw [hseen, hstages, hprevious], hkept⟩

/-- What the Planner sees, where a count of zero is none. -/
def plainRuns (runs : PlannerRuns) : PlannerRuns := { runs with cards := runs.cards.map plainRun }

/-- The same runs and the same kept stages, where a count of zero is none. -/
structure RemoteSession.Same (server other : RemoteSession) : Prop where
  closed : server.closed = other.closed
  isolated : server.isolated = other.isolated
  stages : ∀ id, get server.stages id = get other.stages id
  runs : server.runs.map plainRuns = other.runs.map plainRuns

variable {server other : RemoteSession} {report : RunsReport}

theorem RemoteSession.Same.refl (server : RemoteSession) : server.Same server := ⟨rfl, rfl, fun _ ↦ rfl, rfl⟩

theorem RemoteSession.Same.trans {third : RemoteSession} (h : server.Same other) (hthird : other.Same third) :
    server.Same third :=
  ⟨h.closed.trans hthird.closed, h.isolated.trans hthird.isolated,
    fun id ↦ (h.stages id).trans (hthird.stages id), h.runs.trans hthird.runs⟩

theorem earlierOf_plain (previous : List Run) (id : String) :
    earlierOf (previous.map plainRun) id = earlierOf previous id := by
  rw [earlierOf, earlierOf, ← List.map_reverse, List.find?_map]
  have hids : ((·.id == id) ∘ plainRun : Run → Bool) = (·.id == id) := rfl
  rw [hids]
  cases previous.reverse.find? (·.id == id) with
  | none => rfl
  | some run => exact counted_counted run.earlierStages

theorem RemoteSession.Same.earlierOf (h : server.Same other) (id : String) :
    earlierOf server.previous id = earlierOf other.previous id := by
  have hplain : server.previous.map plainRun = other.previous.map plainRun := by
    have hcards : ∀ session : RemoteSession, session.previous.map plainRun =
        ((session.runs.map plainRuns).map PlannerRuns.cards).getD [] := by
      intro session
      rw [RemoteSession.previous]
      cases session.runs <;> rfl
    rw [hcards, hcards, h.runs]
  rw [← earlierOf_plain server.previous, ← earlierOf_plain other.previous, hplain]

theorem reportRuns_idle (h : (server.closed || server.isolated) = true) : server.reportRuns report = server := if_pos h

theorem reportRuns_eq (h : ¬(server.closed || server.isolated) = true) : server.reportRuns report =
    { server with
      stages := (takeCards server.previous server.stages report.cards).1.filter fun entry ↦
        ((takeCards server.previous server.stages report.cards).2.map Run.id).contains entry.1
      runs := some {
        active := report.active
        paused := report.paused
        cards := (takeCards server.previous server.stages report.cards).2 } } := if_neg h

/-- Sessions that are the same come to the same. -/
theorem RemoteSession.Same.reportRuns (h : server.Same other) (report : RunsReport) :
    (server.reportRuns report).Same (other.reportRuns report) := by
  by_cases hidle : (server.closed || server.isolated) = true
  · rw [reportRuns_idle hidle, reportRuns_idle (h.closed ▸ h.isolated ▸ hidle)]
    exact h
  · obtain ⟨hseen, hkept⟩ := takeCards_congr report.cards h.earlierOf h.stages
    rw [reportRuns_eq hidle, reportRuns_eq (h.closed ▸ h.isolated ▸ hidle), hseen]
    refine ⟨h.closed, h.isolated, fun id ↦ ?_, rfl⟩
    have hfilter := fun stages : KeptStages ↦ lookup_filter stages
      (fun id ↦ ((takeCards other.previous other.stages report.cards).2.map Run.id).contains id) id
    refine (hfilter _).trans (Eq.trans ?_ (hfilter _).symm)
    split
    · exact hkept id
    · rfl

/-- What a report of runs that each have one card comes to. -/
theorem reportRuns_spec (server : RemoteSession) (report : RunsReport)
    (hidle : ¬(server.closed || server.isolated) = true) (h : (report.cards.map LinkRun.id).Nodup) :
    (server.reportRuns report).runs = some {
        active := report.active
        paused := report.paused
        cards := report.cards.map fun card ↦
          (takeCard (get server.stages card.id) (earlierOf server.previous card.id) card).2 } ∧
      (∀ card ∈ report.cards, get (server.reportRuns report).stages card.id =
        some (takeCard (get server.stages card.id) (earlierOf server.previous card.id) card).1) ∧
      ∀ id, id ∉ report.cards.map LinkRun.id → get (server.reportRuns report).stages id = none := by
  obtain ⟨hseen, hkept, hother⟩ := takeCards_spec server.previous server.stages h
  have hids : (takeCards server.previous server.stages report.cards).2.map Run.id = report.cards.map LinkRun.id := by
    rw [hseen, List.map_map]
    exact List.map_congr_left fun card _ ↦ takeCard_id
  have hget : ∀ id, get (server.reportRuns report).stages id = if (report.cards.map LinkRun.id).contains id then
      get (takeCards server.previous server.stages report.cards).1 id else none := by
    intro id
    rw [reportRuns_eq hidle, hids]
    exact lookup_filter _ (fun id ↦ (report.cards.map LinkRun.id).contains id) id
  refine ⟨?_, fun card hcard ↦ ?_, fun id hid ↦ ?_⟩
  · rw [reportRuns_eq hidle, hseen]
  · rw [hget, if_pos (List.contains_iff_mem.2 (List.mem_map_of_mem hcard))]
    exact hkept card hcard
  · rw [hget, if_neg]
    rwa [List.contains_iff_mem]

@[simp] theorem reportRuns_closed : (server.reportRuns report).closed = server.closed := by
  rw [RemoteSession.reportRuns]
  split <;> rfl

@[simp] theorem reportRuns_isolated : (server.reportRuns report).isolated = server.isolated := by
  rw [RemoteSession.reportRuns]
  split <;> rfl

/-- The count that is carried on of a run that is seen once. -/
theorem earlierOf_seen {seen : LinkRun → Run} (hseen : ∀ card, (seen card).id = card.id)
    (h : (cards.map LinkRun.id).Nodup) (hcard : card ∈ cards) :
    earlierOf (cards.map seen) card.id = counted (seen card).earlierStages := by
  have hmem : seen card ∈ (cards.map seen).reverse := List.mem_reverse.2 (List.mem_map_of_mem hcard)
  cases hfind : (cards.map seen).reverse.find? (·.id == card.id) with
  | none =>
    have hnone := List.find?_eq_none.1 hfind (seen card) hmem
    rw [hseen, beq_self_eq_true] at hnone
    exact (hnone rfl).elim
  | some run =>
    obtain ⟨other, hother, rfl⟩ := List.mem_map.1 (List.mem_reverse.1 (List.mem_of_find?_eq_some hfind))
    have hid : (seen other).id = card.id :=
      beq_iff_eq.1 (List.find?_some (p := fun run : Run ↦ run.id == card.id) hfind)
    rw [hseen] at hid
    rw [earlierOf, hfind, List.inj_on_of_nodup_map h hother hcard hid]
    rfl

/-- **A report and then deltas of the same runs** are the report with what the deltas add. -/
theorem report_twice (server : RemoteSession) (active paused : List String) {pairs : List (LinkRun × List RunStage)}
    (hids : ((pairs.map (·.1)).map LinkRun.id).Nodup)
    (hpairs : ∀ pair ∈ pairs, pair.1.isDelta = true ∨ pair.2 = [] ∧ (pair.1.stages.map RunStage.id).Nodup) :
    ((server.reportRuns ⟨active, paused, pairs.map (·.1)⟩).reportRuns
        ⟨active, paused, pairs.map fun pair ↦ .delta pair.1.fields pair.2⟩).Same
      (server.reportRuns ⟨active, paused, pairs.map fun pair ↦ pair.1.add pair.2⟩) := by
  by_cases hidle : (server.closed || server.isolated) = true
  · rw [reportRuns_idle hidle, reportRuns_idle hidle, reportRuns_idle hidle]
    exact .refl server
  · have hdeltas : (pairs.map fun pair ↦ LinkRun.delta pair.1.fields pair.2).map LinkRun.id =
        (pairs.map (·.1)).map LinkRun.id := by
      rw [List.map_map, List.map_map]
      rfl
    have hwhole : (pairs.map fun pair ↦ pair.1.add pair.2).map LinkRun.id = (pairs.map (·.1)).map LinkRun.id := by
      rw [List.map_map, List.map_map]
      exact List.map_congr_left fun pair _ ↦ add_id pair.1 pair.2
    obtain ⟨hruns, hkept, hother⟩ := reportRuns_spec server ⟨active, paused, pairs.map (·.1)⟩ hidle hids
    obtain ⟨hruns', hkept', hother'⟩ := reportRuns_spec (server.reportRuns ⟨active, paused, pairs.map (·.1)⟩)
      ⟨active, paused, pairs.map fun pair ↦ .delta pair.1.fields pair.2⟩ (by simpa using hidle) (hdeltas ▸ hids)
    obtain ⟨hruns'', hkept'', hother''⟩ := reportRuns_spec server
      ⟨active, paused, pairs.map fun pair ↦ pair.1.add pair.2⟩ hidle (hwhole ▸ hids)
    -- Each card, once and twice.
    have htwice : ∀ pair ∈ pairs,
        let first := server.reportRuns ⟨active, paused, pairs.map (·.1)⟩
        let twice := takeCard (get first.stages pair.1.id) (earlierOf first.previous pair.1.id)
          (.delta pair.1.fields pair.2)
        let whole := takeCard (get server.stages pair.1.id) (earlierOf server.previous pair.1.id) (pair.1.add pair.2)
        twice.1 = whole.1 ∧ plainRun twice.2 = plainRun whole.2 := by
      intro pair hpair
      have hmem : pair.1 ∈ pairs.map (·.1) := List.mem_map_of_mem hpair
      have hprevious : earlierOf (server.reportRuns ⟨active, paused, pairs.map (·.1)⟩).previous pair.1.id =
          counted (takeCard (get server.stages pair.1.id) (earlierOf server.previous pair.1.id)
            pair.1).2.earlierStages := by
        rw [RemoteSession.previous, hruns]
        exact earlierOf_seen (fun card ↦ takeCard_id) hids hmem
      simp only [hkept pair.1 hmem, hprevious]
      exact takeCard_twice (counted_counted _) pair.2 (hpairs pair hpair)
    refine ⟨by simp, by simp, fun id ↦ ?_, ?_⟩
    · by_cases hid : id ∈ (pairs.map (·.1)).map LinkRun.id
      · rw [List.map_map] at hid
        obtain ⟨pair, hpair, rfl⟩ := List.mem_map.1 hid
        have hdelta := hkept' _ (List.mem_map_of_mem hpair)
        have hadd := hkept'' _ (List.mem_map_of_mem hpair)
        rw [add_id] at hadd
        exact hdelta.trans ((congrArg some (htwice pair hpair).1).trans hadd.symm)
      · rw [hother' id (hdeltas ▸ hid), hother'' id (hwhole ▸ hid)]
    · rw [hruns', hruns'']
      simp only [Option.map_some, plainRuns, List.map_map]
      refine congrArg (fun cards ↦ some (PlannerRuns.mk active paused cards)) (List.map_congr_left fun pair hpair ↦ ?_)
      simp only [Function.comp_apply, add_id]
      exact (htwice pair hpair).2

/-! ## Parts of a report -/

/-- The stages that go to the card with this index. -/
def stagesAt (taken : List Pending) (index : Nat) : List RunStage :=
  (taken.filter (·.index == index)).map Pending.stage

theorem stagesAt_append (taken more : List Pending) (index : Nat) :
    stagesAt (taken ++ more) index = stagesAt taken index ++ stagesAt more index := by
  rw [stagesAt, List.filter_append, List.map_append]
  rfl

theorem stagesAt_cons (next : Pending) (taken : List Pending) (index : Nat) : stagesAt (next :: taken) index =
    (if next.index = index then [next.stage] else []) ++ stagesAt taken index := by
  rw [stagesAt, List.filter_cons]
  by_cases h : next.index = index <;> simp [h, stagesAt]

theorem stagesAt_flatten (segments : List (List Pending)) (index : Nat) :
    stagesAt segments.flatten index = segments.flatMap (stagesAt · index) := by
  induction segments with
  | nil => rfl
  | cons taken rest ih => rw [List.flatten_cons, stagesAt_append, ih, List.flatMap_cons]

theorem add_add (card : LinkRun) (stages more : List RunStage) :
    (card.add stages).add more = card.add (stages ++ more) := by
  cases card <;> simp [LinkRun.add]

@[simp] theorem add_fields (card : LinkRun) (more : List RunStage) : (card.add more).fields = card.fields := by
  cases card <;> rfl

@[simp] theorem add_isDelta (card : LinkRun) (more : List RunStage) : (card.add more).isDelta = card.isDelta := by
  cases card <;> rfl

@[simp] theorem inPart_fields (first : Bool) (card : LinkRun) : (card.inPart first).fields = card.fields := by
  rw [LinkRun.inPart]
  split <;> rfl

theorem inPart_false (card : LinkRun) (more : List RunStage) :
    (card.inPart false).add more = .delta card.fields more := rfl

/-- A card of a part has the stages that were put into it. -/
theorem getElem?_pushAll (taken : List Pending) (cards : List LinkRun) (index : Nat) :
    (taken.foldl pushStage cards)[index]? = cards[index]?.map (·.add (stagesAt taken index)) := by
  induction taken generalizing cards with
  | nil => simp [stagesAt]
  | cons next taken ih =>
    rw [List.foldl_cons, ih, pushStage, List.getElem?_modify, stagesAt_cons]
    cases cards[index]? with
    | none => rfl
    | some card =>
      refine congrArg some ?_
      split
      · exact add_add card [next.stage] (stagesAt taken index)
      · rfl

theorem getElem?_partOf (session : String) (runs : RunsReport) (first : Bool) (taken : List Pending) (index : Nat) :
    (partOf session runs first taken).report.cards[index]? =
      runs.cards[index]?.map fun card ↦ (card.inPart first).add (stagesAt taken index) := by
  rw [partOf, getElem?_pushAll, List.getElem?_map, Option.map_map]
  rfl

/-- What is pending is of delta cards. -/
theorem mem_pendingOf (h : pending ∈ pendingOf cards) :
    ∃ card, cards[pending.index]? = some card ∧ card.isDelta = true := by
  obtain ⟨⟨card, index⟩, hmem, hpending⟩ := List.mem_flatMap.1 h
  have hget := List.mem_zipIdx_iff_getElem?.1 hmem
  dsimp only at hpending hget
  split at hpending
  · obtain ⟨stage, -, rfl⟩ := List.mem_map.1 hpending
    exact ⟨card, hget, ‹_›⟩
  · cases hpending

variable {index : Nat}

theorem stagesAt_pendingOf (h : cards[index]? = some card) :
    stagesAt (pendingOf cards) index = if card.isDelta then card.stages else [] := by
  have hfrom : ∀ (cards : List LinkRun) (start : Nat), stagesAt ((cards.zipIdx start).flatMap fun card ↦
        if card.1.isDelta then card.1.stages.map (⟨card.2, ·⟩) else []) index =
      if start ≤ index then (cards[index - start]?).elim [] fun card ↦ if card.isDelta then card.stages else []
      else [] := by
    intro cards
    induction cards with
    | nil =>
      intro start
      split <;> rfl
    | cons first rest ih =>
      intro start
      have hfirst : stagesAt (if first.isDelta then first.stages.map (⟨start, ·⟩) else []) index =
          if start = index then (if first.isDelta then first.stages else []) else [] := by
        cases first.isDelta with
        | false => simp [stagesAt]
        | true =>
          by_cases hstart : start = index
          · simp [stagesAt, List.filter_map, Function.comp_def, hstart]
          · simp [stagesAt, List.filter_map, Function.comp_def, hstart]
      rw [List.zipIdx_cons, List.flatMap_cons, stagesAt_append, ih, hfirst]
      obtain hlt | rfl | hgt := Nat.lt_trichotomy start index
      · rw [if_neg (by omega), if_pos (by omega), if_pos (by omega), List.nil_append,
          show index - start = index - (start + 1) + 1 by omega, List.getElem?_cons_succ]
      · rw [if_pos rfl, if_neg (show ¬start + 1 ≤ start by omega), if_pos (Nat.le_refl start), Nat.sub_self,
          List.getElem?_cons_zero, List.append_nil]
        rfl
      · rw [if_neg (by omega), if_neg (by omega), if_neg (by omega)]
        rfl
  have hpending : stagesAt (pendingOf cards) index = _ := hfrom cards 0
  rw [hpending, if_pos (Nat.zero_le _), Nat.sub_zero, h]
  rfl

/-- Segments of what is pending in a report. -/
def Cut (runs : RunsReport) (taken : List Pending) : Prop :=
  ∀ pending ∈ taken, ∃ card, runs.cards[pending.index]? = some card ∧ card.isDelta = true

theorem Cut.stagesAt (h : Cut runs taken) (hcard : runs.cards[index]? = some card)
    (hfull : card.isDelta = false) : stagesAt taken index = [] := by
  refine List.map_eq_nil_iff.2 (List.filter_eq_nil_iff.2 fun pending hpending hindex ↦ ?_)
  obtain ⟨other, hother, hdelta⟩ := h pending hpending
  rw [beq_iff_eq.1 hindex, hcard] at hother
  cases hother
  rw [hfull] at hdelta
  cases hdelta

/-- The first part and one more are the first part with the stages of both. -/
theorem partOf_twice (server : RemoteSession) (session : String) {more : List Pending}
    (hids : (runs.cards.map LinkRun.id).Nodup) (hstages : ∀ card ∈ runs.cards, (card.stages.map RunStage.id).Nodup)
    (htaken : Cut runs taken) (hmore : Cut runs more) :
    ((server.reportRuns (partOf session runs true taken).report).reportRuns
        (partOf session runs false more).report).Same
      (server.reportRuns (partOf session runs true (taken ++ more)).report) := by
  obtain ⟨pairs, hget⟩ : ∃ pairs : List (LinkRun × List RunStage), ∀ index, pairs[index]? =
      runs.cards[index]?.map fun card ↦ ((card.inPart true).add (stagesAt taken index), stagesAt more index) := by
    refine ⟨runs.cards.zipIdx.map fun card ↦
      ((card.1.inPart true).add (stagesAt taken card.2), stagesAt more card.2), fun index ↦ ?_⟩
    simp only [List.getElem?_map, List.getElem?_zipIdx, Option.map_map, Nat.zero_add]
    rfl
  have hfirst : (partOf session runs true taken).report.cards = pairs.map (·.1) := by
    refine List.ext_getElem? fun index ↦ ?_
    rw [getElem?_partOf, List.getElem?_map, hget, Option.map_map]
    rfl
  have hsecond : (partOf session runs false more).report.cards =
      pairs.map fun pair ↦ .delta pair.1.fields pair.2 := by
    refine List.ext_getElem? fun index ↦ ?_
    rw [getElem?_partOf, List.getElem?_map, hget, Option.map_map]
    cases runs.cards[index]? with
    | none => rfl
    | some card =>
      rw [Option.map_some, Option.map_some, inPart_false]
      exact congrArg (fun fields ↦ some (LinkRun.delta fields (stagesAt more index)))
        ((add_fields _ _).trans (inPart_fields true card)).symm
  have hboth : (partOf session runs true (taken ++ more)).report.cards =
      pairs.map fun pair ↦ pair.1.add pair.2 := by
    refine List.ext_getElem? fun index ↦ ?_
    rw [getElem?_partOf, List.getElem?_map, hget, Option.map_map]
    cases runs.cards[index]? with
    | none => rfl
    | some card => exact congrArg some (by rw [stagesAt_append]; exact (add_add _ _ _).symm)
  have hpairsIds : (pairs.map (·.1)).map LinkRun.id = runs.cards.map LinkRun.id := by
    refine List.ext_getElem? fun index ↦ ?_
    rw [List.getElem?_map, List.getElem?_map, List.getElem?_map, hget]
    cases runs.cards[index]? with
    | none => rfl
    | some card => exact congrArg (fun fields ↦ some fields.id) ((add_fields _ _).trans (inPart_fields true card))
  have htwice := report_twice server runs.active runs.paused (hpairsIds.symm ▸ hids) ?_
  · rw [← hfirst, ← hsecond, ← hboth] at htwice
    exact htwice
  · intro pair hpair
    obtain ⟨index, hindex⟩ := List.mem_iff_getElem?.1 hpair
    rw [hget] at hindex
    obtain ⟨card, hcard, rfl⟩ := Option.map_eq_some_iff.1 hindex
    cases hdelta : card.isDelta with
    | true =>
      left
      rw [add_isDelta, LinkRun.inPart, hdelta]
      rfl
    | false =>
      have hpart : card.inPart true = card := by rw [LinkRun.inPart, hdelta]; rfl
      right
      rw [hmore.stagesAt hcard hdelta, htaken.stagesAt hcard hdelta, hpart, add_nil]
      exact ⟨rfl, hstages card (List.mem_of_getElem? hcard)⟩

/-- A report, as one message after the other brings it. -/
def RemoteSession.receive (server : RemoteSession) (messages : List Message) : RemoteSession :=
  messages.foldl (fun server message ↦ server.reportRuns message.report) server

theorem RemoteSession.Same.receive (h : server.Same other) (messages : List Message) :
    (server.receive messages).Same (other.receive messages) := by
  induction messages generalizing server other with
  | nil => exact h
  | cons message rest ih => exact ih (h.reportRuns message.report)

/-- The parts come to what the first part with all of the stages does. -/
theorem receive_partsOf (server : RemoteSession) (session : String) (taken : List Pending)
    (rest : List (List Pending)) (hids : (runs.cards.map LinkRun.id).Nodup)
    (hstages : ∀ card ∈ runs.cards, (card.stages.map RunStage.id).Nodup) (hcut : Cut runs (taken ++ rest.flatten)) :
    (server.receive (partsOf session runs true (taken :: rest))).Same
      (server.reportRuns (partOf session runs true (taken ++ rest.flatten)).report) := by
  have hrest : ∀ {rest : List (List Pending)} {taken : List Pending}, Cut runs (taken ++ rest.flatten) →
      ((server.reportRuns (partOf session runs true taken).report).receive (partsOf session runs false rest)).Same
        (server.reportRuns (partOf session runs true (taken ++ rest.flatten)).report) := by
    intro rest
    induction rest with
    | nil =>
      intro taken _
      rw [List.flatten_nil, List.append_nil]
      exact .refl _
    | cons more rest ih =>
      intro taken hcut
      rw [List.flatten_cons, ← List.append_assoc] at hcut ⊢
      have htwice := partOf_twice server session hids hstages
        (fun pending hpending ↦ hcut pending (List.mem_append_left _ (List.mem_append_left _ hpending)))
        (fun pending hpending ↦ hcut pending (List.mem_append_left _ (List.mem_append_right taken hpending)))
      exact (htwice.receive _).trans (ih hcut)
  exact hrest hcut

theorem partOf_pending (session : String) (runs : RunsReport) :
    (partOf session runs true (pendingOf runs.cards)).report = runs := by
  have hcards : (partOf session runs true (pendingOf runs.cards)).report.cards = runs.cards := by
    refine List.ext_getElem? fun index ↦ ?_
    rw [getElem?_partOf]
    cases hcard : runs.cards[index]? with
    | none => rfl
    | some card =>
      rw [Option.map_some, stagesAt_pendingOf hcard, LinkRun.inPart]
      cases card with
      | full fields stages earlierStages => simp [LinkRun.isDelta]
      | delta fields stages => simp [LinkRun.isDelta, LinkRun.add, LinkRun.fields, LinkRun.stages]
  exact congrArg (fun cards ↦ { runs with cards }) hcards

/-- The stages that a message has of the card with this index. -/
def Message.stagesOf (message : Message) (index : Nat) : List RunStage :=
  (message.report.cards[index]?).elim [] LinkRun.stages

theorem stagesOf_partsOf (hcard : runs.cards[index]? = some card) (hdelta : card.isDelta = true)
    (first : Bool) (segments : List (List Pending)) :
    (partsOf session runs first segments).flatMap (·.stagesOf index) = segments.flatMap (stagesAt · index) := by
  induction segments generalizing first with
  | nil => rfl
  | cons taken rest ih =>
    rw [partsOf, List.flatMap_cons, List.flatMap_cons, ih false, Message.stagesOf, getElem?_partOf, hcard]
    simp [LinkRun.inPart, hdelta, LinkRun.stages, LinkRun.add]

/-- **A split report means the same as the whole one**: for every report that has one card of each run, and each stage
of a card once, the client's loop ends, and either nothing is sent and the report refused, or over an open socket parts
go out that each fit a message, that bring every server to the same runs and kept stages as the report, up to counts
of zero, and that have each delta card's stages between them in their order. -/
theorem parts_same (takesDeltas isOpen : Bool) (session : String) (server : RemoteSession)
    (hids : (runs.cards.map LinkRun.id).Nodup) (hstages : ∀ card ∈ runs.cards, (card.stages.map RunStage.id).Nodup) :
    ∃ sent, (∀ rounds, (pendingOf runs.cards).length + 2 ≤ rounds →
        reportRuns rounds takesDeltas isOpen session runs = some sent) ∧
      ((sent.failure.isSome = true ∧ sent.messages = []) ∨
        (sent.failure = none ∧ (∀ message ∈ sent.messages, bytes message.text ≤ maxMessageBytes) ∧
          (isOpen = false → sent.messages = []) ∧
          (isOpen = true → (server.receive sent.messages).Same (server.reportRuns runs) ∧
            ∀ index card, runs.cards[index]? = some card → card.isDelta = true →
              sent.messages.flatMap (·.stagesOf index) = card.stages))) := by
  by_cases hrefused : (!takesDeltas && runs.cards.any LinkRun.isDelta) = true
  · exact ⟨_, fun rounds _ ↦ if_pos hrefused, .inl ⟨rfl, rfl⟩⟩
  obtain ⟨result, hresult⟩ := splitRuns_ends session runs
  refine ⟨_, fun rounds hrounds ↦ (if_neg hrefused).trans (congrArg (Option.map _) (hresult rounds hrounds)), ?_⟩
  cases result with
  | error failure => exact .inl ⟨rfl, rfl⟩
  | ok parts =>
    dsimp only
    have hparts := splitRuns_spec (hresult _ (Nat.le_refl _))
    -- The parts bring the server to the same, and have the stages.
    have hsame : (server.receive parts).Same (server.reportRuns runs) ∧
        ∀ index card, runs.cards[index]? = some card → card.isDelta = true →
          parts.flatMap (·.stagesOf index) = card.stages := by
      obtain ⟨rfl, -⟩ | ⟨taken, rest, hcut, rfl, -⟩ := hparts
      · refine ⟨.refl _, fun index card hcard _ ↦ ?_⟩
        rw [List.flatMap_singleton, Message.stagesOf, hcard]
        rfl
      · have hsame := receive_partsOf server session taken rest hids hstages
          (by rw [hcut]; exact fun _ ↦ mem_pendingOf)
        rw [hcut, partOf_pending] at hsame
        refine ⟨hsame, fun index card hcard hdelta ↦ ?_⟩
        rw [stagesOf_partsOf hcard hdelta, ← stagesAt_flatten, List.flatten_cons, hcut, stagesAt_pendingOf hcard,
          if_pos hdelta]
    have hfits : (∀ part ∈ parts, bytes part.text ≤ maxMessageBytes) ∨
        ∃ part, parts = [part] ∧ maxMessageBytes < bytes part.text := by
      obtain ⟨rfl, hwhole⟩ | ⟨taken, rest, -, rfl, hfits | ⟨rfl, rfl⟩⟩ := hparts
      · exact .inl fun part hpart ↦ List.mem_singleton.1 hpart ▸ hwhole
      · exact .inl hfits
      · by_cases hone : bytes (partOf session runs true []).text ≤ maxMessageBytes
        · exact .inl fun part hpart ↦ List.mem_singleton.1 hpart ▸ hone
        · exact .inr ⟨_, rfl, Nat.lt_of_not_le hone⟩
    obtain hfits | ⟨part, rfl, hlarge⟩ := hfits
    · right
      rw [sendAll_fits isOpen hfits]
      cases isOpen with
      | false => exact ⟨rfl, fun _ h ↦ (by cases h), fun _ ↦ rfl, fun h ↦ absurd h Bool.false_ne_true⟩
      | true => exact ⟨rfl, hfits, fun h ↦ absurd h.symm Bool.false_ne_true, fun _ ↦ hsame⟩
    · left
      rw [sendAll, if_pos hlarge]
      exact ⟨rfl, rfl⟩

/-! ## A count of zero -/

/-- A stage with a name of any size. -/
def wideStage (id name : String) : RunStage := { id, name, status := .running }

/-- A full card without stages, none of them earlier, and a delta card with two. -/
def wide (name : String) : RunsReport where
  active := []
  paused := []
  cards := [
    .full { id := "first", name := "first", status := .running, started := 0, updated := 0 } [] (some 0),
    .delta { id := "second", name := "second", status := .running, started := 0, updated := 0 }
      [wideStage "a" name, wideStage "b" name]]

/-- A report that fits is sent as it is. -/
theorem parts_same_sample : ∃ sent, reportRuns 4 true true "session" (wide "name") = some sent ∧
    sent.messages.flatMap (·.stagesOf 1) = [wideStage "a" "name", wideStage "b" "name"] := by
  obtain ⟨sent, hsent, hends⟩ := parts_same true true "session" {}
    (by decide : ((wide "name").cards.map LinkRun.id).Nodup) (by decide)
  have hsent := hsent 4 (by decide)
  have hopen : sent.failure = none := by
    have hnone : (reportRuns 4 true true "session" (wide "name")).map Sent.failure = some none := by decide +kernel
    rw [hsent] at hnone
    exact Option.some.inj hnone
  obtain ⟨hfailed, -⟩ | ⟨-, -, -, hparts⟩ := hends
  · rw [hopen] at hfailed
    cases hfailed
  · exact ⟨sent, hsent, (hparts rfl).2 1 _ rfl rfl⟩

/-- A name of so many characters. -/
def nameOf (count : Nat) : String := String.ofList (List.replicate count 'x')

theorem bytes_nameOf (count : Nat) : bytes (stringText (nameOf count)) = count + 2 := by
  have hconcat : ∀ count, bytes (concat ((List.replicate count 'x').map charText)) = count := by
    intro count
    induction count with
    | zero => rfl
    | succ count ih =>
      rw [List.replicate_succ, List.map_cons, concat, List.foldr_cons, ← concat, bytes_append, ih]
      exact Nat.add_comm 1 count
  have hquote : bytes "\"" = 1 := rfl
  rw [stringText, nameOf, String.toList_ofList, bytes_append, bytes_append, hconcat, hquote]
  omega

theorem bytes_wideStage (id name : String) :
    bytes (wideStage id name).text + 2 = bytes (wideStage id "").text + bytes (stringText name) :=
  bytes_object_swap [member "id" (stringText id)] [none, none, member "status" (stringText "running"), none, none]
    "name" (stringText name) (stringText "")

/-- With names of one and a half million characters the report goes out in two parts. -/
theorem wide_parts {name : String} (h : bytes (stringText name) = 1500002) :
    reportRuns 4 true true "session" (wide name) = some ⟨[partOf "session" (wide name) true [⟨1, wideStage "a" name⟩],
        partOf "session" (wide name) false [⟨1, wideStage "b" name⟩]], none⟩ := by
  have hbase : bytes (partOf "session" (wide name) true []).text = 302 ∧
      bytes (partOf "session" (wide name) false []).text = 303 := by
    have hnone : ∀ first, (partOf "session" (wide name) first []) = partOf "session" (wide "") first [] := by
      intro first
      cases first <;> rfl
    rw [hnone, hnone]
    decide +kernel
  have hmax : maxMessageBytes = 2097152 := rfl
  have hsize : ∀ id, bytes (wideStage id "").text = 39 → Pending.size ⟨1, wideStage id name⟩ = 1500040 := by
    intro id hid
    have hname := bytes_wideStage id name
    have hpending : Pending.size ⟨1, wideStage id name⟩ = bytes (wideStage id name).text + 1 := rfl
    omega
  have ha := hsize "a" (by decide +kernel)
  have hb := hsize "b" (by decide +kernel)
  have hwhole : ¬bytes (Message.text ⟨"session", wide name⟩) ≤ maxMessageBytes := by
    have hone := bytes_partOf_snoc "session" (wide name) true [] ⟨1, wideStage "a" name⟩
      (show 1 < 2 by decide)
    have htwo := bytes_partOf_snoc "session" (wide name) true [⟨1, wideStage "a" name⟩] ⟨1, wideStage "b" name⟩
      (show 1 < 2 by decide)
    have hall : (⟨"session", wide name⟩ : Message) =
        partOf "session" (wide name) true [⟨1, wideStage "a" name⟩, ⟨1, wideStage "b" name⟩] := rfl
    rw [Pending.size] at ha hb
    rw [List.nil_append] at hone
    rw [List.singleton_append] at htwo
    rw [hall]
    omega
  have hfirst : fill 302 [⟨1, wideStage "a" name⟩, ⟨1, wideStage "b" name⟩] =
      ([⟨1, wideStage "a" name⟩], [⟨1, wideStage "b" name⟩]) := by
    rw [fill, if_pos (by omega), fill, if_neg (by omega)]
  have hsecond : fill 303 [⟨1, wideStage "b" name⟩] = ([⟨1, wideStage "b" name⟩], []) := by
    rw [fill, if_pos (by omega), fill]
  have hsplit : splitRuns 4 "session" (wide name) = some (.ok
      [partOf "session" (wide name) true [⟨1, wideStage "a" name⟩],
        partOf "session" (wide name) false [⟨1, wideStage "b" name⟩]]) := by
    have hpending : pendingOf (wide name).cards = [⟨1, wideStage "a" name⟩, ⟨1, wideStage "b" name⟩] := rfl
    rw [splitRuns, if_neg hwhole, hpending]
    simp only [splitLoop, hbase, hfirst, hsecond]
    rfl
  have hfits : ∀ first stage, Pending.size ⟨1, stage⟩ = 1500040 →
      bytes (partOf "session" (wide name) first [⟨1, stage⟩]).text ≤ maxMessageBytes := by
    intro first stage hstage
    have hle := bytes_pushAll "session" (wide name) [⟨1, stage⟩] ((wide name).cards.map (.inPart first))
    have hbytes : bytes (partOf "session" (wide name) first []).text ≤ 303 := by
      cases first
      · exact Nat.le_of_eq hbase.2
      · exact Nat.le_succ_of_le (Nat.le_of_eq hbase.1)
    rw [List.map_singleton, List.sum_singleton, hstage] at hle
    exact Nat.le_trans hle (Nat.le_trans (Nat.add_le_add_right hbytes _) (by decide))
  have hsent := sendAll_fits true
    (List.forall_mem_cons.2 ⟨hfits true _ ha, List.forall_mem_singleton.2 (hfits false _ hb)⟩)
  rw [reportRuns, Bool.not_true, Bool.false_and, if_neg Bool.false_ne_true, hsplit]
  exact congrArg some hsent

/-- A full card with a count of zero is seen with it if the report is sent whole, and without it if it is split. -/
theorem zero_lost : ∃ runs sent, (runs.cards.map LinkRun.id).Nodup ∧
    (∀ card ∈ runs.cards, (card.stages.map RunStage.id).Nodup) ∧
    reportRuns 4 true true "session" runs = some sent ∧ sent.failure = none ∧
    (({} : RemoteSession).receive sent.messages).runs ≠ (({} : RemoteSession).reportRuns runs).runs := by
  obtain ⟨name, hname⟩ : ∃ name, bytes (stringText name) = 1500002 := ⟨nameOf 1500000, bytes_nameOf 1500000⟩
  have hids : ((wide name).cards.map LinkRun.id) = ["first", "second"] := rfl
  have hstages : ∀ card ∈ (wide name).cards, (card.stages.map RunStage.id).Nodup :=
    List.forall_mem_cons.2 ⟨List.nodup_nil, List.forall_mem_singleton.2 (show ["a", "b"].Nodup by decide)⟩
  refine ⟨wide name, _, hids ▸ by decide, hstages, wide_parts hname, rfl, fun h ↦ ?_⟩
  have hcounts := congrArg (Option.map fun runs : PlannerRuns ↦ runs.cards.map Run.earlierStages) h
  have hparts : some [none, none] = some [some 0, none] := hcounts
  cases hparts

end Chopin.Runs
