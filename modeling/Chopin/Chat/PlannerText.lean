import Chopin.Chat.References

/-!
# Removing the mention

The mention is removed in two ways: by a regular expression from a message without references
(`instruction`), and unit by unit from one with references (`plannerText`).
-/

set_option autoImplicit false

open Script Chopin.Protocol

namespace Chopin.Chat

/-! ## The mention -/

theorem mention_units : MENTION = [0x40, 0x63, 0x68, 0x6f, 0x70, 0x69, 0x6e] := by decide

/-- No unit outside ASCII is read as a unit of the mention. -/
theorem lowerCase_iff (text : Units) : text.flatMap lowerCase = MENTION ↔ text.map asciiLower = MENTION := by
  have hplain (h : ∀ unit ∈ text, unit ≠ 0x212a ∧ unit ≠ 0x130) : text.flatMap lowerCase = text.map asciiLower := by
    induction text with
    | nil => rfl
    | cons unit rest ih =>
      obtain ⟨⟨hkelvin, hdotted⟩, hrest⟩ := List.forall_mem_cons.1 h
      rw [List.flatMap_cons, ih hrest, lowerCase, if_neg hkelvin, if_neg hdotted]
      rfl
  constructor
  · intro h
    rw [← hplain, h]
    intro unit hunit
    have hmem : ∀ code ∈ lowerCase unit, code ∈ MENTION := fun code hcode ↦
      h ▸ List.mem_flatMap.2 ⟨unit, hunit, hcode⟩
    constructor
    · rintro rfl
      exact absurd (hmem 0x6b (by decide)) (by decide)
    · rintro rfl
      exact absurd (hmem 0x307 (by decide)) (by decide)
  · intro h
    rw [hplain, h]
    intro unit hunit
    have hmem : asciiLower unit ∈ MENTION := h ▸ List.mem_map_of_mem hunit
    constructor
    · rintro rfl
      exact absurd hmem (by decide)
    · rintro rfl
      exact absurd hmem (by decide)

@[simp] theorem texts_units (text : Units) (reference : Option Nat) : texts (units text reference) = text := by
  rw [texts, units, List.map_map]
  exact List.map_id' text

theorem units_cons (unit : Nat) (rest : Units) (reference : Option Nat) :
    units (unit :: rest) reference = ⟨unit, reference⟩ :: units rest reference := rfl

/-- Where no unit is a label's, the loop's test is the expression's. -/
theorem addressesHere_units (before : Option Nat) (text : Units) : addressesHere before (units text none) = true ↔
    (∀ unit ∈ before, separates unit = true) ∧ mentioned text = true := by
  have htake : texts ((units text none).take MENTION.length) = text.take MENTION.length := by
    rw [units, ← List.map_take]
    exact texts_units _ none
  have hnext : ((units text none)[MENTION.length]?.any fun unit ↦ isWord unit.value) =
      text[MENTION.length]?.any isWord := by
    rw [units, List.getElem?_map, Option.any_map]
  have hopen : ((units text none).take MENTION.length).all (·.reference.isNone) = true := by
    rw [units, ← List.map_take, List.all_map]
    exact List.all_eq_true.2 fun _ _ ↦ rfl
  simp only [addressesHere, mentioned, htake, hnext, hopen, lowerCase_iff, Bool.and_eq_true, decide_eq_true_eq,
    and_true]
  cases before with
  | none => simp
  | some unit => simp [separates]; grind

/-- The places at which the expression and the loop stand side by side: at the beginning, behind a unit after
which no mention was found, behind one after which it was, and inside a mention. -/
inductive Sync : (start : Bool) → (skip : Nat) → (before : Option Nat) → (passed : Nat) → Units → Prop
  | start (text : Units) : Sync true 0 none 0 text
  | open {unit : Nat} {text : Units} (h : ¬(separates unit = true ∧ mentioned text = true)) :
      Sync false 0 (some unit) 0 text
  | found {unit : Nat} {text : Units} (hunit : separates unit = true) (h : mentioned text = true) :
      Sync false MENTION.length (some unit) 0 text
  | inside {skip : Nat} {before : Option Nat} {text : Units} (hskip : skip < MENTION.length - 1)
      (h : (text.take (skip + 1)).map asciiLower = MENTION.drop (MENTION.length - (skip + 1))) :
      Sync false (skip + 1) before (skip + 1) text

variable {unit : Nat}

variable {rest : Units}

/-- Behind the last letter of a mention none begins. -/
theorem Sync.after (h : asciiLower unit = 0x6e) : Sync false 0 (some unit) 0 rest := by
  refine .open fun hboth ↦ ?_
  have hseparates := hboth.1
  simp only [separates, isWord, asciiLower, Bool.and_eq_true, Bool.not_eq_true', Bool.or_eq_false_iff,
    Bool.and_eq_false_iff, decide_eq_false_iff_not] at h hseparates
  split at h <;> omega

theorem mentioned_take (h : mentioned (unit :: rest) = true) : (rest.take 6).map asciiLower = MENTION.drop 1 := by
  simp only [mentioned, mention_units, Bool.and_eq_true, decide_eq_true_eq, List.length_cons, List.length_nil,
    Nat.zero_add, Nat.reduceAdd, List.take_succ_cons, List.map_cons, List.cons.injEq] at h
  rw [mention_units]
  exact h.1.2

/-- One unit further inside a mention, or behind it. -/
theorem Sync.next {skip : Nat} (hskip : skip < MENTION.length - 1)
    (h : ((unit :: rest).take (skip + 1)).map asciiLower = MENTION.drop (MENTION.length - (skip + 1))) :
    Sync false skip (some unit) skip rest := by
  cases skip with
  | zero =>
    refine .after ?_
    simpa [mention_units] using h
  | succ skip =>
    refine .inside (Nat.lt_of_succ_lt hskip) ?_
    rw [List.take_succ_cons, List.map_cons] at h
    have htail := congrArg List.tail h
    rw [List.tail_cons, List.tail_drop] at htail
    rw [htail]
    congr 1
    omega

/-- The units behind the first of a mention are passed over by both. -/
theorem Sync.of_mentioned (h : mentioned (unit :: rest) = true) :
    Sync false (MENTION.length - 1) (some unit) (MENTION.length - 1) rest :=
  .inside (show 5 < MENTION.length - 1 by decide) (mentioned_take h)

variable {before : Option Nat}

/-- **The expression and the loop remove the same mentions.** -/
theorem replaceMentions_eq {start : Bool} {skip passed : Nat} {text : Units} (h : Sync start skip before passed text) :
    replaceMentions start skip text = texts (filterMentions before passed (units text none)) := by
  induction text generalizing start skip passed before with
  | nil => rfl
  | cons unit rest ih =>
    -- Where no mention begins, both keep the unit, and the expression looks behind it.
    have hkept : (if separates unit && mentioned rest then unit :: replaceMentions false MENTION.length rest
        else unit :: replaceMentions false 0 rest) =
        texts (⟨unit, none⟩ :: filterMentions (some unit) 0 (units rest none)) := by
      rw [texts, List.map_cons, ← texts]
      split
      · rename_i hfound
        obtain ⟨hseparates, hmentioned⟩ := Bool.and_eq_true_iff.1 hfound
        rw [ih (.found hseparates hmentioned)]
      · rename_i hno
        rw [ih (.open fun hboth ↦ hno (Bool.and_eq_true_iff.2 hboth))]
    cases h with
    | start =>
      rw [replaceMentions, Bool.true_and, units_cons, filterMentions, ← units_cons]
      by_cases hmentioned : mentioned (unit :: rest) = true
      · rw [if_pos hmentioned, if_pos ((addressesHere_units none _).2 ⟨nofun, hmentioned⟩)]
        exact ih (.of_mentioned hmentioned)
      · rw [if_neg hmentioned, if_neg fun h ↦ hmentioned ((addressesHere_units none _).1 h).2, hkept]
    | @«open» before _ hno =>
      have hloop : ¬addressesHere (some before) (units (unit :: rest) none) = true := by
        intro h
        obtain ⟨hseparates, hmentioned⟩ := (addressesHere_units _ _).1 h
        exact hno ⟨hseparates before rfl, hmentioned⟩
      rw [replaceMentions, Bool.false_and, if_neg Bool.false_ne_true, units_cons, filterMentions, ← units_cons,
        if_neg hloop, hkept]
    | @found before _ hseparates hmentioned =>
      rw [mention_units, List.length_cons, replaceMentions, units_cons, filterMentions, ← units_cons,
        if_pos ((addressesHere_units _ _).2 ⟨fun _ h ↦ Option.some.inj h ▸ hseparates, hmentioned⟩)]
      exact ih (.of_mentioned hmentioned)
    | inside hskip hspelled =>
      rw [replaceMentions, units_cons, filterMentions]
      exact ih (.next hskip hspelled)

/-- The loop only leaves units out. -/
theorem filterMentions_sublist (before : Option Nat) (skip : Nat) (input : List TextUnit) :
    (filterMentions before skip input).Sublist input := by
  induction input generalizing before skip with
  | nil => exact .slnil
  | cons unit rest ih =>
    cases skip with
    | succ skip => exact .cons _ (ih _ _)
    | zero =>
      rw [filterMentions]
      split
      · exact .cons _ (ih _ _)
      · exact .cons_cons _ (ih _ _)

variable {input : List TextUnit}

theorem units_texts (h : ∀ unit ∈ input, unit.reference = none) : units (texts input) none = input := by
  rw [units, texts, List.map_map]
  refine (List.map_congr_left fun unit hunit ↦ ?_).trans (List.map_id input)
  rw [Function.comp_apply, ← h unit hunit]
  rfl

/-- **Without references, the loop gives the instruction.** -/
theorem plannerText_units (text : Units) : plannerText (units text none) = units (instruction text) none := by
  have hopen : ∀ unit ∈ filterMentions none 0 (units text none), unit.reference = none := by
    intro unit hunit
    obtain ⟨_, -, rfl⟩ := List.mem_map.1 ((filterMentions_sublist _ _ _).subset hunit)
    rfl
  have hnarrow (text : Units) : narrow TextUnit.isGap TextUnit.space .none (units text none) =
      units (narrow isGap 0x20 .none text) none :=
    narrow_map (fun unit ↦ (⟨unit, none⟩ : TextUnit)) (fun _ ↦ rfl) .none text
  have htrim (text : Units) : trimMessage (units text none) = units (trimUnits text) none := by
    rw [trimMessage, trimUnits, units, List.dropWhile_map, units, List.rdropWhile, List.rdropWhile, ← List.map_reverse,
      List.dropWhile_map, List.map_reverse]
    rfl
  rw [plannerText, ← units_texts hopen, ← replaceMentions_eq (.start text), hnarrow, htrim, instruction]

/-! ## Labels -/

/-- A label: units of one reference, of which there are some. -/
structure IsLabel (label : List TextUnit) : Prop where
  ne_nil : label ≠ []
  held : ∀ unit ∈ label, unit.reference ≠ none

/-- A unit of a label begins no mention. -/
theorem addressesHere_label {unit : TextUnit} {rest : List TextUnit}
    (h : unit.reference ≠ none) : addressesHere before (unit :: rest) = false := by
  rw [Bool.eq_false_iff]
  intro haddresses
  rw [addressesHere, Bool.and_eq_true, List.all_eq_true] at haddresses
  have hunit := haddresses.2 unit (by simp [mention_units])
  exact h (Option.isNone_iff_eq_none.1 hunit)

/-- The value before what follows `label`. -/
def behind (before : Option Nat) (label : List TextUnit) : Option Nat := (label.getLast?.map (·.value)).or before

theorem filterMentions_held (back : List TextUnit) : ∀ (label : List TextUnit) (before : Option Nat),
    (∀ unit ∈ label, unit.reference ≠ none) →
    filterMentions before 0 (label ++ back) = label ++ filterMentions (behind before label) 0 back
  | [], _, _ => rfl
  | unit :: rest, before, h => by
    obtain ⟨hunit, hrest⟩ := List.forall_mem_cons.1 h
    have hbehind : behind (some unit.value) rest = behind before (unit :: rest) := by
      cases rest with
      | nil => rfl
      | cons next rest =>
        rw [behind, behind, List.getLast?_cons_cons, List.getLast?_eq_some_getLast (List.cons_ne_nil _ _)]
        rfl
    rw [List.cons_append, filterMentions, if_neg (by rw [addressesHere_label hunit]; exact Bool.false_ne_true),
      filterMentions_held back rest (some unit.value) hrest, hbehind, List.cons_append]

variable {label : List TextUnit}

variable {front : List TextUnit}

/-- No unit of a label is passed over: a mention holds none. -/
theorem addressesHere_length {back : List TextUnit} (hlabel : IsLabel label)
    (h : addressesHere before (front ++ (label ++ back)) = true) : MENTION.length ≤ front.length := by
  by_contra hshort
  obtain ⟨first, rest, rfl⟩ := List.exists_cons_of_ne_nil hlabel.ne_nil
  rw [addressesHere, Bool.and_eq_true, List.all_eq_true] at h
  have hunit : first ∈ (front ++ (first :: rest ++ back)).take MENTION.length := by
    rw [List.take_append, List.cons_append]
    refine List.mem_append_right _ ?_
    obtain ⟨count, hcount⟩ : ∃ count, MENTION.length - front.length = count + 1 :=
      ⟨MENTION.length - front.length - 1, by omega⟩
    rw [hcount, List.take_succ_cons]
    exact List.mem_cons_self
  exact hlabel.held first List.mem_cons_self (Option.isNone_iff_eq_none.1 (h.2 first hunit))

/-- **The loop keeps a label**, and goes on behind it as it would without what stood before. -/
theorem filterMentions_label (hlabel : IsLabel label) (back : List TextUnit) :
    ∀ (front : List TextUnit) (before : Option Nat) (skip : Nat), skip ≤ front.length →
    ∃ kept, filterMentions before skip (front ++ (label ++ back)) =
      kept ++ (label ++ filterMentions (behind none label) 0 back) ∧ kept.Sublist front := by
  intro front
  induction front with
  | nil =>
    intro before skip hskip
    obtain rfl := Nat.le_zero.1 hskip
    refine ⟨[], ?_, .slnil⟩
    have hbehind : behind before label = behind none label := by
      rw [behind, behind, List.getLast?_eq_some_getLast hlabel.ne_nil]
      rfl
    rw [List.nil_append, List.nil_append, filterMentions_held back label before hlabel.held, hbehind]
  | cons unit rest ih =>
    intro before skip hskip
    cases skip with
    | succ skip =>
      obtain ⟨kept, hkept, hsub⟩ := ih (some unit.value) skip (Nat.le_of_succ_le_succ hskip)
      exact ⟨kept, hkept, .cons _ hsub⟩
    | zero =>
      rw [List.cons_append, filterMentions]
      split
      · rename_i haddresses
        have hlength : MENTION.length ≤ (unit :: rest).length := addressesHere_length hlabel haddresses
        obtain ⟨kept, hkept, hsub⟩ := ih (some unit.value) (MENTION.length - 1) (Nat.sub_le_of_le_add hlength)
        exact ⟨kept, hkept, .cons _ hsub⟩
      · obtain ⟨kept, hkept, hsub⟩ := ih (some unit.value) 0 (Nat.zero_le _)
        exact ⟨unit :: kept, by rw [hkept]; rfl, .cons_cons _ hsub⟩

theorem isGap_label {unit : TextUnit} (h : unit.reference ≠ none) : unit.isGap = false := by
  rw [TextUnit.isGap, Option.isNone_eq_false_iff.2 (Option.isSome_iff_ne_none.2 h), Bool.false_and]

theorem isSpace_label {unit : TextUnit} (h : unit.reference ≠ none) : unit.isSpace = false := by
  rw [TextUnit.isSpace, Option.isNone_eq_false_iff.2 (Option.isSome_iff_ne_none.2 h), Bool.false_and]

theorem narrow_held (back : List TextUnit) : ∀ label : List TextUnit, (∀ unit ∈ label, unit.reference ≠ none) →
    narrow TextUnit.isGap TextUnit.space .none (label ++ back) =
      label ++ narrow TextUnit.isGap TextUnit.space .none back
  | [], _ => rfl
  | unit :: rest, h => by
    obtain ⟨hunit, hrest⟩ := List.forall_mem_cons.1 h
    have hstep : narrow TextUnit.isGap TextUnit.space .none (unit :: (rest ++ back)) =
        unit :: narrow TextUnit.isGap TextUnit.space .none (rest ++ back) :=
      narrow_append (isGap_label hunit) .none [] (rest ++ back)
    rw [narrow_held back rest hrest] at hstep
    exact hstep

theorem narrow_label (hlabel : IsLabel label) (front back : List TextUnit) :
    narrow TextUnit.isGap TextUnit.space .none (front ++ (label ++ back)) =
      narrow TextUnit.isGap TextUnit.space .none front ++
        (label ++ narrow TextUnit.isGap TextUnit.space .none back) := by
  obtain ⟨first, rest, rfl⟩ := List.exists_cons_of_ne_nil hlabel.ne_nil
  rw [List.cons_append, narrow_append (isGap_label (hlabel.held first List.mem_cons_self)),
    narrow_held back rest fun unit hunit ↦ hlabel.held unit (List.mem_cons_of_mem _ hunit)]
  rfl

theorem dropWhile_append_of {α : Type} {p : α → Bool} {stop : α} (h : p stop = false) (front back : List α) :
    (front ++ stop :: back).dropWhile p = front.dropWhile p ++ stop :: back := by
  induction front with
  | nil => rw [List.nil_append, List.dropWhile_cons_of_neg (by rw [h]; exact Bool.false_ne_true)]; rfl
  | cons first rest ih =>
    rw [List.cons_append, List.dropWhile_cons, List.dropWhile_cons, ih]
    split <;> rfl

/-- Trimming stops at a label from both sides. -/
theorem trimMessage_label (hlabel : IsLabel label) (front back : List TextUnit) :
    trimMessage (front ++ (label ++ back)) =
      front.dropWhile TextUnit.isSpace ++ (label ++ back.rdropWhile TextUnit.isSpace) := by
  obtain ⟨first, rest, hfirst⟩ := List.exists_cons_of_ne_nil hlabel.ne_nil
  obtain ⟨rest', last, hlast⟩ : ∃ rest' last, label = rest' ++ [last] :=
    ⟨_, _, (List.dropLast_concat_getLast hlabel.ne_nil).symm⟩
  have hfirstHeld := isSpace_label (hlabel.held first (by rw [hfirst]; exact List.mem_cons_self))
  have hlastHeld := isSpace_label (hlabel.held last (by rw [hlast]; simp))
  have hfront : (front ++ (label ++ back)).dropWhile TextUnit.isSpace =
      front.dropWhile TextUnit.isSpace ++ (label ++ back) := by
    rw [hfirst, List.cons_append]
    exact dropWhile_append_of hfirstHeld front (rest ++ back)
  rw [trimMessage, hfront, hlast, List.rdropWhile, List.rdropWhile]
  simp only [List.reverse_append, List.reverse_cons, List.nil_append, List.append_assoc, List.cons_append]
  rw [dropWhile_append_of hlastHeld]
  simp

/-- What becomes of the text behind a label. -/
def behindLabel (before : Option Nat) (back : List TextUnit) : List TextUnit :=
  (narrow TextUnit.isGap TextUnit.space .none (filterMentions before 0 back)).rdropWhile TextUnit.isSpace

/-- **A label stays in one piece**, and what comes of the text behind it depends on nothing before it. -/
theorem plannerText_label (hlabel : IsLabel label) (front back : List TextUnit) :
    ∃ kept, plannerText (front ++ (label ++ back)) = kept ++ (label ++ behindLabel (behind none label) back) ∧
      ∀ unit ∈ kept, unit ∈ front ∨ unit = TextUnit.space := by
  obtain ⟨kept, hkept, hsub⟩ := filterMentions_label hlabel back front none 0 (Nat.zero_le _)
  refine ⟨_, by rw [plannerText, hkept, narrow_label hlabel, trimMessage_label hlabel]; rfl, ?_⟩
  intro unit hunit
  rcases mem_narrow ((List.dropWhile_sublist _).subset hunit) with hmem | hmem | hspace
  · exact .inl (hsub.subset hmem)
  · cases hmem
  · exact .inr hspace

/-! ## Mentions outside labels -/

/-- A mention as a word of its own begins at `place`, and no unit of it is a label's. -/
structure OutsideMention (input : List TextUnit) (place : Nat) : Prop where
  spelled : (texts ((input.drop place).take MENTION.length)).map asciiLower = MENTION
  before : ∀ unit, 0 < place → input[place - 1]? = some unit → separates unit.value = true
  after : ∀ unit, input[place + MENTION.length]? = some unit → isWord unit.value = false
  outside : ∀ unit ∈ (input.drop place).take MENTION.length, unit.reference = none

/-- The unit at this index is one of such a mention. -/
def Mentioned (input : List TextUnit) (index : Nat) : Prop :=
  ∃ place, OutsideMention input place ∧ place ≤ index ∧ index < place + MENTION.length

open Classical in
/-- The message without these mentions. -/
noncomputable def kept (input : List TextUnit) : List TextUnit :=
  (input.zipIdx.filter fun entry ↦ ¬Mentioned input entry.2).map (·.1)

theorem addressesHere_iff {suffix : List TextUnit} :
    addressesHere (front.getLast?.map (·.value)) suffix = true ↔ OutsideMention (front ++ suffix) front.length := by
  have hdrop : (front ++ suffix).drop front.length = suffix := List.drop_left
  have hafter : (front ++ suffix)[front.length + MENTION.length]? = suffix[MENTION.length]? := by
    rw [List.getElem?_append_right (Nat.le_add_right _ _), Nat.add_sub_cancel_left]
  have hbefore : (∀ unit, 0 < front.length → (front ++ suffix)[front.length - 1]? = some unit →
      separates unit.value = true) ↔ ∀ unit ∈ front.getLast?.map (·.value), separates unit = true := by
    rcases List.eq_nil_or_concat front with rfl | ⟨rest, last, rfl⟩
    · simp
    · simp
  simp only [addressesHere, lowerCase_iff, Bool.and_eq_true, decide_eq_true_eq, List.all_eq_true,
    Option.isNone_iff_eq_none]
  constructor
  · rintro ⟨⟨⟨hspelled, hfront⟩, hback⟩, hopen⟩
    refine ⟨by rw [hdrop]; exact hspelled, hbefore.2 ?_, ?_, by rw [hdrop]; exact hopen⟩
    · intro unit hunit
      rw [Option.mem_def.1 hunit] at hfront
      simpa [separates] using hfront
    · intro unit hunit
      rw [hafter] at hunit
      rw [hunit] at hback
      simpa using hback
  · rintro ⟨hspelled, hfront, hback, hopen⟩
    rw [hdrop] at hspelled hopen
    refine ⟨⟨⟨hspelled, ?_⟩, ?_⟩, hopen⟩
    · have hseparates := hbefore.1 hfront
      cases hlast : front.getLast?.map (·.value) with
      | none => rfl
      | some unit => simpa [separates] using hseparates unit hlast
    · rw [hafter] at hback
      cases hnext : suffix[MENTION.length]? with
      | none => rfl
      | some unit => simpa using hback unit hnext

/-- A mention holds no second `@`, so no two overlap. -/
theorem OutsideMention.apart {first second : Nat} (hfirst : OutsideMention input first)
    (hsecond : OutsideMention input second) (hlt : first < second) : first + MENTION.length ≤ second := by
  by_contra hover
  obtain ⟨offset, rfl⟩ : ∃ offset, second = first + (offset + 1) := ⟨second - first - 1, by omega⟩
  have hshort : offset + 1 < MENTION.length := by omega
  -- The unit in question is a letter of the first mention and the sign of the second.
  have hletter : ((texts ((input.drop first).take MENTION.length)).map asciiLower)[offset + 1]? =
      MENTION[offset + 1]? := by rw [hfirst.spelled]
  have hsign : ((texts ((input.drop (first + (offset + 1))).take MENTION.length)).map asciiLower)[0]? =
      MENTION[0]? := by rw [hsecond.spelled]
  simp only [texts, List.map_map, List.getElem?_map, List.getElem?_take, List.getElem?_drop] at hletter hsign
  rw [if_pos hshort] at hletter
  rw [if_pos (by decide), Nat.add_zero] at hsign
  rw [hsign] at hletter
  have hother : ∀ letter < 6, MENTION[0]? ≠ MENTION[letter + 1]? := by decide
  exact hother offset (Nat.lt_of_succ_lt_succ hshort) hletter

open Classical in
/-- The loop in the middle of a message: the units it passes over are those of a mention that began before. -/
theorem filterMentions_kept (input : List TextUnit) : ∀ (suffix front : List TextUnit) (skip : Nat),
    input = front ++ suffix →
    (∀ index, front.length ≤ index → ((∃ place, place < front.length ∧ OutsideMention input place ∧
      index < place + MENTION.length) ↔ index < front.length + skip)) →
    filterMentions (front.getLast?.map (·.value)) skip suffix =
      ((suffix.zipIdx front.length).filter fun entry ↦ ¬Mentioned input entry.2).map (·.1) := by
  intro suffix
  induction suffix with
  | nil => exact fun _ _ _ _ ↦ rfl
  | cons unit rest ih =>
    intro front skip hinput hskip
    have hnext (skip : Nat) := ih (front ++ [unit]) skip (by rw [hinput, List.append_cons])
    rw [List.length_append, List.length_singleton, List.getLast?_concat, Option.map_some] at hnext
    have hhere : addressesHere (front.getLast?.map (·.value)) (unit :: rest) = true ↔
        OutsideMention input front.length := hinput ▸ addressesHere_iff
    rw [List.zipIdx_cons, List.filter_cons]
    cases skip with
    | succ skip =>
      obtain ⟨place, hlt, hplace, hcovers⟩ := (hskip front.length (Nat.le_refl _)).2 (by omega)
      rw [if_neg (by simpa using ⟨place, hplace, Nat.le_of_lt hlt, hcovers⟩), filterMentions]
      refine hnext skip fun index hindex ↦ ?_
      rw [show front.length + 1 + skip = front.length + (skip + 1) by omega, ← hskip index (by omega)]
      constructor
      · rintro ⟨other, hother, hmention, hover⟩
        have hne : other ≠ front.length := by
          rintro rfl
          have := hplace.apart hmention hlt
          omega
        exact ⟨other, by omega, hmention, hover⟩
      · rintro ⟨other, hother, hmention, hover⟩
        exact ⟨other, by omega, hmention, hover⟩
    | zero =>
      rw [filterMentions]
      have hnone (place : Nat) (hlt : place < front.length) (hmention : OutsideMention input place)
          (index : Nat) (hindex : front.length ≤ index) : place + MENTION.length ≤ index := by
        by_contra hover
        have := (hskip index hindex).1 ⟨place, hlt, hmention, by omega⟩
        have := (hskip front.length (Nat.le_refl _)).1 ⟨place, hlt, hmention, by omega⟩
        omega
      by_cases hmention : OutsideMention input front.length
      · rw [if_pos (hhere.2 hmention), if_neg]
        · refine hnext (MENTION.length - 1) fun index hindex ↦ ?_
          constructor
          · rintro ⟨place, hplace, hother, hover⟩
            by_cases heq : place = front.length
            · have := mention_units; omega
            · have := hnone place (by omega) hother index (by omega)
              omega
          · intro hindex
            exact ⟨front.length, Nat.lt_succ_self _, hmention, by omega⟩
        · simpa using ⟨front.length, hmention, Nat.le_refl _, Nat.lt_add_of_pos_right (by decide)⟩
      · rw [if_neg fun h ↦ hmention (hhere.1 h), if_pos]
        · rw [List.map_cons, hnext 0 fun index hindex ↦ ?_]
          constructor
          · rintro ⟨place, hplace, hother, hover⟩
            by_cases heq : place = front.length
            · exact absurd (heq ▸ hother) hmention
            · have := hnone place (by omega) hother index (by omega)
              omega
          · intro hindex'
            omega
        · refine decide_eq_true ?_
          rintro ⟨place, hother, hle, hover⟩
          by_cases heq : place = front.length
          · exact hmention (heq ▸ hother)
          · have := hnone place (by omega) hother front.length (Nat.le_refl _)
            omega

/-- **The loop leaves out exactly the mentions outside labels.** -/
theorem filterMentions_eq_kept (input : List TextUnit) : filterMentions none 0 input = kept input :=
  filterMentions_kept input input [] 0 rfl fun _ _ ↦
    ⟨fun ⟨_, h, _⟩ ↦ absurd h (Nat.not_lt_zero _), fun h ↦ absurd h (Nat.not_lt_zero _)⟩

/-! ## The main result -/

/-- What is no white space between labels. -/
def TextUnit.solid (unit : TextUnit) : Bool := unit.reference.isSome || !isSpaceUnit unit.value

theorem filter_dropWhile (input : List TextUnit) :
    (input.dropWhile TextUnit.isSpace).filter TextUnit.solid = input.filter TextUnit.solid := by
  induction input with
  | nil => rfl
  | cons unit rest ih =>
    rw [List.dropWhile_cons]
    split
    · rename_i hspace
      rw [ih, List.filter_cons_of_neg]
      simp only [TextUnit.isSpace, Bool.and_eq_true, Option.isNone_iff_eq_none] at hspace
      simp [TextUnit.solid, hspace]
    · rfl

/-- Only white space is taken out of a message or changed in it. -/
theorem filter_trimMessage (input : List TextUnit) :
    (trimMessage input).filter TextUnit.solid = input.filter TextUnit.solid := by
  rw [trimMessage, List.rdropWhile, List.filter_reverse, filter_dropWhile, List.filter_reverse, List.reverse_reverse,
    filter_dropWhile]

theorem filter_plannerText (input : List TextUnit) :
    (plannerText input).filter TextUnit.solid = (kept input).filter TextUnit.solid := by
  rw [plannerText, filter_trimMessage, filter_narrow ?_ rfl rfl, filterMentions_eq_kept]
  intro unit hgap
  simp only [TextUnit.isGap, Protocol.isGap, Bool.and_eq_true, Option.isNone_iff_eq_none] at hgap
  simp [TextUnit.solid, hgap]

/-- A label stands in one piece in the units it is written to. -/
theorem canonicalUnits_label (text : Units) : ∀ (references : List Reference) (cursor first : Nat) (index : Nat)
    (reference : Reference), references[index]? = some reference →
    ∃ front back, canonicalUnits text cursor first references =
      front ++ (units reference.label (some (first + index)) ++ back) := by
  intro references
  induction references with
  | nil => exact fun _ _ _ _ h ↦ nomatch h
  | cons head rest ih =>
    intro cursor first index reference h
    rw [canonicalUnits]
    cases index with
    | zero =>
      cases h
      exact ⟨_, _, List.append_assoc _ _ _⟩
    | succ index =>
      obtain ⟨front, back, hrest⟩ := ih head.end (first + 1) index reference h
      rw [hrest, show first + 1 + index = first + (index + 1) by omega]
      exact ⟨_, back, (List.append_assoc _ _ _).symm⟩

theorem isLabel_units {text : Units} (h : text ≠ []) (index : Nat) : IsLabel (units text (some index)) := by
  refine ⟨fun hnil ↦ h (List.map_eq_nil_iff.1 hnil), fun unit hunit ↦ ?_⟩
  obtain ⟨_, -, rfl⟩ := List.mem_map.1 hunit
  exact nofun

/-- **The two ways of removing the mention agree.**  On a text without references the loop gives what the
expression gives.  On a message with references it removes exactly the mentions that lie outside every label,
and otherwise only white space outside labels; every label stands unaltered in what it gives. -/
theorem mention_removal_agrees : (∀ text, texts (plannerText (units text none)) = instruction text) ∧ ∀ text references,
      (plannerText (canonicalUnits text 0 0 references)).filter TextUnit.solid =
        (kept (canonicalUnits text 0 0 references)).filter TextUnit.solid ∧
      plannerText (canonicalUnits text 0 0 references) =
        trimMessage (narrow TextUnit.isGap TextUnit.space .none (kept (canonicalUnits text 0 0 references))) ∧
      ∀ index reference, references[index]? = some reference → ∃ front back,
        plannerText (canonicalUnits text 0 0 references) = front ++ (units reference.label (some index) ++ back) := by
  refine ⟨fun text ↦ by rw [plannerText_units, texts_units], fun text references ↦
    ⟨filter_plannerText _, by rw [plannerText, filterMentions_eq_kept], fun index reference h ↦ ?_⟩⟩
  obtain ⟨front, back, hcanonical⟩ := canonicalUnits_label text references 0 0 index reference h
  rw [Nat.zero_add] at hcanonical
  by_cases hlabel : reference.label = []
  · rw [hlabel]
    exact ⟨_, [], (List.append_nil _).symm⟩
  · obtain ⟨kept, hkept, -⟩ := plannerText_label (isLabel_units hlabel index) front back
    exact ⟨kept, _, by rw [hcanonical, hkept]⟩

theorem mention_removal_agrees_sample : ∃ front back, plannerText (canonicalUnits (utf16 "@chopin see #old") 0 0
      [⟨[], 12, 16, utf16 "#new", [], [], 0, .document [], .document []⟩]) =
      front ++ (units (utf16 "#new") (some 0) ++ back) :=
  (mention_removal_agrees.2 (utf16 "@chopin see #old")
    [⟨[], 12, 16, utf16 "#new", [], [], 0, .document [], .document []⟩]).2.2 0 _ rfl

end Chopin.Chat
