import Chopin.Chat.PlannerText
import Chopin.Lib.Lists

/-!
# Stored references restore

`resolve` says where the labels of a message have come to stand, and `restoreReferences` checks it again when the
message is read.  The two agree but for one thing: a label's end may not fall into a surrogate pair, and one
that ends with the first half of a pair makes one with a second half behind it.
-/

set_option autoImplicit false

open Script Chopin.Protocol

namespace Chopin.Chat

/-! ## Ranges -/

/-- The fold of `rangeOf` from one place on. -/
def rangeFrom (index : Nat) (place : Nat) (range : Option (Nat × Nat)) (input : List TextUnit) : Option (Nat × Nat) :=
  (input.zipIdx place).foldl (fun range entry ↦
    if entry.1.reference = some index then some ((range.map (·.1)).getD entry.2, entry.2 + 1) else range) range

theorem rangeFrom_append (index place : Nat) (range : Option (Nat × Nat)) (front back : List TextUnit) :
    rangeFrom index place range (front ++ back) =
      rangeFrom index (place + front.length) (rangeFrom index place range front) back := by
  rw [rangeFrom, List.zipIdx_append, List.foldl_append]
  rfl

variable {index : Nat}

/-- Units of others leave a range. -/
theorem rangeFrom_others {place : Nat} {range : Option (Nat × Nat)} {input : List TextUnit}
    (h : ∀ unit ∈ input, unit.reference ≠ some index) : rangeFrom index place range input = range := by
  induction input generalizing place with
  | nil => rfl
  | cons unit rest ih =>
    obtain ⟨hunit, hrest⟩ := List.forall_mem_cons.1 h
    have hstep : rangeFrom index (place + 1) range rest = range := ih hrest
    rw [rangeFrom] at hstep ⊢
    rw [List.zipIdx_cons, List.foldl_cons, if_neg hunit]
    exact hstep

/-- The units of a label extend its range. -/
theorem rangeFrom_label (index : Nat) : ∀ (label : Units) (start place : Nat), label ≠ [] →
    rangeFrom index place (some (start, place)) (units label (some index)) = some (start, place + label.length) := by
  intro label
  induction label with
  | nil => exact fun _ _ h ↦ absurd rfl h
  | cons unit rest ih =>
    intro start place _
    have hstep : rangeFrom index place (some (start, place)) (units (unit :: rest) (some index)) =
        rangeFrom index (place + 1) (some (start, place + 1)) (units rest (some index)) := by
      rw [rangeFrom, units_cons, List.zipIdx_cons, List.foldl_cons, if_pos rfl]
      rfl
    rw [hstep]
    cases rest with
    | nil => rfl
    | cons next rest =>
      rw [ih start (place + 1) (List.cons_ne_nil _ _), List.length_cons, List.length_cons, List.length_cons]
      congr 2
      omega

variable {front back : List TextUnit} {label : Units}

/-- **The range of a label is where it stands.** -/
theorem rangeOf_label (hlabel : label ≠ [])
    (hfront : ∀ unit ∈ front, unit.reference ≠ some index) (hback : ∀ unit ∈ back, unit.reference ≠ some index) :
    rangeOf (front ++ (units label (some index) ++ back)) index = some (front.length, front.length + label.length) := by
  have hrange : rangeOf (front ++ (units label (some index) ++ back)) index =
      rangeFrom index 0 none (front ++ (units label (some index) ++ back)) := rfl
  rw [hrange, rangeFrom_append, rangeFrom_others hfront, rangeFrom_append, rangeFrom_others hback, Nat.zero_add]
  obtain ⟨first, rest, rfl⟩ := List.exists_cons_of_ne_nil hlabel
  have hstep : rangeFrom index front.length none (units (first :: rest) (some index)) =
      rangeFrom index (front.length + 1) (some (front.length, front.length + 1)) (units rest (some index)) := by
    rw [rangeFrom, units_cons, List.zipIdx_cons, List.foldl_cons, if_pos rfl]
    rfl
  rw [hstep]
  cases rest with
  | nil => rfl
  | cons next rest =>
    rw [rangeFrom_label index _ _ _ (List.cons_ne_nil _ _), List.length_cons, List.length_cons, List.length_cons]
    congr 2
    omega

/-! ## Labels in the message -/

/-- The references of a message's units are numbered from where it was written. -/
theorem canonicalUnits_from (text : Units) : ∀ (references : List Reference) (cursor first : Nat),
    ∀ unit ∈ canonicalUnits text cursor first references, ∀ index ∈ unit.reference, first ≤ index := by
  intro references
  induction references with
  | nil =>
    intro cursor first unit hunit index hindex
    obtain ⟨_, -, rfl⟩ := List.mem_map.1 hunit
    cases hindex
  | cons reference rest ih =>
    intro cursor first unit hunit index hindex
    rcases List.mem_append.1 hunit with hunit | hunit
    · rcases List.mem_append.1 hunit with hunit | hunit
      · obtain ⟨_, -, rfl⟩ := List.mem_map.1 hunit
        cases hindex
      · obtain ⟨_, -, rfl⟩ := List.mem_map.1 hunit
        exact Nat.le_of_eq (Option.some.inj hindex)
    · exact Nat.le_of_succ_le (ih _ _ unit hunit index hindex)

/-- A label with what stands before it and the message behind it. -/
theorem canonicalUnits_split (text : Units) : ∀ (references : List Reference) (cursor first : Nat) (index : Nat)
    (reference : Reference), references[index]? = some reference →
    ∃ front, canonicalUnits text cursor first references = front ++ (units reference.label (some (first + index)) ++
        canonicalUnits text reference.end (first + index + 1) (references.drop (index + 1))) ∧
      ∀ unit ∈ front, ∀ other ∈ unit.reference, other < first + index := by
  intro references
  induction references with
  | nil => exact fun _ _ _ _ h ↦ by cases h
  | cons head rest ih =>
    intro cursor first index reference h
    rw [canonicalUnits]
    have hprose : ∀ unit ∈ units (slice text cursor head.start) none, ∀ other : Nat,
        other ∈ unit.reference → False := by
      intro unit hunit other hother
      obtain ⟨_, -, rfl⟩ := List.mem_map.1 hunit
      cases hother
    cases index with
    | zero =>
      cases h
      exact ⟨_, List.append_assoc _ _ _, fun unit hunit other hother ↦ (hprose unit hunit other hother).elim⟩
    | succ index =>
      obtain ⟨front, hrest, hfront⟩ := ih head.end (first + 1) index reference h
      rw [hrest, show first + 1 + index = first + (index + 1) by omega]
      refine ⟨_, (List.append_assoc _ _ _).symm, fun unit hunit other hother ↦ ?_⟩
      rcases List.mem_append.1 hunit with hunit | hunit
      · rcases List.mem_append.1 hunit with hunit | hunit
        · exact (hprose unit hunit other hother).elim
        · obtain ⟨_, -, rfl⟩ := List.mem_map.1 hunit
          have := Option.some.inj hother
          omega
      · have := hfront unit hunit other hother
        omega

/-- The message as it is shown. -/
def shown (destination : Destination) (input : List TextUnit) : List TextUnit :=
  if destination = .planner then plannerText input else trimMessage input

/-- What becomes of the text behind a label that ends with `last`. -/
def shownBehind (destination : Destination) (last : Option Nat) (back : List TextUnit) : List TextUnit :=
  if destination = .planner then behindLabel last back else back.rdropWhile TextUnit.isSpace

theorem shown_label (destination : Destination) {label : List TextUnit} (hlabel : IsLabel label)
    (front back : List TextUnit) : ∃ kept, shown destination (front ++ (label ++ back)) =
        kept ++ (label ++ shownBehind destination (behind none label) back) ∧
      ∀ unit ∈ kept, unit ∈ front ∨ unit = TextUnit.space := by
  rw [shown, shownBehind]
  split
  · exact plannerText_label hlabel front back
  · exact ⟨_, trimMessage_label hlabel front back, fun unit hunit ↦ .inl ((List.dropWhile_sublist _).subset hunit)⟩

variable {destination : Destination} {unit : TextUnit}

theorem mem_shownBehind {last : Option Nat}
    (h : unit ∈ shownBehind destination last back) : unit ∈ back ∨ unit = TextUnit.space := by
  rw [shownBehind] at h
  split at h
  · rcases mem_narrow ((List.dropWhile_sublist _).subset (List.mem_reverse.1 h) |> List.mem_reverse.1) with h | h | h
    · exact .inl ((filterMentions_sublist _ _ _).subset h)
    · cases h
    · exact .inr h
  · exact .inl (List.mem_reverse.1 ((List.dropWhile_sublist _).subset (List.mem_reverse.1 h)))

/-- Where a label stands in the message that is shown. -/
structure Stands (text : Units) (destination : Destination) (references : List Reference) (index : Nat)
    (reference : Reference) (front back : List TextUnit) : Prop where
  whole : shown destination (canonicalUnits text 0 0 references) =
    front ++ (units reference.label (some index) ++ back)
  before : ∀ unit ∈ front, ∀ other ∈ unit.reference, other < index
  after : ∀ unit ∈ back, ∀ other ∈ unit.reference, index < other
  follows : back = shownBehind destination reference.label.getLast?
    (canonicalUnits text reference.end (index + 1) (references.drop (index + 1)))

variable {references : List Reference}

variable {text : Units}

theorem shown_stands (destination : Destination)
    {reference : Reference} (h : references[index]? = some reference) (hlabel : reference.label ≠ []) :
    ∃ front back, Stands text destination references index reference front back := by
  obtain ⟨front, hsplit, hfront⟩ := canonicalUnits_split text references 0 0 index reference h
  rw [Nat.zero_add] at hsplit hfront
  obtain ⟨kept, hkept, hmem⟩ := shown_label destination (isLabel_units hlabel index) front
    (canonicalUnits text reference.end (index + 1) (references.drop (index + 1)))
  have hlast : behind none (units reference.label (some index)) = reference.label.getLast? := by
    rw [behind, units, List.getLast?_map, Option.map_map, Option.or_none]
    exact Option.map_id'
  rw [hlast] at hkept
  refine ⟨kept, _, by rw [hsplit, hkept], fun unit hunit other hother ↦ ?_, fun unit hunit other hother ↦ ?_, rfl⟩
  · rcases hmem unit hunit with hunit | rfl
    · exact hfront unit hunit other hother
    · cases hother
  · rcases mem_shownBehind hunit with hunit | rfl
    · exact canonicalUnits_from text _ _ _ unit hunit other hother
    · cases hother

theorem Stands.range {reference : Reference}
    (h : Stands text destination references index reference front back) (hlabel : reference.label ≠ []) :
    rangeOf (shown destination (canonicalUnits text 0 0 references)) index =
      some (front.length, front.length + reference.label.length) := by
  rw [h.whole]
  refine rangeOf_label hlabel (fun unit hunit heq ↦ ?_) fun unit hunit heq ↦ ?_
  · exact Nat.lt_irrefl _ (h.before unit hunit index heq)
  · exact Nat.lt_irrefl _ (h.after unit hunit index heq)

/-- The text of the message, around a label. -/
theorem Stands.texts {reference : Reference} (h : Stands text destination references index reference front back) :
    Chat.texts (shown destination (canonicalUnits text 0 0 references)) =
      Chat.texts front ++ (reference.label ++ Chat.texts back) := by
  rw [h.whole, Chat.texts, List.map_append, List.map_append]
  exact congrArg (fun middle ↦ _ ++ (middle ++ _)) (texts_units _ _)

@[simp] theorem length_texts (input : List TextUnit) : (texts input).length = input.length := List.length_map _

theorem slice_append (front middle back : Units) :
    slice (front ++ (middle ++ back)) front.length (front.length + middle.length) = middle := by
  rw [slice, List.take_append, List.take_of_length_le (Nat.le_add_right _ _), Nat.add_sub_cancel_left,
    List.take_left, List.drop_left]

theorem Stands.slice {reference : Reference} (h : Stands text destination references index reference front back) :
    Chat.slice (Chat.texts (shown destination (canonicalUnits text 0 0 references))) front.length
      (front.length + reference.label.length) = reference.label := by
  rw [h.texts, ← length_texts front]
  exact slice_append _ _ _

/-- **Labels stand in the order of their references, and apart.** -/
theorem Stands.apart {first second : Nat} {reference other : Reference} {front' back' : List TextUnit}
    (hfirst : Stands text destination references first reference front back)
    (hsecond : Stands text destination references second other front' back') (hlabel : other.label ≠ [])
    (hlt : first < second) : front.length + reference.label.length ≤ front'.length := by
  by_contra hover
  obtain ⟨unit, rest, hunit⟩ := List.exists_cons_of_ne_nil hlabel
  have hplace : (shown destination (canonicalUnits text 0 0 references))[front'.length]? =
      some ⟨unit, some second⟩ := by
    rw [hsecond.whole, List.getElem?_append_right (Nat.le_refl _), Nat.sub_self, hunit]
    rfl
  rw [hfirst.whole, List.getElem?_append] at hplace
  split at hplace
  · have := hfirst.before _ (List.mem_of_getElem? hplace) second rfl
    omega
  · rw [List.getElem?_append_left (by rw [units, List.length_map]; omega)] at hplace
    obtain ⟨_, -, heq⟩ := List.mem_map.1 (List.mem_of_getElem? hplace)
    have := Option.some.inj (congrArg TextUnit.reference heq)
    omega

/-! ## The message that is stored -/

/-- The reference with the range of its label. -/
def Reference.at (reference : Reference) (start : Nat) : Reference :=
  { reference with start := start, «end» := start + reference.label.length }

theorem Stands.placed {reference : Reference}
    (h : Stands text destination references index reference front back) (hlabel : reference.label ≠ []) :
    Chat.placed (shown destination (canonicalUnits text 0 0 references)) reference index =
      .ok (reference.at front.length) := by
  have hlength : 0 < reference.label.length := List.length_pos_iff.2 hlabel
  rw [Chat.placed, h.range hlabel]
  dsimp only
  rw [if_neg, Reference.at]
  rw [h.slice]
  simp only [ne_eq, not_true_eq_false, or_false, not_le]
  omega

/-- What is stored of a message with references. -/
structure Stored (text : Units) (destination : Destination) (references : List Reference)
    (message : ResolvedMessage) : Prop where
  written : message.text = texts (shown destination (canonicalUnits text 0 0 references))
  short : message.text.length ≤ Json.maxSafe
  length : message.references.length = references.length
  stands : ∀ index reference, references[index]? = some reference →
    ∃ front back, Stands text destination references index reference front back ∧
      message.references[index]? = some (reference.at front.length)

variable {message : ResolvedMessage}

theorem canonicalMessage_stored (hne : references ≠ []) (hlabels : ∀ reference ∈ references, reference.label ≠ [])
    (h : canonicalMessage text destination references = .ok message) : Stored text destination references message := by
  rw [canonicalMessage, if_neg hne] at h
  simp only [← shown.eq_def] at h
  split at h
  · cases h
  · rename_i hshort
    obtain ⟨restored, hrestored, hmessage⟩ := Except.bind_eq_ok.1 h
    cases hmessage
    have hall := Except.mapM_eq_ok.1 hrestored
    refine ⟨rfl, by rw [length_texts]; omega, by rw [← hall.length_eq, List.length_zipIdx],
      fun index reference hreference ↦ ?_⟩
    obtain ⟨front, back, hstands⟩ := shown_stands destination hreference
      (hlabels reference (List.mem_of_getElem? hreference))
    refine ⟨front, back, hstands, ?_⟩
    have hentry : references.zipIdx[index]? = some (reference, index) := by
      rw [List.getElem?_zipIdx, hreference, Nat.zero_add]
      rfl
    obtain ⟨found, hfound, hplaced⟩ := hall.getElem?_left hentry
    rw [hstands.placed (hlabels reference (List.mem_of_getElem? hreference))] at hplaced
    rw [hfound, Except.ok.inj hplaced]

/-! ## What stands behind a label -/

def LowFirst (input : List TextUnit) : Prop := ∃ unit ∈ input.head?, low unit.value = true

theorem lowFirst_cons {rest : List TextUnit} : LowFirst (unit :: rest) ↔ low unit.value = true := by
  simp [LowFirst]

theorem not_lowFirst_nil : ¬LowFirst [] := by
  rintro ⟨_, h, -⟩
  cases h

theorem isSpace_low (h : low unit.value = true) : unit.isSpace = false := by
  rw [TextUnit.isSpace, isSpaceUnit_of_low h, Bool.and_false]

theorem isGap_low (h : low unit.value = true) : unit.isGap = false := by
  rw [TextUnit.isGap, Protocol.isGap, isSpaceUnit_of_low h, Bool.false_and, Bool.and_false]

theorem isWord_low {unit : Nat} (h : low unit = true) : isWord unit = false := by
  simp only [low, Bool.and_eq_true, decide_eq_true_eq] at h
  simp only [isWord, Bool.or_eq_false_iff, Bool.and_eq_false_iff, decide_eq_false_iff_not, beq_eq_false_iff_ne]
  omega

theorem lowFirst_rdropWhile (input : List TextUnit) :
    LowFirst (input.rdropWhile TextUnit.isSpace) ↔ LowFirst input := by
  cases input with
  | nil => rfl
  | cons unit rest =>
    obtain ⟨behind, hbehind⟩ := List.rdropWhile_prefix TextUnit.isSpace (unit :: rest)
    cases hkept : (unit :: rest).rdropWhile TextUnit.isSpace with
    | nil =>
      -- Everything was white space, so the first unit was.
      have hspace := List.rdropWhile_eq_nil_iff.1 hkept unit List.mem_cons_self
      refine iff_of_false not_lowFirst_nil fun hlow ↦ ?_
      rw [isSpace_low (lowFirst_cons.1 hlow)] at hspace
      cases hspace
    | cons first more =>
      rw [hkept, List.cons_append] at hbehind
      rw [lowFirst_cons, lowFirst_cons, (List.cons.inj hbehind).1]

/-- A gap that was opened stays first. -/
theorem head_narrow (before : Gap TextUnit) (hbefore : ∀ unit ∈ before.close TextUnit.space, low unit.value = false)
    (hopen : before ≠ .none) (input : List TextUnit) :
    ¬LowFirst (narrow TextUnit.isGap TextUnit.space before input) := by
  have hclose (tail : List TextUnit) : ¬LowFirst (before.close TextUnit.space ++ tail) := by
    cases before with
    | none => exact absurd rfl hopen
    | one unit =>
      rw [Gap.close, List.singleton_append, lowFirst_cons, hbefore unit List.mem_cons_self]
      exact Bool.false_ne_true
    | more =>
      rw [Gap.close, List.singleton_append, lowFirst_cons]
      decide
  induction input generalizing before with
  | nil =>
    have := hclose []
    rwa [List.append_nil] at this
  | cons unit rest ih =>
    rw [narrow]
    split
    · have hmore : before.widen unit = .more := by cases before <;> first | rfl | exact absurd rfl hopen
      rw [hmore]
      refine ih .more (by simp [Gap.close, TextUnit.space, low]) (by rintro ⟨⟩) fun tail ↦ ?_
      rw [Gap.close, List.singleton_append, lowFirst_cons]
      decide
    · exact hclose _

theorem lowFirst_narrow (input : List TextUnit) :
    LowFirst (narrow TextUnit.isGap TextUnit.space .none input) ↔ LowFirst input := by
  cases input with
  | nil => rfl
  | cons unit rest =>
    rw [narrow]
    split
    · rename_i hgap
      have hlow : low unit.value = false := by
        rw [Bool.eq_false_iff]
        intro hlow
        rw [isGap_low hlow] at hgap
        cases hgap
      have hfirst : ¬LowFirst (narrow TextUnit.isGap TextUnit.space (.one unit) rest) :=
        head_narrow (.one unit) (fun held hheld ↦ by rw [List.mem_singleton.1 hheld, hlow]) (by rintro ⟨⟩) rest
      refine iff_of_false hfirst ?_
      rw [lowFirst_cons, hlow]
      exact Bool.false_ne_true
    · rw [Gap.close, List.nil_append, lowFirst_cons, lowFirst_cons]

theorem filterMentions_skip (back : List TextUnit) : ∀ (passed : List TextUnit) (before : Option Nat),
    filterMentions before passed.length (passed ++ back) = filterMentions (behind before passed) 0 back
  | [], _ => rfl
  | unit :: rest, before => by
    have hbehind : behind (some unit.value) rest = behind before (unit :: rest) := by
      cases rest with
      | nil => rfl
      | cons next rest =>
        rw [behind, behind, List.getLast?_cons_cons, List.getLast?_eq_some_getLast (List.cons_ne_nil _ _)]
        rfl
    rw [List.length_cons, List.cons_append, filterMentions, filterMentions_skip back rest, hbehind]

/-- What a mention's first unit is, and its last. -/
theorem addressesHere_units_of {before : Option Nat} {rest : List TextUnit}
    (h : addressesHere before (unit :: rest) = true) : unit.value = 0x40 ∧ 6 ≤ rest.length ∧
      ∃ letter, behind (some unit.value) (rest.take 6) = some letter ∧ isWord letter = true := by
  simp only [addressesHere, lowerCase_iff, Bool.and_eq_true, decide_eq_true_eq] at h
  have hspelled := h.1.1.1
  simp only [texts, List.map_map, mention_units, List.length_cons, List.length_nil, Nat.zero_add, Nat.reduceAdd,
    List.take_succ_cons, List.map_cons, List.cons.injEq] at hspelled
  obtain ⟨hsign, hletters⟩ := hspelled
  refine ⟨?_, ?_, ?_⟩
  · rw [asciiLower] at hsign
    split at hsign <;> omega
  · have hlength := congrArg List.length hletters
    rw [List.length_map, List.length_take] at hlength
    simp only [List.length_cons, List.length_nil] at hlength
    omega
  · have hlast := congrArg List.getLast? hletters
    rw [List.getLast?_map] at hlast
    cases hunit : (rest.take 6).getLast? with
    | none => rw [hunit] at hlast; cases hlast
    | some letter =>
      rw [hunit] at hlast
      refine ⟨letter.value, by rw [behind, hunit]; rfl, ?_⟩
      have hn : asciiLower letter.value = 0x6e := Option.some.inj hlast
      simp only [asciiLower] at hn
      simp only [isWord, Bool.or_eq_true, Bool.and_eq_true, decide_eq_true_eq, beq_iff_eq]
      split at hn <;> omega

/-- Behind a letter no mention begins. -/
theorem lowFirst_behind_letter {letter : Option Nat} (h : ∃ unit, letter = some unit ∧ isWord unit = true)
    (input : List TextUnit) : LowFirst (filterMentions letter 0 input) ↔ LowFirst input := by
  obtain ⟨unit, rfl, hword⟩ := h
  cases input with
  | nil => rfl
  | cons first rest =>
    have hno : addressesHere (some unit) (first :: rest) = false := by
      simp [addressesHere, hword]
    rw [filterMentions, if_neg (by rw [hno]; exact Bool.false_ne_true), lowFirst_cons, lowFirst_cons]

/-- The first unit that is left is the first one, or the one behind a mention. -/
theorem lowFirst_filterMentions (last : Nat) (input : List TextUnit) : LowFirst (filterMentions (some last) 0 input) ↔
      LowFirst input ∨ addressesHere (some last) input = true ∧ LowFirst (input.drop MENTION.length) := by
  cases input with
  | nil => simp [filterMentions]
  | cons unit rest =>
    rw [filterMentions]
    split
    · rename_i haddresses
      obtain ⟨hsign, hlength, hletter⟩ := addressesHere_units_of haddresses
      have hnot : ¬LowFirst (unit :: rest) := by
        rw [lowFirst_cons, hsign]
        decide
      have hpassed : MENTION.length - 1 = (rest.take 6).length := by
        rw [List.length_take, mention_units]
        simp only [List.length_cons, List.length_nil]
        omega
      conv_lhs => rw [← List.take_append_drop 6 rest, hpassed, filterMentions_skip]
      rw [lowFirst_behind_letter hletter, or_iff_right hnot, and_iff_right haddresses]
      rfl
    · rename_i hno
      rw [lowFirst_cons, lowFirst_cons, or_iff_left fun h ↦ hno h.1]

theorem lowFirst_shownBehind (destination : Destination) (last : Nat) (back : List TextUnit) :
    LowFirst (shownBehind destination (some last) back) ↔ LowFirst back ∨ destination = .planner ∧
      addressesHere (some last) back = true ∧ LowFirst (back.drop MENTION.length) := by
  rw [shownBehind]
  split
  · rename_i hplanner
    rw [behindLabel, lowFirst_rdropWhile, lowFirst_narrow, lowFirst_filterMentions]
    simp [hplanner]
  · rename_i hroom
    rw [lowFirst_rdropWhile]
    simp [hroom]

/-! ## The text behind a reference -/

/-- The first unit of a label, and of the token in its place. -/
def IsMarker (unit : Nat) : Prop := unit = 0x23 ∨ unit = 0x25

/-- The message behind a label begins like the text behind its token, up to the next label. -/
structure Abuts (back : List TextUnit) (rest : Units) : Prop where
  exists_common : ∃ common tail left, back = units common none ++ tail ∧ rest = common ++ left ∧
    (tail = [] ∧ left = [] ∨ ∃ unit more marker others, tail = unit :: more ∧ left = marker :: others ∧
      unit.reference ≠ none ∧ IsMarker unit.value ∧ IsMarker marker)

def firstLow (text : Units) : Bool := text.head?.any low

theorem low_marker {unit : Nat} (h : IsMarker unit) : low unit = false := by
  rcases h with rfl | rfl <;> decide

theorem Abuts.lowFirst_iff {rest : Units} (h : Abuts back rest) : LowFirst back ↔ firstLow rest = true := by
  obtain ⟨common, tail, left, rfl, rfl, hends⟩ := h.exists_common
  cases common with
  | cons unit common => exact lowFirst_cons
  | nil =>
    rcases hends with ⟨rfl, rfl⟩ | ⟨unit, more, marker, others, rfl, rfl, -, hunit, hmarker⟩
    · exact iff_of_false not_lowFirst_nil nofun
    · rw [units, List.map_nil, List.nil_append, List.nil_append, lowFirst_cons, firstLow, List.head?_cons,
        Option.any_some, low_marker hunit, low_marker hmarker]

theorem Abuts.drop {common : Units} {tail : List TextUnit} {left : Units} {count : Nat}
    (hcount : count ≤ common.length) (h : tail = [] ∧ left = [] ∨ ∃ unit more marker others, tail = unit :: more ∧
      left = marker :: others ∧ unit.reference ≠ none ∧ IsMarker unit.value ∧ IsMarker marker) :
    Abuts ((units common none ++ tail).drop count) ((common ++ left).drop count) := by
  refine ⟨common.drop count, tail, left, ?_, List.drop_append_of_le_length hcount, h⟩
  rw [List.drop_append_of_le_length (by rw [units, List.length_map]; exact hcount), units, units, List.map_drop]

/-- A mention with half a pair behind it stands in the message exactly when it stands in the text. -/
theorem Abuts.mention_iff {rest : Units} {last : Nat} (h : Abuts back rest) (hlast : separates last = true) :
    (addressesHere (some last) back = true ∧ LowFirst (back.drop MENTION.length)) ↔
      ((rest.take MENTION.length).map asciiLower = MENTION ∧ firstLow (rest.drop MENTION.length) = true) := by
  obtain ⟨common, tail, left, rfl, rfl, hends⟩ := h.exists_common
  have hlength : MENTION.length = 7 := rfl
  by_cases hcommon : MENTION.length ≤ common.length
  · -- The mention and what is behind it are the same units on both sides.
    have hback : (units common none ++ tail).take MENTION.length = units (common.take MENTION.length) none := by
      rw [List.take_append_of_le_length (by rw [units, List.length_map]; exact hcommon), units, units, List.map_take]
    rw [← (Abuts.drop hcommon hends).lowFirst_iff, List.take_append_of_le_length hcommon]
    refine and_congr_left fun hlow ↦ ?_
    have hnext : ((units common none ++ tail)[MENTION.length]?.any fun unit ↦ isWord unit.value) = false := by
      obtain ⟨unit, hunit, hunitLow⟩ := hlow
      rw [List.head?_drop] at hunit
      rw [Option.mem_def.1 hunit, Option.any_some, isWord_low hunitLow]
    have hopen : (units (common.take MENTION.length) none).all (·.reference.isNone) = true := by
      rw [units, List.all_map]
      exact List.all_eq_true.2 fun _ _ ↦ rfl
    have hbefore : (isWord last || last == 0x40) = false := by
      simpa [separates] using hlast
    simp [addressesHere, hback, hnext, hopen, hbefore, lowerCase_iff]
  · -- A mention would have to reach into the next label, or over the end.
    have hshort : common.length < MENTION.length := Nat.lt_of_not_le hcommon
    obtain ⟨count, hcount⟩ : ∃ count, MENTION.length - common.length = count + 1 :=
      ⟨MENTION.length - common.length - 1, by omega⟩
    refine iff_of_false ?_ ?_
    · rintro ⟨haddresses, -⟩
      simp only [addressesHere, lowerCase_iff, Bool.and_eq_true, decide_eq_true_eq, List.all_eq_true] at haddresses
      rw [List.take_append, units, List.length_map, hcount, ← units] at haddresses
      rcases hends with ⟨rfl, -⟩ | ⟨unit, more, _, _, rfl, -, hunit, -, -⟩
      · have hspelled := congrArg List.length haddresses.1.1.1
        simp [texts, units] at hspelled
        omega
      · have hmem : unit ∈ (unit :: more).take (count + 1) := by
          rw [List.take_succ_cons]
          exact List.mem_cons_self
        have hnone := haddresses.2 unit (List.mem_append_right _ hmem)
        exact hunit (Option.isNone_iff_eq_none.1 hnone)
    · rintro ⟨hspelled, -⟩
      rw [List.take_append, hcount] at hspelled
      rcases hends with ⟨-, rfl⟩ | ⟨_, _, marker, others, -, rfl, -, -, hmarker⟩
      · have hspelled := congrArg List.length hspelled
        simp at hspelled
        omega
      · have hmem : asciiLower marker ∈ MENTION := by
          rw [← hspelled]
          refine List.mem_map_of_mem (List.mem_append_right _ ?_)
          rw [List.take_succ_cons]
          exact List.mem_cons_self
        rcases hmarker with rfl | rfl <;> exact absurd hmem (by decide)

/-! ## Reading a range again -/

variable {marker : Nat}

theorem validLabel_spec (h : validLabel label marker = true) :
    label.head? = some marker ∧ hasControlCharacter label = false ∧ (spread label).length ≤ MAX_LABEL := by
  simp only [validLabel, Bool.and_eq_true, beq_iff_eq, Bool.not_eq_true', decide_eq_true_eq] at h
  exact ⟨h.1.1.1.1, h.1.1.1.2, h.2⟩

theorem head?_ne_nil (h : label.head? = some marker) : label ≠ [] := by
  rintro rfl
  cases h

theorem safeBoundary_start {front back : Units} (hhead : label.head? = some marker)
    (hmarker : IsMarker marker) : safeBoundary (front ++ (label ++ back)) front.length = true := by
  have hfirst : (front ++ (label ++ back))[front.length]? = some marker := by
    rw [List.getElem?_append_right (Nat.le_refl _), Nat.sub_self, ← List.head?_eq_getElem?, List.head?_append, hhead]
    rfl
  rw [safeBoundary, hfirst, Option.any_some, low_marker hmarker, Bool.and_false, Bool.not_false, Bool.or_true]

theorem safeBoundary_end {front back : Units} (hlabel : label ≠ []) :
    safeBoundary (front ++ (label ++ back)) (front.length + label.length) =
      !(label.getLast?.any high && firstLow back) := by
  have hpos : 0 < label.length := List.length_pos_iff.2 hlabel
  have hlast : (front ++ (label ++ back))[front.length + label.length - 1]? = label.getLast? := by
    rw [List.getElem?_append_right (by omega), List.getElem?_append_left (by omega), List.getLast?_eq_getElem?]
    congr 1
    omega
  have hnext : (front ++ (label ++ back))[front.length + label.length]? = back.head? := by
    rw [List.getElem?_append_right (Nat.le_add_right _ _), Nat.add_sub_cancel_left,
      List.getElem?_append_right (Nat.le_refl _), Nat.sub_self, List.head?_eq_getElem?]
  have hzero : (front.length + label.length == 0) = false := beq_eq_false_iff_ne.2 (by omega)
  rw [safeBoundary, hlast, hnext, hzero, Bool.false_or, firstLow]
  cases back with
  | nil => simp
  | cons unit rest =>
    rw [decide_eq_false (by simp only [List.length_append, List.length_cons]; omega), Bool.false_or]

/-- **A label's range is read again, unless its end falls into a pair.** -/
theorem token_label {front back : Units} (hlabel : validLabel label marker = true)
    (hmarker : IsMarker marker) (hshort : (front ++ (label ++ back)).length ≤ Json.maxSafe) :
    token (front ++ (label ++ back)) front.length (front.length + label.length) marker =
      if label.getLast?.any high && firstLow back then .error "Reference range is invalid." else .ok label := by
  obtain ⟨hhead, hcontrol, hspread⟩ := validLabel_spec hlabel
  have hpos : 0 < label.length := List.length_pos_iff.2 (head?_ne_nil hhead)
  have hlength := length_le_spread label
  have hlong : label.length ≤ MAX_TOKEN := hlength.trans ((Nat.mul_le_mul_left 2 hspread).trans (by decide))
  rw [List.length_append, List.length_append] at hshort
  rw [token, safeBoundary_start hhead hmarker, safeBoundary_end (head?_ne_nil hhead), slice_append]
  dsimp only
  rw [hhead, hcontrol]
  have hrange : ¬(Json.maxSafe < front.length ∨ Json.maxSafe < front.length + label.length ∨
      front.length + label.length ≤ front.length ∨
      (front ++ (label ++ back)).length < front.length + label.length ∨
      MAX_TOKEN < front.length + label.length - front.length) := by
    rw [List.length_append, List.length_append]
    omega
  cases hsplits : label.getLast?.any high && firstLow back with
  | true => rw [if_pos (by simp), if_pos rfl]
  | false =>
    rw [if_neg (by simpa [not_or] using hrange), if_neg (by simpa using hspread)]
    rfl

variable {scope : Option Scope}

theorem checkStored_iff : ∀ {items : List Reference} {previousEnd : Nat}
    {seenIds : List Units} {targets : List Target}, items.Pairwise (fun item other ↦ item.end ≤ other.start) →
    (∀ item ∈ items, previousEnd ≤ item.start) → (items.map (·.id)).Nodup → (∀ item ∈ items, item.id ∉ seenIds) →
    (items.map (·.target)).Nodup → (∀ item ∈ items, item.target ∉ targets) →
    (∀ item ∈ items, outside scope item = false) →
    (∀ item ∈ items, ∀ value, token text item.start item.end item.target.marker = .ok value → value = item.label) →
    (checkStored text scope previousEnd seenIds targets items = .ok () ↔
      ∀ item ∈ items, token text item.start item.end item.target.marker = .ok item.label) := by
  intro items
  induction items with
  | nil =>
    intros
    exact ⟨fun _ _ h ↦ (nomatch h), fun _ ↦ rfl⟩
  | cons item rest ih =>
    intro previousEnd seenIds targets horder hprevious hids hseen htargets hnew hscope htoken
    obtain ⟨hfirst, horder⟩ := List.pairwise_cons.1 horder
    obtain ⟨hid, hids⟩ := List.nodup_cons.1 hids
    obtain ⟨htarget, htargets⟩ := List.nodup_cons.1 htargets
    rw [checkStored, if_neg (Nat.not_lt.2 (hprevious item List.mem_cons_self)), List.forall_mem_cons]
    cases hvalue : token text item.start item.end item.target.marker with
    | error message => exact ⟨nofun, fun h ↦ nomatch h.1⟩
    | ok value =>
      obtain rfl := htoken item List.mem_cons_self value hvalue
      dsimp only
      rw [if_neg (fun h ↦ h rfl), hscope item List.mem_cons_self, if_neg Bool.false_ne_true,
        if_neg (hseen item List.mem_cons_self), if_neg (hnew item List.mem_cons_self),
        ih horder hfirst hids ?_ htargets ?_ (fun other hother ↦ hscope other (List.mem_cons_of_mem _ hother))
          fun other hother ↦ htoken other (List.mem_cons_of_mem _ hother)]
      · exact ⟨fun h ↦ ⟨rfl, h⟩, fun h ↦ h.2⟩
      · intro other hother hmem
        rcases List.mem_append.1 hmem with hmem | hmem
        · exact hseen other (List.mem_cons_of_mem _ hother) hmem
        · exact hid (List.mem_map.2 ⟨other, hother, List.mem_singleton.1 hmem⟩)
      · intro other hother hmem
        rcases List.mem_append.1 hmem with hmem | hmem
        · exact hnew other (List.mem_cons_of_mem _ hother) hmem
        · exact htarget (List.mem_map.2 ⟨other, hother, List.mem_singleton.1 hmem⟩)

/-! ## What is resolved -/

/-- A checked reference is the one that was given, and its label begins with its marker. -/
theorem reference_ok {item checked : Reference} (h : reference item = .ok checked) :
    checked = item ∧ validLabel item.label item.target.marker = true := by
  rw [reference] at h
  split at h
  · rename_i htarget _
    split at h
    · rename_i hvalid
      simp only [Bool.and_eq_true] at hvalid
      exact ⟨(Except.ok.inj h).symm, by rw [htarget]; exact hvalid.1.1.2⟩
    · cases h
  · rename_i htarget _
    split at h
    · rename_i hvalid
      simp only [Bool.and_eq_true] at hvalid
      exact ⟨(Except.ok.inj h).symm, by rw [htarget]; exact hvalid.1.1.2⟩
    · cases h
  · cases h

/-- The check does not depend on where the label stands. -/
theorem reference_at {item : Reference} {start : Nat} (h : reference item = .ok item)
    (hshort : start + item.label.length ≤ Json.maxSafe) : reference (item.at start) = .ok (item.at start) := by
  have hbase (hvalid : validBase item = true) : validBase (item.at start) = true := by
    simp only [validBase, Bool.and_eq_true, decide_eq_true_eq] at hvalid ⊢
    have hstart : start ≤ Json.maxSafe := Nat.le_trans (Nat.le_add_right _ _) hshort
    exact ⟨⟨⟨⟨hvalid.1.1.1.1, hstart⟩, hshort⟩, hvalid.1.2⟩, hvalid.2⟩
  obtain ⟨id, _, _, label, href, repositoryId, observedRevision, target, observed⟩ := item
  cases target with
  | document channelId =>
    cases observed with
    | research => cases h
    | document observedSourceHash =>
      rw [reference] at h ⊢
      dsimp only [Reference.at] at h ⊢
      split at h
      · rename_i hvalid
        simp only [Bool.and_eq_true] at hvalid
        refine if_pos ?_
        simp only [Bool.and_eq_true]
        exact ⟨⟨⟨⟨hbase hvalid.1.1.1.1, hvalid.1.1.1.2⟩, hvalid.1.1.2⟩, hvalid.1.2⟩, hvalid.2⟩
      · cases h
  | research workspaceId =>
    cases observed with
    | document => cases h
    | research parentChannelId =>
      rw [reference] at h ⊢
      dsimp only [Reference.at] at h ⊢
      split at h
      · rename_i hvalid
        simp only [Bool.and_eq_true] at hvalid
        refine if_pos ?_
        simp only [Bool.and_eq_true]
        exact ⟨⟨⟨⟨⟨hbase hvalid.1.1.1.1.1, hvalid.1.1.1.1.2⟩, hvalid.1.1.1.2⟩, hvalid.1.1.2⟩, hvalid.1.2⟩, hvalid.2⟩
      · cases h

theorem isMarker_marker (target : Target) : IsMarker target.marker := by
  cases target with
  | document => exact .inl rfl
  | research => exact .inr rfl

theorem request_ok {item checked : Request} (h : request item = .ok checked) : checked = item := by
  rw [request] at h
  split at h <;> split at h <;> first | exact (Except.ok.inj h).symm | exact nomatch h

variable {stop : Nat}

/-- The range of a token, and what it begins with. -/
theorem token_range {start : Nat} {value : Units} (h : token text start stop marker = .ok value) :
    start < stop ∧ stop ≤ text.length ∧ text[start]? = some marker := by
  rw [token] at h
  split at h
  · cases h
  · rename_i hrange
    dsimp only at h
    split at h
    · cases h
    · rename_i hvalue
      simp only [not_or, not_lt, not_le] at hrange hvalue
      refine ⟨hrange.2.2.1, hrange.2.2.2.1, ?_⟩
      have hhead := Decidable.not_not.1 hvalue.1
      rwa [slice, List.head?_drop, List.getElem?_take, if_pos hrange.2.2.1] at hhead

/-- What the loop over the requests has seen of each. -/
theorem checkRequests_ok : ∀ {items : List Request} {previousEnd : Nat} {targets : List Target},
    checkRequests text previousEnd targets items = .ok () →
    items.Pairwise (fun item other ↦ item.end ≤ other.start) ∧ (∀ item ∈ items, previousEnd ≤ item.start) ∧
      (items.map (·.target)).Nodup ∧ (∀ item ∈ items, item.target ∉ targets) ∧
      ∀ item ∈ items, ∃ value, token text item.start item.end item.target.marker = .ok value := by
  intro items
  induction items with
  | nil => exact fun _ ↦ ⟨.nil, by simp, .nil, by simp, by simp⟩
  | cons item rest ih =>
    intro previousEnd targets h
    rw [checkRequests] at h
    split at h
    · cases h
    · rename_i hprevious
      split at h
      · cases h
      · rename_i value hvalue
        split at h
        · cases h
        · rename_i hnew
          obtain ⟨horder, hbefore, hnodup, htargets, htokens⟩ := ih h
          have hrange := token_range hvalue
          refine ⟨.cons hbefore horder, ?_, ?_, ?_, ?_⟩
          · rintro other (_ | ⟨_, hother⟩)
            · exact Nat.not_lt.1 hprevious
            · have := hbefore other hother
              omega
          · refine List.nodup_cons.2 ⟨fun hmem ↦ ?_, hnodup⟩
            obtain ⟨other, hother, heq⟩ := List.mem_map.1 hmem
            exact htargets other hother (heq ▸ List.mem_append_right _ (List.mem_singleton.2 rfl))
          · rintro other (_ | ⟨_, hother⟩) hmem
            · exact hnew hmem
            · exact htargets other hother (List.mem_append_left _ hmem)
          · rintro other (_ | ⟨_, hother⟩)
            · exact ⟨value, hvalue⟩
            · exact htokens other hother

/-- The label a request is resolved to. -/
def labelOf (server : Server) (channelId : Units) (item : Request) : Option Units :=
  match item.target with
  | .document target => (server.channel target).map fun channel ↦ 0x23 :: channel.title
  | .research workspaceId => (server.research channelId workspaceId).map fun workspace ↦ 0x25 :: workspace.title

/-- What `resolveItem` answers a request with. -/
structure Answers (server : Server) (parent : Channel) (item : Request) (found : Reference) : Prop where
  start : found.start = item.start
  «end» : found.end = item.end
  target : found.target = item.target
  label : labelOf server parent.id item = some found.label
  inside : ∀ id, outside (some ⟨parent.id, parent.repositoryId⟩) { found with id } = false

theorem resolveItem_ok {server : Server} {parent : Channel} {item : Request} {found : Reference}
    (h : resolveItem server parent item = .ok found) : Answers server parent item found := by
  obtain ⟨target, start, stop⟩ := item
  cases target with
  | document channelId =>
    rw [resolveItem] at h
    dsimp only at h
    split at h
    · cases h
    · rename_i hself
      split at h
      · cases h
      · rename_i channel hchannel
        split at h
        · cases h
        · rename_i hrepository
          obtain ⟨document, -, h⟩ := Except.bind_eq_ok.1 h
          obtain ⟨href, -, h⟩ := Except.bind_eq_ok.1 h
          cases h
          have hid := server.channel_id channelId channel hchannel
          refine ⟨rfl, rfl, by rw [hid], by simp [labelOf, hchannel], fun id ↦ ?_⟩
          have hsame : channel.repositoryId = parent.repositoryId := Decidable.not_not.1 hrepository
          simp [outside, hsame, hid, hself]
  | research workspaceId =>
    rw [resolveItem] at h
    dsimp only at h
    split at h
    · cases h
    · rename_i workspace hworkspace
      split at h
      · cases h
      · rename_i hfound
        split at h
        · cases h
        · cases h
          have hid : workspace.id = workspaceId := Decidable.not_not.1 (not_or.1 hfound).1
          exact ⟨rfl, rfl, by rw [hid], by simp [labelOf, hworkspace], fun id ↦ by simp [outside]⟩

theorem identify_ok : ∀ {items : List (Reference × Units)} {ids : List Units} {references : List Reference},
    identify ids items = .ok references →
    List.Forall₂ (fun item found ↦ found = { item.1 with id := item.2 } ∧ reference found = .ok found) items
        references ∧
      (references.map (·.id)).Nodup ∧ ∀ found ∈ references, found.id ∉ ids := by
  intro items
  induction items with
  | nil =>
    intro ids references h
    cases h
    exact ⟨.nil, .nil, by simp⟩
  | cons entry rest ih =>
    intro ids references h
    rw [identify] at h
    split at h
    · cases h
    · rename_i hfresh
      obtain ⟨checked, hchecked, h⟩ := Except.bind_eq_ok.1 h
      obtain ⟨others, hothers, h⟩ := Except.bind_eq_ok.1 h
      cases h
      obtain ⟨hrest, hnodup, hids⟩ := ih hothers
      obtain ⟨rfl, -⟩ := reference_ok hchecked
      refine ⟨.cons ⟨rfl, hchecked⟩ hrest, List.nodup_cons.2 ⟨fun hmem ↦ ?_, hnodup⟩, ?_⟩
      · obtain ⟨other, hother, heq⟩ := List.mem_map.1 hmem
        exact hids other hother (by rw [heq]; simp)
      · rintro found (_ | ⟨_, hfound⟩) hmem
        · exact hfresh (.inr hmem)
        · exact hids found hfound (List.mem_append_left _ hmem)

/-! ## What a message is written from -/

/-- What a reference was asked for with. -/
def Reference.request (reference : Reference) : Request := ⟨reference.target, reference.start, reference.end⟩

/-- The references a message's requests were resolved to, with what was checked of them. -/
structure Resolved (input : ResolveInput) (servers : Nat → Server) (references : List Reference) : Prop where
  requested : references.map Reference.request = input.requests
  few : references.length ≤ MAX_REFERENCES
  labels : ∀ index reference, references[index]? = some reference →
    labelOf (servers index) input.channelId reference.request = some reference.label
  inside : ∀ reference ∈ references, ∀ start,
    outside (some ⟨input.channelId, input.repositoryId⟩) (reference.at start) = false
  checked : ∀ reference ∈ references, Chat.reference reference = .ok reference
  ids : (references.map (·.id)).Nodup
  sound : checkRequests input.text 0 [] input.requests = .ok ()

theorem requests_ok {values parsed : List Request} (h : requests text values = .ok parsed) :
    parsed = values ∧ values.length ≤ MAX_REFERENCES ∧ checkRequests text 0 [] values = .ok () := by
  rw [requests] at h
  split at h
  · cases h
  · rename_i hfew
    obtain ⟨found, hfound, h⟩ := Except.bind_eq_ok.1 h
    obtain ⟨_, hcheck, h⟩ := Except.bind_eq_ok.1 h
    obtain rfl := Except.ok.inj h
    have hsame : List.Forall₂ Eq values found := (Except.mapM_eq_ok.1 hfound).imp fun _ _ h ↦ (request_ok h).symm
    rw [List.forall₂_eq_eq_eq] at hsame
    subst hsame
    exact ⟨rfl, Nat.not_lt.1 hfew, hcheck⟩

variable {input : ResolveInput} {servers : Nat → Server}

theorem resolve_ok {server : Server} {ids : Nat → Units} (h : resolve server servers ids input = .ok message) :
    ∃ references, Resolved input servers references ∧
      canonicalMessage input.text input.destination references = .ok message := by
  obtain ⟨requested, hrequested, h⟩ := Except.bind_eq_ok.1 h
  obtain ⟨rfl, hfew, hcheck⟩ := requests_ok hrequested
  split at h
  · rename_i hnone
    exact ⟨[], ⟨hnone.symm, Nat.zero_le _, nofun, nofun, nofun, .nil, hcheck⟩, h⟩
  · split at h
    · cases h
    · rename_i parent hparent
      split at h
      · cases h
      · rename_i hrepository
        obtain ⟨resolved, hresolved, h⟩ := Except.bind_eq_ok.1 h
        obtain ⟨references, hreferences, h⟩ := Except.bind_eq_ok.1 h
        have hall := Except.mapM_eq_ok.1 hresolved
        obtain ⟨hidentified, hids, -⟩ := identify_ok hreferences
        have hparentId : parent.id = input.channelId := server.channel_id _ _ hparent
        have hparentRepository : parent.repositoryId = input.repositoryId := Decidable.not_not.1 hrepository
        have hlength : references.length = input.requests.length := by
          rw [← hidentified.length_eq, List.length_map, List.length_zipIdx, ← hall.length_eq, List.length_zipIdx]
        -- The reference at an index answers the request there.
        have hanswers (index : Nat) (found : Reference) (hfound : references[index]? = some found) :
            input.requests[index]? = some found.request ∧
              labelOf (servers index) input.channelId found.request = some found.label ∧
              (∀ start, outside (some ⟨input.channelId, input.repositoryId⟩) (found.at start) = false) ∧
              reference found = .ok found := by
          obtain ⟨entry, hentry, hsame, hchecked⟩ := hidentified.getElem?_right hfound
          rw [List.getElem?_map, List.getElem?_zipIdx] at hentry
          obtain ⟨_, hpair, rfl⟩ := Option.map_eq_some_iff.1 hentry
          obtain ⟨answer, hanswer, rfl⟩ := Option.map_eq_some_iff.1 hpair
          obtain ⟨entry, hentry, hitem⟩ := hall.getElem?_right hanswer
          rw [List.getElem?_zipIdx] at hentry
          obtain ⟨item, hitem', rfl⟩ := Option.map_eq_some_iff.1 hentry
          dsimp only at hitem hsame
          rw [Nat.zero_add] at hitem
          obtain ⟨hstart, hend, htarget, hlabel, hinside⟩ := resolveItem_ok hitem
          have hrequest : item = found.request := by
            rw [hsame, Reference.request, hstart, hend, htarget]
          rw [hparentId] at hlabel
          rw [hparentId, hparentRepository] at hinside
          refine ⟨hrequest ▸ hitem', hrequest ▸ by rw [hsame]; exact hlabel, fun start ↦ ?_, hchecked⟩
          rw [← hinside found.id, hsame]
          rfl
        refine ⟨references, ⟨List.ext_getElem? fun index ↦ ?_, hlength.trans_le hfew,
          fun index found hfound ↦ (hanswers index found hfound).2.1, fun found hfound ↦ ?_, fun found hfound ↦ ?_,
          hids, hcheck⟩, h⟩
        · rw [List.getElem?_map]
          cases hfound : references[index]? with
          | none =>
            rw [List.getElem?_eq_none_iff, hlength] at hfound
            exact (List.getElem?_eq_none_iff.2 hfound).symm
          | some found => exact (hanswers index found hfound).1.symm
        · obtain ⟨index, hindex⟩ := List.getElem?_of_mem hfound
          exact (hanswers index found hindex).2.2.1
        · obtain ⟨index, hindex⟩ := List.getElem?_of_mem hfound
          exact (hanswers index found hindex).2.2.2

/-- What the loop over the requests has seen, of the references. -/
theorem Resolved.tokens (h : Resolved input servers references) :
    references.Pairwise (fun reference other ↦ reference.end ≤ other.start) ∧ (references.map (·.target)).Nodup ∧
      ∀ reference ∈ references, ∃ value,
        token input.text reference.start reference.end reference.target.marker = .ok value := by
  obtain ⟨horder, -, hnodup, -, htokens⟩ := checkRequests_ok h.sound
  rw [← h.requested] at horder hnodup htokens
  rw [List.map_map] at hnodup
  exact ⟨List.pairwise_map.1 horder, hnodup, fun reference hreference ↦
    htokens _ (List.mem_map_of_mem (f := Reference.request) hreference)⟩

/-! ## The text behind a label -/

theorem abuts_canonicalUnits
    (h : ∀ next ∈ references.head?, stop ≤ next.start ∧ (∃ marker, text[next.start]? = some marker ∧ IsMarker marker) ∧
      ∃ marker, next.label.head? = some marker ∧ IsMarker marker) :
    Abuts (canonicalUnits text stop index references) (text.drop stop) := by
  cases references with
  | nil => exact ⟨text.drop stop, [], [], (List.append_nil _).symm, (List.append_nil _).symm, .inl ⟨rfl, rfl⟩⟩
  | cons next rest =>
    obtain ⟨hstop, ⟨marker, hmarker, hisMarker⟩, first, hfirst, hisFirst⟩ := h next rfl
    obtain ⟨more, hmore⟩ := List.head?_eq_some_iff.1 hfirst
    obtain ⟨others, hothers⟩ : ∃ others, text.drop next.start = marker :: others := by
      rw [← List.head?_drop] at hmarker
      exact List.head?_eq_some_iff.1 hmarker
    refine ⟨slice text stop next.start, _, text.drop next.start, List.append_assoc _ _ _, ?_,
      .inr ⟨⟨first, some index⟩, _, marker, others, by rw [hmore]; rfl, hothers, nofun, hisFirst, hisMarker⟩⟩
    rw [slice, List.drop_take]
    conv_lhs => rw [← List.take_append_drop (next.start - stop) (text.drop stop), List.drop_drop,
      Nat.add_sub_cancel' hstop]

/-- The title makes a pair with what comes to stand behind it: its last unit is the first half of one, and the
text goes on with the second half, or with the Planner's mention and then the second half. -/
def Splits (destination : Destination) (text label : Units) (stop : Nat) : Prop :=
  label.getLast?.any high = true ∧ (firstLow (text.drop stop) = true ∨ destination = .planner ∧
    ((text.drop stop).take MENTION.length).map asciiLower = MENTION ∧
      firstLow ((text.drop stop).drop MENTION.length) = true)

theorem separates_high {unit : Nat} (h : high unit = true) : separates unit = true := by
  simp only [high, Bool.and_eq_true, decide_eq_true_eq] at h
  simp only [separates, isWord, Bool.and_eq_true, Bool.not_eq_true', Bool.or_eq_false_iff, Bool.and_eq_false_iff,
    decide_eq_false_iff_not, beq_eq_false_iff_ne, bne_iff_ne]
  omega

theorem firstLow_texts (input : List TextUnit) : firstLow (texts input) = true ↔ LowFirst input := by
  cases input with
  | nil => exact iff_of_false nofun not_lowFirst_nil
  | cons unit rest => exact lowFirst_cons.symm

/-- **What comes to stand behind a label makes a pair with it exactly when the text does.** -/
theorem splits_iff {behind : List TextUnit} (h : Abuts behind (text.drop stop)) :
    (label.getLast?.any high && firstLow (texts (shownBehind destination label.getLast? behind))) = true ↔
      Splits destination text label stop := by
  rw [Bool.and_eq_true, firstLow_texts, Splits]
  refine and_congr_right fun hhigh ↦ ?_
  cases hlast : label.getLast? with
  | none => rw [hlast] at hhigh; exact nomatch hhigh
  | some last =>
    rw [hlast, Option.any_some] at hhigh
    rw [lowFirst_shownBehind, h.lowFirst_iff, h.mention_iff (separates_high hhigh)]

/-- Where a reference's label stands, the reader finds the label, unless its end falls into a pair. -/
theorem Resolved.token_iff (h : Resolved input servers references)
    (hstored : Stored input.text input.destination references message) {reference : Reference}
    (hreference : references[index]? = some reference)
    (hstands : Stands input.text input.destination references index reference front back) :
    token message.text front.length (front.length + reference.label.length) reference.target.marker =
        (if (reference.label.getLast?.any high && firstLow (texts back)) = true then
          .error "Reference range is invalid." else .ok reference.label) ∧
      ((reference.label.getLast?.any high && firstLow (texts back)) = true ↔
        Splits input.destination input.text reference.label reference.end) := by
  have hmem := List.mem_of_getElem? hreference
  obtain ⟨-, hlabel⟩ := reference_ok (h.checked reference hmem)
  obtain ⟨horder, -, htokens⟩ := h.tokens
  constructor
  · have hshort := hstored.short
    rw [hstored.written, hstands.texts] at hshort ⊢
    rw [← length_texts front]
    exact token_label hlabel (isMarker_marker _) hshort
  · rw [hstands.follows]
    refine splits_iff (abuts_canonicalUnits fun next hnext ↦ ?_)
    rw [List.head?_drop] at hnext
    have hnextMem := List.mem_of_getElem? hnext
    obtain ⟨value, hvalue⟩ := htokens next hnextMem
    obtain ⟨-, hnextLabel⟩ := reference_ok (h.checked next hnextMem)
    have hbefore : reference.end ≤ next.start := by
      obtain ⟨hindex, hget⟩ := List.getElem?_eq_some_iff.1 hreference
      obtain ⟨hindex', hget'⟩ := List.getElem?_eq_some_iff.1 (Option.mem_def.1 hnext)
      have := List.pairwise_iff_getElem.1 horder index (index + 1) hindex hindex' (Nat.lt_succ_self _)
      rwa [hget, hget'] at this
    exact ⟨hbefore, ⟨_, (token_range hvalue).2.2, isMarker_marker _⟩, _, (validLabel_spec hnextLabel).1,
      isMarker_marker _⟩

/-! ## Reading a message again -/

/-- The message is read again, and every range covers its label, behind the ranges before it. -/
structure Restores (message : ResolvedMessage) (scope : Option Scope) : Prop where
  restored : restoreReferences message.references message.text [] scope = .ok message.references
  covers : ∀ reference ∈ message.references, reference.start < reference.end ∧
    reference.end ≤ message.text.length ∧ slice message.text reference.start reference.end = reference.label
  apart : message.references.Pairwise fun reference other ↦ reference.end ≤ other.start

/-- A stored reference is the one it was written from, where its label stands. -/
theorem Stored.found (h : Stored text destination references message) {found : Reference}
    (hfound : message.references[index]? = some found) : ∃ reference front back, references[index]? = some reference ∧
      Stands text destination references index reference front back ∧ found = reference.at front.length := by
  obtain ⟨hindex, -⟩ := List.getElem?_eq_some_iff.1 hfound
  rw [h.length] at hindex
  obtain ⟨front, back, hstands, hat⟩ := h.stands index _ (List.getElem?_eq_getElem hindex)
  exact ⟨_, front, back, List.getElem?_eq_getElem hindex, hstands, Option.mem_unique hfound hat⟩

/-- What a range does not change is as it was. -/
theorem Stored.map_eq {α : Type} {f : Reference → α}
    (hf : ∀ reference start, f (Reference.at reference start) = f reference)
    (h : Stored text destination references message) : message.references.map f = references.map f := by
  refine List.ext_getElem? fun index ↦ ?_
  rw [List.getElem?_map, List.getElem?_map]
  cases hreference : references[index]? with
  | none =>
    rw [List.getElem?_eq_none_iff, ← h.length] at hreference
    rw [List.getElem?_eq_none_iff.2 hreference]
  | some reference =>
    obtain ⟨front, back, -, hat⟩ := h.stands index reference hreference
    rw [hat, Option.map_some, Option.map_some, hf]

theorem Stored.apart (h : Stored text destination references message)
    (hlabels : ∀ reference ∈ references, reference.label ≠ []) :
    message.references.Pairwise fun reference other ↦ reference.end ≤ other.start := by
  rw [List.pairwise_iff_getElem]
  intro first second hfirst hsecond hlt
  obtain ⟨reference, front, back, -, hstands, heq⟩ := h.found (List.getElem?_eq_getElem hfirst)
  obtain ⟨other, front', back', hother, hstands', heq'⟩ := h.found (List.getElem?_eq_getElem hsecond)
  rw [heq, heq']
  exact hstands.apart hstands' (hlabels other (List.mem_of_getElem? hother)) hlt

theorem Stored.covers (h : Stored text destination references message)
    (hlabels : ∀ reference ∈ references, reference.label ≠ []) :
    ∀ reference ∈ message.references, reference.start < reference.end ∧ reference.end ≤ message.text.length ∧
        slice message.text reference.start reference.end = reference.label := by
  intro found hfound
  obtain ⟨index, hindex⟩ := List.getElem?_of_mem hfound
  obtain ⟨reference, front, back, hreference, hstands, rfl⟩ := h.found hindex
  have hlength : 0 < reference.label.length :=
    List.length_pos_iff.2 (hlabels reference (List.mem_of_getElem? hreference))
  rw [h.written]
  refine ⟨Nat.lt_add_of_pos_right hlength, ?_, hstands.slice⟩
  rw [hstands.texts, List.length_append, List.length_append, length_texts]
  dsimp only [Reference.at]
  omega

/-- The scope is left open, or it is the document the message was resolved in. -/
def OwnScope (input : ResolveInput) (scope : Option Scope) : Prop :=
  scope = none ∨ scope = some ⟨input.channelId, input.repositoryId⟩

/-- **The reader accepts a stored message exactly when no label of it splits a pair.** -/
theorem Resolved.restore_iff (h : Resolved input servers references)
    (hstored : Stored input.text input.destination references message) (hscope : OwnScope input scope) :
    restoreReferences message.references message.text [] scope = .ok message.references ↔
      ∀ reference ∈ references, ¬Splits input.destination input.text reference.label reference.end := by
  have hlabels : ∀ reference ∈ references, reference.label ≠ [] := fun reference hreference ↦
    head?_ne_nil (validLabel_spec (reference_ok (h.checked reference hreference)).2).1
  have hcovers := hstored.covers hlabels
  -- What is stored passes the check of each reference again.
  have hsame : message.references.mapM reference = .ok message.references := by
    refine Except.mapM_self fun found hfound ↦ ?_
    obtain ⟨-, hend, -⟩ := hcovers found hfound
    obtain ⟨index, hindex⟩ := List.getElem?_of_mem hfound
    obtain ⟨reference, front, back, hreference, -, rfl⟩ := hstored.found hindex
    exact reference_at (h.checked reference (List.mem_of_getElem? hreference)) (hend.trans hstored.short)
  have houtside : ∀ found ∈ message.references, outside scope found = false := by
    intro found hfound
    obtain ⟨index, hindex⟩ := List.getElem?_of_mem hfound
    obtain ⟨reference, front, back, hreference, -, rfl⟩ := hstored.found hindex
    rcases hscope with rfl | rfl
    · rfl
    · exact h.inside reference (List.mem_of_getElem? hreference) _
  have htokens : ∀ found ∈ message.references, ∀ value,
      token message.text found.start found.end found.target.marker = .ok value → value = found.label := by
    intro found hfound value hvalue
    obtain ⟨index, hindex⟩ := List.getElem?_of_mem hfound
    obtain ⟨reference, front, back, hreference, hstands, rfl⟩ := hstored.found hindex
    have htoken := (h.token_iff hstored hreference hstands).1
    dsimp only [Reference.at] at hvalue ⊢
    rw [htoken] at hvalue
    split at hvalue
    · cases hvalue
    · exact (Except.ok.inj hvalue).symm
  have hfew : message.references.length ≤ MAX_REFERENCES := hstored.length.trans_le h.few
  have hread : restoreReferences message.references message.text [] scope = .ok message.references ↔
      checkStored message.text scope 0 [] [] message.references = .ok () := by
    rw [restoreReferences, if_neg (Nat.not_lt.2 hfew), hsame, Except.ok_bind]
    cases checkStored message.text scope 0 [] [] message.references with
    | ok => exact iff_of_true rfl rfl
    | error => exact iff_of_false nofun nofun
  rw [hread, checkStored_iff (hstored.apart hlabels) (fun _ _ ↦ Nat.zero_le _)
    (by rw [hstored.map_eq fun _ _ ↦ rfl]; exact h.ids) (fun _ _ ↦ List.not_mem_nil)
    (by rw [hstored.map_eq fun _ _ ↦ rfl]; exact h.tokens.2.1) (fun _ _ ↦ List.not_mem_nil) houtside htokens]
  constructor
  · intro hall reference hreference
    obtain ⟨index, hindex⟩ := List.getElem?_of_mem hreference
    obtain ⟨front, back, hstands, hat⟩ := hstored.stands index reference hindex
    obtain ⟨htoken, hsplits⟩ := h.token_iff hstored hindex hstands
    have hok := hall _ (List.mem_of_getElem? hat)
    dsimp only [Reference.at] at hok
    rw [htoken] at hok
    rw [← hsplits]
    intro hpair
    rw [if_pos hpair] at hok
    cases hok
  · intro hall found hfound
    obtain ⟨index, hindex⟩ := List.getElem?_of_mem hfound
    obtain ⟨reference, front, back, hreference, hstands, rfl⟩ := hstored.found hindex
    obtain ⟨htoken, hsplits⟩ := h.token_iff hstored hreference hstands
    have hno := hall reference (List.mem_of_getElem? hreference)
    rw [← hsplits] at hno
    exact htoken.trans (if_neg hno)

/-- **A resolved message restores exactly when no title of its references makes a pair with what stands behind.** -/
theorem stored_references_restore_iff (server : Server) (servers : Nat → Server) (ids : Nat → Units)
    (input : ResolveInput) (message : ResolvedMessage) (h : resolve server servers ids input = .ok message)
    (scope : Option Scope) (hscope : OwnScope input scope) :
    Restores message scope ↔ ∀ index item label, input.requests[index]? = some item →
      labelOf (servers index) input.channelId item = some label →
        ¬Splits input.destination input.text label item.end := by
  obtain ⟨references, hresolved, hmessage⟩ := resolve_ok h
  -- The references are those of the requests, with the labels that were found for them.
  have hrequests : (∀ index item label, input.requests[index]? = some item →
      labelOf (servers index) input.channelId item = some label →
        ¬Splits input.destination input.text label item.end) ↔
      ∀ reference ∈ references, ¬Splits input.destination input.text reference.label reference.end := by
    rw [← hresolved.requested]
    constructor
    · intro hall reference hreference
      obtain ⟨index, hindex⟩ := List.getElem?_of_mem hreference
      exact hall index reference.request reference.label (by rw [List.getElem?_map, hindex]; rfl)
        (hresolved.labels index reference hindex)
    · intro hall index item label hitem hlabel
      rw [List.getElem?_map] at hitem
      obtain ⟨reference, hreference, rfl⟩ := Option.map_eq_some_iff.1 hitem
      rw [hresolved.labels index reference hreference] at hlabel
      obtain rfl := Option.some.inj hlabel
      exact hall reference (List.mem_of_getElem? hreference)
  rw [hrequests]
  by_cases hnone : references = []
  · subst hnone
    rw [canonicalMessage, if_pos rfl] at hmessage
    obtain rfl := Except.ok.inj hmessage
    exact iff_of_true ⟨rfl, nofun, .nil⟩ nofun
  · have hlabels : ∀ reference ∈ references, reference.label ≠ [] := fun reference hreference ↦
      head?_ne_nil (validLabel_spec (reference_ok (hresolved.checked reference hreference)).2).1
    have hstored := canonicalMessage_stored hnone hlabels hmessage
    rw [← hresolved.restore_iff hstored hscope]
    exact ⟨fun hrestores ↦ hrestores.restored, fun hrestored ↦
      ⟨hrestored, hstored.covers hlabels, hstored.apart hlabels⟩⟩

/-! A research workspace whose question ends with the first half of a pair, and a message with the second. -/

def sampleParent : Channel where
  id := utf16 "11111111-1111-4111-8111-111111111111"
  title := utf16 "Plan"
  slug := utf16 "plan"
  repositoryId := utf16 "r"
  repositoryOwner := utf16 "o"
  repositoryName := utf16 "n"
  parentChannelId := none

/-- The server that knows the document, and a research workspace of this title. -/
def sampleServer (title : Units) : Server where
  channel id := if id = sampleParent.id then some sampleParent else none
  current _ := none
  research channelId workspaceId :=
    if channelId = sampleParent.id ∧ workspaceId = utf16 "w" then some ⟨workspaceId, channelId, title, 1⟩ else none
  hash _ := utf16 "sha256:e3b0c44298fc1c149afbf4c8996fb92427ae41e4649b934ca495991b7852b855"
  channel_id id found h := by
    split at h
    · rename_i hid
      rw [← Option.some.inj h, hid]
    · exact nomatch h

def sampleInput (text : Units) : ResolveInput :=
  ⟨sampleParent.id, sampleParent.repositoryId, text, .room, [⟨.research (utf16 "w"), 0, 2⟩]⟩

def sampleIds (_ : Nat) : Units := utf16 "00000000000000000000000000"

/-- What is stored of the sample. -/
def sampleMessage (title behind : Units) : ResolvedMessage :=
  ⟨0x25 :: (title ++ behind), [⟨sampleIds 0, 0, title.length + 1, 0x25 :: title,
    utf16 "/documents/o/n/plan/research/w", sampleParent.repositoryId, 1, .research (utf16 "w"),
    .research sampleParent.id⟩]⟩

/-- A title that ends a code point restores. -/
theorem stored_references_restore_sample : Restores (sampleMessage (utf16 "T") (utf16 " ok")) none := by
  have hresolve : resolve (sampleServer (utf16 "T")) (fun _ ↦ sampleServer (utf16 "T")) sampleIds
      (sampleInput (utf16 "%t ok")) = .ok (sampleMessage (utf16 "T") (utf16 " ok")) := by decide +kernel
  refine (stored_references_restore_iff _ _ _ _ _ hresolve none (.inl rfl)).2 ?_
  rintro (_ | index) item label hitem hlabel ⟨hhigh, -⟩
  · obtain rfl := Option.some.inj hitem
    have hfound : labelOf (sampleServer (utf16 "T")) (sampleInput (utf16 "%t ok")).channelId
        ⟨.research (utf16 "w"), 0, 2⟩ = some (utf16 "%T") := by decide +kernel
    rw [hfound] at hlabel
    obtain rfl := Option.some.inj hlabel
    exact absurd hhigh (by decide)
  · exact nomatch hitem

/-- The message is stored, and its range ends within the pair the title makes with the text behind it. -/
theorem half_pair_title : resolve (sampleServer [0x54, 0xd83d]) (fun _ ↦ sampleServer [0x54, 0xd83d]) sampleIds
      (sampleInput (utf16 "%t" ++ [0xde00])) = .ok (sampleMessage [0x54, 0xd83d] [0xde00]) ∧
    restoreReferences (sampleMessage [0x54, 0xd83d] [0xde00]).references
      (sampleMessage [0x54, 0xd83d] [0xde00]).text [] none = .error "Reference range is invalid." := by
  decide +kernel

end Chopin.Chat
