import Chopin.Mdx.Acceptance

/-!
# What the validator finds of a written questionnaire

The check of the fields is not the validator's: it looks at no id, and bounds few texts.  Of the element of a projection
that passes it, the validator has no issue exactly when the projection fits (`written_clean`): its ids are ULIDs, its
texts are within the limits, its choices are options of their question, and no question is left without parts unless it
may be.
-/

set_option autoImplicit false

open Script

namespace Chopin.Mdx.Questionnaires

variable {library : Library}

/-! ## The parts of a question -/

/-- What an option must be for the validator. -/
structure FittingOption (option : QuestionOption) : Prop where
  id : isUlid option.id = true
  label : option.label.length ≤ MAX_QUESTIONNAIRE_TEXT
  description : ∀ description ∈ option.description, description.length ≤ MAX_QUESTIONNAIRE_TEXT
  preview : ∀ preview ∈ option.preview, preview.length ≤ MAX_QUESTIONNAIRE_TEXT

theorem option_part : ∃ spec, IsPart "Option" spec ∧ ["Question", "Option", "Answer"].contains spec.name = true ∧
    spec.attributes = [("id", .id), ("label", .text true MAX_QUESTIONNAIRE_TEXT false),
      ("description", .text false MAX_QUESTIONNAIRE_TEXT false),
      ("preview", .text false MAX_QUESTIONNAIRE_TEXT false)] :=
  ⟨_, ⟨rfl, rfl, rfl, by decide⟩, rfl, rfl⟩

theorem walk_option (option : QuestionOption) (parent : Option Node) (path : String) :
    Found (walk library path 3 ["Questionnaire", "Question"] parent (optionElement option)) (FittingOption option) := by
  obtain ⟨spec, hpart, hloose, hattributes⟩ := option_part
  have hallowed : ∀ entry ∈ optionValues option, entry.1 ∈ spec.attributes.map Prod.fst := by
    simp [hattributes, optionValues]
  have hwalk : Found (walk library path 3 ["Questionnaire", "Question"] parent (element "Option" _ [])) _ :=
    walk_part hpart hallowed (optionValues_nodup option) parent path
  rw [optionElement_eq]
  refine ⟨hwalk.issues.trans ?_, hwalk.images⟩
  rw [hattributes]
  simp only [List.forall_mem_cons, optionValues, List.lookup_cons, String.reduceBEq, Option.join_some, suits_id,
    suits_loose hloose, suits_loose_kept hloose]
  constructor
  · rintro ⟨hid, hlabel, hdescription, hpreview, -⟩
    exact ⟨hid, hlabel, hdescription, hpreview⟩
  · rintro ⟨hid, hlabel, hdescription, hpreview⟩
    exact ⟨hid, hlabel, hdescription, hpreview, fun _ h ↦ by cases h⟩

theorem criterion_part : ∃ spec, IsPart "Criterion" spec ∧
    spec.attributes = [("id", .id), ("label", .text true MAX_CRITERION_LABEL false)] :=
  ⟨_, ⟨rfl, rfl, rfl, by decide⟩, rfl⟩

theorem walk_criterion {criterion : Criterion} (h : bounded MAX_CRITERION_LABEL criterion.label = true)
    (parent : Option Node) (path : String) :
    Found (walk library path 3 ["Questionnaire", "Question"] parent (criterionElement criterion))
      (isUlid criterion.id = true) := by
  obtain ⟨spec, hpart, hattributes⟩ := criterion_part
  have hallowed : ∀ entry ∈ criterionValues criterion, entry.1 ∈ spec.attributes.map Prod.fst := by
    simp [hattributes, criterionValues]
  have hwalk : Found (walk library path 3 ["Questionnaire", "Question"] parent (element "Criterion" _ [])) _ :=
    walk_part hpart hallowed (criterionValues_nodup criterion) parent path
  rw [criterionElement_eq]
  refine ⟨hwalk.issues.trans ?_, hwalk.images⟩
  rw [hattributes]
  simp only [List.forall_mem_cons, criterionValues, List.lookup_cons, String.reduceBEq, Option.join_some, suits_id,
    suits_bounded spec true h]
  exact ⟨fun h ↦ h.1, fun h ↦ ⟨h, trivial, fun _ h ↦ by cases h⟩⟩

/-- What the validator looks at in the texts of an answer. -/
structure FittingAnswer (question : Question) (answer : Units) : Prop where
  value : answer.length ≤ MAX_QUESTIONNAIRE_TEXT
  choices : ∀ choices ∈ question.choices, (join choices).length ≤ MAX_ANSWER_CHOICES
  marks : ∀ marks ∈ question.marks, ∀ text ∈ encodeMarks marks, text.length ≤ MAX_ANSWER_MARKS

theorem answer_part : ∃ spec, IsPart "Answer" spec ∧ ["Question", "Option", "Answer"].contains spec.name = true ∧
    spec.attributes = [("value", .text true MAX_QUESTIONNAIRE_TEXT false),
      ("choices", .text false MAX_ANSWER_CHOICES false), ("marks", .text false MAX_ANSWER_MARKS false)] :=
  ⟨_, ⟨rfl, rfl, rfl, by decide⟩, rfl, rfl⟩

theorem walk_answer (question : Question) (answer : Units) (parent : Option Node) (path : String) :
    Found (walk library path 3 ["Questionnaire", "Question"] parent (answerElement question answer))
      (FittingAnswer question answer) := by
  obtain ⟨spec, hpart, hloose, hattributes⟩ := answer_part
  have hallowed : ∀ entry ∈ answerValues question answer, entry.1 ∈ spec.attributes.map Prod.fst := by
    simp [hattributes, answerValues]
  have hwalk : Found (walk library path 3 ["Questionnaire", "Question"] parent (element "Answer" _ [])) _ :=
    walk_part hpart hallowed (answerValues_nodup question answer) parent path
  have hchoices : (∀ text ∈ question.choices.map join, text.length ≤ MAX_ANSWER_CHOICES) ↔
      ∀ choices ∈ question.choices, (join choices).length ≤ MAX_ANSWER_CHOICES := by
    cases question.choices <;> simp
  have hmarks : (∀ text ∈ question.marks.bind encodeMarks, text.length ≤ MAX_ANSWER_MARKS) ↔
      ∀ marks ∈ question.marks, ∀ text ∈ encodeMarks marks, text.length ≤ MAX_ANSWER_MARKS := by
    cases question.marks <;> simp
  rw [answerElement_eq]
  refine ⟨hwalk.issues.trans ?_, hwalk.images⟩
  rw [hattributes]
  simp only [List.forall_mem_cons, answerValues, List.lookup_cons, String.reduceBEq, Option.join_some,
    suits_loose hloose, suits_loose_kept hloose, hchoices, hmarks]
  constructor
  · rintro ⟨hvalue, hchoices, hmarks, -⟩
    exact ⟨hvalue, hchoices, hmarks⟩
  · rintro ⟨hvalue, hchoices, hmarks⟩
    exact ⟨hvalue, hchoices, hmarks, fun _ h ↦ by cases h⟩

theorem previous_part : ∃ spec, IsPart "Previous" spec ∧ ["Question", "Option", "Answer"].contains spec.name = false ∧
    spec.attributes = [("choices", .text false MAX_ANSWER_CHOICES false),
      ("value", .text false MAX_CUSTOM_ANSWER false), ("by", .text true MAX_HANDLE false),
      ("at", .text true MAX_TIMESTAMP false)] :=
  ⟨_, ⟨rfl, rfl, rfl, by decide⟩, rfl, rfl⟩

variable {question : Question}

variable {previous : Previous}

theorem walk_previous (h : SoundQuestion question)
    (hprevious : question.previous = some previous) (parent : Option Node) (path : String) :
    Found (walk library path 3 ["Questionnaire", "Question"] parent (previousElement previous))
      (join previous.choices ≠ [] → bounded MAX_ANSWER_CHOICES (join previous.choices) = true) := by
  obtain ⟨spec, hpart, hstrict, hattributes⟩ := previous_part
  obtain ⟨-, -, hvalue, hby, hat, -⟩ := h.previous previous hprevious
  have hallowed : ∀ entry ∈ previousValues previous, entry.1 ∈ spec.attributes.map Prod.fst := by
    simp [hattributes, previousValues]
  have hwalk : Found (walk library path 3 ["Questionnaire", "Question"] parent (element "Previous" _ [])) _ :=
    walk_part hpart hallowed (previousValues_nodup previous) parent path
  have hchoices : (∀ text ∈ (if previous.choices = [] then none else some (join previous.choices)), text ≠ [] →
      bounded MAX_ANSWER_CHOICES text = true) ↔
      (join previous.choices ≠ [] → bounded MAX_ANSWER_CHOICES (join previous.choices) = true) := by
    split
    · rename_i hnone
      rw [hnone]
      exact iff_of_true (by rintro _ ⟨⟩) fun hsome ↦ absurd rfl hsome
    · simp
  have hsigned : kept (some previous.by) = some previous.by := kept_of_bounded fun text htext ↦ by
    rwa [← Option.some.inj htext]
  have hdated : kept (some previous.at) = some previous.at := kept_of_bounded fun text htext ↦ by
    rwa [← Option.some.inj htext]
  rw [previousElement_eq]
  refine ⟨hwalk.issues.trans ?_, hwalk.images⟩
  rw [hattributes]
  simp only [List.forall_mem_cons, previousValues, List.lookup_cons, String.reduceBEq, Option.join_some, hsigned, hdated,
    suits_strict hstrict, hchoices, suits_bounded_kept spec hvalue, suits_bounded spec true hby,
    suits_bounded spec true hat]
  exact ⟨fun h ↦ h.1, fun h ↦ ⟨h, trivial, trivial, trivial, fun _ h ↦ by cases h⟩⟩

/-! ## The parts as the validator finds them -/

theorem parts_flow (question : Question) : ∀ child ∈ questionParts question, ∃ tag attributes,
    child = element tag attributes [] ∧ ["Option", "Criterion", "Answer", "Previous"].contains tag = true := by
  intro child hchild
  simp only [questionParts, List.mem_append, List.mem_map, Option.mem_toList,
    Option.map_eq_some_iff] at hchild
  rcases hchild with ((⟨option, -, rfl⟩ | ⟨criterion, -, rfl⟩) | ⟨answer, -, rfl⟩) | ⟨previous, -, rfl⟩
  · exact ⟨_, _, rfl, by decide⟩
  · exact ⟨_, _, rfl, by decide⟩
  · exact ⟨_, _, rfl, by decide⟩
  · exact ⟨_, _, rfl, by decide⟩

theorem found_elements (question : Question) (name : String) :
    Mdx.elements (questionElement question) name = elements (questionElement question) name := by
  rw [Mdx.elements, elements, questionElement_eq]
  refine List.filter_congr fun child hchild ↦ ?_
  obtain ⟨tag, attributes, rfl, -⟩ := parts_flow question child hchild
  rfl

/-- The ids of the options, as the validator collects them. -/
theorem mem_optionIds (hulid : ∀ option ∈ question.options, isUlid option.id = true)
    {id : Units} : some id ∈ ids (Mdx.elements (questionElement question) "Option") ↔
      id ∈ question.options.map (·.id) := by
  have hid : ∀ option ∈ question.options, (optionElement option).stringAttribute "id" = some option.id := by
    intro option hoption
    rw [optionElement_eq, stringAttribute_given (optionValues_nodup option)]
    exact kept_eq_self.2 fun heq ↦ (isUlid_word (hulid option hoption)).1.nonempty (Option.some.inj heq)
  have hoptions : elements (questionElement question) "Option" = question.options.map optionElement := by
    simp [elements_questionElement]
  rw [ids, List.mem_dedup, found_elements, hoptions, List.map_map, List.mem_map, List.mem_map]
  refine exists_congr fun option ↦ and_congr_right fun hoption ↦ ?_
  rw [Function.comp_apply, hid option hoption, Option.some.injEq]

/-- The criteria, as the validator collects them. -/
theorem criteria_found (h : SoundQuestion question) :
    (Mdx.elements (questionElement question) "Criterion").length = (question.criteria.getD []).length ∧
      ids (Mdx.elements (questionElement question) "Criterion") =
        (question.criteria.getD []).map (fun criterion ↦ some criterion.id) := by
  have hcriteria : elements (questionElement question) "Criterion" =
      (question.criteria.getD []).map criterionElement := by
    simp [elements_questionElement]
  rw [found_elements, hcriteria, List.length_map]
  refine ⟨rfl, ?_⟩
  cases hlist : question.criteria with
  | none => rfl
  | some criteria =>
    obtain ⟨-, -, -, hall, hnodup⟩ := h.criteria criteria hlist
    have hid : ∀ criterion ∈ criteria, (criterionElement criterion).stringAttribute "id" = some criterion.id := by
      intro criterion hcriterion
      rw [criterionElement_eq, stringAttribute_given (criterionValues_nodup criterion)]
      exact kept_eq_self.2 fun heq ↦ (hall criterion hcriterion).1 (Option.some.inj heq)
    have hmap : (criteria.map criterionElement).map (·.stringAttribute "id") =
        criteria.map fun criterion ↦ some criterion.id := by
      rw [List.map_map]
      exact List.map_congr_left hid
    rw [ids, Option.getD_some, hmap, List.dedup_eq_self]
    have hsome := hnodup.map (f := some) fun _ _ ↦ Option.some.inj
    rwa [List.map_map] at hsome

/-! ## The choices of a question -/

/-- The choices of an answer, as they are written. -/
structure FittingChoices (question : Question) (chosen : List Units) : Prop where
  few : chosen.length ≤ MAX_OPTIONS
  known : ∀ id ∈ chosen, id ∈ question.options.map (·.id)
  distinct : chosen.Nodup
  single : question.multiple = false → chosen.length ≤ 1

/-- The options and the criteria have ULIDs. -/
structure Identified (question : Question) : Prop where
  options : ∀ option ∈ question.options, isUlid option.id = true
  criteria : ∀ criteria ∈ question.criteria, ∀ criterion ∈ criteria, isUlid criterion.id = true

theorem written_eq (question : Question) (h : SoundQuestion question) :
    ((questionElement question).stringAttribute "response" == some (utf16 "text")) = question.response.isSome := by
  have hread : (questionElement question).stringAttribute "response" = kept question.response :=
    stringAttribute_question question "response"
  rw [hread, kept_response h]
  cases hresponse : question.response with
  | none => rfl
  | some response => rw [(h.text response hresponse).1]; rfl

theorem multiple_eq (question : Question) :
    (questionElement question).stringAttribute "multiple" = some (utf16 "false") ↔ question.multiple = false := by
  have hread : (questionElement question).stringAttribute "multiple" =
      some (if question.multiple then utf16 "true" else utf16 "false") := stringAttribute_question question "multiple"
  rw [hread]
  cases question.multiple
  · exact iff_of_true rfl rfl
  · exact iff_of_false (by decide) nofun

theorem answerChoices_clean (h : SoundQuestion question) (hids : Identified question)
    (answer : Units) {path : String} {kind who textMessage : String} :
    choicesIssues (questionElement question) (answerElement question answer)
        (ids (Mdx.elements (questionElement question) "Option")) question.response.isSome path kind who textMessage =
        [] ↔ ∀ choices ∈ question.choices, FittingChoices question (words (join choices)) := by
  have hread : (answerElement question answer).stringAttribute "choices" = kept (question.choices.map join) :=
    stringAttribute_answer question answer "choices"
  rw [choicesIssues_eq_nil, hread]
  cases hchoices : question.choices with
  | none => exact iff_of_true nofun nofun
  | some choices =>
    simp only [Option.mem_def, Option.some.injEq, forall_eq', Option.map_some, mem_optionIds hids.options, multiple_eq]
    by_cases hempty : join choices = []
    · rw [hempty]
      exact iff_of_true nofun ⟨Nat.zero_le _, (fun _ h ↦ nomatch h), .nil, fun _ ↦ Nat.zero_le _⟩
    · rw [kept_eq_self.2 (by simpa using hempty)]
      have hunwritten : question.response.isSome = false := by
        rw [Option.isSome_eq_false_iff, Option.isNone_iff_eq_none, Option.eq_none_iff_forall_not_mem]
        intro response hresponse
        obtain ⟨-, -, -, hno, -⟩ := h.text response hresponse
        exact hempty (hno choices hchoices ▸ rfl)
      simp only [Option.some.injEq, forall_eq', hunwritten, true_and]
      exact ⟨fun ⟨hfew, hknown, hdistinct, hsingle⟩ ↦ ⟨hfew, hknown, hdistinct, hsingle⟩,
        fun ⟨hfew, hknown, hdistinct, hsingle⟩ ↦ ⟨hfew, hknown, hdistinct, hsingle⟩⟩

theorem answerMarks_clean (h : SoundQuestion question) (hids : Identified question) (answer : Units) (path : String) :
    marksIssues (ids (Mdx.elements (questionElement question) "Option"))
      (ids (Mdx.elements (questionElement question) "Criterion"))
      (Mdx.elements (questionElement question) "Criterion").length path (answerElement question answer) = [] := by
  have hread : (answerElement question answer).stringAttribute "marks" = kept (question.marks.bind encodeMarks) :=
    stringAttribute_answer question answer "marks"
  rw [marksIssues, hread]
  cases hmarks : question.marks with
  | none => rfl
  | some marks =>
    obtain ⟨-, criteria, hcriteria, hcells⟩ := h.marks marks hmarks
    by_cases hempty : marks.cells = []
    · rw [Option.bind_some, encodeMarks, hempty]
      rfl
    obtain ⟨hcount, hcolumns⟩ := criteria_found h
    rw [Option.mem_def.1 hcriteria, Option.getD_some] at hcount hcolumns
    have hgood : ∀ entry ∈ marks.cells, ∃ option ∈ question.options.map (·.id),
        ∃ criterion ∈ criteria.map (·.id), GoodCell (ids (Mdx.elements (questionElement question) "Option"))
          (ids (Mdx.elements (questionElement question) "Criterion")) entry option criterion := by
      intro entry hentry
      refine goodCell_of_checkCell (hcells entry hentry) (fun id hid ↦ (mem_optionIds hids.options).2 hid) ?_
      rw [hcolumns]
      refine fun id hid ↦ ?_
      obtain ⟨criterion, hcriterion, rfl⟩ := List.mem_map.1 hid
      exact List.mem_map_of_mem hcriterion
    have hlegible : ∀ entry ∈ marks.cells, Legible entry := by
      intro entry hentry
      obtain ⟨option, hoption, criterion, hcriterion, hcell⟩ := hgood entry hentry
      obtain ⟨source, hsource, rfl⟩ := List.mem_map.1 hoption
      obtain ⟨column, hcolumn, rfl⟩ := List.mem_map.1 hcriterion
      have hrow : IsWord source.id := (isUlid_word (hids.options source hsource)).1
      have hside : IsWord column.id := (isUlid_word (hids.criteria criteria hcriteria column hcolumn)).1
      refine legible_of_checkCell ?_ (hcells entry hentry)
      rw [hcell.split]
      exact isWord_append hrow (List.forall_mem_cons.2 ⟨by decide, hside.solid⟩)
    have hmatrix : ∀ entry ∈ marks.cells, ∃ option criterion,
        GoodCell (ids (Mdx.elements (questionElement question) "Option"))
          (ids (Mdx.elements (questionElement question) "Criterion")) entry option criterion := by
      intro entry hentry
      obtain ⟨option, -, criterion, -, hcell⟩ := hgood entry hentry
      exact ⟨option, criterion, hcell⟩
    have hlength := cells_le hmatrix marks.distinct
    have hbad : someBad _ _ [] (marks.cells.map token) = false := someBad_good hmatrix marks.distinct
    have hcolumned : criteria ≠ [] := (h.criteria criteria hcriteria).2.1
    rw [Option.bind_some, kept_encodeMarks hempty hlegible, encodeMarks_some hempty]
    dsimp only
    rw [words_trim, words_tokens hlegible, report_eq_nil, hbad, hcount]
    simp only [Bool.or_false, Bool.or_eq_false_iff, beq_eq_false_iff_ne, ne_eq, List.length_eq_zero_iff,
      List.isEmpty_eq_false_iff, List.map_eq_nil_iff, decide_eq_false_iff_not, Nat.not_lt, List.length_map]
    exact ⟨⟨hcolumned, hempty⟩, hlength⟩

theorem previousIssues_clean (h : SoundQuestion question) (hids : Identified question) (hprevious : question.previous = some previous) (path : String) :
    previousIssues (questionElement question) (ids (Mdx.elements (questionElement question) "Option"))
      question.response.isSome path (previousElement previous) = [] := by
  obtain ⟨hfew, heither, hvalue, -, -, hknown, hdistinct, hsingle⟩ := h.previous previous hprevious
  have hchoices : (previousElement previous).stringAttribute "choices" =
      kept (if previous.choices = [] then none else some (join previous.choices)) :=
    stringAttribute_previous previous "choices"
  have htext : (previousElement previous).stringAttribute "value" = previous.value :=
    (stringAttribute_previous previous "value").trans (kept_of_bounded hvalue)
  rw [previousIssues, List.append_eq_nil_iff, report_eq_nil, choicesIssues_eq_nil, hchoices, htext]
  by_cases hnone : previous.choices = []
  · rw [if_pos hnone]
    refine ⟨?_, fun _ hraw ↦ by cases hraw⟩
    cases hown : previous.value with
    | none => exact absurd hown (heither.1 hnone)
    | some value => rfl
  · have hulid : ∀ id ∈ previous.choices, isUlid id = true := by
      intro id hid
      obtain ⟨option, hoption, rfl⟩ := List.mem_map.1 (hknown id hid)
      exact hids.options option hoption
    obtain ⟨hwords, hbounded⟩ := bounded_join hnone hulid hfew
    have hkept : kept (some (join previous.choices)) = some (join previous.choices) :=
      kept_of_bounded fun text htext ↦ by rwa [← Option.some.inj htext]
    have hvalueless : previous.value = none := not_not.1 fun hsome ↦ hnone (heither.2 hsome)
    have hunwritten : question.response.isSome = false := by
      rw [Option.isSome_eq_false_iff, Option.isNone_iff_eq_none, Option.eq_none_iff_forall_not_mem]
      intro response hresponse
      obtain ⟨-, -, -, -, hno, -⟩ := h.text response hresponse
      exact hnone (hno previous hprevious)
    rw [if_neg hnone, hkept, hvalueless]
    refine ⟨rfl, fun raw hraw ↦ ?_⟩
    cases hraw
    rw [hwords, multiple_eq]
    exact ⟨hunwritten, hfew, fun id hid ↦ (mem_optionIds hids.options).2 (hknown id hid), hdistinct, hsingle⟩

/-- **The check of a question's choices comes to what is chosen.** -/
theorem questionChoices_clean (h : SoundQuestion question) (hids : Identified question)
    (path : String) : questionChoices (questionElement question) path = [] ↔
      (question.answer.isSome = true → ∀ choices ∈ question.choices,
        FittingChoices question (words (join choices))) := by
  have hanswers : Mdx.elements (questionElement question) "Answer" =
      (question.answer.map (answerElement question)).toList := by
    simp [found_elements, elements_questionElement]
  have hpreviouses : Mdx.elements (questionElement question) "Previous" =
      (question.previous.map previousElement).toList := by
    simp [found_elements, elements_questionElement]
  obtain ⟨hcount, hcolumns⟩ := criteria_found h
  have hmultiple : (question.response.isSome && (questionElement question).stringAttribute "multiple" !=
      some (utf16 "false")) = false := by
    cases hresponse : question.response with
    | none => rfl
    | some response =>
      rw [(multiple_eq question).2 (h.text response hresponse).2.1]
      rfl
  have hoptionless : (question.response.isSome &&
      decide (0 < (ids (Mdx.elements (questionElement question) "Option")).length)) = false := by
    cases hresponse : question.response with
    | none => rfl
    | some response =>
      have hoptions : elements (questionElement question) "Option" = [] := by
        simp [elements_questionElement, (h.text response hresponse).2.2.1]
      rw [found_elements, hoptions]
      rfl
  have hcriteria : (decide (MAX_CRITERIA < (Mdx.elements (questionElement question) "Criterion").length) ||
      (ids (Mdx.elements (questionElement question) "Criterion")).length !=
        (Mdx.elements (questionElement question) "Criterion").length) = false := by
    rw [hcount, hcolumns]
    cases hlist : question.criteria with
    | none => rfl
    | some criteria =>
      rw [Option.getD_some, List.length_map, bne_self_eq_false, Bool.or_false, decide_eq_false_iff_not, Nat.not_lt]
      exact (h.criteria criteria hlist).2.2.1
  have hplain : (question.response.isSome &&
      decide (0 < (Mdx.elements (questionElement question) "Criterion").length)) = false := by
    rw [hcount]
    cases hlist : question.criteria with
    | none => exact Bool.and_false _
    | some criteria => rw [(h.criteria criteria hlist).1]; rfl
  have honce : decide (1 < ((question.previous.map previousElement).toList).length) = false := by
    cases question.previous <;> rfl
  rw [questionChoices]
  have hprevious : ((question.previous.map previousElement).toList).flatMap
      (previousIssues (questionElement question) (ids (Mdx.elements (questionElement question) "Option"))
        question.response.isSome path) = [] := by
    cases hlist : question.previous with
    | none => rfl
    | some previous =>
      rw [Option.map_some, Option.toList_some, List.flatMap_singleton]
      exact previousIssues_clean h hids hlist path
  simp only [written_eq question h, hanswers, hpreviouses, List.append_eq_nil_iff, report_eq_nil, hmultiple,
    hoptionless, hcriteria, hplain, honce, hprevious, true_and, and_true]
  cases hanswer : question.answer with
  | none => exact iff_of_true rfl (by rintro ⟨⟩)
  | some answer =>
    have hvalue : (answerElement question answer).stringAttribute "value" = some answer :=
      stringAttribute_answer question answer "value"
    have hbounded : (question.response.isSome && !((some answer).any fun value ↦
        !isBlank value && decide (value.length ≤ MAX_CUSTOM_ANSWER))) = false := by
      cases hresponse : question.response with
      | none => rfl
      | some response =>
        obtain ⟨-, -, -, -, -, hall⟩ := h.text response hresponse
        rw [Option.any_some, ← bounded, hall answer hanswer]
        rfl
    rw [Option.map_some, Option.toList_some, List.flatMap_singleton, answerIssues, hvalue, List.append_eq_nil_iff,
      List.append_eq_nil_iff, report_eq_nil, answerMarks_clean h hids, answerChoices_clean h hids]
    exact ⟨fun hall _ ↦ hall.2, fun hall ↦ ⟨⟨rfl, hbounded⟩, hall rfl⟩⟩

/-! ## A question -/

/-- A question without parts is one that may be: it is answered in writing, nobody answered it yet in a card that a
conversation raised, or the Planner asks it freely. -/
def MayBeEmpty (card : Questionnaire) (question : Question) : Prop :=
  question.response ≠ none ∨
    (card.thread = none ∧ (card.status = none ∨ card.status = some (utf16 "expired"))) ∨
    (card.thread ≠ none ∧ card.questions.length = 1 ∧
      (∃ status ∈ card.status, oneOf ["open", "reopened", "discarded"] status = true) ∧ question.multiple = false)

/-- What a question must be for the validator. -/
structure FittingQuestion (card : Questionnaire) (question : Question) : Prop where
  id : isUlid question.id = true
  header : question.header.length ≤ MAX_QUESTIONNAIRE_TEXT
  prompt : question.prompt.length ≤ MAX_QUESTIONNAIRE_TEXT
  description : ∀ description ∈ question.description, description.length ≤ MAX_QUESTIONNAIRE_TEXT
  options : ∀ option ∈ question.options, FittingOption option
  criteria : ∀ criteria ∈ question.criteria, ∀ criterion ∈ criteria, isUlid criterion.id = true
  answer : ∀ answer ∈ question.answer, FittingAnswer question answer
  choices : question.answer.isSome = true → ∀ choices ∈ question.choices,
    FittingChoices question (words (join choices))
  parts : question.options ≠ [] ∨ question.criteria ≠ none ∨ question.answer ≠ none ∨ question.previous ≠ none ∨
    MayBeEmpty card question

theorem question_part : ∃ spec, lookup (some "Question") = some spec ∧ placed spec 2 ["Questionnaire"] = true ∧
    spec.name = "Question" ∧ spec.content = .components ["Option", "Criterion", "Answer", "Previous"] ∧
    spec.attributes = [("id", .id), ("header", .text true MAX_QUESTIONNAIRE_TEXT false),
      ("prompt", .text true MAX_QUESTIONNAIRE_TEXT false), ("description", .text false MAX_QUESTIONNAIRE_TEXT false),
      ("multiple", .enum true ["true", "false"]), ("response", .enum false ["text"])] :=
  ⟨_, rfl, rfl, rfl, rfl, rfl⟩

theorem card_questions (card : Questionnaire) :
    (cardElement card).children.filter (fun child ↦ child.isJsx && child.name == some "Question") =
      card.questions.map questionElement :=
  List.filter_eq_self.2 (List.forall_mem_map.2 fun _ _ ↦ rfl)

variable {card : Questionnaire}

/-- The questions that may be without parts, as the validator finds them. -/
theorem mayBeEmpty_iff (hcard : SoundCard card)
    (h : SoundQuestion question) {spec : Component} (hname : spec.name = "Question") :
    pendingQuestion (questionElement question) spec (some (cardElement card)) = true ∨
        freeTextQuestion spec (some (cardElement card)) = true ∨
        writtenQuestion (questionElement question) spec = true ↔ MayBeEmpty card question := by
  have hthread : (cardElement card).stringAttribute "thread" = card.thread :=
    (stringAttribute_card card "thread").trans (kept_of_bounded hcard.thread)
  have hstatus : (cardElement card).stringAttribute "status" = card.status :=
    (stringAttribute_card card "status").trans (kept_status hcard)
  have hnamed : ((cardElement card).name == some "Questionnaire") = true := rfl
  have hraised : card.thread.any (· != []) = card.thread.isSome := by
    cases hown : card.thread with
    | none => rfl
    | some thread =>
      refine bne_iff_ne.2 fun hnil ↦ ?_
      exact nomatch hnil ▸ hcard.thread thread hown
  have hstates : oneOf ["open", "reopened", "discarded"] (card.status.getD []) = true ↔
      ∃ status ∈ card.status, oneOf ["open", "reopened", "discarded"] status = true := by
    cases card.status with
    | none => exact iff_of_false (by decide) nofun
    | some status => simp
  have hquestion : (spec.name == "Question") = true := beq_iff_eq.2 hname
  have hpending : pendingQuestion (questionElement question) spec (some (cardElement card)) = true ↔
      card.thread ≠ none ∧ card.questions.length = 1 ∧
        (∃ status ∈ card.status, oneOf ["open", "reopened", "discarded"] status = true) ∧
        question.multiple = false := by
    rw [pendingQuestion, hquestion, Option.any_some, hnamed, hthread, hraised, card_questions, List.length_map, hstatus]
    simp only [Bool.true_and, Bool.and_eq_true, beq_iff_eq, multiple_eq, hstates, Option.isSome_iff_ne_none, and_assoc]
  have hfree : freeTextQuestion spec (some (cardElement card)) = true ↔
      card.thread = none ∧ (card.status = none ∨ card.status = some (utf16 "expired")) := by
    rw [freeTextQuestion, hquestion, Option.any_some, hnamed, hthread, hraised, hstatus]
    simp
  have hwritten : writtenQuestion (questionElement question) spec = true ↔ question.response ≠ none := by
    rw [writtenQuestion, hquestion, Bool.true_and, written_eq question h, Option.isSome_iff_ne_none]
  rw [hpending, hfree, hwritten, MayBeEmpty]
  exact ⟨fun h ↦ h.elim (fun h ↦ .inr (.inr h)) fun h ↦ h.elim (fun h ↦ .inr (.inl h)) .inl,
    fun h ↦ h.elim (fun h ↦ .inr (.inr h)) fun h ↦ h.elim (fun h ↦ .inr (.inl h)) .inl⟩

theorem parts_eq_nil (h : SoundQuestion question) : questionParts question ≠ [] ↔
    question.options ≠ [] ∨ question.criteria ≠ none ∨ question.answer ≠ none ∨ question.previous ≠ none := by
  have hcriteria : question.criteria.getD [] = [] ↔ question.criteria = none := by
    cases hlist : question.criteria with
    | none => exact iff_of_true rfl rfl
    | some criteria => exact iff_of_false (h.criteria criteria hlist).2.1 nofun
  simp only [questionParts, ne_eq, List.append_eq_nil_iff, List.map_eq_nil_iff, hcriteria, Option.toList_eq_nil_iff,
    Option.map_eq_none_iff, not_and_or, or_assoc]


theorem parts_allowed (question : Question) : ∀ child ∈ questionParts question,
    isAllowed ["Option", "Criterion", "Answer", "Previous"] child = true := by
  intro child hchild
  obtain ⟨tag, attributes, rfl, htag⟩ := parts_flow question child hchild
  rw [List.contains_iff_mem] at htag
  simp only [List.mem_cons, List.not_mem_nil, or_false] at htag
  rcases htag with rfl | rfl | rfl | rfl <;> rfl

/-- **What the walk finds of a question of a card.** -/
theorem walk_question (hcard : SoundCard card) (h : SoundQuestion question) (path : String) :
    Found (walk library path 2 ["Questionnaire"] (some (cardElement card)) (questionElement question))
      (FittingQuestion card question) := by
  obtain ⟨spec, hlookup, hplaced, hname, hcontent, hattributes⟩ := question_part
  have hloose : ["Question", "Option", "Answer"].contains spec.name = true := by rw [hname]; rfl
  have hallowed : ∀ entry ∈ questionValues question, entry.1 ∈ spec.attributes.map Prod.fst := by
    simp [hattributes, questionValues]
  have hbeneath : Found (descend library path 2 (["Questionnaire"] ++ ["Question"]) (some (questionElement question)) []
      (questionParts question)) ((∀ option ∈ question.options, FittingOption option) ∧
        (∀ criterion ∈ question.criteria.getD [], isUlid criterion.id = true) ∧
        (∀ answer ∈ question.answer.toList, FittingAnswer question answer) ∧
        ∀ previous ∈ question.previous.toList,
          join previous.choices ≠ [] → bounded MAX_ANSWER_CHOICES (join previous.choices) = true) := by
    have hanswer : (question.answer.map (answerElement question)).toList =
        question.answer.toList.map (answerElement question) := by
      cases question.answer <;> rfl
    have hprevious : (question.previous.map previousElement).toList = question.previous.toList.map previousElement := by
      cases question.previous <;> rfl
    rw [questionParts, hanswer, hprevious, List.append_assoc, List.append_assoc]
    refine descend_append (descend_map fun option _ path ↦ walk_option option _ path)
      (descend_append (descend_map fun criterion hcriterion path ↦ walk_criterion ?_ _ path)
        (descend_append (descend_map fun answer _ path ↦ walk_answer question answer _ path)
          (descend_map fun previous hmem path ↦ walk_previous h (Option.mem_toList.1 hmem) _ path))) []
    cases hlist : question.criteria with
    | none => rw [hlist] at hcriterion; cases hcriterion
    | some criteria =>
      rw [hlist] at hcriterion
      exact ((h.criteria criteria hlist).2.2.2.1 criterion hcriterion).2
  have hwalk : Found (walk library path 2 ["Questionnaire"] (some (cardElement card)) (element "Question" _ _)) _ :=
    walk_element hlookup hplaced (by decide) (by decide) hallowed (questionValues_nodup question)
      (questionElement_eq question ▸ hbeneath)
  rw [questionElement_eq]
  refine ⟨hwalk.issues.trans ?_, hwalk.images⟩
  rw [contentOf_parts hcontent (by rw [hname]; decide) (parts_allowed question), ← questionElement_eq,
    mayBeEmpty_iff hcard h hname, parts_eq_nil h, hattributes]
  have hmultiple : suits spec (.enum true ["true", "false"])
      (some (if question.multiple then utf16 "true" else utf16 "false")) = true := by
    cases question.multiple <;> rfl
  have hresponse : suits spec (.enum false ["text"]) (kept question.response) = true := by
    rw [kept_response h]
    cases hlist : question.response with
    | none => rfl
    | some response => rw [(h.text response hlist).1]; rfl
  simp only [List.forall_mem_cons, questionValues, List.lookup_cons, String.reduceBEq, Option.join_some, suits_id,
    suits_loose hloose, suits_loose_kept hloose, hmultiple, hresponse]
  have hcriteriaIff : (∀ criterion ∈ question.criteria.getD [], isUlid criterion.id = true) ↔
      ∀ criteria ∈ question.criteria, ∀ criterion ∈ criteria, isUlid criterion.id = true := by
    cases question.criteria <;> simp
  constructor
  · rintro ⟨⟨hid, hheader, hprompt, hdescription, -⟩, hparts, hchoices, hoptions, hcriteria, hanswers, -⟩
    have hids : Identified question :=
      ⟨fun option hoption ↦ (hoptions option hoption).id, hcriteriaIff.1 hcriteria⟩
    refine ⟨hid, hheader, hprompt, hdescription, hoptions, hids.criteria, fun answer hanswer ↦ ?_,
      (questionChoices_clean h hids path).1 (hchoices trivial), by simpa only [or_assoc] using hparts⟩
    exact hanswers answer (Option.mem_toList.2 hanswer)
  · rintro ⟨hid, hheader, hprompt, hdescription, hoptions, hcriteria, hanswers, hchoices, hparts⟩
    have hids : Identified question := ⟨fun option hoption ↦ (hoptions option hoption).id, hcriteria⟩
    refine ⟨⟨hid, hheader, hprompt, hdescription, trivial, trivial, fun _ hmem ↦ by cases hmem⟩,
      by simpa only [or_assoc] using hparts, fun _ ↦ (questionChoices_clean h hids path).2 hchoices, hoptions,
      hcriteriaIff.2 hcriteria, fun answer hanswer ↦ hanswers answer (Option.mem_toList.1 hanswer),
      fun previous hmem hsome ↦ ?_⟩
    have hprevious : question.previous = some previous := Option.mem_toList.1 hmem
    obtain ⟨hfew, -, -, -, -, hknown, -⟩ := h.previous previous hprevious
    refine (bounded_join (fun hnone ↦ hsome (congrArg join hnone)) (fun id hid ↦ ?_) hfew).2
    obtain ⟨option, hoption, rfl⟩ := List.mem_map.1 (hknown id hid)
    exact hids.options option hoption

/-! ## A card -/

/-- What a projection must be for the validator. -/
structure Fits (card : Questionnaire) : Prop where
  id : isUlid card.id = true
  «by» : ∀ text ∈ card.by, text ≠ [] → bounded MAX_HANDLE text = true
  «at» : ∀ text ∈ card.at, text ≠ [] → bounded MAX_TIMESTAMP text = true
  nonempty : card.questions ≠ []
  questions : ∀ question ∈ card.questions, FittingQuestion card question

theorem card_part : ∃ spec, lookup (some "Questionnaire") = some spec ∧ placed spec 1 [] = true ∧
    spec.name = "Questionnaire" ∧ spec.content = .components ["Question"] ∧
    spec.attributes = [("id", .id), ("thread", .text false MAX_ID false),
      ("status", .enum false ["open", "decided", "reopened", "discarded", "expired"]),
      ("by", .text false MAX_HANDLE false), ("at", .text false MAX_TIMESTAMP false)] :=
  ⟨_, rfl, rfl, rfl, rfl, rfl⟩

/-- What the walk finds of a card at the top of a document. -/
theorem walk_card (h : SoundCard card) (path : String) :
    Found (walk library path 1 [] none (cardElement card)) (Fits card) := by
  obtain ⟨spec, hlookup, hplaced, hname, hcontent, hattributes⟩ := card_part
  have hstrict : ["Question", "Option", "Answer"].contains spec.name = false := by rw [hname]; rfl
  have hallowed : ∀ entry ∈ cardValues card, entry.1 ∈ spec.attributes.map Prod.fst := by
    simp [hattributes, cardValues]
  have hbeneath : Found (descend library path 1 ([] ++ ["Questionnaire"]) (some (cardElement card)) []
      (card.questions.map questionElement)) (∀ question ∈ card.questions, FittingQuestion card question) :=
    descend_map (fun question hquestion path ↦ walk_question h (h.questions question hquestion) path) []
  have hwalk : Found (walk library path 1 [] none (element "Questionnaire" _ _)) _ :=
    walk_element hlookup hplaced (by decide) (by decide) hallowed (cardValues_nodup card) hbeneath
  have hallowedParts : ∀ child ∈ card.questions.map questionElement, isAllowed ["Question"] child = true :=
    List.forall_mem_map.2 fun question _ ↦ rfl
  have hstatus : suits spec (.enum false ["open", "decided", "reopened", "discarded", "expired"])
      (kept card.status) = true := by
    rw [kept_status h]
    cases hown : card.status with
    | none => rfl
    | some status => exact h.status status hown
  refine ⟨hwalk.issues.trans ?_, hwalk.images⟩
  rw [contentOf_parts hcontent (by rw [hname]; decide) hallowedParts, hattributes]
  simp only [List.forall_mem_cons, cardValues, List.lookup_cons, String.reduceBEq, Option.join_some, suits_id,
    suits_strict hstrict, suits_bounded_kept spec h.thread, hstatus]
  have hno : ¬(pendingQuestion (element "Questionnaire" (given (cardValues card))
        (card.questions.map questionElement)) spec none = true ∨ freeTextQuestion spec none = true ∨
      writtenQuestion (element "Questionnaire" (given (cardValues card)) (card.questions.map questionElement)) spec =
        true) := by
    simp [pendingQuestion, freeTextQuestion, writtenQuestion, hname]
  constructor
  · rintro ⟨⟨hid, -, -, hby, hat, -⟩, hparts, -, hquestions⟩
    have hsome := hparts.resolve_right hno
    exact ⟨hid, hby, hat, fun hnil ↦ hsome (List.map_eq_nil_iff.2 hnil), hquestions⟩
  · rintro ⟨hid, hby, hat, hsome, hquestions⟩
    exact ⟨⟨hid, trivial, trivial, hby, hat, fun _ hmem ↦ (by cases hmem)⟩,
      .inl fun hnil ↦ hsome (List.map_eq_nil_iff.1 hnil), fun hname ↦ absurd hname (by decide), hquestions⟩

/-! ## The document -/

theorem root_unread : "root" ∉ READ_NODES := by decide

/-- A document that is this element alone. -/
def documentOf (element : Node) : Node := .markdown (.plain "root" root_unread) [element] none

/-- **The validator accepts a written projection exactly when the projection fits.** -/
theorem written_clean (library : Library) (h : SoundCard card) :
    validate library (documentOf (cardElement card)) none = [] ↔ Fits card := by
  have hbeneath : Found (descend library "root" 0 [] none [] ([card].map cardElement)) (∀ one ∈ [card], Fits one) := by
    refine descend_map (fun one hone path ↦ ?_) []
    obtain rfl := List.mem_singleton.1 hone
    exact walk_card h path
  have hwalk : walk library "root" 0 [] none (documentOf (cardElement card)) =
      ⟨[], 0⟩ ++ descend library "root" 0 [] none [] [cardElement card] := by
    rw [documentOf, walk]
    rfl
  have hfound : Found (walk library "root" 0 [] none (documentOf (cardElement card))) (True ∧ Fits card) := by
    rw [hwalk]
    refine Found.nothing.append ?_
    simpa using hbeneath
  rw [validate, hfound.images]
  simp only [Option.any_none, List.append_eq_nil_iff, report_eq_nil, hfound.issues, true_and]
  exact and_iff_left (by decide)

/-- **A projection and its element.**  A projection that passes the check of its fields comes back from its element
exactly when it is plain; what was read of an element comes back from the one it is written as, where nothing was left
empty; and the validator accepts what is written exactly when the projection fits. -/
theorem questionnaire_round_trips (library : Library) :
    (∀ card, parse card = .ok card → ((toElement card >>= fromElement) = .ok card ↔ Plain card)) ∧
    (∀ node card, fromElement node = .ok card → Filled node → (toElement card >>= fromElement) = .ok card) ∧
    ∀ card, parse card = .ok card → ∃ written, toElement card = .ok written ∧
      (validate library (documentOf written) none = [] ↔ Fits card) :=
  ⟨fun _ h ↦ round_trip h, fun _ _ h hfilled ↦ read_again h hfilled,
    fun card h ↦ ⟨cardElement card, toElement_eq h, written_clean library (parse_ok h).2⟩⟩

/-- A decided matrix that was reopened once, and an answer in writing. -/
def sampleCard : Questionnaire where
  id := utf16 "00000000000000000000000001"
  questions := [
    { id := utf16 "00000000000000000000000002"
      header := utf16 "Store"
      prompt := utf16 "Which one?"
      description := none
      multiple := false
      response := none
      options := [⟨utf16 "00000000000000000000000003", utf16 "A file", some (utf16 "On disk"), none⟩,
        ⟨utf16 "00000000000000000000000004", utf16 "A table", none, none⟩]
      criteria := some [⟨utf16 "00000000000000000000000005", utf16 "Cost"⟩]
      marks := some ⟨[(utf16 "00000000000000000000000003/00000000000000000000000005", utf16 "yes"),
        (utf16 "00000000000000000000000004/00000000000000000000000005", utf16 "no")], by decide⟩
      answer := some (utf16 "A file")
      choices := some [utf16 "00000000000000000000000003"]
      previous := some ⟨[utf16 "00000000000000000000000004"], none, utf16 "ada", utf16 "2024-01-02"⟩ },
    { id := utf16 "00000000000000000000000006"
      header := utf16 "Name"
      prompt := utf16 "What is it called?"
      description := none
      multiple := false
      response := some (utf16 "text")
      options := []
      criteria := none
      marks := none
      answer := some (utf16 "Chopin")
      choices := none
      previous := none }]
  thread := none
  status := some (utf16 "decided")
  «by» := some (utf16 "ada")
  «at» := some (utf16 "2024-01-03")

theorem questionnaire_round_trips_sample :
    Plain sampleCard ∧ (toElement sampleCard >>= fromElement) = .ok sampleCard ∧ Fits sampleCard := by
  obtain ⟨hround, hagain, hclean⟩ := questionnaire_round_trips sampleLibrary
  have hparse : parse sampleCard = .ok sampleCard := by decide +kernel
  have hread : fromElement (cardElement sampleCard) = .ok sampleCard := by decide +kernel
  have hfilled : Filled (cardElement sampleCard) := ⟨by decide +kernel, by decide +kernel⟩
  have hcome : (toElement sampleCard >>= fromElement) = .ok sampleCard := hagain _ _ hread hfilled
  obtain ⟨written, hwritten, hfits⟩ := hclean sampleCard hparse
  obtain rfl : cardElement sampleCard = written := Except.ok.inj ((toElement_eq hparse).symm.trans hwritten)
  exact ⟨(hround _ hparse).1 hcome, hcome, hfits.1 (by decide +kernel)⟩

/-- A card whose option has an empty description, and whose ids are no ULIDs. -/
def strayCard : Questionnaire where
  id := utf16 "card"
  questions := [
    { id := utf16 "store"
      header := utf16 "Store"
      prompt := utf16 "Which one?"
      description := none
      multiple := false
      response := none
      options := [⟨utf16 "file", utf16 "A file", some [], none⟩]
      criteria := none
      marks := none
      answer := none
      choices := none
      previous := none }]
  thread := none
  status := none
  «by» := none
  «at» := none

/-- The fields of a card may be accepted though it does not come back, and its element is not accepted. -/
theorem strayCard_changed : parse strayCard = .ok strayCard ∧ (toElement strayCard >>= fromElement) ≠ .ok strayCard ∧
    ∃ written, toElement strayCard = .ok written ∧ validate sampleLibrary (documentOf written) none ≠ [] := by
  have hparse : parse strayCard = .ok strayCard := by decide +kernel
  refine ⟨hparse, fun hread ↦ ?_, cardElement strayCard, toElement_eq hparse, fun hnil ↦ ?_⟩
  · have hplain := (round_trip hparse).1 hread
    exact ((hplain.questions _ List.mem_cons_self).options _ List.mem_cons_self).1 rfl
  · exact nomatch ((written_clean sampleLibrary (parse_ok hparse).2).1 hnil).id

end Chopin.Mdx.Questionnaires
