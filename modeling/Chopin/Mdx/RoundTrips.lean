import Chopin.Mdx.Marks

/-!
# Round trips of a questionnaire

What is written of a projection, and what is read of an element.  A field that is empty is dropped when it is written,
and ids that stand in one attribute are read back as its words; so a projection comes back exactly when it has no empty
field and its ids are words (`round_trip`).  What was read has words for ids, and comes back (`read_again`).
-/

set_option autoImplicit false

open Script
open Except (demand demand_eq_ok demand_bind_eq_ok bind_eq_ok)

namespace Chopin.Mdx.Questionnaires

/-! ## Attributes -/

/-- The attributes that have a value. -/
def given (values : List (String × Option Units)) : List Attribute :=
  values.filterMap fun entry ↦ entry.2.map (written entry.1)

theorem attributes_eq_given (values : List (String × Option Units)) :
    attributes values = given (values.map fun entry ↦ (entry.1, kept entry.2)) := by
  rw [attributes, given, List.filterMap_map]
  rfl

theorem given_nil : given [] = [] := rfl

theorem given_cons (name : String) (value : Option Units) (rest : List (String × Option Units)) :
    given ((name, value) :: rest) = (value.map (written name)).toList ++ given rest := by
  cases value <;> rfl

variable {values : List (String × Option Units)}

theorem lookup_absent {name : String} (h : name ∉ values.map Prod.fst) : values.lookup name = none :=
  List.lookup_eq_none_iff.2 fun _ hentry ↦ bne_iff_ne.2 fun heq ↦ h (heq ▸ List.mem_map_of_mem hentry)

/-- **An attribute that has a value is read back.** -/
theorem stringAttribute_given (h : (values.map Prod.fst).Nodup) (tag : String) (children : List Node) (name : String) :
    (element tag (given values) children).stringAttribute name = (values.lookup name).join := by
  induction values with
  | nil => rfl
  | cons entry rest ih =>
    obtain ⟨own, value⟩ := entry
    obtain ⟨hnew, hrest⟩ := List.nodup_cons.1 h
    have hothers := ih hrest
    by_cases hname : name = own
    · subst hname
      rw [List.lookup_cons_self, Option.join_some]
      cases value with
      | none => exact hothers.trans (by rw [lookup_absent hnew]; rfl)
      | some value => simp [Node.stringAttribute, element, Node.attributes, given, written]
    · rw [List.lookup_cons, beq_eq_false_iff_ne.2 hname, ← hothers]
      cases value with
      | none => rfl
      | some value =>
        have hskip : (own == name) = false := beq_eq_false_iff_ne.2 (Ne.symm hname)
        simp [Node.stringAttribute, element, Node.attributes, given, written, hskip]

/-! ## Fields that are kept -/

variable {value : Option Units}

theorem kept_eq_self : kept value = value ↔ value ≠ some [] := by
  cases value with
  | none => simp [kept]
  | some value => simp [kept, Option.filter_some]

theorem kept_kept (value : Option Units) : kept (kept value) = kept value :=
  kept_eq_self.2 fun h ↦ by simp [kept] at h

theorem kept_getD (value : Units) : (kept (some value)).getD [] = value := by
  cases value <;> rfl

theorem kept_of_bounded {max : Nat} (h : ∀ text ∈ value, bounded max text = true) : kept value = value :=
  kept_eq_self.2 fun heq ↦ nomatch h [] heq

/-! ## Elements -/

def optionValues (option : QuestionOption) : List (String × Option Units) :=
  [("id", kept (some option.id)), ("label", some option.label), ("description", kept option.description),
    ("preview", kept option.preview)]

theorem optionElement_eq (option : QuestionOption) :
    optionElement option = element "Option" (given (optionValues option)) [] := by
  simp [optionElement, identity, attributes_eq_given, optionValues, given_cons, given_nil]

def criterionValues (criterion : Criterion) : List (String × Option Units) :=
  [("id", kept (some criterion.id)), ("label", some criterion.label)]

theorem criterionElement_eq (criterion : Criterion) :
    criterionElement criterion = element "Criterion" (given (criterionValues criterion)) [] := by
  simp [criterionElement, identity, attributes_eq_given, criterionValues, given_cons, given_nil]

def answerValues (question : Question) (answer : Units) : List (String × Option Units) :=
  [("value", some answer), ("choices", kept (question.choices.map join)),
    ("marks", kept (question.marks.bind encodeMarks))]

theorem answerElement_eq (question : Question) (answer : Units) :
    answerElement question answer = element "Answer" (given (answerValues question answer)) [] := by
  simp [answerElement, attributes_eq_given, answerValues, given_cons, given_nil]

def previousValues (previous : Previous) : List (String × Option Units) :=
  [("choices", kept (if previous.choices = [] then none else some (join previous.choices))),
    ("value", kept previous.value), ("by", kept (some previous.by)), ("at", kept (some previous.at))]

theorem previousElement_eq (previous : Previous) :
    previousElement previous = element "Previous" (given (previousValues previous)) [] := by
  rw [previousElement, attributes_eq_given]
  rfl

def questionValues (question : Question) : List (String × Option Units) :=
  [("id", kept (some question.id)), ("header", some question.header), ("prompt", some question.prompt),
    ("description", kept question.description), ("response", kept question.response),
    ("multiple", some (if question.multiple then utf16 "true" else utf16 "false"))]

def questionParts (question : Question) : List Node :=
  question.options.map optionElement ++ (question.criteria.getD []).map criterionElement ++
    (question.answer.map (answerElement question)).toList ++ (question.previous.map previousElement).toList

theorem questionElement_eq (question : Question) :
    questionElement question = element "Question" (given (questionValues question)) (questionParts question) := by
  simp [questionElement, identity, attributes_eq_given, questionValues, questionParts, given_cons, given_nil]

def cardValues (card : Questionnaire) : List (String × Option Units) :=
  [("id", kept (some card.id)), ("thread", kept card.thread), ("status", kept card.status), ("by", kept card.by),
    ("at", kept card.at)]

def cardElement (card : Questionnaire) : Node :=
  element "Questionnaire" (given (cardValues card)) (card.questions.map questionElement)

variable {card : Questionnaire}

theorem toElement_eq (h : parse card = .ok card) : toElement card = .ok (cardElement card) := by
  rw [toElement, h, cardElement]
  simp only [Except.ok_bind, identity, attributes_eq_given]
  rfl

/-! ## Reading what is written -/

theorem optionValues_nodup (option : QuestionOption) : ((optionValues option).map Prod.fst).Nodup :=
  show ["id", "label", "description", "preview"].Nodup by decide

theorem criterionValues_nodup (criterion : Criterion) : ((criterionValues criterion).map Prod.fst).Nodup :=
  show ["id", "label"].Nodup by decide

theorem answerValues_nodup (question : Question) (answer : Units) :
    ((answerValues question answer).map Prod.fst).Nodup :=
  show ["value", "choices", "marks"].Nodup by decide

theorem previousValues_nodup (previous : Previous) : ((previousValues previous).map Prod.fst).Nodup :=
  show ["choices", "value", "by", "at"].Nodup by decide

theorem questionValues_nodup (question : Question) : ((questionValues question).map Prod.fst).Nodup :=
  show ["id", "header", "prompt", "description", "response", "multiple"].Nodup by decide

theorem cardValues_nodup (card : Questionnaire) : ((cardValues card).map Prod.fst).Nodup :=
  show ["id", "thread", "status", "by", "at"].Nodup by decide

theorem stringAttribute_answer (question : Question) (answer : Units) (name : String) :
    (answerElement question answer).stringAttribute name = ((answerValues question answer).lookup name).join := by
  rw [answerElement_eq]
  exact stringAttribute_given (answerValues_nodup question answer) _ _ _

theorem stringAttribute_previous (previous : Previous) (name : String) :
    (previousElement previous).stringAttribute name = ((previousValues previous).lookup name).join := by
  rw [previousElement_eq]
  exact stringAttribute_given (previousValues_nodup previous) _ _ _

theorem stringAttribute_question (question : Question) (name : String) :
    (questionElement question).stringAttribute name = ((questionValues question).lookup name).join := by
  rw [questionElement_eq]
  exact stringAttribute_given (questionValues_nodup question) _ _ _

theorem stringAttribute_card (card : Questionnaire) (name : String) :
    (cardElement card).stringAttribute name = ((cardValues card).lookup name).join :=
  stringAttribute_given (cardValues_nodup card) _ _ _

theorem readOption_written (option : QuestionOption) : readOption (optionElement option) =
    { option with description := kept option.description, preview := kept option.preview } := by
  rw [optionElement_eq, readOption]
  simp only [readAttribute, stringAttribute_given (optionValues_nodup option)]
  simp [optionValues, List.lookup_cons, kept_getD, kept_kept]

theorem readCriterion_written (criterion : Criterion) : readCriterion (criterionElement criterion) = criterion := by
  rw [criterionElement_eq, readCriterion]
  simp only [readAttribute, stringAttribute_given (criterionValues_nodup criterion)]
  simp [criterionValues, List.lookup_cons, kept_getD]

theorem readChoices_written (question : Question) (answer : Units) :
    readChoices (answerElement question answer) =
      if words (join (question.choices.getD [])) = [] then none
      else some (words (join (question.choices.getD []))) := by
  have hread : ((kept (question.choices.map join)).getD []) = join (question.choices.getD []) := by
    cases question.choices with
    | none => rfl
    | some choices => exact kept_getD _
  rw [readChoices]
  simp only [readAttribute, stringAttribute_answer]
  simp [answerValues, List.lookup_cons, hread]

theorem readPrevious_written (previous : Previous) : readPrevious (previousElement previous) =
    { previous with choices := words (join previous.choices), value := kept previous.value } := by
  have hread : ((kept (if previous.choices = [] then none else some (join previous.choices))).getD []) =
      join previous.choices := by
    split
    · rename_i hnil
      rw [hnil]
      rfl
    · exact kept_getD _
  rw [readPrevious]
  simp only [readAttribute, stringAttribute_previous]
  simp [previousValues, List.lookup_cons, hread, kept_getD, words_trim]

/-- The parts of a name among the parts of an element. -/
theorem filter_named {α : Type} {f : α → Node} {tag : String}
    (h : ∀ a, (f a).type = "mdxJsxFlowElement" ∧ (f a).name = some tag) (values : List α) (name : String) :
    (values.map f).filter (fun child ↦ child.type == "mdxJsxFlowElement" && child.name == some name) =
      if tag = name then values.map f else [] := by
  split
  · rename_i heq
    refine List.filter_eq_self.2 (List.forall_mem_map.2 fun value _ ↦ ?_)
    simp [h value, heq]
  · rename_i hne
    refine List.filter_eq_nil_iff.2 (List.forall_mem_map.2 fun value _ ↦ ?_)
    simp [h value, hne]

/-- **Each part of a question is found under its own name.** -/
theorem elements_questionElement (question : Question) (name : String) :
    elements (questionElement question) name =
      (if "Option" = name then question.options.map optionElement else []) ++
        (if "Criterion" = name then (question.criteria.getD []).map criterionElement else []) ++
        (if "Answer" = name then (question.answer.map (answerElement question)).toList else []) ++
        (if "Previous" = name then (question.previous.map previousElement).toList else []) := by
  have hanswer : (question.answer.map (answerElement question)).toList =
      question.answer.toList.map (answerElement question) := by
    cases question.answer <;> rfl
  have hprevious : (question.previous.map previousElement).toList = question.previous.toList.map previousElement := by
    cases question.previous <;> rfl
  have hoptionName : ∀ option, (optionElement option).type = "mdxJsxFlowElement" ∧
      (optionElement option).name = some "Option" := fun _ ↦ ⟨rfl, rfl⟩
  have hcriterionName : ∀ criterion, (criterionElement criterion).type = "mdxJsxFlowElement" ∧
      (criterionElement criterion).name = some "Criterion" := fun _ ↦ ⟨rfl, rfl⟩
  have hanswerName : ∀ answer, (answerElement question answer).type = "mdxJsxFlowElement" ∧
      (answerElement question answer).name = some "Answer" := fun _ ↦ ⟨rfl, rfl⟩
  have hpreviousName : ∀ previous, (previousElement previous).type = "mdxJsxFlowElement" ∧
      (previousElement previous).name = some "Previous" := fun _ ↦ ⟨rfl, rfl⟩
  rw [elements, questionElement_eq]
  change (questionParts question).filter _ = _
  rw [questionParts, hanswer, hprevious, List.filter_append, List.filter_append, List.filter_append,
    filter_named hoptionName, filter_named hcriterionName, filter_named hanswerName, filter_named hpreviousName]

/-! ## The check of the fields -/

/-- What the check of a question comes to. -/
structure SoundQuestion (question : Question) : Prop where
  text : ∀ response ∈ question.response, response = utf16 "text" ∧ question.multiple = false ∧ question.options = [] ∧
    (∀ choices ∈ question.choices, choices = []) ∧ (∀ previous ∈ question.previous, previous.choices = []) ∧
    ∀ answer ∈ question.answer, bounded MAX_CUSTOM_ANSWER answer = true
  criteria : ∀ criteria ∈ question.criteria, question.response = none ∧ criteria ≠ [] ∧
    criteria.length ≤ MAX_CRITERIA ∧
    (∀ criterion ∈ criteria, criterion.id ≠ [] ∧ bounded MAX_CRITERION_LABEL criterion.label = true) ∧
    (criteria.map (·.id)).Nodup
  marks : ∀ marks ∈ question.marks, question.answer.isSome = true ∧ ∃ criteria ∈ question.criteria,
    ∀ entry ∈ marks.cells, checkCell (question.options.map (·.id)) (criteria.map (·.id)) entry.1 entry.2 = true
  previous : ∀ previous ∈ question.previous, previous.choices.length ≤ MAX_OPTIONS ∧
    (previous.choices = [] ↔ previous.value ≠ none) ∧
    (∀ value ∈ previous.value, bounded MAX_CUSTOM_ANSWER value = true) ∧ bounded MAX_HANDLE previous.by = true ∧
    bounded MAX_TIMESTAMP previous.at = true ∧ (∀ id ∈ previous.choices, id ∈ question.options.map (·.id)) ∧
    previous.choices.Nodup ∧ (question.multiple = false → previous.choices.length ≤ 1)

variable {question : Question}

theorem checkQuestion_ok (h : checkQuestion question = .ok ()) : SoundQuestion question := by
  rw [checkQuestion] at h
  obtain ⟨⟨⟩, hresponse, h⟩ := bind_eq_ok.1 h
  obtain ⟨⟨⟩, hcriteria, hprevious⟩ := bind_eq_ok.1 h
  constructor
  case text =>
    intro response hmem
    unfold checkResponse at hresponse
    rw [Option.mem_def.1 hmem] at hresponse
    simp only [demand_bind_eq_ok, demand_eq_ok, Bool.and_eq_true, Option.all_eq_true, beq_iff_eq,
      Bool.not_eq_true'] at hresponse
    obtain ⟨⟨⟨htext, hmultiple⟩, hoptions⟩, ⟨hchoices, hno⟩, hanswer⟩ := hresponse
    exact ⟨htext, hmultiple, hoptions, hchoices, hno, hanswer⟩
  case criteria =>
    intro criteria hmem
    unfold checkCriteria at hcriteria
    rw [Option.mem_def.1 hmem] at hcriteria
    simp only [demand_bind_eq_ok, Bool.and_eq_true, Option.isNone_iff_eq_none, bne_iff_ne, ne_eq, decide_eq_true_eq,
      List.all_eq_true] at hcriteria
    obtain ⟨⟨⟨⟨⟨hnone, hsome⟩, hlength⟩, hall⟩, hnodup⟩, -⟩ := hcriteria
    exact ⟨hnone, hsome, hlength, hall, hnodup⟩
  case marks =>
    intro marks hmem
    unfold checkCriteria at hcriteria
    rw [Option.mem_def.1 hmem] at hcriteria
    cases hlist : question.criteria with
    | none => rw [hlist] at hcriteria; exact nomatch hcriteria
    | some criteria =>
      rw [hlist] at hcriteria
      simp only [demand_bind_eq_ok, demand_eq_ok, Bool.and_eq_true, List.all_eq_true] at hcriteria
      exact ⟨hcriteria.2.1, criteria, rfl, hcriteria.2.2⟩
  case previous =>
    intro previous hmem
    unfold checkPrevious at hprevious
    rw [Option.mem_def.1 hmem] at hprevious
    simp only [demand_bind_eq_ok, demand_eq_ok, Bool.and_eq_true, Bool.or_eq_true, decide_eq_true_eq,
      Option.all_eq_true, List.all_eq_true, List.contains_iff_mem] at hprevious
    obtain ⟨⟨⟨⟨⟨hlength, heither⟩, hvalue⟩, hby⟩, hat⟩, ⟨hknown, hnodup⟩, hsingle⟩ := hprevious
    refine ⟨hlength, ?_, hvalue, hby, hat, hknown, hnodup, fun hfalse ↦ ?_⟩
    · cases hvalue : previous.value <;> simpa [hvalue] using heither
    · exact hsingle.resolve_left (by rw [hfalse]; exact Bool.false_ne_true)

/-- What the check of a projection comes to. -/
structure SoundCard (card : Questionnaire) : Prop where
  thread : ∀ thread ∈ card.thread, bounded MAX_ID thread = true
  status : ∀ status ∈ card.status, oneOf STATUSES status = true
  questions : ∀ question ∈ card.questions, SoundQuestion question

theorem kept_response (h : SoundQuestion question) : kept question.response = question.response :=
  kept_eq_self.2 fun heq ↦ nomatch (h.text [] heq).1

theorem kept_status (h : SoundCard card) : kept card.status = card.status :=
  kept_eq_self.2 fun heq ↦ nomatch h.status [] heq

/-- **What is accepted is returned as it is, and is sound.** -/
theorem parse_ok {read : Questionnaire} (h : parse card = .ok read) : read = card ∧ SoundCard card := by
  rw [parse, demand_bind_eq_ok, demand_bind_eq_ok, bind_eq_ok] at h
  obtain ⟨hthread, hstatus, ⟨⟩, hquestions, hread⟩ := h
  refine ⟨(Except.ok.inj hread).symm, (Option.all_eq_true _ _).1 hthread, (Option.all_eq_true _ _).1 hstatus, ?_⟩
  exact fun question hquestion ↦ checkQuestion_ok (Except.forM_eq_ok.1 hquestions question hquestion)

/-! ## What is read back -/

/-- A question that is read back as it is. -/
structure PlainQuestion (question : Question) : Prop where
  description : question.description ≠ some []
  options : ∀ option ∈ question.options, option.description ≠ some [] ∧ option.preview ≠ some []
  choices : ∀ choices ∈ question.choices, question.answer.isSome = true ∧ choices ≠ [] ∧ ∀ id ∈ choices, IsWord id
  marks : ∀ marks ∈ question.marks, marks.cells ≠ [] ∧ ∀ entry ∈ marks.cells, IsWord entry.1
  previous : ∀ previous ∈ question.previous, ∀ id ∈ previous.choices, IsWord id

/-- A projection that is read back as it is: no field is empty, and each id in a list of ids is a word. -/
structure Plain (card : Questionnaire) : Prop where
  «by» : card.by ≠ some []
  «at» : card.at ≠ some []
  questions : ∀ question ∈ card.questions, PlainQuestion question

/-- Each of the three marks is a word without a colon. -/
theorem marks_plain {mark : Units} (h : oneOf MARKS mark = true) : IsWord mark ∧ 0x3a ∉ mark := by
  have hmarks : ∀ name ∈ MARKS, IsWord (utf16 name) ∧ 0x3a ∉ utf16 name := by
    rintro name (_ | ⟨_, _ | ⟨_, _ | ⟨_, ⟨⟩⟩⟩⟩) <;> exact ⟨⟨by decide, by decide⟩, by decide⟩
  obtain ⟨name, hname, heq⟩ := List.any_eq_true.1 h
  rw [beq_iff_eq] at heq
  exact heq ▸ hmarks name hname

theorem legible_of_checkCell {options ids : List Units} {entry : Units × Units} (hword : IsWord entry.1)
    (h : checkCell options ids entry.1 entry.2 = true) : Legible entry := by
  obtain ⟨slash, hslash, hcell⟩ := (Option.any_eq_true _ _).1 h
  simp only [Bool.and_eq_true, decide_eq_true_eq] at hcell
  obtain ⟨⟨⟨-, -⟩, -⟩, hmark⟩ := hcell
  refine ⟨hword, fun hfield ↦ ?_, (marks_plain hmark).1, (marks_plain hmark).2⟩
  rw [hfield] at hslash
  cases hslash

theorem kept_encodeMarks {marks : Marks} (hcells : marks.cells ≠ []) (h : ∀ entry ∈ marks.cells, Legible entry) :
    kept (encodeMarks marks) = encodeMarks marks := by
  rw [kept_eq_self, encodeMarks_some hcells]
  intro heq
  have htokens := words_tokens h
  rw [Option.some.inj heq] at htokens
  exact hcells (List.map_eq_nil_iff.1 htokens.symm)

/-- The marks that are read back are those that have cells, and words for them. -/
theorem marks_written (h : SoundQuestion question) :
    decodeMarks (kept (question.marks.bind encodeMarks)) = .ok question.marks ↔
      ∀ marks ∈ question.marks, marks.cells ≠ [] ∧ ∀ entry ∈ marks.cells, IsWord entry.1 := by
  cases hmarks : question.marks with
  | none => exact iff_of_true rfl nofun
  | some marks =>
    have hsome : (∀ found ∈ some marks, found.cells ≠ [] ∧ ∀ entry ∈ found.cells, IsWord entry.1) ↔
        marks.cells ≠ [] ∧ ∀ entry ∈ marks.cells, IsWord entry.1 := by simp
    rw [hsome, Option.bind_some]
    constructor
    · intro hread
      refine ⟨fun hnil ↦ ?_, decodeMarks_words hread⟩
      rw [encodeMarks, hnil] at hread
      cases hread
    · rintro ⟨hcells, hwords⟩
      obtain ⟨-, criteria, -, hall⟩ := h.marks marks hmarks
      have hlegible : ∀ entry ∈ marks.cells, Legible entry := fun entry hentry ↦
        legible_of_checkCell (hwords entry hentry) (hall entry hentry)
      rw [kept_encodeMarks hcells hlegible, decode_encode hcells hlegible]

/-- The choices that are read back are those of an answer that are words. -/
theorem choices_written (question : Question) :
    (question.answer.map (answerElement question)).bind readChoices = question.choices ↔
      ∀ choices ∈ question.choices, question.answer.isSome = true ∧ choices ≠ [] ∧ ∀ id ∈ choices, IsWord id := by
  cases hanswer : question.answer with
  | none => cases question.choices <;> simp
  | some answer =>
    rw [Option.map_some, Option.bind_some, readChoices_written]
    cases hchoices : question.choices with
    | none => exact iff_of_true rfl nofun
    | some choices =>
      simp only [Option.getD_some, Option.mem_def, Option.some.injEq, Option.isSome_some, true_and, forall_eq',
        ← words_join]
      split
      · rename_i hnil
        refine iff_of_false nofun fun h ↦ h.1 ?_
        rw [← h.2, hnil]
      · rename_i hne
        rw [Option.some.injEq]
        exact ⟨fun heq ↦ ⟨heq ▸ hne, heq⟩, fun h ↦ h.2⟩

theorem options_written (options : List QuestionOption) : (options.map optionElement).map readOption = options ↔
      ∀ option ∈ options, option.description ≠ some [] ∧ option.preview ≠ some [] := by
  rw [List.map_map, List.map_eq_self]
  refine forall₂_congr fun option _ ↦ ?_
  rw [Function.comp_apply, readOption_written, ← kept_eq_self, ← kept_eq_self]
  cases option
  simp

theorem criteria_written (h : SoundQuestion question) :
    (if ((question.criteria.getD []).map criterionElement).map readCriterion = [] then none
      else some (((question.criteria.getD []).map criterionElement).map readCriterion)) = question.criteria := by
  have hread : ((question.criteria.getD []).map criterionElement).map readCriterion = question.criteria.getD [] := by
    rw [List.map_map, List.map_eq_self]
    exact fun criterion _ ↦ readCriterion_written criterion
  rw [hread]
  cases hcriteria : question.criteria with
  | none => rfl
  | some criteria => exact if_neg (h.criteria criteria hcriteria).2.1

theorem previous_written (h : SoundQuestion question) :
    ((question.previous.map previousElement).map readPrevious) = question.previous ↔
      ∀ previous ∈ question.previous, ∀ id ∈ previous.choices, IsWord id := by
  cases hprevious : question.previous with
  | none => exact iff_of_true rfl nofun
  | some previous =>
    have hvalue : kept previous.value = previous.value := kept_of_bounded (h.previous previous hprevious).2.2.1
    simp only [Option.map_some, Option.some.injEq, Option.mem_def, forall_eq', readPrevious_written, hvalue,
      ← words_join]
    cases previous
    simp

/-- What is read of a question that was written, with these marks. -/
def reread (question : Question) (marks : Option Marks) : Question :=
  { question with
    description := kept question.description
    options := (question.options.map optionElement).map readOption
    marks
    choices := (question.answer.map (answerElement question)).bind readChoices
    previous := (question.previous.map previousElement).map readPrevious }

theorem readQuestion_eq (h : SoundQuestion question) :
    readQuestion (questionElement question) = (do
      let marks ← decodeMarks (kept (question.marks.bind encodeMarks))
      .ok (reread question marks)) := by
  have hread (name : String) : readAttribute (questionElement question) name =
      ((questionValues question).lookup name).join := stringAttribute_question question name
  have hresponse : kept question.response = question.response := kept_response h
  have hmarks : (question.answer.map (answerElement question)).bind (readAttribute · "marks") =
      kept (question.marks.bind encodeMarks) := by
    cases hanswer : question.answer with
    | none =>
      cases hlist : question.marks with
      | none => rfl
      | some marks => exact nomatch hanswer ▸ (h.marks marks hlist).1
    | some answer =>
      exact stringAttribute_answer question answer "marks"
  have hvalue : (question.answer.map (answerElement question)).map
      (fun answer ↦ (readAttribute answer "value").getD []) = question.answer := by
    cases hanswer : question.answer with
    | none => rfl
    | some answer =>
      rw [Option.map_some, Option.map_some, readAttribute, stringAttribute_answer]
      rfl
  have hmultiple : (some (if question.multiple then utf16 "true" else utf16 "false") == some (utf16 "true")) =
      question.multiple := by
    cases question.multiple <;> rfl
  have hparts := elements_questionElement question
  have hoptions : elements (questionElement question) "Option" = question.options.map optionElement := by
    simp [hparts]
  have hcriteria : elements (questionElement question) "Criterion" =
      (question.criteria.getD []).map criterionElement := by
    simp [hparts]
  have hanswers : elements (questionElement question) "Answer" =
      (question.answer.map (answerElement question)).toList := by
    simp [hparts]
  have hpreviouses : elements (questionElement question) "Previous" =
      (question.previous.map previousElement).toList := by
    simp [hparts]
  have hid : readAttribute (questionElement question) "id" = kept (some question.id) := hread "id"
  have hheader : readAttribute (questionElement question) "header" = some question.header := hread "header"
  have hprompt : readAttribute (questionElement question) "prompt" = some question.prompt := hread "prompt"
  have hdescription : readAttribute (questionElement question) "description" = kept question.description :=
    hread "description"
  have htext : readAttribute (questionElement question) "response" = kept question.response := hread "response"
  have hmany : readAttribute (questionElement question) "multiple" =
      some (if question.multiple then utf16 "true" else utf16 "false") := hread "multiple"
  have hone : demand (decide ((question.previous.map previousElement).toList.length ≤ 1))
      "Question accepts at most one Previous" = .ok () := by
    cases question.previous <;> rfl
  rw [readQuestion, hoptions, hcriteria, hanswers, hpreviouses, hid, hheader, hprompt, hdescription, htext, hmany,
    hresponse, kept_getD]
  simp only [Option.head?_toList, hmarks, hvalue, hmultiple, criteria_written h, hone, Except.ok_bind, Option.getD_some]
  rfl

/-- **A question is read back exactly when it is plain.** -/
theorem readQuestion_written (h : SoundQuestion question) :
    readQuestion (questionElement question) = .ok question ↔ PlainQuestion question := by
  have hsame (marks : Option Marks) : reread question marks = question ↔
      kept question.description = question.description ∧
        (question.options.map optionElement).map readOption = question.options ∧ marks = question.marks ∧
        (question.answer.map (answerElement question)).bind readChoices = question.choices ∧
        (question.previous.map previousElement).map readPrevious = question.previous := by
    cases question
    simp [reread]
  rw [readQuestion_eq h, bind_eq_ok]
  constructor
  · rintro ⟨marks, hdecode, hread⟩
    obtain ⟨hdescription, hoptions, rfl, hchoices, hprevious⟩ := (hsame marks).1 (Except.ok.inj hread)
    exact ⟨kept_eq_self.1 hdescription, (options_written _).1 hoptions, (choices_written question).1 hchoices,
      (marks_written h).1 hdecode, (previous_written h).1 hprevious⟩
  · rintro ⟨hdescription, hoptions, hchoices, hmarks, hprevious⟩
    refine ⟨question.marks, (marks_written h).2 hmarks, congrArg Except.ok ((hsame _).2 ?_)⟩
    exact ⟨kept_eq_self.2 hdescription, (options_written _).2 hoptions, rfl, (choices_written question).2 hchoices,
      (previous_written h).2 hprevious⟩

/-! ## The projection -/

theorem elements_cardElement (card : Questionnaire) :
    elements (cardElement card) "Question" = card.questions.map questionElement :=
  filter_named (f := questionElement) (fun _ ↦ ⟨rfl, rfl⟩) _ _

theorem questions_written {questions : List Question} (h : ∀ question ∈ questions, SoundQuestion question) :
    (questions.map questionElement).mapM readQuestion = .ok questions ↔
      ∀ question ∈ questions, PlainQuestion question := by
  rw [Except.mapM_eq_ok, List.forall₂_map_left_iff, List.forall₂_same]
  exact forall₂_congr fun question hquestion ↦ readQuestion_written (h question hquestion)

/-- **A projection that is accepted is read back from its element exactly when it is plain.** -/
theorem round_trip (h : parse card = .ok card) : (toElement card >>= fromElement) = .ok card ↔ Plain card := by
  obtain ⟨-, hsound⟩ := parse_ok h
  have hread (name : String) : readAttribute (cardElement card) name = ((cardValues card).lookup name).join :=
    stringAttribute_card card name
  have hthread : kept card.thread = card.thread := kept_of_bounded hsound.thread
  have hstatus : kept card.status = card.status := kept_status hsound
  have hcard (questions : List Question) : ({
      id := card.id
      questions
      thread := card.thread
      status := card.status
      «by» := kept card.by
      «at» := kept card.at } : Questionnaire) = card ↔
        questions = card.questions ∧ kept card.by = card.by ∧ kept card.at = card.at := by
    cases card
    simp
  have hid : readAttribute (cardElement card) "id" = kept (some card.id) := hread "id"
  have hraised : readAttribute (cardElement card) "thread" = kept card.thread := hread "thread"
  have hstate : readAttribute (cardElement card) "status" = kept card.status := hread "status"
  have hby : readAttribute (cardElement card) "by" = kept card.by := hread "by"
  have hat : readAttribute (cardElement card) "at" = kept card.at := hread "at"
  rw [toElement_eq h, Except.ok_bind, fromElement, elements_cardElement, hid, hraised, hstate, hby, hat, hthread,
    hstatus, kept_kept, kept_kept, kept_getD, bind_eq_ok]
  constructor
  · rintro ⟨questions, hquestions, hparse⟩
    obtain ⟨rfl, hbySame, hatSame⟩ := (hcard questions).1 (parse_ok hparse).1.symm
    exact ⟨kept_eq_self.1 hbySame, kept_eq_self.1 hatSame, (questions_written hsound.questions).1 hquestions⟩
  · rintro ⟨hbySame, hatSame, hquestions⟩
    refine ⟨card.questions, (questions_written hsound.questions).2 hquestions, ?_⟩
    rw [(hcard card.questions).2 ⟨rfl, kept_eq_self.2 hbySame, kept_eq_self.2 hatSame⟩]
    exact h

/-! ## Reading again -/

/-- An element that leaves no field empty which is dropped when it is written. -/
structure Filled (node : Node) : Prop where
  description : ∀ question ∈ elements node "Question", readAttribute question "description" ≠ some []
  marks : ∀ question ∈ elements node "Question", ∀ answer ∈ (elements question "Answer").head?,
    decodeMarks (readAttribute answer "marks") ≠ .ok (some Marks.empty)

theorem plain_of_read {node : Node} (h : readQuestion node = .ok question)
    (hdescription : readAttribute node "description" ≠ some []) (hmarks : ∀ answer ∈ (elements node "Answer").head?,
      decodeMarks (readAttribute answer "marks") ≠ .ok (some Marks.empty)) : PlainQuestion question := by
  rw [readQuestion] at h
  obtain ⟨marks, hdecode, h⟩ := bind_eq_ok.1 h
  rw [demand_bind_eq_ok] at h
  obtain rfl := Except.ok.inj h.2
  constructor
  case description => exact hdescription
  case options =>
    refine List.forall_mem_map.2 fun source _ ↦ ?_
    exact ⟨kept_eq_self.1 (kept_kept _), kept_eq_self.1 (kept_kept _)⟩
  case choices =>
    intro choices hchoices
    obtain ⟨answer, hanswer, hread⟩ := Option.bind_eq_some_iff.1 hchoices
    rw [readChoices] at hread
    split at hread
    · cases hread
    · rename_i hne
      cases hread
      exact ⟨by rw [hanswer]; rfl, hne, fun id hid ↦ mem_words hid⟩
  case marks =>
    intro found hfound
    obtain rfl : marks = some found := hfound
    refine ⟨fun hnil ↦ ?_, decodeMarks_words hdecode⟩
    obtain rfl : found = Marks.empty := Marks.ext hnil
    cases hanswer : (elements node "Answer").head? with
    | none => rw [hanswer] at hdecode; exact nomatch hdecode
    | some answer =>
      rw [hanswer] at hdecode
      exact hmarks answer hanswer hdecode
  case previous =>
    intro previous hprevious
    obtain ⟨source, -, rfl⟩ := Option.map_eq_some_iff.1 hprevious
    exact fun id hid ↦ mem_words hid

/-- **What was read of an element is read again from the element it is written as.** -/
theorem read_again {node : Node} (h : fromElement node = .ok card) (hfilled : Filled node) :
    (toElement card >>= fromElement) = .ok card := by
  rw [fromElement] at h
  obtain ⟨questions, hquestions, h⟩ := bind_eq_ok.1 h
  obtain ⟨rfl, -⟩ := parse_ok h
  refine (round_trip h).2 ⟨kept_eq_self.1 (kept_kept _), kept_eq_self.1 (kept_kept _), fun question hquestion ↦ ?_⟩
  obtain ⟨source, hsource, hread⟩ := (Except.mapM_eq_ok.1 hquestions).exists_of_mem hquestion
  exact plain_of_read hread (hfilled.description source hsource) (hfilled.marks source hsource)

end Chopin.Mdx.Questionnaires
