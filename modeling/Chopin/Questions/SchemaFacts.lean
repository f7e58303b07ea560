import Chopin.Questions.DraftFacts
import Chopin.Questions.Schema

/-!
# What an accepted questionnaire keeps when it grows

What `identified` accepts it still accepts with one more option or criterion at the end, if that one is
what it accepts by itself and has an id that no other has.  `appendOption` and `appendCriterion` see to
that, but for the ids of options: these they take as the caller mints them.
-/

set_option autoImplicit false

open Script (trim text units)

namespace Chopin.Questions

variable {toLowerCase : String → String} {definition : Definition} {item : Item}

/-! ## Texts -/

variable {name : String} {max : Nat}

variable {optional : Bool}

/-- A text that was typed in is trimmed and within its bound. -/
theorem fieldText_eq_ok {value : Option String} {label : String}
    (h : fieldText value name max optional false = .ok label) :
    trim label = label ∧ (optional = true ∨ text label = true) ∧ units label ≤ max := by
  rw [fieldText.eq_def] at h
  split at h
  · cases h
  · rename_i raw
    rw [if_neg Bool.false_ne_true] at h
    split at h
    · cases h
    · rename_i hrequired
      split at h
      · cases h
      · rename_i hmax
        cases h
        refine ⟨Script.trim_trim raw, ?_, Nat.le_of_not_lt hmax⟩
        cases optional with
        | true => exact .inl rfl
        | false => exact .inr (Script.text_trim (by simpa [text] using hrequired))

variable {verbatim : Bool}

/-- What a stored text is. -/
theorem storedText_eq_ok {value : String} {done : Unit} : storedText value name max optional verbatim = .ok done ↔
      verbatim = true ∨ (optional = true ∨ text value = true) ∧ units value ≤ max := by
  have htrim := Script.units_trim_le value
  rw [storedText]
  cases verbatim with
  | true => simp [fieldText, check_eq_ok]
  | false =>
    rw [fieldText, if_neg Bool.false_ne_true]
    split
    · rename_i hblank
      have hnot : ¬(optional = true ∨ text value = true) := by simpa [text] using hblank
      exact ⟨fun heq ↦ (by cases heq), fun h ↦ absurd (h.resolve_left Bool.false_ne_true).1 hnot⟩
    · rename_i hlegible
      have hlegible : optional = true ∨ text value = true := by
        rw [or_iff_not_imp_left]
        simpa [text] using hlegible
      split
      · refine ⟨fun heq ↦ (by cases heq), fun h ↦ ?_⟩
        have hmax := (h.resolve_left Bool.false_ne_true).2
        omega
      · rw [Except.ok_bind, check_eq_ok, Bool.false_or, decide_eq_true_iff]
        simp [hlegible]

theorem storedText_ok {value : String}
    (h : (optional = true ∨ text value = true) ∧ units value ≤ max) :
    storedText value name max optional verbatim = .ok () := storedText_eq_ok.2 (.inr h)

theorem check_ok {valid : Bool} {message : String} (h : valid = true) : check valid message = .ok () := check_eq_ok.2 h

/-- An id as it is minted: it is not blank, and no longer than an id may be. -/
structure Minted (id : String) : Prop where
  legible : text id = true
  bounded : units id ≤ Limits.MAX_CALL_ID

/-! ## Options -/

theorem identifiedOptions_append (question : String) (verbatim : Bool) (first others : List Choice)
    (ids : List String) : identifiedOptions question verbatim (first ++ others) ids =
      identifiedOptions question verbatim first ids >>= identifiedOptions question verbatim others := by
  induction first generalizing ids with
  | nil => rfl
  | cons option rest ih => simp only [List.cons_append, identifiedOptions, ih, bind_assoc]

/-- The ids that are returned. -/
theorem identifiedOptions_ids {question : String} {options : List Choice} {ids found : List String}
    (h : identifiedOptions question verbatim options ids = .ok found) :
    found = (options.map (·.id)).reverse ++ ids := by
  induction options generalizing ids with
  | nil => exact (Except.ok.inj h).symm
  | cons option rest ih =>
    rw [identifiedOptions] at h
    obtain ⟨-, -, h⟩ := Except.bind_eq_ok.1 h
    obtain ⟨-, -, h⟩ := Except.bind_eq_ok.1 h
    obtain ⟨-, -, h⟩ := Except.bind_eq_ok.1 h
    obtain ⟨-, -, h⟩ := Except.bind_eq_ok.1 h
    obtain ⟨-, -, h⟩ := Except.bind_eq_ok.1 h
    rw [ih h, List.map_cons, List.reverse_cons, List.append_assoc]
    rfl

/-- What an option is that is added to a question: what people add has no preview. -/
structure Addable (option : Choice) : Prop where
  minted : Minted option.id
  label : text option.label = true ∧ units option.label ≤ Limits.MAX_LABEL
  description : units option.description ≤ Limits.MAX_DESCRIPTION
  preview : option.preview = none

theorem identifiedOptions_addable {option : Choice} {ids : List String} (h : Addable option) (hnew : option.id ∉ ids)
    (question : String) (verbatim : Bool) :
    identifiedOptions question verbatim [option] ids = .ok (option.id :: ids) := by
  rw [identifiedOptions, storedText_ok ⟨.inr h.minted.legible, h.minted.bounded⟩, Except.ok_bind,
    check_ok (by simpa using hnew), Except.ok_bind,
    storedText_ok ⟨.inr h.label.1, h.label.2⟩, Except.ok_bind,
    storedText_ok ⟨.inl rfl, h.description⟩, Except.ok_bind, h.preview, storedField, Except.ok_bind,
    identifiedOptions]

/-! ## Criteria -/

theorem identifiedCriteria_append (question : String) (first others : List Criterion) (position : Nat)
    (ids labels : List String) : identifiedCriteria toLowerCase question (first ++ others) position ids labels =
      identifiedCriteria toLowerCase question first position ids labels >>= fun _ ↦
        identifiedCriteria toLowerCase question others (position + first.length)
          ((first.map (·.id)).reverse ++ ids) ((first.map fun criterion ↦ toLowerCase (trim criterion.label)).reverse ++
            labels) := by
  induction first generalizing position ids labels with
  | nil => rfl
  | cons criterion rest ih =>
    have hposition : position + 1 + rest.length = position + (rest.length + 1) := by omega
    simp only [List.cons_append, List.nil_append, identifiedCriteria, ih, bind_assoc, List.length_cons,
      List.map_cons, List.reverse_cons, List.append_assoc, hposition]

/-- What a criterion is that is added to a question. -/
structure AddableCriterion (criterion : Criterion) : Prop where
  id : CRITERION_ID criterion.id = true
  label : text criterion.label = true ∧ units criterion.label ≤ Limits.MAX_CRITERION_LABEL

theorem identifiedCriteria_addable {criterion : Criterion} {ids labels : List String} (h : AddableCriterion criterion)
    (hnew : criterion.id ∉ ids) (hlabel : toLowerCase (trim criterion.label) ∉ labels) (question : String)
    (position : Nat) : identifiedCriteria toLowerCase question [criterion] position ids labels = .ok () := by
  rw [identifiedCriteria, check_ok h.id, Except.ok_bind,
    storedText_ok ⟨.inr h.label.1, h.label.2⟩, Except.ok_bind]
  dsimp only
  rw [check_ok (by simpa using ⟨hnew, hlabel⟩), Except.ok_bind, identifiedCriteria]

/-! ## Questions -/

variable {count index : Nat} {questionIds optionIds found : List String}

/-- What is checked of a question, in the order it is checked. -/
structure Sound (toLowerCase : String → String) (count index : Nat) (item : Item)
    (questionIds optionIds found : List String) : Prop where
  response : (!(item.written && (item.verbatim || item.multiple))) = true
  id : storedText item.id ("Question " ++ toString (index + 1) ++ " id") Limits.MAX_CALL_ID false false = .ok ()
  distinct : (!questionIds.contains item.id) = true
  header : storedText item.header ("Question " ++ toString (index + 1) ++ " header") Limits.MAX_HEADER false
    item.verbatim = .ok ()
  question : storedText item.question ("Question " ++ toString (index + 1)) Limits.MAX_QUESTION false
    item.verbatim = .ok ()
  description : storedField item.description ("Question " ++ toString (index + 1) ++ " description")
    Limits.MAX_QUESTION_DESCRIPTION item.verbatim = .ok ()
  offered : (!(item.options.isEmpty && !item.verbatim && !item.written && (count != 1 || item.multiple) ||
    item.written && !item.options.isEmpty ||
    !item.verbatim && decide (Limits.MAX_OPTIONS < item.options.length))) = true
  compared : (item.criteria.isEmpty || !(item.verbatim || item.written ||
    decide (Limits.MAX_CRITERIA < item.criteria.length))) = true
  criteria : identifiedCriteria toLowerCase ("Question " ++ toString (index + 1)) item.criteria 0 [] [] = .ok ()
  options : identifiedOptions ("Question " ++ toString (index + 1)) item.verbatim item.options optionIds = .ok found

theorem identifiedQuestion_eq_ok : identifiedQuestion toLowerCase count index item questionIds optionIds = .ok found ↔
      Sound toLowerCase count index item questionIds optionIds found := by
  rw [identifiedQuestion]
  constructor
  · intro h
    obtain ⟨_, hresponse, h⟩ := Except.bind_eq_ok.1 h
    obtain ⟨_, hid, h⟩ := Except.bind_eq_ok.1 h
    obtain ⟨_, hdistinct, h⟩ := Except.bind_eq_ok.1 h
    obtain ⟨_, hheader, h⟩ := Except.bind_eq_ok.1 h
    obtain ⟨_, hquestion, h⟩ := Except.bind_eq_ok.1 h
    obtain ⟨_, hdescription, h⟩ := Except.bind_eq_ok.1 h
    obtain ⟨_, hoffered, h⟩ := Except.bind_eq_ok.1 h
    obtain ⟨_, hcompared, h⟩ := Except.bind_eq_ok.1 h
    obtain ⟨_, hcriteria, h⟩ := Except.bind_eq_ok.1 h
    exact ⟨check_eq_ok.1 hresponse, hid, check_eq_ok.1 hdistinct, hheader, hquestion, hdescription,
      check_eq_ok.1 hoffered, check_eq_ok.1 hcompared, hcriteria, h⟩
  · intro h
    rw [check_ok h.response, Except.ok_bind, h.id, Except.ok_bind, check_ok h.distinct, Except.ok_bind, h.header,
      Except.ok_bind, h.question, Except.ok_bind, h.description, Except.ok_bind, check_ok h.offered, Except.ok_bind,
      check_ok h.compared, Except.ok_bind, h.criteria, Except.ok_bind, h.options]

/-- A question that is not answered in writing, with one more option. -/
theorem Sound.option {option : Choice} (h : Sound toLowerCase count index item questionIds optionIds found)
    (hoption : Addable option) (hwritten : item.written = false) (hcount : item.options.length < Limits.MAX_OPTIONS)
    (hnew : option.id ∉ found) :
    Sound toLowerCase count index { item with options := item.options ++ [option] } questionIds optionIds
      (option.id :: found) where
  response := h.response
  id := h.id
  distinct := h.distinct
  header := h.header
  question := h.question
  description := h.description
  offered := by
    have hlength : decide (Limits.MAX_OPTIONS < (item.options ++ [option]).length) = false := by
      rw [decide_eq_false_iff_not, List.length_append, List.length_singleton]
      omega
    dsimp only
    rw [hwritten, hlength]
    simp
  compared := h.compared
  criteria := h.criteria
  options := by rw [identifiedOptions_append, h.options, Except.ok_bind, identifiedOptions_addable hoption hnew]

/-- A choice question with one more criterion. -/
theorem Sound.criterion {criterion : Criterion} (h : Sound toLowerCase count index item questionIds optionIds found)
    (hcriterion : AddableCriterion criterion) (hmarkable : markable item = true)
    (hcount : item.criteria.length < Limits.MAX_CRITERIA) (hnew : criterion.id ∉ item.criteria.map (·.id))
    (hlabel : toLowerCase (trim criterion.label) ∉ item.criteria.map fun other ↦ toLowerCase (trim other.label)) :
    Sound toLowerCase count index { item with criteria := item.criteria ++ [criterion] } questionIds optionIds
      found where
  response := h.response
  id := h.id
  distinct := h.distinct
  header := h.header
  question := h.question
  description := h.description
  offered := h.offered
  compared := by
    have hlength : decide (Limits.MAX_CRITERIA < (item.criteria ++ [criterion]).length) = false := by
      rw [decide_eq_false_iff_not, List.length_append, List.length_singleton]
      omega
    rw [markable, Bool.and_eq_true, Bool.not_eq_true', Bool.not_eq_true'] at hmarkable
    dsimp only
    rw [hmarkable.1, hmarkable.2, hlength]
    simp
  criteria := by
    rw [identifiedCriteria_append, h.criteria, Except.ok_bind,
      identifiedCriteria_addable hcriterion (by simpa using hnew) (by simpa using hlabel)]
  options := h.options

/-! ## Definitions -/

theorem identifiedQuestions_distinct {questions : List Item}
    (h : identifiedQuestions toLowerCase count questions index questionIds optionIds = .ok ()) :
    (questions.map (·.id)).Nodup ∧ ∀ question ∈ questions, question.id ∉ questionIds := by
  induction questions generalizing index questionIds optionIds with
  | nil => exact ⟨List.nodup_nil, fun _ hmem ↦ nomatch hmem⟩
  | cons question rest ih =>
    rw [identifiedQuestions] at h
    obtain ⟨found, hquestion, hrest⟩ := Except.bind_eq_ok.1 h
    obtain ⟨hnodup, hnew⟩ := ih hrest
    have hfirst : question.id ∉ questionIds := by
      simpa using (identifiedQuestion_eq_ok.1 hquestion).distinct
    refine ⟨?_, fun other hother ↦ ?_⟩
    · rw [List.map_cons, List.nodup_cons]
      refine ⟨fun hmem ↦ ?_, hnodup⟩
      obtain ⟨other, hother, hid⟩ := List.mem_map.1 hmem
      exact hnew other hother (hid ▸ List.mem_cons_self)
    · obtain rfl | hother := List.mem_cons.1 hother
      · exact hfirst
      · exact fun hmem ↦ hnew other hother (List.mem_cons_of_mem _ hmem)

/-- The questions of an accepted definition have different ids. -/
theorem identified_distinct (h : identified toLowerCase definition = .ok ()) :
    (definition.questions.map (·.id)).Nodup := by
  obtain ⟨_, -, h⟩ := Except.bind_eq_ok.1 h
  exact (identifiedQuestions_distinct h).1

/-- A definition of one question is accepted exactly if that question is. -/
theorem identified_single : identified toLowerCase { questions := [item] } = .ok () ↔
    ∃ found, Sound toLowerCase 1 0 item [] [] found := by
  have hcount : (!(([item] : List Item).isEmpty ||
      decide (Limits.MAX_QUESTIONS < ([item] : List Item).length) && !([item] : List Item).all (·.verbatim))) =
        true := rfl
  rw [identified, check_ok hcount, Except.ok_bind, identifiedQuestions, Except.bind_eq_ok]
  exact exists_congr fun found ↦ ⟨fun h ↦ identifiedQuestion_eq_ok.1 h.1, fun h ↦ ⟨identifiedQuestion_eq_ok.2 h, rfl⟩⟩

/-- The ids that are returned for the only question. -/
theorem Sound.ids (h : Sound toLowerCase count index item questionIds [] found) :
    found = (item.options.map (·.id)).reverse := by
  rw [identifiedOptions_ids h.options, List.append_nil]

theorem decision_eq_ok (h : decision definition = .ok item) : definition = { questions := [item] } := by
  obtain ⟨questions⟩ := definition
  rw [decision] at h
  split at h
  · rename_i heq
    cases h
    exact congrArg Definition.mk heq
  · cases h

/-! ## Additions -/

theorem invalid_eq_ok {α : Type} {found : Except String α} {value : α} (h : invalid found = .ok value) :
    found = .ok value := by
  cases found with
  | ok other => exact congrArg Except.ok (Except.ok.inj h)
  | error message => cases h

/-- A question with one more option at its end, whose id is new. -/
structure OptionGrown (toLowerCase : String → String) (item : Item) (id : String) (extended : Definition)
    (option : Choice) : Prop where
  identified : identified toLowerCase extended = .ok ()
  questions : extended.questions = [{ item with options := item.options ++ [option] }]
  minted : option.id = id
  fresh : id ∉ item.options.map (·.id)

/-- A question with one more criterion at its end, whose id is new. -/
structure CriterionGrown (toLowerCase : String → String) (item : Item) (id : String) (extended : Definition)
    (criterion : Criterion) : Prop where
  identified : identified toLowerCase extended = .ok ()
  questions : extended.questions = [{ item with criteria := item.criteria ++ [criterion] }]
  minted : criterion.id = id
  fresh : id ∉ item.criteria.map (·.id)

theorem optionGrown {option : Choice} (h : identified toLowerCase { questions := [item] } = .ok ())
    (hoption : Addable option) (hwritten : item.written = false)
    (hcount : item.options.length < Limits.MAX_DECISION_OPTIONS)
    (hfresh : item.options.any (·.id == option.id) = false) :
    OptionGrown toLowerCase item option.id { questions := [{ item with options := item.options ++ [option] }] }
      option := by
  obtain ⟨found, hsound⟩ := identified_single.1 h
  have hnot : option.id ∉ item.options.map (·.id) := by
    intro hmem
    obtain ⟨other, hother, hid⟩ := List.mem_map.1 hmem
    exact absurd (List.any_eq_false.1 hfresh other hother) (by simp [hid])
  have hnew : option.id ∉ found := by
    rw [hsound.ids, List.mem_reverse]
    exact hnot
  exact ⟨identified_single.2 ⟨_, hsound.option hoption hwritten (Nat.lt_of_lt_of_le hcount (by decide)) hnew⟩, rfl,
    rfl, hnot⟩

theorem newDescription_bounded {value : Option (Option String)} {description : String}
    (h : newDescription value = .ok description) : units description ≤ Limits.MAX_NEW_DESCRIPTION := by
  cases value with
  | none =>
    cases h
    exact Nat.zero_le _
  | some value => exact (fieldText_eq_ok h).2.2

variable {id : String}

variable {extended : Definition}

/-- What `appendOption` accepts with a minted id. -/
theorem appendOption_grown {input : OptionInput} {option : Choice}
    (h : identified toLowerCase { questions := [item] } = .ok ()) (hid : Minted id)
    (happend : appendOption toLowerCase { questions := [item] } input id = .ok (extended, option)) :
    OptionGrown toLowerCase item id extended option ∧ item.written = false := by
  rw [appendOption] at happend
  split at happend
  · cases happend
  · rename_i found hfound
    obtain rfl : item = found := Option.some.inj (Option.filter_eq_some_iff.1 hfound).1
    split at happend
    · cases happend
    · rename_i hwritten
      split at happend
      · cases happend
      · obtain ⟨label, hlabel, happend⟩ := Except.bind_eq_ok.1 happend
        obtain ⟨description, hdescription, happend⟩ := Except.bind_eq_ok.1 happend
        obtain ⟨htrim, hlegible, hmax⟩ := fieldText_eq_ok (invalid_eq_ok hlabel)
        have hbounded := newDescription_bounded (invalid_eq_ok hdescription)
        split at happend
        · cases happend
        · split at happend
          · cases happend
          · rename_i hcount
            split at happend
            · cases happend
            · rename_i hfresh
              obtain ⟨rfl, rfl⟩ := Prod.mk.inj (Except.ok.inj happend)
              have hoption : Addable { id := id, label := label, description := description, preview := none } := by
                refine ⟨hid, ⟨hlegible.resolve_left Bool.false_ne_true, hmax.trans (by decide)⟩,
                  hbounded.trans (by decide), rfl⟩
              exact ⟨optionGrown h hoption (Bool.eq_false_iff.2 hwritten) (Nat.lt_of_not_le hcount)
                (Bool.eq_false_iff.2 hfresh), Bool.eq_false_iff.2 hwritten⟩

/-- What `appendCriterion` accepts: it looks at the id itself. -/
theorem appendCriterion_grown {input : CriterionInput} {criterion : Criterion}
    (h : identified toLowerCase { questions := [item] } = .ok ())
    (happend : appendCriterion toLowerCase { questions := [item] } input id = .ok (extended, criterion)) :
    CriterionGrown toLowerCase item id extended criterion ∧ markable item = true := by
  rw [appendCriterion] at happend
  split at happend
  · cases happend
  · rename_i found hfound
    obtain rfl : item = found := Option.some.inj (Option.filter_eq_some_iff.1 hfound).1
    split at happend
    · cases happend
    · rename_i hchoices
      have hmarkable : markable item = true := by simpa [markable] using hchoices
      split at happend
      · cases happend
      · obtain ⟨label, hlabel, happend⟩ := Except.bind_eq_ok.1 happend
        obtain ⟨htrim, hlegible, hmax⟩ := fieldText_eq_ok (invalid_eq_ok hlabel)
        split at happend
        · cases happend
        · rename_i hduplicate
          split at happend
          · cases happend
          · rename_i hcount
            split at happend
            · cases happend
            · rename_i hfresh
              rw [Bool.or_eq_true, not_or, Bool.not_eq_true', Bool.not_eq_false] at hfresh
              obtain ⟨rfl, rfl⟩ := Prod.mk.inj (Except.ok.inj happend)
              obtain ⟨ids, hsound⟩ := identified_single.1 h
              have hnew : id ∉ item.criteria.map (·.id) := by
                intro hmem
                obtain ⟨other, hother, rfl⟩ := List.mem_map.1 hmem
                exact hfresh.2 (List.any_eq_true.2 ⟨other, hother, beq_self_eq_true _⟩)
              have hother : toLowerCase (trim label) ∉ item.criteria.map fun other ↦
                  toLowerCase (trim other.label) := by
                intro hmem
                obtain ⟨other, hother, heq⟩ := List.mem_map.1 hmem
                exact hduplicate (List.any_eq_true.2 ⟨other, hother, by rw [heq, htrim, beq_self_eq_true]⟩)
              exact ⟨⟨identified_single.2 ⟨ids, hsound.criterion
                ⟨hfresh.1, hlegible.resolve_left Bool.false_ne_true, hmax⟩ hmarkable (Nat.lt_of_not_le hcount) hnew
                hother⟩, rfl, rfl, hnew⟩, hmarkable⟩

/-- What `addOption` accepts: the grown question is given with the grown draft, which could be read. -/
theorem addOption_cases {M : Type} (crdt : Crdt M) (item : Item) (model : M) (id label : String) :
    (∃ refusal, addOption crdt item model id label = .ok (.error refusal)) ∨
      ∃ option : Choice, option = { id, label := trim label, description := "", preview := none } ∧
        item.written = false ∧ option.label ≠ "" ∧ units option.label ≤ Limits.MAX_NEW_LABEL ∧
        item.options.length < Limits.MAX_DECISION_OPTIONS ∧ item.options.any (·.id == id) = false ∧
        addOption crdt item model id label =
          (read crdt (crdt.setOption model item.id id)
            { questions := [{ item with options := item.options ++ [option] }] }).map fun _ ↦
              .ok { definition := { questions := [{ item with options := item.options ++ [option] }] }
                    model := crdt.setOption model item.id id, option } := by
  rw [addOption]
  split
  · exact .inl ⟨_, rfl⟩
  · rename_i hwritten
    split
    · exact .inl ⟨_, rfl⟩
    · rename_i hblank
      split
      · exact .inl ⟨_, rfl⟩
      · rename_i hmax
        split
        · exact .inl ⟨_, rfl⟩
        · rename_i hcount
          split
          · exact .inl ⟨_, rfl⟩
          · split
            · exact .inl ⟨_, rfl⟩
            · rename_i hfresh
              refine .inr ⟨_, rfl, Bool.eq_false_iff.2 hwritten, hblank, Nat.le_of_not_lt hmax,
                Nat.lt_of_not_le hcount, Bool.eq_false_iff.2 hfresh, ?_⟩
              dsimp only
              cases read crdt (crdt.setOption model item.id id) _ <;> rfl

/-- What `addOption` accepts with a minted id. -/
theorem addOption_grown {M : Type} {crdt : Crdt M} {model : M} {label : String} {added : Added M}
    (h : identified toLowerCase { questions := [item] } = .ok ()) (hid : Minted id)
    (hadd : addOption crdt item model id label = .ok (.ok added)) :
    OptionGrown toLowerCase item id added.definition added.option ∧ item.written = false ∧
      added.model = crdt.setOption model item.id id := by
  obtain ⟨refusal, hrefused⟩ | ⟨option, hoption, hwritten, hblank, hmax, hcount, hfresh, hread⟩ :=
    addOption_cases crdt item model id label
  · exact nomatch Except.ok.inj (hrefused.symm.trans hadd)
  · obtain ⟨drafts, -, hadded⟩ := Except.map_eq_ok.1 (hread.symm.trans hadd)
    cases hadded
    subst hoption
    have hlegible : text (trim label) = true := by
      rw [text, Script.trim_trim]
      exact bne_iff_ne.2 hblank
    have haddable : Addable { id, label := trim label, description := "", preview := none } :=
      ⟨hid, ⟨hlegible, hmax.trans (by decide)⟩, Nat.zero_le _, rfl⟩
    exact ⟨optionGrown h haddable hwritten hcount hfresh, hwritten, rfl⟩

end Chopin.Questions
