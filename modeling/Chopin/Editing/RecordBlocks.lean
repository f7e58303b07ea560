import Chopin.Editing.EditFacts

/-!
# Blocks that records own

A Questionnaire, a Decision, inline research, an investigation and an experiment's view each show a record
that is kept elsewhere.  A batch of the agent's edits is to leave them alone, unless it detaches a
questionnaire, and to report what it detached.
-/

set_option autoImplicit false

open scoped List

namespace Chopin.Editing

variable {dialect : Dialect}

/-- The components that show a record. -/
def RECORDS : List String := ["Questionnaire", "Decision", "Research", "Investigation", "Experiment"]

/-- Whether this very node shows a record. -/
def Node.isRecord (node : Node) : Bool := decide (node.kind = .flow) && node.name.any RECORDS.contains

/-- The nodes that show a record, at any depth. -/
def Node.records (node : Node) : List Node := node.walk.filter Node.isRecord

def recordsOf (blocks : List Held) : List Node := blocks.flatMap (·.node.records)

/-- The questionnaires among the base's blocks that are not in the result. -/
def removedQuestionnaires (root children : List Held) : List Held :=
  root.filter fun block ↦ block.node.questionnaire.isSome && !children.any (·.origin == block.origin)

/-- What a batch is to leave of the blocks that show a record: all of them but the questionnaires removed,
whose ids are those reported as detached, and no others. -/
structure KeepsRecords (root : List Held) (prepared : Prepared) : Prop where
  kept : (recordsOf prepared.children ++ recordsOf (removedQuestionnaires root prepared.children)).Perm
    (recordsOf root)
  listed : prepared.detached.Perm
    ((removedQuestionnaires root prepared.children).filterMap (·.node.questionnaire))

/-- The blocks of the base that an operation replaces or deletes. -/
def replaced (root : List Held) (operations : List Operation) : List Held :=
  root.filter fun block ↦ operations.any (·.removes block)

/-- The nodes that show a record in the sources of the operations from a position on. -/
def sourceRecords (dialect : Dialect) : (position : Nat) → List Operation → List Node
  | _, [] => []
  | position, operation :: rest =>
    (operation.source.elim [] fun source ↦
      ((fragment dialect (dialect.ulid position) source).toOption.getD []).flatMap Node.records)
      ++ sourceRecords dialect (position + 1) rest

/-! ## What is taken and what is put in -/

theorem recordsOf_append (left right : List Held) : recordsOf (left ++ right) = recordsOf left ++ recordsOf right :=
  List.flatMap_append

variable {left right : List Held}

theorem recordsOf_perm (h : left ~ right) : recordsOf left ~ recordsOf right :=
  h.flatMap_right _

theorem recordsOf_supplied (position : Nat) (nodes : List Node) :
    recordsOf (supplied position nodes) = nodes.flatMap Node.records := by
  have hnodes : (supplied position nodes).map (·.node) = nodes := by
    rw [supplied, List.map_map]
    exact List.zipIdx_map_fst 0 nodes
  rw [recordsOf, ← List.flatMap_map, hnodes]

variable {operations : List Operation} {added : List Held}

/-- What the sources hold is what is put in. -/
theorem Supplied.records {position : Nat}
    (h : Supplied dialect position operations added) : recordsOf added = sourceRecords dialect position operations := by
  induction h with
  | nil => rfl
  | @cons position operation rest nodes added first more ih =>
    rw [recordsOf_append, recordsOf_supplied, ih, sourceRecords]
    rw [Supplies] at first
    split at first
    · rename_i hsource
      rw [first, hsource]
      rfl
    · rename_i source hsource
      rw [hsource, Option.elim_some, first]
      rfl

/-- The agent writes no questionnaire, at any depth. -/
theorem Supplied.no_questionnaire {position : Nat}
    (h : Supplied dialect position operations added) : ∀ node ∈ recordsOf added, node.questionnaire = none := by
  induction h with
  | nil => simp [recordsOf]
  | @cons position operation rest nodes added first more ih =>
    rw [recordsOf_append, recordsOf_supplied]
    intro node hnode
    rcases List.mem_append.1 hnode with hnode | hnode
    · obtain ⟨block, hblock, hrecord⟩ := List.mem_flatMap.1 hnode
      rw [Supplies] at first
      split at first
      · rw [first] at hblock
        cases hblock
      · cases hid : node.questionnaire with
        | none => rfl
        | some id =>
          have hplain := fragment_reserved first node (mem_walkAll hblock (List.mem_of_mem_filter hrecord))
          rw [questionnaire_label hid] at hplain
          cases hplain
    · exact ih node hnode

theorem isRecord_of_questionnaire {node : Node} (h : node.questionnaire.isSome = true) : node.isRecord = true := by
  rw [Node.questionnaire] at h
  split at h
  · rename_i hnode
    rw [Node.isRecord, hnode.1, hnode.2]
    decide
  · cases h

/-- Blocks of one list that are told apart by their origins. -/
theorem perm_of_mem (hleft : (left.map (·.origin)).Nodup)
    (hright : (right.map (·.origin)).Nodup) (h : ∀ block, block ∈ left ↔ block ∈ right) : left ~ right :=
  (List.perm_ext_iff_of_nodup hleft.of_map hright.of_map).2 h

section effect

variable {nodes : List Node} {operations : List Operation} {after gone loosed added : List Held}
  {detached : List String}

/-- The blocks that are gone are those that an operation replaces or deletes. -/
theorem Effect.gone_perm (h : Effect (held nodes) operations (held nodes) after gone loosed added detached)
    (hnodup : ((held nodes ++ added).map (·.origin)).Nodup) : gone ~ replaced (held nodes) operations := by
  have htaken := h.exchange.nodup hnodup
  rw [List.map_append, List.map_append] at htaken
  refine perm_of_mem htaken.of_append_left.of_append_left ((nodup_held nodes).sublist (List.filter_sublist.map _))
    fun block ↦ ?_
  rw [replaced, List.mem_filter, List.any_eq_true]
  exact ⟨fun hgone ↦ ⟨h.mem block (List.mem_append_left _ hgone), h.removed block hgone⟩,
    fun hbase ↦ h.complete block hbase.1 hbase.2⟩

/-- The questionnaires that are not in the result were replaced, deleted or detached. -/
theorem Effect.removed_perm (h : Effect (held nodes) operations (held nodes) after gone loosed added detached)
    (hnodup : ((held nodes ++ added).map (·.origin)).Nodup) :
    removedQuestionnaires (held nodes) after ~ gone.filter (·.node.questionnaire.isSome) ++ loosed := by
  have htaken := h.exchange.nodup hnodup
  have hloosed : loosed.filter (·.node.questionnaire.isSome) = loosed := by
    refine List.filter_eq_self.2 fun block hblock ↦ ?_
    have hid : block.node.questionnaire ∈ detached.map some := by
      rw [← h.ids]
      exact List.mem_map_of_mem hblock
    obtain ⟨id, -, hid⟩ := List.mem_map.1 hid
    rw [← hid, Option.isSome_some]
  rw [← hloosed, ← List.filter_append]
  rw [List.map_append] at htaken
  refine perm_of_mem ((nodup_held nodes).sublist (List.filter_sublist.map _))
    (htaken.of_append_left.sublist (List.filter_sublist.map _)) fun block ↦ ?_
  rw [removedQuestionnaires, List.mem_filter, List.mem_filter, Bool.and_eq_true, Bool.not_eq_true', ← Bool.not_eq_true,
    List.any_eq_true]
  constructor
  · rintro ⟨hbase, hsome, hnot⟩
    refine ⟨(h.exchange.mem.2 (.inl hbase)).resolve_right fun hafter ↦ hnot ⟨block, hafter, by simp⟩, hsome⟩
  · rintro ⟨htake, hsome⟩
    refine ⟨h.mem block htake, hsome, fun ⟨other, hother, hsame⟩ ↦ ?_⟩
    have hdisjoint := (List.nodup_append'.1 htaken).2.2
    exact hdisjoint (List.mem_map_of_mem htake) (by
      rw [← eq_of_beq hsame]
      exact List.mem_map_of_mem hother)

/-- The ids of the questionnaires set loose are those that are detached. -/
theorem Effect.ids_eq (h : Effect (held nodes) operations (held nodes) after gone loosed added detached) :
    loosed.filterMap (·.node.questionnaire) = detached := by
  have hids := congrArg (List.filterMap id) h.ids
  rwa [List.filterMap_map, List.filterMap_map, Function.id_comp, Function.id_comp, List.filterMap_some] at hids

end effect

/-- **A batch keeps the blocks of records** exactly when the ones it replaces or deletes are those that its
sources write. -/
theorem prepare_keepsRecords_iff {dialect : Dialect} {plan : Plan} {revision : Int} {operations : List Operation}
    {root : List Node} {prepared : Prepared} (hroot : dialect.parse plan.source = .ok root)
    (h : prepare dialect plan revision operations = .ok prepared) : KeepsRecords (held root) prepared ↔
      (recordsOf (replaced (held root) operations)).Perm (sourceRecords dialect 0 operations) := by
  obtain ⟨read, gone, loosed, added, hread, -, hsupplied, heffect⟩ := prepare_effect h
  obtain rfl : read = root := Except.ok.inj (hread.symm.trans hroot)
  have hnodup := (Sound.start read).nodup hsupplied
  have hgone := recordsOf_perm (heffect.gone_perm hnodup)
  have hremoved := heffect.removed_perm hnodup
  have hall := recordsOf_perm heffect.exchange.perm
  simp only [recordsOf_append] at hall
  rw [← hsupplied.records, ← hgone.congr_left]
  -- either way no questionnaire is replaced or deleted, so the ones removed are those detached
  have hloosed : gone.filter (·.node.questionnaire.isSome) = [] →
      removedQuestionnaires (held read) prepared.children ~ loosed := fun hnone ↦ by
    rwa [hnone, List.nil_append] at hremoved
  constructor
  · rintro ⟨hkept, hlisted⟩
    have hnone : gone.filter (·.node.questionnaire.isSome) = [] := by
      have hids := hlisted.trans (hremoved.filterMap _)
      rw [List.filterMap_append, heffect.ids_eq] at hids
      have hlength := hids.length_eq
      rw [List.length_append, Nat.right_eq_add, List.length_eq_zero_iff, List.filterMap_eq_nil_iff] at hlength
      refine List.filter_eq_nil_iff.2 fun block hblock hsome ↦ ?_
      rw [hlength block (List.mem_filter.2 ⟨hblock, hsome⟩)] at hsome
      cases hsome
    have hkept := (((recordsOf_perm (hloosed hnone)).append_left _).symm.trans hkept)
    have hsame : recordsOf gone ++ recordsOf (held read) ~ recordsOf added ++ recordsOf (held read) := by
      calc recordsOf gone ++ recordsOf (held read)
        _ ~ recordsOf gone ++ (recordsOf prepared.children ++ recordsOf loosed) := hkept.symm.append_left _
        _ ~ recordsOf gone ++ (recordsOf loosed ++ recordsOf prepared.children) := List.perm_append_comm.append_left _
        _ = recordsOf gone ++ recordsOf loosed ++ recordsOf prepared.children := (List.append_assoc ..).symm
        _ ~ recordsOf (held read) ++ recordsOf added := hall
        _ ~ recordsOf added ++ recordsOf (held read) := List.perm_append_comm
    exact (List.perm_append_right_iff _).1 hsame
  · intro hperm
    have hnone : gone.filter (·.node.questionnaire.isSome) = [] := by
      refine List.filter_eq_nil_iff.2 fun block hblock hsome ↦ ?_
      have hrecord : block.node ∈ recordsOf gone :=
        List.mem_flatMap.2 ⟨block, hblock, List.mem_filter.2 ⟨mem_walk _, isRecord_of_questionnaire hsome⟩⟩
      rw [hsupplied.no_questionnaire _ (hperm.mem_iff.1 hrecord)] at hsome
      cases hsome
    refine ⟨?_, ?_⟩
    · have hsame : recordsOf gone ++ (recordsOf prepared.children ++ recordsOf loosed) ~
          recordsOf gone ++ recordsOf (held read) := by
        calc recordsOf gone ++ (recordsOf prepared.children ++ recordsOf loosed)
          _ ~ recordsOf gone ++ (recordsOf loosed ++ recordsOf prepared.children) :=
            List.perm_append_comm.append_left _
          _ = recordsOf gone ++ recordsOf loosed ++ recordsOf prepared.children := (List.append_assoc ..).symm
          _ ~ recordsOf (held read) ++ recordsOf added := hall
          _ ~ recordsOf (held read) ++ recordsOf gone := hperm.symm.append_left _
          _ ~ recordsOf gone ++ recordsOf (held read) := List.perm_append_comm
      exact ((recordsOf_perm (hloosed hnone)).append_left _).trans ((List.perm_append_left_iff _).1 hsame)
    · have hids := ((hloosed hnone).filterMap (·.node.questionnaire)).symm
      rwa [heffect.ids_eq] at hids

/-- A plan of one paragraph and one questionnaire. -/
def questioned : Plan := ⟨1, "One.\n\n<Questionnaire id=\"question\" />\n", []⟩

def questionedBlocks : List Node := [paragraph "One.", card "Questionnaire" "question"]

/-- Where that line is a questionnaire. -/
def questions : Dialect := simple [("<Questionnaire id=\"question\" />", card "Questionnaire" "question")]

theorem parse_questioned : questions.parse questioned.source = .ok questionedBlocks := rfl

/-- Deleting a questionnaire is accepted, and nothing says that it is gone. -/
theorem questionnaire_deleted : ∃ prepared, prepare questions questioned 1 [.delete 1] = .ok prepared ∧
    ¬ KeepsRecords (held questionedBlocks) prepared := by
  obtain ⟨prepared, hprepared⟩ : ∃ prepared, (prepare questions questioned 1 [.delete 1]).toOption = some prepared :=
    Option.isSome_iff_exists.1 (by decide +kernel)
  have hfacts : (prepare questions questioned 1 [.delete 1]).toOption.map (fun prepared ↦ (prepared.detached,
      (removedQuestionnaires (held questionedBlocks) prepared.children).length)) = some ([], 1) := by decide +kernel
  rw [hprepared] at hfacts
  obtain ⟨hdetached, hremoved⟩ := Prod.mk.inj (Option.some.inj hfacts)
  refine ⟨prepared, Except.toOption_eq_some.1 hprepared, fun hkeeps ↦ ?_⟩
  have hlisted := hkeeps.listed.symm
  rw [hdetached, List.perm_nil, List.filterMap_eq_nil_iff] at hlisted
  obtain ⟨block, hblock⟩ := List.exists_mem_of_length_pos (Nat.lt_of_lt_of_eq Nat.one_pos hremoved.symm)
  have hsome := List.of_mem_filter hblock
  rw [hlisted block hblock] at hsome
  cases hsome

/-- The rest of the plan can be edited around it. -/
theorem keepsRecords_questioned : ∃ prepared, prepare questions questioned 1 [.replace 0 "Two.\n"] = .ok prepared ∧
    (KeepsRecords (held questionedBlocks) prepared ↔
      (recordsOf (replaced (held questionedBlocks) [.replace 0 "Two.\n"])).Perm
        (sourceRecords questions 0 [.replace 0 "Two.\n"])) := by
  obtain ⟨prepared, hprepared⟩ : ∃ prepared,
      (prepare questions questioned 1 [.replace 0 "Two.\n"]).toOption = some prepared :=
    Option.isSome_iff_exists.1 (by decide +kernel)
  exact ⟨prepared, Except.toOption_eq_some.1 hprepared,
    prepare_keepsRecords_iff parse_questioned (Except.toOption_eq_some.1 hprepared)⟩

end Chopin.Editing
