import Chopin.Questions.SchemaFacts

/-!
# A questionnaire that grows under its drafts

A draft is read against its definition, which people extend while the draft is open.  What was read of the
draft before an option or a criterion was added is read of it afterwards: the new option is not selected,
and the new criterion marks nothing.

A criterion asks for more than an option does.  A draft stored before criteria existed has no `marks`
object; the server gives it one when it restores the draft, and until then the draft cannot be read against a
question that has criteria.
-/

set_option autoImplicit false

open Script (units)

namespace Chopin.Questions

variable {M : Type} {crdt : Crdt M} {node root : List (String × Node)} {question grown item : Item} {draft : Draft}

/-! ## Reading -/

/-- What is read of the object of a question, in the order it is read. -/
structure Reads (node : List (String × Node)) (question : Item) (draft : Draft) : Prop where
  keys : checkKeys node (["mode", "choice", "options", "custom"] ++
    if 0 < question.criteria.length then ["marks"] else []) question.id
    (if markable question then ["marks"] else []) = .ok ()
  mode : ∃ value, register (Node.get node "mode") (question.id ++ ".mode") = .ok value ∧
    readMode question value = .ok draft.mode
  choice : ∃ value, register (Node.get node "choice") (question.id ++ ".choice") = .ok value ∧
    readChoice question value = .ok draft.choice
  options : ∃ entries, Node.get node "options" = some (.obj entries) ∧
    (entries.all fun entry ↦ question.options.any (·.id == entry.1)) = true ∧
    question.options.mapM (readOption question entries) = .ok draft.options
  written : (!question.written || draft.mode == .custom && draft.choice.isNone && !draft.options.any (·.2)) = true
  custom : Node.get node "custom" = some (.str draft.custom)
  bounded : (question.verbatim || decide (units draft.custom ≤ Limits.MAX_CUSTOM)) = true
  marks : readCells node question = .ok draft.marks

variable {found : Option Node} {name : String} {entries : List (String × Node)}

theorem object_eq_ok : object found name = .ok entries ↔ found = some (.obj entries) := by
  constructor
  · intro h
    rw [object.eq_def] at h
    split at h
    · cases h
      rfl
    · cases h
  · rintro rfl
    rfl

theorem readNode_eq_ok {found : String × Draft} :
    readNode node question = .ok found ↔ found.1 = question.id ∧ Reads node question found.2 := by
  rw [readNode]
  constructor
  · intro h
    obtain ⟨_, hkeys, h⟩ := Except.bind_eq_ok.1 h
    obtain ⟨value, hvalue, h⟩ := Except.bind_eq_ok.1 h
    obtain ⟨mode, hmode, h⟩ := Except.bind_eq_ok.1 h
    obtain ⟨chosen, hchosen, h⟩ := Except.bind_eq_ok.1 h
    obtain ⟨choice, hchoice, h⟩ := Except.bind_eq_ok.1 h
    obtain ⟨entries, hentries, h⟩ := Except.bind_eq_ok.1 h
    obtain ⟨_, hknown, h⟩ := Except.bind_eq_ok.1 h
    obtain ⟨options, hoptions, h⟩ := Except.bind_eq_ok.1 h
    obtain ⟨_, hwritten, h⟩ := Except.bind_eq_ok.1 h
    dsimp only at h
    split at h
    · rename_i custom hcustom
      rw [Except.ok_bind] at h
      obtain ⟨_, hbounded, h⟩ := Except.bind_eq_ok.1 h
      obtain ⟨marks, hmarks, h⟩ := Except.bind_eq_ok.1 h
      cases h
      exact ⟨rfl, hkeys, ⟨value, hvalue, hmode⟩, ⟨chosen, hchosen, hchoice⟩,
        ⟨entries, object_eq_ok.1 hentries, check_eq_ok.1 hknown, hoptions⟩, check_eq_ok.1 hwritten, hcustom,
        check_eq_ok.1 hbounded, hmarks⟩
    · cases h
  · rintro ⟨hid, h⟩
    obtain ⟨id, draft⟩ := found
    obtain rfl : id = question.id := hid
    obtain ⟨value, hvalue, hmode⟩ := h.mode
    obtain ⟨chosen, hchosen, hchoice⟩ := h.choice
    obtain ⟨entries, hentries, hknown, hoptions⟩ := h.options
    rw [h.keys, Except.ok_bind, hvalue, Except.ok_bind, hmode, Except.ok_bind, hchosen, Except.ok_bind, hchoice,
      Except.ok_bind, object_eq_ok.2 hentries, Except.ok_bind, check_ok hknown, Except.ok_bind, hoptions,
      Except.ok_bind, check_ok h.written, Except.ok_bind, h.custom]
    dsimp only
    rw [Except.ok_bind, check_ok h.bounded, Except.ok_bind, h.marks, Except.ok_bind]
    rfl

/-- What is read of a model against the definition of one question. -/
theorem read_single {model : M} {drafts : Drafts} :
    read crdt model { questions := [question] } = .ok drafts ↔ ∃ root node draft, crdt.root model = .obj root ∧
      checkKeys root [question.id] "Questionnaire root" [] = .ok () ∧ Node.get root question.id = some (.obj node) ∧
      Reads node question draft ∧ drafts = [(question.id, draft)] := by
  rw [read]
  constructor
  · intro h
    split at h
    · rename_i root hroot
      obtain ⟨_, hkeys, h⟩ := Except.bind_eq_ok.1 h
      rw [List.mapM_cons, List.mapM_nil] at h
      obtain ⟨found, hfound, h⟩ := Except.bind_eq_ok.1 h
      obtain ⟨node, hnode, hread⟩ := Except.bind_eq_ok.1 hfound
      obtain ⟨hid, hreads⟩ := readNode_eq_ok.1 hread
      obtain ⟨id, draft⟩ := found
      obtain rfl : id = question.id := hid
      cases h
      exact ⟨root, node, draft, hroot, hkeys, object_eq_ok.1 hnode, hreads, rfl⟩
    · cases h
  · rintro ⟨root, node, draft, hroot, hkeys, hnode, hreads, rfl⟩
    have hquestion : readQuestion root question = .ok (question.id, draft) := by
      rw [readQuestion, object_eq_ok.2 hnode, Except.ok_bind, readNode_eq_ok]
      exact ⟨rfl, hreads⟩
    rw [hroot]
    dsimp only
    rw [List.map_singleton, hkeys, Except.ok_bind, List.mapM_cons, List.mapM_nil, hquestion]
    rfl

/-! ## Options and marks -/

theorem readChoice_mono {value : Value} {choice : Option String}
    (hoptions : question.options.Sublist grown.options) (h : readChoice question value = .ok choice) :
    readChoice grown value = .ok choice := by
  rw [readChoice.eq_def] at h ⊢
  split at h
  · exact h
  · split at h
    · rename_i id hany
      obtain ⟨option, hoption, heq⟩ := List.any_eq_true.1 hany
      rw [if_pos (List.any_eq_true.2 ⟨option, hoptions.subset hoption, heq⟩)]
      exact h
    · cases h
  · cases h

/-- The keys of the marks that a question may have. -/
def cells (question : Item) : List String :=
  question.options.flatMap fun option ↦ question.criteria.map fun criterion ↦ markKey option.id criterion.id

theorem cells_mono (hoptions : question.options.Sublist grown.options)
    (hcriteria : question.criteria.Sublist grown.criteria) : cells question ⊆ cells grown := by
  intro key hkey
  obtain ⟨option, hoption, hmem⟩ := List.mem_flatMap.1 hkey
  obtain ⟨criterion, hcriterion, rfl⟩ := List.mem_map.1 hmem
  exact List.mem_flatMap.2 ⟨option, hoptions.subset hoption,
    List.mem_map.2 ⟨criterion, hcriteria.subset hcriterion, rfl⟩⟩

/-- Marks that a question may have read the same under one that may have more. -/
theorem readMarks_mono {marks : List (String × Option Mark)} (hid : grown.id = question.id)
    (hcells : cells question ⊆ cells grown) (h : readMarks found question = .ok marks) :
    readMarks found grown = .ok marks := by
  rw [readMarks, ← cells] at h ⊢
  obtain ⟨entries, hentries, h⟩ := Except.bind_eq_ok.1 h
  rw [hid, hentries, Except.ok_bind]
  refine Except.mapM_congr_ok h fun entry _ mark hmark ↦ ?_
  rw [readMark] at hmark ⊢
  split at hmark
  · cases hmark
  · rename_i hknown
    have hmem : entry.1 ∈ cells question := by simpa using hknown
    rw [if_neg (by simpa using hcells hmem), hid]
    exact hmark

/-- The marks of a draft read the same under more options. -/
theorem readCells_mono {marks : Option (List (String × Option Mark))} (hid : grown.id = question.id)
    (hcriteria : grown.criteria = question.criteria) (hcells : cells question ⊆ cells grown)
    (h : readCells node question = .ok marks) : readCells node grown = .ok marks := by
  rw [readCells] at h ⊢
  rw [hcriteria]
  split at h
  · rename_i hsome
    obtain ⟨read, hread, rfl⟩ := Except.map_eq_ok.1 h
    rw [if_pos hsome, readMarks_mono hid hcells hread]
    rfl
  · rename_i hnone
    split at h
    · rename_i hnode
      obtain ⟨read, hread, rfl⟩ := Except.map_eq_ok.1 h
      rw [if_neg hnone, if_pos hnode, readMarks_mono hid hcells hread]
      rfl
    · rename_i hnode
      rw [if_neg hnone, if_neg hnode]
      exact h

/-- A question without criteria has no marks that could be read. -/
theorem readMarks_nil {marks : List (String × Option Mark)} (hcriteria : question.criteria = [])
    (h : readMarks found question = .ok marks) : marks = [] := by
  rw [readMarks] at h
  obtain ⟨entries, -, h⟩ := Except.bind_eq_ok.1 h
  have hnone : cells question = [] := by simp [cells, hcriteria]
  rw [← cells, hnone] at h
  cases Except.mapM_eq_ok.1 h with
  | nil => rfl
  | cons hmark _ => cases hmark

/-! ## Options -/

/-- A draft under one more option, which nobody selected. -/
def Draft.grow (draft : Draft) (id : String) : Draft := { draft with options := draft.options ++ [(id, false)] }

/-- A draft under one more criterion, which marks nothing. -/
def Draft.column (draft : Draft) : Draft := { draft with marks := some (draft.marks.getD []) }

/-- What is added to the registers of the options: nothing, or that of the option, not selected. -/
def Unselected (id : String) (extra : List (String × Node)) : Prop := extra = [] ∨ extra = [(id, .val (.bool false))]

variable {extra : List (String × Node)}

variable {id : String}

theorem get_append_other (hextra : Unselected id extra)
    (hne : name ≠ id) : Node.get (entries ++ extra) name = Node.get entries name := by
  have hnone : extra.lookup name = none := by
    obtain rfl | rfl := hextra
    · rfl
    · rw [List.lookup_eq_none_iff]
      exact fun entry hmem ↦ bne_iff_ne.2 (List.mem_singleton.1 hmem ▸ hne)
  rw [Node.get, List.lookup_append, hnone, Option.or_none, ← Node.get]

theorem readOption_other {option : Choice}
    (hextra : Unselected id extra) (hne : option.id ≠ id) (hid : grown.id = question.id) :
    readOption grown (entries ++ extra) option = readOption question entries option := by
  rw [readOption, get_append_other hextra hne, hid, ← readOption]

/-- An option that nobody selected, with or without its register. -/
theorem readOption_fresh {option : Choice} (hextra : Unselected option.id extra)
    (hnone : option.id ∉ entries.map (·.1)) :
    readOption question (entries ++ extra) option = .ok (option.id, false) := by
  have hlookup : entries.lookup option.id = none := by
    rw [List.lookup_eq_none_iff]
    exact fun entry hmem ↦ bne_iff_ne.2 fun heq ↦ hnone (heq ▸ List.mem_map_of_mem hmem)
  rw [readOption, Node.get, List.lookup_append, hlookup, Option.none_or]
  obtain rfl | rfl := hextra
  · rfl
  · simp [register]

/-- The object of a question under one more option, whether its register is set or not. -/
theorem Reads.option {next : List (String × Node)} {option : Choice} (h : Reads node question draft)
    (hwritten : question.written = false) (hfresh : option.id ∉ question.options.map (·.id))
    (hkeys : next.map (·.1) = node.map (·.1))
    (hother : ∀ name, name ≠ "options" → Node.get next name = Node.get node name)
    (hentries : ∀ entries, Node.get node "options" = some (.obj entries) →
      ∃ extra, Node.get next "options" = some (.obj (entries ++ extra)) ∧ Unselected option.id extra) :
    Reads next { question with options := question.options ++ [option] } (draft.grow option.id) where
  keys := by
    have hsame := h.keys
    rw [checkKeys] at hsame ⊢
    rw [hkeys]
    exact hsame
  mode := by
    rw [hother "mode" (by decide)]
    exact h.mode
  choice := by
    obtain ⟨value, hvalue, hchoice⟩ := h.choice
    rw [hother "choice" (by decide)]
    exact ⟨value, hvalue, readChoice_mono (List.sublist_append_left _ _) hchoice⟩
  options := by
    obtain ⟨entries, hnode, hknown, hoptions⟩ := h.options
    obtain ⟨extra, hnext, hextra⟩ := hentries entries hnode
    have hids : ∀ entry ∈ entries, entry.1 ∈ question.options.map (·.id) := by
      intro entry hentry
      obtain ⟨other, hmem, hid⟩ := List.any_eq_true.1 (List.all_eq_true.1 hknown entry hentry)
      exact List.mem_map.2 ⟨other, hmem, beq_iff_eq.1 hid⟩
    have hnone : option.id ∉ entries.map (·.1) := by
      intro hmem
      obtain ⟨entry, hentry, hid⟩ := List.mem_map.1 hmem
      exact hfresh (hid ▸ hids entry hentry)
    refine ⟨entries ++ extra, hnext, List.all_eq_true.2 fun entry hentry ↦ ?_, ?_⟩
    · rw [List.any_append, Bool.or_eq_true]
      obtain hentry | hentry := List.mem_append.1 hentry
      · exact .inl (List.all_eq_true.1 hknown entry hentry)
      · obtain rfl | rfl := hextra
        · cases hentry
        · obtain rfl := List.mem_singleton.1 hentry
          exact .inr (by simp)
    · have hold : question.options.mapM (readOption { question with options := question.options ++ [option] }
          (entries ++ extra)) = .ok draft.options := by
        refine Except.mapM_congr_ok hoptions fun other hmem found hfound ↦ ?_
        have hne : other.id ≠ option.id := fun heq ↦ hfresh (heq ▸ List.mem_map_of_mem hmem)
        rw [readOption_other hextra hne rfl]
        exact hfound
      rw [List.mapM_append, hold, Except.ok_bind, List.mapM_cons, List.mapM_nil, readOption_fresh hextra hnone]
      rfl
  written := by simp [hwritten]
  custom := by
    rw [hother "custom" (by decide)]
    exact h.custom
  bounded := h.bounded
  marks := by
    have hcells : cells question ⊆ cells { question with options := question.options ++ [option] } :=
      cells_mono (List.sublist_append_left _ _) (List.Sublist.refl _)
    have hsame : readCells next { question with options := question.options ++ [option] } =
        readCells node { question with options := question.options ++ [option] } := by
      rw [readCells, readCells, hother "marks" (by decide)]
    rw [hsame]
    exact readCells_mono (by rfl) (by rfl) hcells h.marks

/-! ## Criteria -/

theorem get_isSome (h : name ∈ node.map (·.1)) : (Node.get node name).isSome = true := by
  rw [Option.isSome_iff_ne_none, Node.get, ne_eq, List.lookup_eq_none_iff]
  intro hnone
  obtain ⟨entry, hentry, rfl⟩ := List.mem_map.1 h
  exact bne_iff_ne.1 (hnone entry hentry) rfl

/-- The keys of a draft that has its marks, under a question that now asks for them. -/
theorem keys_column (hdistinct : (node.map (·.1)).Nodup) (hmarks : "marks" ∈ node.map (·.1)) {other : String}
    (h : checkKeys node ["mode", "choice", "options", "custom"] name ["marks"] = .ok ()) :
    checkKeys node ["mode", "choice", "options", "custom", "marks"] other ["marks"] = .ok () := by
  rw [checkKeys, check_eq_ok, List.isPerm_iff] at h
  rw [checkKeys]
  refine check_ok (List.isPerm_iff.2 ?_)
  refine (List.perm_ext_iff_of_nodup (hdistinct.filter _) (by decide)).2 fun key ↦ ?_
  have hkey := h.mem_iff (a := key)
  simp only [List.mem_filter, List.contains_eq_mem, List.mem_cons, List.not_mem_nil, or_false, Bool.or_eq_true,
    Bool.not_eq_true', decide_eq_false_iff_not, decide_eq_true_eq] at hkey ⊢
  by_cases heq : key = "marks"
  · subst heq
    simp [hmarks]
  · constructor
    · rintro ⟨hmem, -⟩
      have := hkey.1 ⟨hmem, .inl heq⟩
      grind
    · intro hmem
      exact ⟨(hkey.2 (by grind)).1, .inl heq⟩

/-- The object of a question that has its marks, under one more criterion. -/
theorem Reads.criterion {criterion : Criterion} (h : Reads node question draft) (hmarkable : markable question = true)
    (hdistinct : (node.map (·.1)).Nodup) (hmarks : "marks" ∈ node.map (·.1)) :
    Reads node { question with criteria := question.criteria ++ [criterion] } draft.column where
  keys := by
    have hsome : 0 < (question.criteria ++ [criterion]).length := by simp
    have hkeys := h.keys
    have hsame : markable { question with criteria := question.criteria ++ [criterion] } = true := hmarkable
    rw [if_pos hmarkable] at hkeys
    rw [if_pos hsome, if_pos hsame]
    by_cases hcriteria : 0 < question.criteria.length
    · rw [if_pos hcriteria] at hkeys
      exact hkeys
    · rw [if_neg hcriteria] at hkeys
      exact keys_column hdistinct hmarks hkeys
  mode := h.mode
  choice := h.choice
  options := h.options
  written := h.written
  custom := h.custom
  bounded := h.bounded
  marks := by
    have hsome : 0 < (question.criteria ++ [criterion]).length := by simp
    have hcells : cells question ⊆ cells { question with criteria := question.criteria ++ [criterion] } :=
      cells_mono (List.Sublist.refl _) (List.sublist_append_left _ _)
    have hread : readMarks (Node.get node "marks") question = .ok (draft.marks.getD []) := by
      have hcells := h.marks
      rw [readCells] at hcells
      split at hcells
      · obtain ⟨read, hread, hmarks⟩ := Except.map_eq_ok.1 hcells
        rw [← hmarks, hread]
        rfl
      · rename_i hcriteria
        rw [if_pos (get_isSome hmarks)] at hcells
        obtain ⟨read, hread, hmarks⟩ := Except.map_eq_ok.1 hcells
        have hnil : question.criteria = [] := List.eq_nil_of_length_eq_zero (Nat.eq_zero_of_not_pos hcriteria)
        rw [← hmarks, hread, readMarks_nil hnil hread]
        rfl
    have hgrown := readMarks_mono (by rfl) hcells hread
    rw [readCells, if_pos hsome, hgrown]
    rfl

/-! ## Models -/

/-- What the documents do when an option is set. -/
structure Crdt.Grows (crdt : Crdt M) : Prop where
  /-- The keys of an object are distinct. -/
  keys : ∀ model root key node, crdt.root model = .obj root → Node.get root key = some (.obj node) →
    (node.map (·.1)).Nodup
  /-- Setting an option that has no register adds one that holds `false`. -/
  grown : ∀ model root node entries key option, crdt.root model = .obj root → Node.get root key = some (.obj node) →
    Node.get node "options" = some (.obj entries) → option ∉ entries.map (·.1) →
    crdt.root (crdt.setOption model key option) =
      .obj (amend root key fun node ↦ amend node "options" (· ++ [(option, Node.val (.bool false))]))

/-- The drafts under one more option. -/
def withOption (drafts : Drafts) (id : String) : Drafts := drafts.map fun entry ↦ (entry.1, entry.2.grow id)

/-- The drafts under one more criterion. -/
def withColumn (drafts : Drafts) : Drafts := drafts.map fun entry ↦ (entry.1, entry.2.column)

variable {model : M} {drafts : Drafts}

/-- A model reads against one more option. -/
theorem read_option {option : Choice} (h : read crdt model { questions := [item] } = .ok drafts)
    (hwritten : item.written = false) (hfresh : option.id ∉ item.options.map (·.id)) :
    read crdt model { questions := [{ item with options := item.options ++ [option] }] } =
      .ok (withOption drafts option.id) := by
  obtain ⟨root, node, draft, hroot, hkeys, hnode, hreads, rfl⟩ := read_single.1 h
  exact read_single.2 ⟨root, node, draft.grow option.id, hroot, hkeys, hnode,
    hreads.option hwritten hfresh rfl (fun _ _ ↦ rfl) fun entries hentries ↦
      ⟨[], by rw [List.append_nil, hentries], .inl rfl⟩, rfl⟩

/-- A model whose option is set reads against it. -/
theorem read_setOption (grows : crdt.Grows) {option : Choice} (h : read crdt model { questions := [item] } = .ok drafts)
    (hwritten : item.written = false) (hfresh : option.id ∉ item.options.map (·.id)) :
    read crdt (crdt.setOption model item.id option.id)
      { questions := [{ item with options := item.options ++ [option] }] } = .ok (withOption drafts option.id) := by
  obtain ⟨root, node, draft, hroot, hkeys, hnode, hreads, rfl⟩ := read_single.1 h
  obtain ⟨entries, hentries, hknown, -⟩ := hreads.options
  have hnone : option.id ∉ entries.map (·.1) := by
    intro hmem
    obtain ⟨entry, hentry, hid⟩ := List.mem_map.1 hmem
    obtain ⟨other, hother, heq⟩ := List.any_eq_true.1 (List.all_eq_true.1 hknown entry hentry)
    exact hfresh (List.mem_map.2 ⟨other, hother, (beq_iff_eq.1 heq).trans hid⟩)
  refine read_single.2 ⟨_, _, draft.grow option.id, grows.grown model root node entries item.id option.id hroot hnode
    hentries hnone, ?_, get_amend_self hnode, hreads.option hwritten hfresh keys_amend (fun name hne ↦ ?_)
      fun others hothers ↦ ⟨_, get_amend_self hothers, .inr rfl⟩, rfl⟩
  · rw [checkKeys, keys_amend]
    exact hkeys
  · exact get_amend_other hne

/-- A model that has its marks reads against one more criterion. -/
theorem read_criterion (grows : crdt.Grows) {criterion : Criterion}
    (h : read crdt model { questions := [item] } = .ok drafts) (hmarkable : markable item = true)
    (hmarked : unmarked crdt model item = false) :
    read crdt model { questions := [{ item with criteria := item.criteria ++ [criterion] }] } =
      .ok (withColumn drafts) := by
  obtain ⟨root, node, draft, hroot, hkeys, hnode, hreads, rfl⟩ := read_single.1 h
  have hmarks : "marks" ∈ node.map (·.1) := by
    rw [unmarked, hroot] at hmarked
    dsimp only at hmarked
    rw [hnode] at hmarked
    simpa [hmarkable] using hmarked
  exact read_single.2 ⟨root, node, draft.column, hroot, hkeys, hnode,
    hreads.criterion hmarkable (grows.keys model root item.id node hroot hnode) hmarks, rfl⟩

/-- A model that reads against criteria has its marks. -/
theorem read_marked {criterion : Criterion}
    (h : read crdt model { questions := [{ item with criteria := item.criteria ++ [criterion] }] } = .ok drafts) :
    unmarked crdt model item = false := by
  obtain ⟨root, node, draft, hroot, -, hnode, hreads, -⟩ := read_single.1 h
  have hmarks : "marks" ∈ node.map (·.1) := by
    have hkeys := hreads.keys
    rw [if_pos (by simp), checkKeys, check_eq_ok, List.isPerm_iff] at hkeys
    exact (List.mem_filter.1 (hkeys.mem_iff.2 (by simp))).1
  rw [unmarked, hroot]
  dsimp only
  rw [hnode]
  simp [hmarks]

/-- An upgraded model has its marks. -/
theorem unmarked_upgrade (lawful : crdt.Lawful) :
    unmarked crdt (upgrade crdt model { questions := [item] }) item = false := by
  have hupgrade : upgrade crdt model { questions := [item] } =
      if unmarked crdt model item then crdt.setMarks model item.id else model := rfl
  rw [hupgrade]
  split
  · rename_i hunmarked
    obtain ⟨root, node, hroot, hnode, -, hnone⟩ := unmarked_eq_true hunmarked
    have hmarked : Node.get (withMarks root item.id) item.id = some (.obj (node ++ [("marks", Node.obj [])])) :=
      get_amend_self hnode
    rw [unmarked, lawful.marked model root node item.id hroot hnode hnone]
    dsimp only
    rw [hmarked]
    simp
  · rename_i hmarked
    exact Bool.eq_false_iff.2 hmarked

/-! ## Extensions -/

/-- What people add with `addOption` is accepted, and the draft reads as before, grown or not. -/
theorem addOption_keeps (grows : crdt.Grows) {label : String}
    (hidentified : identified crdt.toLowerCase { questions := [item] } = .ok ())
    (hread : read crdt model { questions := [item] } = .ok drafts) :
    (∃ outcome, addOption crdt item model id label = .ok outcome) ∧
      ∀ added, Minted id → addOption crdt item model id label = .ok (.ok added) →
        OptionGrown crdt.toLowerCase item id added.definition added.option ∧
        read crdt model added.definition = .ok (withOption drafts id) ∧
        read crdt added.model added.definition = .ok (withOption drafts id) := by
  constructor
  · obtain ⟨refusal, hrefused⟩ | ⟨option, hoption, hwritten, -, -, -, hfresh, hadd⟩ :=
      addOption_cases crdt item model id label
    · exact ⟨_, hrefused⟩
    · have hid : option.id = id := congrArg Choice.id hoption
      have hnew : option.id ∉ item.options.map (·.id) := by
        intro hmem
        obtain ⟨other, hother, heq⟩ := List.mem_map.1 hmem
        exact absurd (List.any_eq_false.1 hfresh other hother) (by simp [heq, hid])
      have hgrown := read_setOption grows hread hwritten hnew
      rw [hid] at hgrown
      exact ⟨_, by rw [hadd, hgrown]; rfl⟩
  · intro added hid hadd
    obtain ⟨hgrown, hwritten, hmodel⟩ := addOption_grown hidentified hid hadd
    have hnew : added.option.id ∉ item.options.map (·.id) := hgrown.minted.symm ▸ hgrown.fresh
    have hdefinition : added.definition = { questions := [{ item with options := item.options ++ [added.option] }] } :=
      congrArg Definition.mk hgrown.questions
    have hold := read_option hread hwritten hnew
    have hnext := read_setOption grows hread hwritten hnew
    rw [← hdefinition, hgrown.minted] at hold hnext
    exact ⟨hgrown, hold, hmodel ▸ hnext⟩

variable {extended : Definition}

/-- What `appendOption` adds is accepted, and the draft reads as before. -/
theorem appendOption_keeps {input : OptionInput} {option : Choice}
    (hidentified : identified crdt.toLowerCase { questions := [item] } = .ok ())
    (hread : read crdt model { questions := [item] } = .ok drafts) (hid : Minted id)
    (happend : appendOption crdt.toLowerCase { questions := [item] } input id = .ok (extended, option)) :
    OptionGrown crdt.toLowerCase item id extended option ∧
      read crdt model extended = .ok (withOption drafts id) := by
  obtain ⟨hgrown, hwritten⟩ := appendOption_grown hidentified hid happend
  have hnew : option.id ∉ item.options.map (·.id) := hgrown.minted.symm ▸ hgrown.fresh
  have hdefinition : extended = { questions := [{ item with options := item.options ++ [option] }] } :=
    congrArg Definition.mk hgrown.questions
  have hold := read_option hread hwritten hnew
  rw [← hdefinition, hgrown.minted] at hold
  exact ⟨hgrown, hold⟩

/-- What `appendCriterion` adds is accepted, and a draft that has its marks reads as before; one that gets
them is such a draft. -/
theorem appendCriterion_keeps (lawful : crdt.Lawful) (grows : crdt.Grows) {input : CriterionInput} {criterion : Criterion}
    (hidentified : identified crdt.toLowerCase { questions := [item] } = .ok ())
    (hread : read crdt model { questions := [item] } = .ok drafts)
    (happend : appendCriterion crdt.toLowerCase { questions := [item] } input id = .ok (extended, criterion)) :
    CriterionGrown crdt.toLowerCase item id extended criterion ∧
      (unmarked crdt model item = false → read crdt model extended = .ok (withColumn drafts)) ∧
      read crdt (upgrade crdt model { questions := [item] }) extended = .ok (withColumn drafts) := by
  obtain ⟨hgrown, hmarkable⟩ := appendCriterion_grown hidentified happend
  have hdefinition : extended = { questions := [{ item with criteria := item.criteria ++ [criterion] }] } :=
    congrArg Definition.mk hgrown.questions
  have hupgrade := read_upgrade lawful hread (by simp)
  rw [hdefinition]
  exact ⟨hdefinition ▸ hgrown, read_criterion grows hread hmarkable,
    read_criterion grows hupgrade hmarkable (unmarked_upgrade lawful)⟩

/-- What `addCriterion` adds is accepted, and the draft reads as before. -/
theorem addCriterion_keeps (grows : crdt.Grows) {label : String} {added : CriterionAdded M}
    (hidentified : identified crdt.toLowerCase { questions := [item] } = .ok ())
    (hread : read crdt model { questions := [item] } = .ok drafts)
    (hadd : addCriterion crdt item model id label = .ok added) :
    CriterionGrown crdt.toLowerCase item id added.definition added.criterion ∧ added.model = model ∧
      read crdt model added.definition = .ok (withColumn drafts) := by
  rw [addCriterion] at hadd
  obtain ⟨⟨extended, criterion⟩, happend, hadd⟩ := Except.bind_eq_ok.1 hadd
  dsimp only at hadd
  obtain ⟨hgrown, hmarkable⟩ := appendCriterion_grown hidentified happend
  have hdefinition : extended = { questions := [{ item with criteria := item.criteria ++ [criterion] }] } :=
    congrArg Definition.mk hgrown.questions
  split at hadd
  · cases hadd
  · rename_i found hfound
    cases hadd
    rw [hdefinition] at hfound
    refine ⟨hgrown, rfl, ?_⟩
    dsimp only
    rw [hdefinition]
    exact read_criterion grows hread hmarkable (read_marked hfound)

/-- Of every accepted decision and every draft that reads against it: what is added to it with a minted id
leaves it accepted, adds one option or criterion with a new id after those there are, and the draft
reads as before.  For a criterion that is so of a draft that has its marks, which an upgraded one does. -/
theorem extensions_keep_answers (lawful : crdt.Lawful) (grows : crdt.Grows) {definition : Definition}
    (hidentified : identified crdt.toLowerCase definition = .ok ()) (hdecision : decision definition = .ok item)
    (hread : read crdt model definition = .ok drafts) : (∀ input id extended option, Minted id →
      appendOption crdt.toLowerCase definition input id = .ok (extended, option) →
        OptionGrown crdt.toLowerCase item id extended option ∧ read crdt model extended = .ok (withOption drafts id)) ∧
    (∀ id label, (∃ outcome, addOption crdt item model id label = .ok outcome) ∧
      ∀ added, Minted id → addOption crdt item model id label = .ok (.ok added) →
        OptionGrown crdt.toLowerCase item id added.definition added.option ∧
        read crdt model added.definition = .ok (withOption drafts id) ∧
        read crdt added.model added.definition = .ok (withOption drafts id)) ∧ (∀ input id extended criterion,
      appendCriterion crdt.toLowerCase definition input id = .ok (extended, criterion) →
        CriterionGrown crdt.toLowerCase item id extended criterion ∧
        (unmarked crdt model item = false → read crdt model extended = .ok (withColumn drafts)) ∧
        read crdt (upgrade crdt model definition) extended = .ok (withColumn drafts)) ∧
    ∀ id label added, addCriterion crdt item model id label = .ok added →
      CriterionGrown crdt.toLowerCase item id added.definition added.criterion ∧ added.model = model ∧
      read crdt model added.definition = .ok (withColumn drafts) := by
  obtain rfl := decision_eq_ok hdecision
  exact ⟨fun input id extended option hid ↦ appendOption_keeps hidentified hread hid,
    fun id label ↦ addOption_keeps grows hidentified hread,
    fun input id extended criterion ↦ appendCriterion_keeps lawful grows hidentified hread,
    fun id label added ↦ addCriterion_keeps grows hidentified hread⟩

/-! ## A draft without marks -/

namespace Sample

/-- The draft of a question `q`: the options whose registers it has, and whether it has its `marks`. -/
structure Sheet where
  registers : List String
  marked : Bool

def Sheet.shown (sheet : Sheet) : List (String × Node) :=
  [("mode", Node.val (.str "choices")), ("choice", Node.val .null),
    ("options", Node.obj (sheet.registers.map fun id ↦ (id, .val (.bool false)))), ("custom", Node.str "")] ++
    if sheet.marked then [("marks", Node.obj [])] else []

def sheets : Crdt Sheet where
  root sheet := .obj [("q", .obj sheet.shown)]
  toBinary sheet := sheet.registers.flatMap fun id ↦ 0 :: id.toList.map Char.toNat
  fromBinary _ := .error "unreadable"
  create _ := { registers := [], marked := true }
  applyPatch sheet _ := .ok sheet
  setOption sheet _ option := { sheet with registers := sheet.registers ++ [option] }
  setMarks sheet _ := { sheet with marked := true }
  toLowerCase label := String.ofList (label.toList.map Char.toLower)
  toLocaleLowerCase label := String.ofList (label.toList.map Char.toLower)
  identified := identified fun label ↦ String.ofList (label.toList.map Char.toLower)

theorem get_sheet {sheet : Sheet} {key : String}
    (hroot : sheets.root sheet = .obj root) (hnode : Node.get root key = some (.obj node)) :
    key = "q" ∧ root = [("q", .obj sheet.shown)] ∧ node = sheet.shown := by
  obtain rfl := (Node.obj.inj hroot).symm
  rw [Node.get, List.lookup_cons] at hnode
  split at hnode
  · rename_i hkey
    exact ⟨beq_iff_eq.1 hkey, rfl, (Node.obj.inj (Option.some.inj hnode)).symm⟩
  · cases hnode

theorem sheets_lawful : sheets.Lawful where
  stored model restored h := nomatch h
  marked model root node key hroot hnode hnone := by
    obtain ⟨rfl, rfl, rfl⟩ := get_sheet hroot hnode
    obtain ⟨registers, _ | _⟩ := model
    · rfl
    · exact absurd (by simp [Sheet.shown]) hnone
  distinct definition h := identified_distinct h

theorem sheets_grows : sheets.Grows where
  keys model root key node hroot hnode := by
    obtain ⟨rfl, rfl, rfl⟩ := get_sheet hroot hnode
    obtain ⟨registers, _ | _⟩ := model
    · simp [Sheet.shown]
    · simp [Sheet.shown]
  grown model root node entries key option hroot hnode hentries hnone := by
    obtain ⟨rfl, rfl, rfl⟩ := get_sheet hroot hnode
    obtain ⟨registers, _ | _⟩ := model
    · simp [sheets, Sheet.shown, amend]
    · simp [sheets, Sheet.shown, amend]

def scope : Item where
  id := "q"
  header := "Scope"
  question := "What is in?"
  description := none
  options := [{ id := "a", label := "All of it", description := "", preview := none }]
  criteria := []
  multiple := false
  written := false
  verbatim := false

def asked : Definition := { questions := [scope] }

def note : CriterionInput := { question := "q", key := some "key-0001", label := some "Cheap" }

def another : OptionInput := { question := "q", key := some "key-0002", label := some "Half", description := none }

end Sample

/-- A draft stored before criteria existed cannot be read against a first criterion, and an option with a
blank id is no option of an accepted questionnaire. -/
theorem legacy_draft_unreadable :
    identified Sample.sheets.toLowerCase Sample.asked = .ok () ∧ decision Sample.asked = .ok Sample.scope ∧
    (read Sample.sheets { registers := ["a"], marked := false } Sample.asked).isOk ∧
    (∃ extended criterion,
      appendCriterion Sample.sheets.toLowerCase Sample.asked Sample.note "cheap" = .ok (extended, criterion) ∧
      read Sample.sheets { registers := ["a"], marked := false } extended = .error "q has invalid keys") ∧
    ∃ extended option,
      appendOption Sample.sheets.toLowerCase Sample.asked Sample.another "" = .ok (extended, option) ∧
      identified Sample.sheets.toLowerCase extended = .error "Question 1 option id is required" :=
  ⟨rfl, rfl, rfl, ⟨_, _, rfl, rfl⟩, _, _, rfl, rfl⟩

/-- The same question under a draft that has its marks. -/
theorem extensions_keep_answers_sample :
    ∃ extended criterion,
      appendCriterion Sample.sheets.toLowerCase Sample.asked Sample.note "cheap" = .ok (extended, criterion) ∧
      CriterionGrown Sample.sheets.toLowerCase Sample.scope "cheap" extended criterion ∧
      read Sample.sheets { registers := ["a"], marked := true } extended = .ok (withColumn
        [("q", { mode := .choices, choice := none, options := [("a", false)], custom := "", marks := none })]) := by
  have hread : read Sample.sheets { registers := ["a"], marked := true } Sample.asked =
      .ok [("q", { mode := .choices, choice := none, options := [("a", false)], custom := "", marks := none })] := rfl
  obtain ⟨-, -, hcriteria, -⟩ :=
    extensions_keep_answers Sample.sheets_lawful Sample.sheets_grows rfl rfl hread
  obtain ⟨hgrown, hkept, -⟩ := hcriteria Sample.note "cheap" _ _ rfl
  exact ⟨_, _, rfl, hgrown, hkept rfl⟩

end Chopin.Questions
