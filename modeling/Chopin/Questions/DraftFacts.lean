import Chopin.Questions.Drafts
import Mathlib.Data.List.Nodup

/-!
# What a draft says after it was stored

A draft that comes back from storage reads as the one that was stored.  `Crdt.Lawful` is what this rests on
of the documents; that a draft which gets its empty `marks` object still reads the same is proved here.
-/

set_option autoImplicit false

namespace Chopin.Questions

/-! ## Objects in objects -/

/-- The object that an object has under a key, changed; the other entries as they are. -/
def amend (entries : List (String × Node)) (key : String)
    (change : List (String × Node) → List (String × Node)) : List (String × Node) :=
  entries.map fun entry ↦
    match entry.2 with
    | .obj node => (entry.1, if entry.1 = key then .obj (change node) else .obj node)
    | _ => entry

section amend

variable {entries : List (String × Node)} {key name : String} {change : List (String × Node) → List (String × Node)}

theorem keys_amend : (amend entries key change).map (·.1) = entries.map (·.1) := by
  rw [amend, List.map_map]
  refine List.map_congr_left fun entry _ ↦ ?_
  obtain ⟨head, value⟩ := entry
  cases value <;> rfl

theorem get_amend_other (hne : name ≠ key) : Node.get (amend entries key change) name = Node.get entries name := by
  induction entries with
  | nil => rfl
  | cons entry rest ih =>
    obtain ⟨head, value⟩ := entry
    rw [Node.get, amend] at ih ⊢
    rw [Node.get] at ih ⊢
    rw [List.map_cons, List.lookup_cons, List.lookup_cons]
    by_cases hname : name = head
    · subst hname
      cases value <;> simp [hne]
    · have hnot : (name == head) = false := by simpa using hname
      cases value <;> simp only [hnot] <;> exact ih

theorem get_amend_self {found : List (String × Node)} (h : Node.get entries key = some (.obj found)) :
    Node.get (amend entries key change) key = some (.obj (change found)) := by
  induction entries with
  | nil => cases h
  | cons entry rest ih =>
    obtain ⟨head, value⟩ := entry
    rw [Node.get, List.lookup_cons] at h
    rw [Node.get, amend, List.map_cons, List.lookup_cons]
    by_cases hname : key = head
    · subst hname
      rw [beq_self_eq_true] at h
      obtain rfl : value = .obj found := by simpa using h
      simp
    · have hnot : (key == head) = false := by simpa using hname
      rw [hnot] at h
      have hrest := ih h
      rw [Node.get, amend] at hrest
      cases value <;> simp only [hnot] <;> exact hrest

end amend

/-- An object with an empty `marks` in the object under a key. -/
def withMarks (entries : List (String × Node)) (key : String) : List (String × Node) :=
  entries.map fun entry ↦
    match entry.2 with
    | .obj node => (entry.1, if entry.1 = key then .obj (node ++ [("marks", .obj [])]) else .obj node)
    | _ => entry

/-- What the documents do with a model, and what an accepted definition has. -/
structure Crdt.Lawful {M : Type} (crdt : Crdt M) : Prop where
  /-- A model that is stored and read again shows the same. -/
  stored : ∀ model restored, crdt.fromBinary (crdt.toBinary model) = .ok restored →
    crdt.root restored = crdt.root model
  /-- Setting `marks` in an object that has none adds it. -/
  marked : ∀ model root node key, crdt.root model = .obj root → Node.get root key = some (.obj node) →
    "marks" ∉ node.map (·.1) → crdt.root (crdt.setMarks model key) = .obj (withMarks root key)
  /-- The questions of an accepted definition have different ids. -/
  distinct : ∀ definition, crdt.identified definition = .ok () → (definition.questions.map (·.id)).Nodup

variable {M : Type} {crdt : Crdt M} {root node : List (String × Node)} {question : Item} {key : String}

/-! ## Marks -/

theorem withMarks_eq (entries : List (String × Node)) (key : String) :
    withMarks entries key = amend entries key (· ++ [("marks", Node.obj [])]) := rfl

theorem keys_withMarks (entries : List (String × Node)) (key : String) :
    (withMarks entries key).map (·.1) = entries.map (·.1) := keys_amend

/-- Marks under another id do not matter to a question. -/
theorem readQuestion_other (hne : question.id ≠ key) :
    readQuestion (withMarks root key) question = readQuestion root question := by
  rw [readQuestion, withMarks_eq, get_amend_other hne, ← readQuestion]

theorem get_append_marks {name : String} (hne : name ≠ "marks") :
    Node.get (node ++ [("marks", Node.obj [])]) name = Node.get node name := by
  have hnot : (name == "marks") = false := by simpa using hne
  rw [Node.get, List.lookup_append, Node.get, List.lookup_cons, hnot]
  exact Option.or_none

theorem get_marks_eq_none (hunmarked : "marks" ∉ node.map (·.1)) : Node.get node "marks" = none := by
  rw [Node.get, List.lookup_eq_none_iff]
  intro entry hmem
  have hne : entry.1 ≠ "marks" := fun heq ↦ hunmarked (heq ▸ List.mem_map_of_mem hmem)
  exact bne_iff_ne.2 hne.symm

theorem check_eq_ok {valid : Bool} {message : String} {done : Unit} :
    check valid message = .ok done ↔ valid = true := by
  rw [check, reject]
  cases valid <;> simp

/-- The keys a draft has to have, with a `marks` that is allowed but not asked for. -/
theorem keys_append_marks {expected : List String} {name : String} (hexpected : "marks" ∉ expected) :
    checkKeys (node ++ [("marks", Node.obj [])]) expected name ["marks"] = checkKeys node expected name ["marks"] := by
  have hnot : ((!(["marks"].contains "marks")) || expected.contains "marks") = false := by simpa using hexpected
  rw [checkKeys, checkKeys, List.map_append, List.filter_append, List.map_singleton,
    List.filter_singleton, hnot, cond_false, List.append_nil]

/-- Empty marks are no marks. -/
theorem readCells_append_marks (hcriteria : ¬0 < question.criteria.length) (hunmarked : "marks" ∉ node.map (·.1)) :
    readCells (node ++ [("marks", Node.obj [])]) question = readCells node question := by
  have hmarks : Node.get (node ++ [("marks", Node.obj [])]) "marks" = some (.obj []) := by
    rw [Node.get, List.lookup_append, ← Node.get, get_marks_eq_none hunmarked]
    rfl
  rw [readCells, readCells, if_neg hcriteria, if_neg hcriteria, hmarks, get_marks_eq_none hunmarked]
  rfl

variable {draft : String × Draft}

/-- A draft that has no marks yet reads the same with empty ones. -/
theorem readNode_append_marks (hok : readNode node question = .ok draft)
    (hmarkable : markable question = true) (hunmarked : "marks" ∉ node.map (·.1)) :
    readNode (node ++ [("marks", Node.obj [])]) question = .ok draft := by
  have hcriteria : ¬0 < question.criteria.length := by
    intro hsome
    rw [readNode] at hok
    obtain ⟨_, hkeys, -⟩ := Except.bind_eq_ok.1 hok
    rw [checkKeys, check_eq_ok, List.isPerm_iff, if_pos hsome] at hkeys
    exact hunmarked (List.mem_filter.1 (hkeys.mem_iff.2 (by simp))).1
  rw [readNode, if_neg hcriteria, if_pos hmarkable] at hok
  rw [readNode, if_neg hcriteria, if_pos hmarkable, keys_append_marks (by decide),
    readCells_append_marks hcriteria hunmarked, get_append_marks (by decide), get_append_marks (by decide),
    get_append_marks (by decide), get_append_marks (by decide)]
  exact hok

/-- A question whose draft has no marks yet reads the same with empty ones. -/
theorem readQuestion_marked (hok : readQuestion root question = .ok draft)
    (hnode : Node.get root question.id = some (.obj node)) (hmarkable : markable question = true)
    (hunmarked : "marks" ∉ node.map (·.1)) : readQuestion (withMarks root question.id) question = .ok draft := by
  have hmarked : Node.get (withMarks root question.id) question.id =
      some (.obj (node ++ [("marks", Node.obj [])])) := get_amend_self hnode
  rw [readQuestion, hnode] at hok
  rw [readQuestion, hmarked]
  exact readNode_append_marks hok hmarkable hunmarked

/-! ## Drafts -/

variable {model : M}

variable {definition : Definition}

theorem read_of_root {next : M} (h : crdt.root next = crdt.root model) :
    read crdt next definition = read crdt model definition := by
  rw [read, h, ← read]

theorem unmarked_eq_true (h : unmarked crdt model question = true) : ∃ root node,
    crdt.root model = .obj root ∧ Node.get root question.id = some (.obj node) ∧ markable question = true ∧
      "marks" ∉ node.map (·.1) := by
  rw [unmarked] at h
  split at h
  · rename_i root hroot
    split at h
    · rename_i node hnode
      simp only [Bool.and_eq_true, Bool.not_eq_true', List.contains_eq_mem, decide_eq_false_iff_not] at h
      exact ⟨root, node, hroot, hnode, h.1, h.2⟩
    · cases h
  · cases h

/-- A draft that gets the empty marks of one question reads the same. -/
theorem read_setMarks (lawful : crdt.Lawful) {drafts : Drafts}
    (hread : read crdt model definition = .ok drafts) (hdistinct : (definition.questions.map (·.id)).Nodup)
    (hmem : question ∈ definition.questions) (hunmarked : unmarked crdt model question = true) :
    read crdt (crdt.setMarks model question.id) definition = .ok drafts := by
  obtain ⟨root, node, hroot, hnode, hmarkable, hnone⟩ := unmarked_eq_true hunmarked
  rw [read, hroot] at hread
  rw [read, lawful.marked model root node question.id hroot hnode hnone]
  obtain ⟨done, hkeys, hmapped⟩ := Except.bind_eq_ok.1 hread
  dsimp only
  rw [checkKeys, keys_withMarks, ← checkKeys, hkeys, Except.ok_bind]
  refine Except.mapM_congr_ok hmapped fun other hother result hresult ↦ ?_
  by_cases hid : other.id = question.id
  · obtain rfl := List.inj_on_of_nodup_map hdistinct hother hmem hid
    exact readQuestion_marked hresult hnode hmarkable hnone
  · rw [readQuestion_other hid]
    exact hresult

/-- Upgrading a stored draft changes nothing that is read of it. -/
theorem read_upgrade (lawful : crdt.Lawful) {drafts : Drafts}
    (hread : read crdt model definition = .ok drafts) (hdistinct : (definition.questions.map (·.id)).Nodup) :
    read crdt (upgrade crdt model definition) definition = .ok drafts := by
  have hfold : ∀ (questions : List Item) (model : M), (∀ question ∈ questions, question ∈ definition.questions) →
      read crdt model definition = .ok drafts →
      read crdt (questions.foldl (fun model question ↦
        if unmarked crdt model question then crdt.setMarks model question.id else model) model) definition =
          .ok drafts := by
    intro questions
    induction questions with
    | nil => exact fun model _ hread ↦ hread
    | cons question rest ih =>
      intro model hmem hread
      rw [List.foldl_cons]
      refine ih _ (fun other hother ↦ hmem other (List.mem_cons_of_mem _ hother)) ?_
      split
      · rename_i hunmarked
        exact read_setMarks lawful hread hdistinct (hmem question List.mem_cons_self) hunmarked
      · exact hread
  exact hfold definition.questions model (fun _ hmem ↦ hmem) hread

/-- A draft that comes back from storage reads as the one that was stored. -/
theorem read_restore (lawful : crdt.Lawful) {restored : M}
    (hrestore : restore crdt (crdt.toBinary model) definition = .ok restored)
    (hdistinct : (definition.questions.map (·.id)).Nodup) :
    read crdt (upgrade crdt restored definition) definition = read crdt model definition := by
  rw [restore] at hrestore
  obtain ⟨-, -, hrestore⟩ := Except.bind_eq_ok.1 hrestore
  obtain ⟨found, hbinary, hrestore⟩ := Except.bind_eq_ok.1 hrestore
  obtain ⟨drafts, hread, hrestore⟩ := Except.bind_eq_ok.1 hrestore
  cases hrestore
  rw [read_upgrade lawful hread hdistinct, ← read_of_root (lawful.stored _ _ hbinary), hread]

end Chopin.Questions
