import Chopin.Editing.Restorations

/-!
# The guards of projections

Two guards keep the projections of records as they are: that of a rewritten document (`plan/edit.ts`), and that of
the room, which every batch of a browser passes (`plan/projections.ts`).  They are written twice, and not for the
same components: a rewrite is not kept from the views of experiments.
-/

set_option autoImplicit false

open Script

namespace Chopin.Editing

/-! ## The room's guard -/

namespace Projections

def PROTECTED : List String := ["Questionnaire", "Decision", "Research", "Investigation", "Experiment"]

/-- Record-backed references a browser may add or remove once their record authorizes it. -/
def REFERENCES : List String := ["Research", "Investigation"]

structure Projected where
  type : String
  source : String
deriving DecidableEq

/-- One node: a projection is filed under its id, with its type. -/
def collect (dialect : Dialect) (found : List (String × Projected)) (node : Node) :
    Except Fault (List (String × Projected)) :=
  match if node.kind.component then node.name.filter PROTECTED.contains else none with
  | none => .ok found
  | some name =>
    match (node.strings "id").head?.filter (· ≠ "") with
    | none => .error (.failure s!"a {name} projection is missing its id")
    | some id =>
      if found.any (·.1 == id) then .error (.failure ("`" ++ id ++ "` appears twice"))
      else do
        let source ← (dialect.serialize [node]).mapError .thrown
        pure (found ++ [(id, ⟨name, source⟩)])

/-- `collect`, which walks the blocks and what they hold. -/
def collectAll (dialect : Dialect) (nodes : List Node) : Except Fault (List (String × Projected)) :=
  (Node.walkAll nodes).foldlM (collect dialect) []

/-- What is wrong with a current projection in the proposed document. -/
def mishandled (proposed : List (String × Projected)) (removableResearch : List String) :
    String × Projected → Option String
  | (id, value) =>
    match proposed.lookup id with
    | none =>
      if REFERENCES.contains value.type && removableResearch.contains id then none
      else some "Existing Questionnaire, Decision, and Research projections cannot be dropped."
    | some replacement =>
      if replacement.type ≠ value.type ∨ replacement.source ≠ value.source then
        some "Existing Questionnaire, Decision, and Research projections cannot be altered."
      else none

/-- Why the next document is refused, if it is. -/
def protectProjections (dialect : Dialect) (base next : List Node) (allowedResearch removableResearch : List String) :
    Except String (Option String) :=
  match collectAll dialect base with
  | .error (.thrown message) => .error message
  | .error (.failure message) => .ok (some message)
  | .ok current =>
    match collectAll dialect next with
    | .error (.thrown message) => .error message
    | .error (.failure message) => .ok (some message)
    | .ok proposed =>
      .ok <| (current.findSome? (mishandled proposed removableResearch)).or <|
        if proposed.any fun (id, value) ↦ (current.lookup id).isNone &&
            !(REFERENCES.contains value.type && allowedResearch.contains id) then
          some "Questionnaire, Decision, and Research projections cannot be authored by rewriting the plan."
        else none

end Projections

/-! ## Filing projections -/

variable {dialect : Dialect} {records : List String}

/-- What the room files a projection as. -/
def projected (dialect : Dialect) (node : Node) : Except Fault Projections.Projected := do
  let source ← (dialect.serialize [node]).mapError .thrown
  pure ⟨node.name.getD "", source⟩

theorem Projections.collect_eq_file : Projections.collect dialect =
    Filing.file (keyed Projections.PROTECTED) twice (projected dialect) := by
  funext found node
  rw [Projections.collect, Filing.file, keyed]
  have hsame : (if node.kind.component then node.name.filter Projections.PROTECTED.contains else none) =
    node.recorded Projections.PROTECTED := rfl
  rw [hsame]
  cases hname : node.recorded Projections.PROTECTED with
  | none => rfl
  | some name =>
    rw [Node.recorded] at hname
    split at hname
    · rename_i hcomponent
      have hid : node.componentId = (node.strings "id").head? := by
        rw [Node.componentId, Node.claimed, if_pos hcomponent]
      have hown : node.name = some name := (Option.filter_eq_some_iff.1 hname).1
      rw [← hid]
      dsimp only [Option.map_some]
      cases node.componentId.filter (· ≠ "") with
      | none => rfl
      | some id =>
        dsimp only
        rw [twice, projected, hown]
        cases (dialect.serialize [node]).mapError Fault.thrown <;> rfl
    · cases hname

/-! ## What a guard is for -/

/-- The projections of these kinds in a document, wherever they stand in the tree. -/
def projections (records : List String) (nodes : List Node) : List Node :=
  (Node.walkAll nodes).filter fun node ↦ (node.recorded records).isSome

/-- The projections are well identified: each has an id, no two have the same, and all can be written. -/
structure Identified (dialect : Dialect) (records : List String) (nodes : List Node) : Prop where
  named : ∀ node ∈ projections records nodes, ∃ id, node.componentId = some id ∧ id ≠ ""
  apart : ((projections records nodes).map Node.componentId).Nodup
  written : ∀ node ∈ projections records nodes, ∃ source, dialect.serialize [node] = .ok source

/-- A projection with this name, id and content stands in the document. -/
def Holds (dialect : Dialect) (records : List String) (nodes : List Node) (name id source : String) : Prop :=
  ∃ node ∈ projections records nodes,
    node.name = some name ∧ node.componentId = some id ∧ dialect.serialize [node] = .ok source

/-- Both documents have well-identified projections, and the same ones. -/
structure SameProjections (dialect : Dialect) (records : List String) (base next : List Node) : Prop where
  identified : Identified dialect records base
  proposed : Identified dialect records next
  same : ∀ name id source, Holds dialect records base name id source ↔ Holds dialect records next name id source

/-- A component is written as an element, which begins with its name. -/
def Dialect.Tags (dialect : Dialect) : Prop :=
  ∀ node name source, node.recorded Projections.PROTECTED = some name → dialect.serialize [node] = .ok source →
    ∃ rest, source = "<" ++ name ++ rest

section Collected

variable {β : Type} {value : Node → Except Fault β} {nodes : List Node} {out : List (String × β)}

/-- What the collection of a document's projections comes to. -/
abbrev Collected (records : List String) (value : Node → Except Fault β) (nodes : List Node)
    (out : List (String × β)) : Prop :=
  List.Forall₂ (Filing.Filed (keyed records) value) (projections records nodes) out ∧ (out.map Prod.fst).Nodup

theorem foldlM_collected : (Node.walkAll nodes).foldlM (Filing.file (keyed records) twice value) [] = .ok out ↔
    Collected records value nodes out := by
  rw [Filing.foldlM_file_nil]
  simp only [isSome_keyed]
  rfl

theorem Collected.mem_iff (h : Collected records value nodes out) {id : String} {content : β} : (id, content) ∈ out ↔
      ∃ node ∈ projections records nodes, node.componentId = some id ∧ value node = .ok content := by
  constructor
  · intro hmem
    obtain ⟨node, hnode, hfiled⟩ := h.1.exists_of_mem hmem
    exact ⟨node, hnode, (keyed_eq_ok.1 hfiled.key).2.1, hfiled.value⟩
  · rintro ⟨node, hnode, hid, hvalue⟩
    obtain ⟨⟨other, found⟩, hentry, hfiled⟩ := h.1.flip.exists_of_mem hnode
    obtain rfl : id = other := Option.some.inj (hid.symm.trans (keyed_eq_ok.1 hfiled.key).2.1)
    obtain rfl : content = found := Except.ok.inj (hvalue.symm.trans hfiled.value)
    exact hentry

/-- A document's projections are collected exactly when they are well identified. -/
theorem exists_collected_iff
    (hvalue : ∀ node, (∃ content, value node = .ok content) ↔ ∃ source, dialect.serialize [node] = .ok source) :
    (∃ out, Collected records value nodes out) ↔ Identified dialect records nodes := by
  have hids (out : List (String × β))
      (h : List.Forall₂ (Filing.Filed (keyed records) value) (projections records nodes) out) :
      (projections records nodes).map Node.componentId = (out.map Prod.fst).map some := by
    rw [List.map_map]
    refine List.forall₂_eq_eq_eq ▸ List.forall₂_map_left_iff.2 (List.forall₂_map_right_iff.2 (h.imp ?_))
    exact fun node entry hfiled ↦ (keyed_eq_ok.1 hfiled.key).2.1
  constructor
  · rintro ⟨out, hfiled, hnodup⟩
    refine ⟨fun node hnode ↦ ?_, ?_, fun node hnode ↦ ?_⟩
    · obtain ⟨entry, -, hown⟩ := hfiled.flip.exists_of_mem hnode
      exact ⟨entry.1, (keyed_eq_ok.1 hown.key).2⟩
    · rw [hids out hfiled]
      exact hnodup.map fun _ _ ↦ Option.some.inj
    · obtain ⟨entry, -, hown⟩ := hfiled.flip.exists_of_mem hnode
      exact (hvalue node).1 ⟨_, hown.value⟩
  · rintro ⟨hnamed, hapart, hwritten⟩
    have hall : ∀ node ∈ projections records nodes, ∃ entry, Filing.Filed (keyed records) value node entry := by
      intro node hnode
      obtain ⟨id, hid, hne⟩ := hnamed node hnode
      obtain ⟨content, hcontent⟩ := (hvalue node).2 (hwritten node hnode)
      exact ⟨(id, content), keyed_eq_ok.2 ⟨(List.mem_filter.1 hnode).2, hid, hne⟩, hcontent⟩
    obtain ⟨out, hfiled⟩ := Filing.exists_filed hall
    rw [hids out hfiled] at hapart
    exact ⟨out, hfiled, hapart.of_map _⟩

end Collected

/-! ## What the guards accept -/

variable {node : Node}

variable {name : String}

theorem Node.recorded_eq_some : node.recorded records = some name ↔
    node.kind.component = true ∧ node.name = some name ∧ name ∈ records := by
  rw [Node.recorded]
  split
  · rename_i hcomponent
    rw [Option.filter_eq_some_iff, List.contains_iff_mem]
    exact (and_iff_right hcomponent).symm
  · rename_i hno
    exact iff_of_false nofun fun h ↦ hno h.1

variable {nodes : List Node}

theorem mem_projections : node ∈ projections records nodes ↔
    node ∈ Node.walkAll nodes ∧ ∃ name, node.recorded records = some name := by
  rw [projections, List.mem_filter, Option.isSome_iff_exists]

/-- What an element begins with is its component's name: no two projections begin alike. -/
theorem tag_injective {other rest more : String} (hname : name ∈ Projections.PROTECTED)
    (hother : other ∈ Projections.PROTECTED) (h : "<" ++ name ++ rest = "<" ++ other ++ more) : name = other := by
  have hfirst : (name.toList ++ rest.toList).head? = (other.toList ++ more.toList).head? := by
    have := congrArg String.toList h
    simp only [String.toList_append, List.append_assoc] at this
    exact congrArg List.head? (List.append_cancel_left this)
  simp only [Projections.PROTECTED, List.mem_cons, List.not_mem_nil, or_false] at hname hother
  rcases hname with rfl | rfl | rfl | rfl | rfl <;> rcases hother with rfl | rfl | rfl | rfl | rfl <;>
    first | rfl | exact absurd hfirst (by simp)

/-- The last step of both guards. -/
theorem refuses_none {β : Type} {current proposed : List (String × β)} {wrong : String × β → Option String}
    {authored : String × β → Bool} {text : String} :
    (current.findSome? wrong).or (if proposed.any authored then some text else none) = none ↔
      (∀ entry ∈ current, wrong entry = none) ∧ ∀ entry ∈ proposed, authored entry = false := by
  rw [Option.or_eq_none_iff, List.findSome?_eq_none_iff]
  refine and_congr_right fun _ ↦ ?_
  split
  · rename_i hauthored
    refine iff_of_false nofun fun hnone ↦ ?_
    obtain ⟨entry, hentry, hauthored⟩ := List.any_eq_true.1 hauthored
    rw [hnone entry hentry] at hauthored
    cases hauthored
  · rename_i hnone
    exact iff_of_true rfl fun entry hentry ↦ Bool.eq_false_iff.2 fun h ↦ hnone (List.any_eq_true.2 ⟨entry, hentry, h⟩)

variable {base next : List Node}

/-- The guard of a rewrite, in terms of the collections. -/
theorem edit_accepts : protectProjections dialect base next = .ok none ↔
    ∃ current proposed, collectProjections dialect base = .ok current ∧ collectProjections dialect next = .ok proposed ∧
      (∀ entry ∈ current, mishandled proposed entry = none) ∧
        ∀ entry ∈ proposed, (current.lookup entry.1).isNone = false := by
  rw [protectProjections]
  constructor
  · intro h
    split at h
    · cases h
    · cases h
    · rename_i current hcurrent
      split at h
      · cases h
      · cases h
      · rename_i proposed hproposed
        exact ⟨current, proposed, hcurrent, hproposed, refuses_none.1 (Except.ok.inj h)⟩
  · rintro ⟨current, proposed, hcurrent, hproposed, h⟩
    rw [hcurrent, hproposed]
    exact congrArg _ (refuses_none.2 h)

/-- The room's guard, in terms of the collections. -/
theorem room_accepts {allowed removable : List String} :
    Projections.protectProjections dialect base next allowed removable = .ok none ↔
    ∃ current proposed, Projections.collectAll dialect base = .ok current ∧
      Projections.collectAll dialect next = .ok proposed ∧
      (∀ entry ∈ current, Projections.mishandled proposed removable entry = none) ∧
        ∀ entry ∈ proposed, ((current.lookup entry.1).isNone &&
          !(Projections.REFERENCES.contains entry.2.type && allowed.contains entry.1)) = false := by
  rw [Projections.protectProjections]
  constructor
  · intro h
    split at h
    · cases h
    · cases h
    · rename_i current hcurrent
      split at h
      · cases h
      · cases h
      · rename_i proposed hproposed
        exact ⟨current, proposed, hcurrent, hproposed, refuses_none.1 (Except.ok.inj h)⟩
  · rintro ⟨current, proposed, hcurrent, hproposed, h⟩
    rw [hcurrent, hproposed]
    exact congrArg _ (refuses_none.2 h)

theorem collectProjections_collected {out : List (String × String)} :
    collectProjections dialect nodes = .ok out ↔ Collected PROTECTED_PROJECTIONS
      (fun node ↦ (dialect.serialize [node]).mapError .thrown) nodes out := by
  rw [collectProjections, collect_eq_file, foldlM_collected]

variable {out : List (String × Projections.Projected)}

theorem collectAll_collected : Projections.collectAll dialect nodes = .ok out ↔
      Collected Projections.PROTECTED (projected dialect) nodes out := by
  rw [Projections.collectAll, Projections.collect_eq_file, foldlM_collected]

theorem mem_protected : name ∈ Projections.PROTECTED ↔ name ∈ PROTECTED_PROJECTIONS ∨ name = "Experiment" :=
  (List.mem_append (s := PROTECTED_PROJECTIONS) (t := ["Experiment"])).trans (or_congr_right List.mem_singleton)

variable {source : String}

/-- The source of a projection names it. -/
theorem Dialect.Tags.name_eq (h : dialect.Tags) {other : Node} {otherName : String}
    (hnode : node.recorded Projections.PROTECTED = some name)
    (hother : other.recorded Projections.PROTECTED = some otherName) (hsource : dialect.serialize [node] = .ok source)
    (hsame : dialect.serialize [other] = .ok source) : name = otherName := by
  obtain ⟨rest, hrest⟩ := h node name source hnode hsource
  obtain ⟨more, hmore⟩ := h other otherName source hother hsame
  exact tag_injective (Node.recorded_eq_some.1 hnode).2.2 (Node.recorded_eq_some.1 hother).2.2 (hrest.symm.trans hmore)

theorem recorded_protected (h : node.recorded PROTECTED_PROJECTIONS = some name) :
    node.recorded Projections.PROTECTED = some name := by
  obtain ⟨hcomponent, hname, hmem⟩ := Node.recorded_eq_some.1 h
  exact Node.recorded_eq_some.2 ⟨hcomponent, hname, mem_protected.2 (.inl hmem)⟩

variable {id : String}

variable {proposed : List (String × String)}

theorem Collected.holds {current : List (String × String)} (htags : dialect.Tags)
    (hcurrent : collectProjections dialect base = .ok current)
    (hproposed : collectProjections dialect next = .ok proposed) (hkept : ∀ entry ∈ current, entry ∈ proposed)
    (h : Holds dialect PROTECTED_PROJECTIONS base name id source) :
    Holds dialect PROTECTED_PROJECTIONS next name id source := by
  obtain ⟨node, hnode, hname, hid, hsource⟩ := h
  have hentry : (id, source) ∈ current :=
    (collectProjections_collected.1 hcurrent).mem_iff.2 ⟨node, hnode, hid, Except.mapError_eq_ok.2 hsource⟩
  obtain ⟨other, hother, hotherId, hotherSource⟩ :=
    (collectProjections_collected.1 hproposed).mem_iff.1 (hkept _ hentry)
  obtain ⟨-, found, hfound⟩ := mem_projections.1 hnode
  obtain ⟨-, foundOther, hfoundOther⟩ := mem_projections.1 hother
  have hsame := htags.name_eq (recorded_protected hfound) (recorded_protected hfoundOther) hsource
    (Except.mapError_eq_ok.1 hotherSource)
  have hown : found = name := Option.some.inj ((Node.recorded_eq_some.1 hfound).2.1.symm.trans hname)
  refine ⟨other, hother, ?_, hotherId, Except.mapError_eq_ok.1 hotherSource⟩
  rw [(Node.recorded_eq_some.1 hfoundOther).2.1, ← hsame, hown]

theorem Collected.kept {current : List (String × String)} (hcurrent : collectProjections dialect base = .ok current)
    (hproposed : collectProjections dialect next = .ok proposed)
    (h : ∀ name id source, Holds dialect PROTECTED_PROJECTIONS base name id source →
      Holds dialect PROTECTED_PROJECTIONS next name id source) : ∀ entry ∈ current, entry ∈ proposed := by
  rintro ⟨id, source⟩ hentry
  obtain ⟨node, hnode, hid, hsource⟩ := (collectProjections_collected.1 hcurrent).mem_iff.1 hentry
  obtain ⟨-, name, hname⟩ := mem_projections.1 hnode
  obtain ⟨other, hother, -, hotherId, hotherSource⟩ :=
    h name id source ⟨node, hnode, (Node.recorded_eq_some.1 hname).2.1, hid, Except.mapError_eq_ok.1 hsource⟩
  exact (collectProjections_collected.1 hproposed).mem_iff.2
    ⟨other, hother, hotherId, Except.mapError_eq_ok.2 hotherSource⟩

/-- **The guard of a rewrite accepts the documents with the same projections of its four kinds.** -/
theorem edit_accepts_iff (htags : dialect.Tags) : protectProjections dialect base next = .ok none ↔
      SameProjections dialect PROTECTED_PROJECTIONS base next := by
  have hidentified (nodes : List Node) : (∃ out, collectProjections dialect nodes = .ok out) ↔
      Identified dialect PROTECTED_PROJECTIONS nodes := by
    simp only [collectProjections_collected]
    exact exists_collected_iff fun node ↦ by simp only [Except.mapError_eq_ok]
  -- Nothing that is filed is written as nothing.
  have hnonempty {out : List (String × String)} {nodes : List Node}
      (hout : collectProjections dialect nodes = .ok out) {entry : String × String} (hentry : entry ∈ out) :
      entry.2 ≠ "" := by
    obtain ⟨node, hnode, -, hsource⟩ := (collectProjections_collected.1 hout).mem_iff.1 hentry
    obtain ⟨-, name, hname⟩ := mem_projections.1 hnode
    obtain ⟨rest, hrest⟩ := htags node name _ (recorded_protected hname) (Except.mapError_eq_ok.1 hsource)
    rw [hrest]
    simp
  have hchecked {current proposed : List (String × String)} (hcurrent : collectProjections dialect base = .ok current)
      (hproposed : collectProjections dialect next = .ok proposed) :
      ((∀ entry ∈ current, mishandled proposed entry = none) ∧
        ∀ entry ∈ proposed, (current.lookup entry.1).isNone = false) ↔ ∀ entry, entry ∈ current ↔ entry ∈ proposed := by
    rw [← Filing.same_iff (collectProjections_collected.1 hcurrent).2 (collectProjections_collected.1 hproposed).2]
    refine and_congr (forall₂_congr fun entry hentry ↦ ?_) (forall₂_congr fun entry _ ↦ by simp)
    obtain ⟨id, source⟩ := entry
    rw [mishandled]
    cases hfound : proposed.lookup id with
    | none => exact iff_of_false (by rintro ⟨⟩) (by rintro ⟨⟩)
    | some replacement =>
      rw [Option.filter_some_pos (by simpa using hnonempty hproposed (Entries.mem_of_lookup hfound))]
      dsimp only
      split
      · rename_i hne
        exact iff_of_false (by rintro ⟨⟩) fun h ↦ hne (Option.some.inj h)
      · rename_i heq
        exact iff_of_true rfl (congrArg some (Decidable.not_not.1 heq))
  rw [edit_accepts]
  constructor
  · rintro ⟨current, proposed, hcurrent, hproposed, h⟩
    have hsame := (hchecked hcurrent hproposed).1 h
    exact ⟨(hidentified _).1 ⟨_, hcurrent⟩, (hidentified _).1 ⟨_, hproposed⟩, fun name id source ↦
      ⟨Collected.holds htags hcurrent hproposed fun entry ↦ (hsame entry).1,
        Collected.holds htags hproposed hcurrent fun entry ↦ (hsame entry).2⟩⟩
  · rintro ⟨hbase, hnext, hsame⟩
    obtain ⟨current, hcurrent⟩ := (hidentified _).2 hbase
    obtain ⟨proposed, hproposed⟩ := (hidentified _).2 hnext
    refine ⟨current, proposed, hcurrent, hproposed, (hchecked hcurrent hproposed).2 fun entry ↦ ⟨?_, ?_⟩⟩
    · exact Collected.kept hcurrent hproposed (fun name id source ↦ (hsame name id source).1) entry
    · exact Collected.kept hproposed hcurrent (fun name id source ↦ (hsame name id source).2) entry

theorem projected_eq_ok {value : Projections.Projected} : projected dialect node = .ok value ↔
    node.name.getD "" = value.type ∧ dialect.serialize [node] = .ok value.source := by
  rw [projected, Except.bind_eq_ok]
  constructor
  · rintro ⟨source, hsource, h⟩
    cases h
    exact ⟨rfl, Except.mapError_eq_ok.1 hsource⟩
  · rintro ⟨htype, hsource⟩
    exact ⟨_, Except.mapError_eq_ok.2 hsource, by rw [htype]; rfl⟩

/-- What the room has collected is what the document holds. -/
theorem collectAll_mem (h : Projections.collectAll dialect nodes = .ok out) :
    (id, ⟨name, source⟩) ∈ out ↔ Holds dialect Projections.PROTECTED nodes name id source := by
  rw [(collectAll_collected.1 h).mem_iff]
  refine exists_congr fun node ↦ and_congr_right fun hnode ↦ ?_
  obtain ⟨-, own, hown⟩ := mem_projections.1 hnode
  rw [projected_eq_ok, (Node.recorded_eq_some.1 hown).2.1, Option.getD_some, Option.some.injEq]
  exact ⟨fun h ↦ ⟨h.2.1, h.1, h.2.2⟩, fun h ↦ ⟨h.2.1, h.1, h.2.2⟩⟩

/-- **With nothing added and nothing removed, the room's guard accepts the documents with the same projections.** -/
theorem room_accepts_iff : Projections.protectProjections dialect base next [] [] = .ok none ↔
      SameProjections dialect Projections.PROTECTED base next := by
  have hidentified (nodes : List Node) : (∃ out, Projections.collectAll dialect nodes = .ok out) ↔
      Identified dialect Projections.PROTECTED nodes := by
    simp only [collectAll_collected]
    refine exists_collected_iff fun node ↦ ⟨?_, ?_⟩
    · rintro ⟨value, hvalue⟩
      exact ⟨_, (projected_eq_ok.1 hvalue).2⟩
    · rintro ⟨source, hsource⟩
      exact ⟨⟨_, source⟩, projected_eq_ok.2 ⟨rfl, hsource⟩⟩
  have hchecked {current proposed : List (String × Projections.Projected)}
      (hcurrent : Projections.collectAll dialect base = .ok current)
      (hproposed : Projections.collectAll dialect next = .ok proposed) :
      ((∀ entry ∈ current, Projections.mishandled proposed [] entry = none) ∧
        ∀ entry ∈ proposed, ((current.lookup entry.1).isNone &&
          !(Projections.REFERENCES.contains entry.2.type && [].contains entry.1)) = false) ↔
      ∀ entry, entry ∈ current ↔ entry ∈ proposed := by
    rw [← Filing.same_iff (collectAll_collected.1 hcurrent).2 (collectAll_collected.1 hproposed).2]
    refine and_congr (forall₂_congr fun entry _ ↦ ?_) (forall₂_congr fun entry _ ↦ by simp)
    obtain ⟨id, type, source⟩ := entry
    rw [Projections.mishandled]
    cases proposed.lookup id with
    | none => simp
    | some replacement =>
      obtain ⟨otherType, otherSource⟩ := replacement
      simp [not_or]
  rw [room_accepts]
  constructor
  · rintro ⟨current, proposed, hcurrent, hproposed, h⟩
    have hsame := (hchecked hcurrent hproposed).1 h
    refine ⟨(hidentified _).1 ⟨_, hcurrent⟩, (hidentified _).1 ⟨_, hproposed⟩, fun name id source ↦ ?_⟩
    rw [← collectAll_mem hcurrent, ← collectAll_mem hproposed]
    exact hsame _
  · rintro ⟨hbase, hnext, hsame⟩
    obtain ⟨current, hcurrent⟩ := (hidentified _).2 hbase
    obtain ⟨proposed, hproposed⟩ := (hidentified _).2 hnext
    refine ⟨current, proposed, hcurrent, hproposed, (hchecked hcurrent hproposed).2 fun entry ↦ ?_⟩
    obtain ⟨id, name, source⟩ := entry
    rw [collectAll_mem hcurrent, collectAll_mem hproposed]
    exact hsame name id source

/-! ## Where they agree -/

/-- The views of experiments have ids of their own and are the same in both documents. -/
structure ViewsKept (dialect : Dialect) (base next : List Node) : Prop where
  named : ∀ nodes ∈ [base, next], ∀ node ∈ projections ["Experiment"] nodes,
    ∃ id, node.componentId = some id ∧ id ≠ ""
  written : ∀ nodes ∈ [base, next], ∀ node ∈ projections ["Experiment"] nodes,
    ∃ source, dialect.serialize [node] = .ok source
  apart : ∀ nodes ∈ [base, next], ((projections Projections.PROTECTED nodes).map Node.componentId).Nodup
  same : ∀ id source, Holds dialect ["Experiment"] base "Experiment" id source ↔
    Holds dialect ["Experiment"] next "Experiment" id source

/-- A projection is one of those a rewrite is kept from, or the view of an experiment. -/
theorem mem_projections_protected : node ∈ projections Projections.PROTECTED nodes ↔
      node ∈ projections PROTECTED_PROJECTIONS nodes ∨ node ∈ projections ["Experiment"] nodes := by
  simp only [mem_projections, Node.recorded_eq_some, ← and_or_left, ← exists_or]
  refine and_congr_right fun _ ↦ exists_congr fun name ↦ and_congr_right fun _ ↦ and_congr_right fun _ ↦ ?_
  rw [mem_protected, List.mem_singleton]

/-- What a projection of these kinds holds is held by the document, under one of their names. -/
theorem holds_iff : Holds dialect records nodes name id source ↔
    name ∈ records ∧ ∃ node ∈ Node.walkAll nodes, node.kind.component = true ∧ node.name = some name ∧
      node.componentId = some id ∧ dialect.serialize [node] = .ok source := by
  constructor
  · rintro ⟨node, hnode, hname, hid, hsource⟩
    obtain ⟨hmem, own, hown⟩ := mem_projections.1 hnode
    obtain ⟨hcomponent, hownName, hrecord⟩ := Node.recorded_eq_some.1 hown
    obtain rfl : own = name := Option.mem_unique hownName hname
    exact ⟨hrecord, node, hmem, hcomponent, hname, hid, hsource⟩
  · rintro ⟨hrecord, node, hmem, hcomponent, hname, hid, hsource⟩
    have hrecorded := Node.recorded_eq_some.2 ⟨hcomponent, hname, hrecord⟩
    exact ⟨node, mem_projections.2 ⟨hmem, name, hrecorded⟩, hname, hid, hsource⟩

theorem Identified.of_protected (h : Identified dialect Projections.PROTECTED nodes) :
    Identified dialect PROTECTED_PROJECTIONS nodes := by
  have hsub : (projections PROTECTED_PROJECTIONS nodes).Sublist (projections Projections.PROTECTED nodes) := by
    have hfilter : projections PROTECTED_PROJECTIONS nodes =
        (projections Projections.PROTECTED nodes).filter fun node ↦ (node.recorded PROTECTED_PROJECTIONS).isSome := by
      rw [projections, projections, List.filter_filter]
      refine List.filter_congr fun node _ ↦ ?_
      cases hname : node.recorded PROTECTED_PROJECTIONS with
      | none => rfl
      | some name =>
        rw [recorded_protected hname]
        rfl
    rw [hfilter]
    exact List.filter_sublist
  exact ⟨fun node hnode ↦ h.named node (hsub.subset hnode), h.apart.sublist (hsub.map _),
    fun node hnode ↦ h.written node (hsub.subset hnode)⟩

/-- The projections are the same when those of the four kinds are, and the views of experiments. -/
theorem sameProjections_iff : SameProjections dialect Projections.PROTECTED base next ↔
    SameProjections dialect PROTECTED_PROJECTIONS base next ∧ ViewsKept dialect base next := by
  have hexperiment : "Experiment" ∈ Projections.PROTECTED := by decide
  constructor
  · rintro ⟨hbase, hnext, hsame⟩
    refine ⟨⟨hbase.of_protected, hnext.of_protected, fun name id source ↦ ?_⟩, ?_, ?_, ?_, fun id source ↦ ?_⟩
    · have := hsame name id source
      rw [holds_iff, holds_iff] at this ⊢
      exact and_congr_right fun hname ↦ by simpa [mem_protected, hname] using this
    · simp only [List.mem_cons, List.not_mem_nil, or_false, forall_eq_or_imp, forall_eq]
      exact ⟨fun node hnode ↦ hbase.named node (mem_projections_protected.2 (.inr hnode)),
        fun node hnode ↦ hnext.named node (mem_projections_protected.2 (.inr hnode))⟩
    · simp only [List.mem_cons, List.not_mem_nil, or_false, forall_eq_or_imp, forall_eq]
      exact ⟨fun node hnode ↦ hbase.written node (mem_projections_protected.2 (.inr hnode)),
        fun node hnode ↦ hnext.written node (mem_projections_protected.2 (.inr hnode))⟩
    · simp only [List.mem_cons, List.not_mem_nil, or_false, forall_eq_or_imp, forall_eq]
      exact ⟨hbase.apart, hnext.apart⟩
    · have := hsame "Experiment" id source
      rw [holds_iff, holds_iff] at this ⊢
      simpa [hexperiment] using this
  · rintro ⟨⟨hbase, hnext, hsame⟩, hviews⟩
    have hmem : base ∈ [base, next] ∧ next ∈ [base, next] := by simp
    have hidentified (nodes : List Node) (hnodes : nodes ∈ [base, next])
        (h : Identified dialect PROTECTED_PROJECTIONS nodes) : Identified dialect Projections.PROTECTED nodes := by
      refine ⟨fun node hnode ↦ ?_, hviews.apart nodes hnodes, fun node hnode ↦ ?_⟩
      · rcases mem_projections_protected.1 hnode with hnode | hnode
        · exact h.named node hnode
        · exact hviews.named nodes hnodes node hnode
      · rcases mem_projections_protected.1 hnode with hnode | hnode
        · exact h.written node hnode
        · exact hviews.written nodes hnodes node hnode
    refine ⟨hidentified base hmem.1 hbase, hidentified next hmem.2 hnext, fun name id source ↦ ?_⟩
    have hfour := hsame name id source
    have hview := hviews.same id source
    rw [holds_iff, holds_iff] at hfour hview ⊢
    refine and_congr_right fun hname ↦ ?_
    by_cases hexp : name = "Experiment"
    · subst hexp
      simpa using hview
    · have hrecord : name ∈ PROTECTED_PROJECTIONS := (mem_protected.1 hname).resolve_right hexp
      simpa [hrecord] using hfour

/-- The two guards answer alike, and accept the documents with the same projections. -/
structure GuardsAgree (dialect : Dialect) (base next : List Node) : Prop where
  alike : protectProjections dialect base next = .ok none ↔
    Projections.protectProjections dialect base next [] [] = .ok none
  edit : protectProjections dialect base next = .ok none ↔ SameProjections dialect Projections.PROTECTED base next
  room : Projections.protectProjections dialect base next [] [] = .ok none ↔
    SameProjections dialect Projections.PROTECTED base next

/-- **The guards agree exactly where a rewrite that keeps the other projections keeps the views of experiments.** -/
theorem guards_agree_iff (dialect : Dialect) (htags : dialect.Tags) (base next : List Node) :
    GuardsAgree dialect base next ↔
      (SameProjections dialect PROTECTED_PROJECTIONS base next → ViewsKept dialect base next) := by
  have hedit : protectProjections dialect base next = .ok none ↔
      SameProjections dialect PROTECTED_PROJECTIONS base next := edit_accepts_iff htags
  have hroom : Projections.protectProjections dialect base next [] [] = .ok none ↔
      SameProjections dialect Projections.PROTECTED base next := room_accepts_iff
  constructor
  · rintro ⟨-, hguard, -⟩ hsame
    exact (sameProjections_iff.1 (hguard.1 (hedit.2 hsame))).2
  · intro hviews
    have hboth : SameProjections dialect PROTECTED_PROJECTIONS base next ↔
        SameProjections dialect Projections.PROTECTED base next :=
      ⟨fun hsame ↦ sameProjections_iff.2 ⟨hsame, hviews hsame⟩, fun hsame ↦ (sameProjections_iff.1 hsame).1⟩
    exact ⟨by rw [hedit, hroom, hboth], hedit.trans hboth, hroom⟩

/-! A dialect that writes components without content, and two of them. -/

/-- One attribute, as it is written. -/
def sampleAttribute : Attribute → String
  | .named name (some value) => " " ++ name ++ "=\"" ++ value ++ "\""
  | .named name none => " " ++ name
  | .expression => ""

def sampleElement (node : Node) : String :=
  "<" ++ node.name.getD "" ++ (String.join (node.attributes.map sampleAttribute) ++ " />\n")

def elementDialect : Dialect where
  parse _ := .ok []
  serialize nodes := .ok ("\n".intercalate (nodes.map sampleElement))
  assert _ _ := .ok ()
  validTitle _ _ := true
  assertIntroducedUrls _ _ := .ok ()
  validate _ := .ok ()
  fence _ := none
  ulid _ _ := ""
  sha256 source := source

def sampleResearch : Node := .mk .flow (some "Research") [.named "id" (some "R1")] none none []

def sampleView : Node :=
  .mk .flow (some "Experiment") [.named "id" (some "E1"), .named "experiment" (some "X"), .named "view" (some "v")]
    none none []

theorem elementDialect_tags : elementDialect.Tags := by
  intro node name source hname hsource
  obtain rfl : sampleElement node = source := Except.ok.inj hsource
  rw [sampleElement, (Node.recorded_eq_some.1 hname).2.1]
  exact ⟨_, rfl⟩

/-- A document without the view of an experiment. -/
theorem guards_agree_sample : GuardsAgree elementDialect [sampleResearch] [sampleResearch] := by
  have hnone : projections ["Experiment"] [sampleResearch] = [] := rfl
  have hone : (projections Projections.PROTECTED [sampleResearch]).map Node.componentId = [some "R1"] := rfl
  refine (guards_agree_iff elementDialect elementDialect_tags _ _).2 fun _ ↦ ⟨?_, ?_, ?_, fun _ _ ↦ Iff.rfl⟩
  · simp [hnone]
  · simp [hnone]
  · simp [hone]

/-- A rewrite may drop the view of an experiment, and a browser may not. -/
theorem view_dropped : protectProjections elementDialect [sampleView] [] = .ok none ∧
    Projections.protectProjections elementDialect [sampleView] [] [] [] =
      .ok (some "Existing Questionnaire, Decision, and Research projections cannot be dropped.") :=
  ⟨rfl, rfl⟩

end Chopin.Editing
