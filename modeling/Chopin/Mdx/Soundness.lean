import Chopin.Mdx.Validate
import Mathlib.Data.List.Dedup

/-!
# What the validator accepts

A tree without issues is walked to its last node, so every check was made of every node, with the components above
it.  That a component is a child of the one it belongs to is checked in two places: it names the nearest component
above it, and that one allows nothing between.
-/

set_option autoImplicit false

open Script

namespace Chopin.Mdx

/-! ## Nodes of a tree -/

/-- A node of the tree, beneath these nodes, the nearest first. -/
inductive Occurs (root : Node) : List Node → Node → Prop where
  | root : Occurs root [] root
  | child {above : List Node} {node child : Node} (h : Occurs root above node) (hchild : child ∈ node.children) :
      Occurs root (node :: above) child

/-- The component a node is, if it is one. -/
def Node.spec (node : Node) : Option Component := if node.isJsx then lookup node.name else none

/-- The names of the components among these nodes, the nearest last. -/
def componentNames (above : List Node) : List String := above.reverse.filterMap fun node ↦ node.spec.map (·.name)

theorem componentNames_cons (node : Node) (above : List Node) :
    componentNames (node :: above) = componentNames above ++ (node.spec.map (·.name)).toList := by
  rw [componentNames, List.reverse_cons, List.filterMap_append]
  cases hspec : node.spec <;> simp [componentNames, hspec]

variable {above : List Node}

theorem mem_componentNames {name : String} :
    name ∈ componentNames above ↔ ∃ node ∈ above, ∃ spec, node.spec = some spec ∧ spec.name = name := by
  simp [componentNames]

variable {path : String}

variable {offset : Option Nat}

theorem report_eq_nil {when : Bool} {code message : String} :
    report when code message path offset = [] ↔ when = false := by
  cases when <;> simp [report]

variable {spec : Component}

/-- A component is found under its own name. -/
theorem lookup_name {name : Option String} (h : lookup name = some spec) : name = some spec.name := by
  obtain ⟨own, hown, hfind⟩ := Option.bind_eq_some_iff.1 h
  have hname : spec.name = own := by simpa using List.find?_some hfind
  rw [hname]
  exact (Option.filter_eq_some_iff.1 hown).1

theorem lookup_mem {name : Option String} (h : lookup name = some spec) : spec ∈ COMPONENTS := by
  obtain ⟨own, -, hfind⟩ := Option.bind_eq_some_iff.1 h
  exact List.mem_of_find?_eq_some hfind

/-! ## The walk -/

variable {library : Library}

/-- What a walk without issues has found of a component. -/
structure Checked (library : Library) (node : Node) (spec : Component) (path : String) (depth : Nat)
    (ancestors : List String) (parent : Option Node) : Prop where
  placement : placementOf node spec path depth ancestors = []
  attributes : attributesOf node spec path = []
  content : contentOf node spec path parent = []
  question : spec.name = "Question" → questionChoices node path = []

/-- **What a walk without issues has found.** -/
structure Walked (library : Library) (node : Node) (path : String) (depth : Nat) (ancestors : List String)
    (parent : Option Node) : Prop where
  accepted : refused node path depth = none
  component : node.isJsx = true → ∃ spec, node.spec = some spec ∧
    Checked library node spec path depth ancestors parent
  beneath : (descend library path depth (ancestors ++ (node.spec.map (·.name)).toList)
    (if node.isJsx then some node else none) [] node.children).issues = []

variable {node : Node}

theorem componentOf_ok (h : componentOf node path = .ok spec) : lookup node.name = some spec := by
  rw [componentOf] at h
  split at h
  · cases h
  · rename_i name hname
    split at h
    · cases h
    · rename_i hlookup
      cases h
      rw [(Option.filter_eq_some_iff.1 hname).1]
      exact hlookup

variable {depth : Nat} {ancestors : List String} {parent : Option Node}

theorem walk_clean (h : (walk library path depth ancestors parent node).issues = []) :
    Walked library node path depth ancestors parent := by
  cases node with
  | text value offset =>
    rw [walk] at h
    refine ⟨?_, nofun, rfl⟩
    cases hrefused : refused (.text value offset) path depth with
    | none => rfl
    | some issue => rw [hrefused] at h; exact nomatch h
  | markdown content children offset =>
    rw [walk] at h
    split at h
    · cases h
    · rename_i hrefused
      rw [Findings.issues_append, List.append_eq_nil_iff] at h
      refine ⟨hrefused, nofun, ?_⟩
      have hnone : (Node.markdown content children offset).spec = none := rfl
      rw [hnone, Option.map_none, Option.toList_none, List.append_nil]
      exact h.2
  | jsx kind name attributes children offset =>
    rw [walk] at h
    split at h
    · cases h
    · rename_i hrefused
      split at h
      · cases h
      · rename_i spec hspec
        have hown : (Node.jsx kind name attributes children offset).spec = some spec := componentOf_ok hspec
        rw [Findings.issues_append, List.append_eq_nil_iff] at h
        obtain ⟨hchecks, hbeneath⟩ := h
        simp only [checksOf, List.append_eq_nil_iff] at hchecks
        obtain ⟨⟨⟨⟨hplacement, hattributes⟩, hcontent⟩, hquestion⟩, -⟩ := hchecks
        refine ⟨hrefused, fun _ ↦ ⟨spec, hown, hplacement, hattributes, hcontent, fun hname ↦ ?_⟩, ?_⟩
        · rwa [if_pos hname] at hquestion
        · rw [hown]
          exact hbeneath

theorem descend_clean : ∀ {children : List Node} {labels : List String},
    (descend library path depth ancestors parent labels children).issues = [] → ∀ child ∈ children,
      ∃ inner, (walk library inner (depth + 1) ancestors parent child).issues = [] := by
  intro children
  induction children with
  | nil => exact fun _ _ h ↦ nomatch h
  | cons first rest ih =>
    intro labels h child hchild
    rw [descend, Findings.issues_append, List.append_eq_nil_iff] at h
    rcases List.mem_cons.1 hchild with rfl | hchild
    · exact ⟨_, h.1⟩
    · exact ih h.2 child hchild

variable {root : Node}

/-- **Every node of an accepted tree is walked, with the components above it.** -/
theorem occurs_clean (hroot : (walk library "root" 0 [] none root).issues = []) (h : Occurs root above node) :
    ∃ path parent, Walked library node path above.length (componentNames above) parent := by
  have hwalk : ∃ path parent, (walk library path above.length (componentNames above) parent node).issues = [] := by
    induction h with
    | root => exact ⟨_, _, hroot⟩
    | child _ hchild ih =>
      obtain ⟨path, parent, hclean⟩ := ih
      obtain ⟨inner, hinner⟩ := descend_clean (walk_clean hclean).beneath _ hchild
      rw [← componentNames_cons] at hinner
      exact ⟨inner, _, hinner⟩
  obtain ⟨path, parent, hclean⟩ := hwalk
  exact ⟨path, parent, walk_clean hclean⟩

/-! ## Nodes and places -/

theorem refused_eq_none (h : refused node path depth = none) :
    depth ≤ MAX_DEPTH ∧ node.type ∉ FORBIDDEN_NODES ∧ node.type ∈ NODES := by
  rw [refused] at h
  split at h
  · cases h
  · rename_i hdepth
    split at h
    · cases h
    · rename_i hforbidden
      split at h
      · cases h
      · rename_i hknown
        simp only [Bool.not_eq_true', Bool.not_eq_false, List.contains_iff_mem] at hforbidden hknown
        exact ⟨Nat.not_lt.1 hdepth, hforbidden, hknown⟩

/-- What the placement of a component comes to. -/
theorem placement_eq_nil (h : placementOf node spec path depth ancestors = []) : (spec.topLevel = true → depth = 1) ∧
      (∀ names, spec.parent = some names → ∃ name ∈ names, ancestors.getLast? = some name) ∧
      ∀ ancestor ∈ ancestors, ∀ outer, lookup (some ancestor) = some outer → spec.name ∉ outer.forbids := by
  simp only [placementOf, List.append_eq_nil_iff, report_eq_nil] at h
  obtain ⟨⟨⟨htop, -⟩, hparent⟩, hnesting⟩ := h
  refine ⟨fun hlevel ↦ by simpa [hlevel] using htop, fun names hnames ↦ ?_,
    fun ancestor hancestor outer houter hforbids ↦ ?_⟩
  · rw [hnames, Option.any_some, Bool.not_eq_false', Option.any_eq_true] at hparent
    obtain ⟨name, hlast, hname⟩ := hparent
    exact ⟨name, List.contains_iff_mem.1 hname, hlast⟩
  · split at hnesting
    · rename_i hnone
      have hno := List.find?_eq_none.1 hnone ancestor hancestor
      rw [houter, Option.any_some] at hno
      exact hno (List.contains_iff_mem.2 hforbids)
    · cases hnesting

/-- A component that lists what it may hold holds nothing else. -/
theorem content_eq_nil {allowed : List String}
    (h : contentOf node spec path parent = []) (hcontent : spec.content = .components allowed) :
    ∀ child ∈ node.children, isFormatting child = true ∨ isAllowed allowed child = true := by
  intro child hchild
  rw [contentOf, hcontent] at h
  simp only [List.append_eq_nil_iff, List.map_eq_nil_iff] at h
  by_contra hno
  rw [not_or, Bool.not_eq_true, Bool.not_eq_true] at hno
  have hmem : child ∈ (node.children.filter fun child ↦ !isFormatting child).filter fun child ↦
      !isAllowed allowed child := by
    rw [List.mem_filter, List.mem_filter, hno.1, hno.2]
    exact ⟨⟨hchild, rfl⟩, rfl⟩
  rw [h.1.1] at hmem
  exact List.not_mem_nil hmem

/-- The components that others belong to list what they may hold. -/
theorem parents_list : ∀ spec ∈ COMPONENTS, ∀ names ∈ spec.parent, ∀ outer ∈ COMPONENTS, outer.name ∈ names →
    ∃ allowed, outer.content = .components allowed := by
  have htable : COMPONENTS.all (fun spec ↦ spec.parent.all fun names ↦ COMPONENTS.all fun outer ↦
      !names.contains outer.name || (match outer.content with
        | .components _ => true
        | _ => false)) = true := by decide
  intro spec hspec names hnames outer houter hname
  have hone := List.all_eq_true.1 htable spec hspec
  rw [Option.mem_def.1 hnames, Option.all_some] at hone
  have hlists := List.all_eq_true.1 hone outer houter
  rw [List.contains_iff_mem.2 hname, Bool.not_true, Bool.false_or] at hlists
  cases hcontent : outer.content with
  | components allowed => exact ⟨allowed, rfl⟩
  | blocks => rw [hcontent] at hlists; exact nomatch hlists
  | phrasing => rw [hcontent] at hlists; exact nomatch hlists
  | empty => rw [hcontent] at hlists; exact nomatch hlists

theorem Node.spec_lookup (h : node.spec = some spec) : node.isJsx = true ∧ lookup node.name = some spec := by
  rw [Node.spec] at h
  split at h
  · rename_i hjsx
    exact ⟨hjsx, h⟩
  · cases h

theorem Occurs.mem_children {parent : Node} (h : Occurs root (parent :: above) node) :
    Occurs root above parent ∧ node ∈ parent.children := by
  cases h with
  | child h hchild => exact ⟨h, hchild⟩

/-- **Nothing stands between a component that lists what it may hold and the components beneath it.** -/
theorem nearest_direct (hroot : (walk library "root" 0 [] none root).issues = []) (h : Occurs root above node)
    {name : String} (hlast : (componentNames above).getLast? = some name)
    (hlists : ∀ outer ∈ COMPONENTS, outer.name = name → ∃ allowed, outer.content = .components allowed) :
    ∃ parent rest outer, above = parent :: rest ∧ parent.spec = some outer ∧ outer.name = name := by
  induction h with
  | root => cases hlast
  | @child above between node h hchild ih =>
    rw [componentNames_cons] at hlast
    cases hspec : between.spec with
    | some outer =>
      rw [hspec, Option.map_some, Option.toList_some, List.getLast?_concat] at hlast
      exact ⟨between, above, outer, rfl, hspec, Option.some.inj hlast⟩
    | none =>
      -- A node of Markdown between the two is one the outer component does not allow, or a text.
      rw [hspec, Option.map_none, Option.toList_none, List.append_nil] at hlast
      obtain ⟨parent, rest, outer, rfl, houter, hname⟩ := ih hlast
      obtain ⟨hparent, hbetween⟩ := h.mem_children
      obtain ⟨path, grand, hwalked⟩ := occurs_clean hroot hparent
      obtain ⟨hjsx, hlookup⟩ := Node.spec_lookup houter
      obtain ⟨found, hfound, hchecked⟩ := hwalked.component hjsx
      obtain rfl := Option.mem_unique houter hfound
      obtain ⟨allowed, hallowed⟩ := hlists outer (lookup_mem hlookup) hname
      rcases content_eq_nil hchecked.content hallowed between hbetween with hformatting | hcomponent
      · cases between with
        | text value offset => cases hchild
        | jsx => cases hformatting
        | markdown => cases hformatting
      · obtain ⟨inner, other, hinner⟩ := occurs_clean hroot h
        have hbetweenJsx : between.isJsx = true := by
          cases between with
          | jsx => rfl
          | text => cases hcomponent
          | markdown => cases hcomponent
        obtain ⟨own, hown, -⟩ := hinner.component hbetweenJsx
        rw [hspec] at hown
        cases hown

/-! ## Attributes -/

def Attribute.name : Attribute → Option String
  | .named name _ => some name
  | .spread => none

/-- Each attribute is one the component allows and a string, none is set twice, and every required one is set. -/
structure WellAttributed (spec : Component) (attributes : List Attribute) : Prop where
  allowed : ∀ item ∈ attributes, ∃ name value, item = .named name (some value) ∧ name ∈ spec.attributes.map Prod.fst
  once : (attributes.filterMap Attribute.name).Nodup
  required : ∀ entry ∈ spec.attributes, entry.2.required = true →
    ∃ value, Attribute.named entry.1 (some value) ∈ attributes

/-- An attribute without an issue is a string the component has, and was not set before. -/
theorem writtenAttribute_nil {seen : List (String × Units)}
    {item : Attribute} (h : (writtenAttribute spec path offset seen item).1 = []) :
    ∃ pair : String × Units, item = .named pair.1 (some pair.2) ∧ pair.1 ∈ spec.attributes.map Prod.fst ∧
      pair.1 ∉ seen.map Prod.fst ∧ (writtenAttribute spec path offset seen item).2 = seen ++ [pair] := by
  cases item with
  | spread => cases h
  | named name value =>
    cases value with
    | none => cases h
    | some value =>
      rw [writtenAttribute] at h ⊢
      split at h
      · cases h
      · rename_i hknown
        split at h
        · cases h
        · rename_i hnew
          rw [if_neg hknown, if_neg hnew]
          exact ⟨(name, value), rfl, by simpa using hknown, by simpa using hnew, rfl⟩

/-- Attributes without an issue are strings the component has, each set once. -/
theorem writtenAttributes_nil : ∀ {items : List Attribute} {seen : List (String × Units)},
    (writtenAttributes spec path offset seen items).1 = [] → ∃ pairs : List (String × Units),
      items = pairs.map (fun pair ↦ .named pair.1 (some pair.2)) ∧
        (writtenAttributes spec path offset seen items).2 = seen ++ pairs ∧
        (∀ pair ∈ pairs, pair.1 ∈ spec.attributes.map Prod.fst) ∧ (pairs.map Prod.fst).Nodup ∧
          ∀ pair ∈ pairs, pair.1 ∉ seen.map Prod.fst := by
  intro items
  induction items with
  | nil => exact fun _ ↦ ⟨[], rfl, (List.append_nil _).symm, nofun, .nil, nofun⟩
  | cons item rest ih =>
    intro seen h
    rw [writtenAttributes] at h ⊢
    dsimp only at h ⊢
    rw [List.append_eq_nil_iff] at h
    obtain ⟨pair, rfl, hknown, hnew, hseen⟩ := writtenAttribute_nil h.1
    obtain ⟨pairs, rfl, hall, hallowed, hnodup, hfresh⟩ := ih h.2
    refine ⟨pair :: pairs, rfl, by rw [hall, hseen]; simp, ?_, ?_, ?_⟩
    · rintro other (_ | ⟨_, hother⟩)
      · exact hknown
      · exact hallowed other hother
    · refine List.nodup_cons.2 ⟨fun hmem ↦ ?_, hnodup⟩
      obtain ⟨other, hother, heq⟩ := List.mem_map.1 hmem
      exact hfresh other hother (by rw [hseen, heq]; simp)
    · rintro other (_ | ⟨_, hother⟩) hmem
      · exact hnew hmem
      · exact hfresh other hother (by rw [hseen, List.map_append]; exact List.mem_append_left _ hmem)

theorem attributes_sound (h : attributesOf node spec path = []) : WellAttributed spec node.attributes := by
  rw [attributesOf, List.append_eq_nil_iff, List.flatMap_eq_nil_iff] at h
  obtain ⟨hwritten, hspec⟩ := h
  obtain ⟨pairs, hpairs, hseen, hallowed, hnodup, -⟩ := writtenAttributes_nil hwritten
  rw [hseen] at hspec
  refine ⟨fun item hitem ↦ ?_, ?_, fun entry hentry hrequired ↦ ?_⟩
  · rw [hpairs] at hitem
    obtain ⟨pair, hpair, rfl⟩ := List.mem_map.1 hitem
    exact ⟨pair.1, pair.2, rfl, hallowed pair hpair⟩
  · rw [hpairs, List.filterMap_map]
    have hnames : pairs.filterMap (Attribute.name ∘ fun pair ↦ .named pair.1 (some pair.2)) = pairs.map Prod.fst :=
      congrFun List.filterMap_eq_map pairs
    rwa [hnames]
  · have hone := hspec entry hentry
    rw [specIssues, List.nil_append] at hone
    cases hvalue : pairs.lookup entry.1 with
    | none =>
      rw [hvalue] at hone
      rw [report_eq_nil.1 hone] at hrequired
      cases hrequired
    | some value =>
      obtain ⟨front, back, hsplit, -⟩ := List.lookup_eq_some_iff.1 hvalue
      refine ⟨value, ?_⟩
      rw [hpairs, hsplit]
      simp

/-! ## Answers -/

/-- What an answer chooses are distinct options of the question, and one at most of a single choice. -/
def Chosen (question item : Node) : Prop :=
  ∀ raw, item.stringAttribute "choices" = some raw →
    (words (trimUnits raw)).Nodup ∧
      (∀ id ∈ words (trimUnits raw), ∃ choice ∈ elements question "Option", choice.stringAttribute "id" = some id) ∧
      (question.stringAttribute "multiple" = some (utf16 "false") → (words (trimUnits raw)).length ≤ 1)

theorem choices_sound {question item : Node} {written : Bool} {kind who textMessage : String}
    (h : choicesIssues question item (ids (elements question "Option")) written path kind who textMessage = []) :
    Chosen question item := by
  intro raw hraw
  rw [choicesIssues, hraw] at h
  simp only [List.append_eq_nil_iff, report_eq_nil] at h
  obtain ⟨⟨⟨⟨-, -⟩, hknown⟩, hnodup⟩, hsingle⟩ := h
  refine ⟨?_, fun id hid ↦ ?_, fun hfalse ↦ ?_⟩
  · rw [bne_eq_false_iff_eq] at hnodup
    rw [← List.dedup_eq_self]
    exact (List.dedup_sublist _).eq_of_length hnodup
  · have hone := List.any_eq_false.1 hknown id hid
    rw [Bool.not_eq_true, Bool.not_eq_false', List.contains_iff_mem, ids, List.mem_dedup] at hone
    exact List.mem_map.1 hone
  · rw [hfalse, beq_self_eq_true, Bool.true_and, decide_eq_false_iff_not] at hsingle
    exact Nat.not_lt.1 hsingle

theorem question_sound {question : Node} (h : questionChoices question path = []) {name : String}
    (hname : name = "Answer" ∨ name = "Previous") : ∀ item ∈ elements question name, Chosen question item := by
  intro item hitem
  simp only [questionChoices, List.append_eq_nil_iff, List.flatMap_eq_nil_iff] at h
  obtain ⟨⟨⟨-, hanswers⟩, -⟩, hprevious⟩ := h
  rcases hname with rfl | rfl
  · have hone := hanswers item hitem
    simp only [answerIssues, List.append_eq_nil_iff] at hone
    exact choices_sound hone.2
  · have hone := hprevious item hitem
    simp only [previousIssues, List.append_eq_nil_iff] at hone
    exact choices_sound hone.2

/-! ## What is accepted -/

/-- A tree whose components are well nested and well identified. -/
structure Sound (root : Node) : Prop where
  /-- A component that belongs to others is a child of one of them. -/
  parent : ∀ above node spec names, Occurs root above node → node.spec = some spec → spec.parent = some names →
    ∃ parent rest outer, above = parent :: rest ∧ parent.spec = some outer ∧ outer.name ∈ names ∧
      node ∈ parent.children
  /-- None stands anywhere beneath one that forbids it. -/
  forbids : ∀ above node spec, Occurs root above node → node.spec = some spec →
    ∀ ancestor ∈ above, ∀ outer, ancestor.spec = some outer → spec.name ∉ outer.forbids
  topLevel : ∀ above node spec, Occurs root above node → node.spec = some spec → spec.topLevel = true →
    above.length = 1
  depth : ∀ above node, Occurs root above node → above.length ≤ MAX_DEPTH
  /-- Nothing outside the dialect occurs. -/
  known : ∀ above node, Occurs root above node →
    node.type ∈ NODES ∧ node.type ∉ FORBIDDEN_NODES ∧ (node.isJsx = true → ∃ spec, node.spec = some spec)
  attributes : ∀ above node spec, Occurs root above node → node.spec = some spec →
    WellAttributed spec node.attributes
  /-- Answers stand in a question and choose among its options. -/
  choices : ∀ above item spec, Occurs root above item → item.spec = some spec →
    spec.name = "Answer" ∨ spec.name = "Previous" →
    ∃ question rest outer, above = question :: rest ∧ question.spec = some outer ∧ outer.name = "Question" ∧
      Chosen question item

theorem parent_direct (hroot : (walk library "root" 0 [] none root).issues = []) {names : List String}
    (h : Occurs root above node) (hspec : node.spec = some spec) (hnames : spec.parent = some names) :
    ∃ parent rest outer, above = parent :: rest ∧ parent.spec = some outer ∧ outer.name ∈ names ∧
      node ∈ parent.children := by
  obtain ⟨path, grand, hwalked⟩ := occurs_clean hroot h
  obtain ⟨hjsx, hlookup⟩ := Node.spec_lookup hspec
  obtain ⟨found, hfound, hchecked⟩ := hwalked.component hjsx
  obtain rfl := Option.mem_unique hspec hfound
  obtain ⟨name, hname, hlast⟩ := (placement_eq_nil hchecked.placement).2.1 names hnames
  obtain ⟨parent, rest, outer, rfl, houter, rfl⟩ := nearest_direct hroot h hlast fun outer houter heq ↦
    parents_list spec (lookup_mem hlookup) names hnames outer houter (heq ▸ hname)
  exact ⟨parent, rest, outer, rfl, houter, hname, h.mem_children.2⟩

/-- The answers of the table belong to questions. -/
theorem answers_parent : ∀ spec ∈ COMPONENTS, spec.name = "Answer" ∨ spec.name = "Previous" →
    spec.parent = some ["Question"] := by decide

/-- **A tree the validator accepts is well nested, and its components are well identified.** -/
theorem validate_sound (library : Library) (root : Node) (bytes : Option Nat) (h : validate library root bytes = []) :
    Sound root := by
  have hroot : (walk library "root" 0 [] none root).issues = [] := by
    simp only [validate, List.append_eq_nil_iff] at h
    exact h.1.2
  have hchecked {above : List Node} {node : Node} {spec : Component} (h : Occurs root above node)
      (hspec : node.spec = some spec) :
      ∃ path parent, Checked library node spec path above.length (componentNames above) parent := by
    obtain ⟨path, parent, hwalked⟩ := occurs_clean hroot h
    obtain ⟨found, hfound, hchecked⟩ := hwalked.component (Node.spec_lookup hspec).1
    obtain rfl := Option.mem_unique hspec hfound
    exact ⟨path, parent, hchecked⟩
  constructor
  case parent => exact fun above node spec names h hspec hnames ↦ parent_direct hroot h hspec hnames
  case forbids =>
    intro above node spec h hspec ancestor hancestor outer houter
    obtain ⟨path, parent, hchecked⟩ := hchecked h hspec
    refine (placement_eq_nil hchecked.placement).2.2 outer.name ?_ outer ?_
    · exact mem_componentNames.2 ⟨ancestor, hancestor, outer, houter, rfl⟩
    · have hlookup := (Node.spec_lookup houter).2
      rwa [lookup_name hlookup] at hlookup
  case topLevel =>
    intro above node spec h hspec hlevel
    obtain ⟨path, parent, hchecked⟩ := hchecked h hspec
    exact (placement_eq_nil hchecked.placement).1 hlevel
  case depth =>
    intro above node h
    obtain ⟨path, parent, hwalked⟩ := occurs_clean hroot h
    exact (refused_eq_none hwalked.accepted).1
  case known =>
    intro above node h
    obtain ⟨path, parent, hwalked⟩ := occurs_clean hroot h
    obtain ⟨-, hallowed, hknown⟩ := refused_eq_none hwalked.accepted
    refine ⟨hknown, hallowed, fun hjsx ↦ ?_⟩
    obtain ⟨spec, hspec, -⟩ := hwalked.component hjsx
    exact ⟨spec, hspec⟩
  case attributes =>
    intro above node spec h hspec
    obtain ⟨path, parent, hchecked⟩ := hchecked h hspec
    exact attributes_sound hchecked.attributes
  case choices =>
    intro above item spec h hspec hname
    obtain ⟨hjsx, hlookup⟩ := Node.spec_lookup hspec
    obtain ⟨question, rest, outer, rfl, houter, hmem, hitem⟩ :=
      parent_direct hroot h hspec (answers_parent spec (lookup_mem hlookup) hname)
    have hquestion : outer.name = "Question" := List.mem_singleton.1 hmem
    obtain ⟨path, parent, hchecked⟩ := hchecked h.mem_children.1 houter
    refine ⟨question, rest, outer, rfl, houter, hquestion, ?_⟩
    refine question_sound (hchecked.question hquestion) hname item (List.mem_filter.2 ⟨hitem, ?_⟩)
    rw [hjsx, lookup_name hlookup, Bool.true_and, beq_self_eq_true]

/-- A library for URLs that are all absolute. -/
def sampleLibrary : Library := ⟨fun _ ↦ some (utf16 "https:"), id⟩

/-- A decided question behind a callout, in a quote. -/
def samplePlan : Node :=
  .markdown (.plain "root" (by decide)) [
    .markdown (.plain "blockquote" (by decide)) [
      .jsx .flow (some "Callout")
        [.named "id" (some (utf16 "00000000000000000000000000")), .named "type" (some (utf16 "note"))]
        [.markdown (.plain "paragraph" (by decide)) [.text (utf16 "Go on.") none] none] none] none,
    .jsx .flow (some "Questionnaire") [.named "id" (some (utf16 "00000000000000000000000001"))] [
      .jsx .flow (some "Question") [.named "id" (some (utf16 "00000000000000000000000002")),
          .named "header" (some (utf16 "H")), .named "prompt" (some (utf16 "P")),
          .named "multiple" (some (utf16 "false"))] [
        .jsx .flow (some "Option") [.named "id" (some (utf16 "00000000000000000000000003")),
          .named "label" (some (utf16 "L"))] [] none,
        .jsx .flow (some "Answer") [.named "value" (some (utf16 "L")),
          .named "choices" (some (utf16 "00000000000000000000000003"))] [] none] none] none] none

theorem validate_sound_sample : Sound samplePlan :=
  validate_sound sampleLibrary samplePlan none (by decide +kernel)

end Chopin.Mdx
