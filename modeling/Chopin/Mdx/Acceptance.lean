import Chopin.Mdx.RoundTrips
import Chopin.Mdx.Soundness
import Mathlib.Data.List.Perm.Subperm
import Mathlib.Data.List.ProdSigma

/-!
# Elements without issues

What each check of the validator comes to, when the element it is made of is one that was written: its attributes are
those of its component, none twice, and its children are components that it may hold.
-/

set_option autoImplicit false

open Script

namespace Chopin.Mdx

/-! ## Attributes -/

/-- The value is one that the attribute may have. -/
def holds (spec : Component) (value : Units) : AttributeSpec → Bool
  | .id => isUlid value
  | .reference max => value.length ≤ max && isReference value
  | .text _ max empty =>
    (!isBlank value || empty || ["Question", "Option", "Answer"].contains spec.name) && value.length ≤ max
  | .integer _ min max => isCanonicalInteger value && min ≤ numberOf value && numberOf value ≤ max
  | .enum _ values => oneOf values value

theorem valueIssues_eq_nil {spec : Component} {path name : String} {offset : Option Nat} {value : Units}
    {kind : AttributeSpec} : valueIssues spec path offset name value kind = [] ↔ holds spec value kind = true := by
  cases kind with
  | id => simp [valueIssues, holds, report_eq_nil]
  | reference max => simp [valueIssues, holds, report_eq_nil]
  | integer required min max => simp [valueIssues, holds, report_eq_nil, and_assoc]
  | enum required values => simp [valueIssues, holds, report_eq_nil]
  | text required max empty =>
    rw [valueIssues, holds]
    cases isBlank value <;> cases empty <;> cases ["Question", "Option", "Answer"].contains spec.name <;>
      simp [report_eq_nil]

/-- What stands under an attribute's name, if something does, is one that it may have. -/
def suits (spec : Component) (kind : AttributeSpec) : Option Units → Bool
  | none => !kind.required
  | some value => holds spec value kind

end Chopin.Mdx

namespace Chopin.Mdx.Questionnaires

/-- The attributes that have a value, with it. -/
def pairs (values : List (String × Option Units)) : List (String × Units) :=
  values.filterMap fun entry ↦ entry.2.map (entry.1, ·)

variable {values : List (String × Option Units)}

theorem lookup_pairs (h : (values.map Prod.fst).Nodup) (name : String) :
    (pairs values).lookup name = (values.lookup name).join := by
  induction values with
  | nil => rfl
  | cons entry rest ih =>
    obtain ⟨own, value⟩ := entry
    obtain ⟨hnew, hrest⟩ := List.nodup_cons.1 h
    have hothers := ih hrest
    by_cases hname : name = own
    · subst hname
      rw [List.lookup_cons_self, Option.join_some]
      cases value with
      | none => exact hothers.trans (by rw [lookup_absent hnew]; rfl)
      | some value => exact List.lookup_cons_self
    · rw [List.lookup_cons, beq_eq_false_iff_ne.2 hname, ← hothers]
      cases value with
      | none => rfl
      | some value =>
        change List.lookup name ((own, value) :: pairs rest) = _
        rw [List.lookup_cons, beq_eq_false_iff_ne.2 hname]

variable {path : String}

variable {spec : Component}

/-- Attributes that a component has, none twice, are all set. -/
theorem writtenAttributes_given {offset : Option Nat} (hallowed : ∀ entry ∈ values, entry.1 ∈ spec.attributes.map Prod.fst)
    (hnodup : (values.map Prod.fst).Nodup) {seen : List (String × Units)}
    (hnew : ∀ entry ∈ values, entry.1 ∉ seen.map Prod.fst) :
    writtenAttributes spec path offset seen (given values) = ([], seen ++ pairs values) := by
  induction values generalizing seen with
  | nil => exact congrArg (Prod.mk []) (List.append_nil seen).symm
  | cons entry rest ih =>
    obtain ⟨own, value⟩ := entry
    obtain ⟨hknown, hothers⟩ := List.forall_mem_cons.1 hallowed
    obtain ⟨hfresh, hlater⟩ := List.forall_mem_cons.1 hnew
    obtain ⟨hown, hrest⟩ := List.nodup_cons.1 hnodup
    cases value with
    | none => exact ih hothers hrest hlater
    | some value =>
      have hset : writtenAttribute spec path offset seen (written own value) = ([], seen ++ [(own, value)]) := by
        rw [written, writtenAttribute, if_neg (by simpa using hknown), if_neg (by simpa using hfresh)]
      have hstill : ∀ entry ∈ rest, entry.1 ∉ (seen ++ [(own, value)]).map Prod.fst := by
        intro entry hentry hmem
        rw [List.map_append, List.mem_append] at hmem
        rcases hmem with hmem | hmem
        · exact hlater entry hentry hmem
        · exact hown (List.mem_singleton.1 hmem ▸ List.mem_map_of_mem hentry)
      change (let one := writtenAttribute spec path offset seen (written own value)
        let others := writtenAttributes spec path offset one.2 (given rest)
        (one.1 ++ others.1, others.2)) = _
      rw [hset]
      dsimp only
      rw [ih hothers hrest hstill, List.append_assoc]
      rfl

variable {tag : String}

variable {children : List Node}

/-- **The attributes are without issue exactly when each suits the component.** -/
theorem attributesOf_given
    (hallowed : ∀ entry ∈ values, entry.1 ∈ spec.attributes.map Prod.fst) (hnodup : (values.map Prod.fst).Nodup) :
    attributesOf (element tag (given values) children) spec path = [] ↔
      ∀ entry ∈ spec.attributes, suits spec entry.2 (values.lookup entry.1).join = true := by
  have hwritten : writtenAttributes spec path none [] (given values) = ([], pairs values) :=
    writtenAttributes_given hallowed hnodup fun _ _ ↦ List.not_mem_nil
  rw [attributesOf]
  change (writtenAttributes spec path none [] (given values)).1 ++
    spec.attributes.flatMap (specIssues spec path none (writtenAttributes spec path none [] (given values)).2) = [] ↔ _
  rw [hwritten, List.nil_append, List.flatMap_eq_nil_iff]
  refine forall₂_congr fun entry _ ↦ ?_
  rw [specIssues, lookup_pairs hnodup]
  cases (values.lookup entry.1).join with
  | none => simp [suits, report_eq_nil]
  | some value => exact valueIssues_eq_nil

/-! ## The walk -/

/-- An element of this component may stand here. -/
def placed (spec : Component) (depth : Nat) (ancestors : List String) : Bool :=
  !(spec.topLevel && depth != 1) && (spec.kind == .both || spec.kind == .flow) &&
    spec.parent.all (fun parents ↦ ancestors.getLast?.any parents.contains) &&
    ancestors.all fun ancestor ↦ !((lookup (some ancestor)).any (·.forbids.contains spec.name))

variable {ancestors : List String}

theorem placementOf_element {attributes : List Attribute} {depth : Nat} (h : placed spec depth ancestors = true) :
    placementOf (element tag attributes children) spec path depth ancestors = [] := by
  simp only [placed, Bool.and_eq_true] at h
  obtain ⟨⟨⟨htop, hkind⟩, hparent⟩, hnesting⟩ := h
  have hnone : ancestors.find? (fun ancestor ↦ (lookup (some ancestor)).any (·.forbids.contains spec.name)) = none := by
    rw [List.find?_eq_none]
    intro ancestor hmem
    simpa using List.all_eq_true.1 hnesting ancestor hmem
  have hflow : expectedKind (element tag attributes children) = .flow := rfl
  rw [placementOf, hnone, hflow]
  simp only [List.append_eq_nil_iff, report_eq_nil, and_true]
  refine ⟨⟨?_, ?_⟩, ?_⟩
  · cases htopLevel : spec.topLevel <;> simp_all
  · cases hown : spec.kind <;> simp_all
  · cases hparents : spec.parent <;> simp_all

/-- What the walk finds of a node, wherever it stands: no issue under this condition, and no image. -/
structure Found (found : Findings) (clean : Prop) : Prop where
  issues : found.issues = [] ↔ clean
  images : found.images = 0

variable {library : Library}

theorem Found.append {first second : Findings} {p q : Prop} (hfirst : Found first p) (hsecond : Found second q) :
    Found (first ++ second) (p ∧ q) := by
  constructor
  · rw [Findings.issues_append, List.append_eq_nil_iff, hfirst.issues, hsecond.issues]
  · change first.images + second.images = 0
    rw [hfirst.images, hsecond.images]

theorem Found.nothing : Found ⟨[], 0⟩ True := ⟨iff_of_true rfl trivial, rfl⟩

section Beneath

variable {path : String} {depth : Nat} {ancestors : List String} {parent : Option Node}

/-- What the walk finds of parts of one kind. -/
theorem descend_map {α : Type} {f : α → Node} {P : α → Prop} {items : List α}
    (h : ∀ item ∈ items, ∀ path, Found (walk library path (depth + 1) ancestors parent (f item)) (P item))
    (labels : List String) :
    Found (descend library path depth ancestors parent labels (items.map f)) (∀ item ∈ items, P item) := by
  induction items generalizing labels with
  | nil => exact ⟨iff_of_true rfl fun _ hmem ↦ (nomatch hmem), rfl⟩
  | cons first rest ih =>
    obtain ⟨hfirst, hrest⟩ := List.forall_mem_cons.1 h
    rw [List.map_cons, descend, List.forall_mem_cons]
    exact (hfirst _).append (ih hrest _)

/-- What the walk finds of parts of two kinds. -/
theorem descend_append {first second : List Node} {p q : Prop}
    (hfirst : ∀ labels, Found (descend library path depth ancestors parent labels first) p)
    (hsecond : ∀ labels, Found (descend library path depth ancestors parent labels second) q) (labels : List String) :
    Found (descend library path depth ancestors parent labels (first ++ second)) (p ∧ q) := by
  have hsplit : ∀ labels, ∃ later, descend library path depth ancestors parent labels (first ++ second) =
      descend library path depth ancestors parent labels first ++
        descend library path depth ancestors parent later second := by
    clear hfirst hsecond
    intro labels
    induction first generalizing labels with
    | nil =>
      refine ⟨labels, ?_⟩
      rw [List.nil_append, descend]
      change _ = Findings.mk ([] ++ _) (0 + _)
      rw [List.nil_append, Nat.zero_add]
    | cons child rest ih =>
      obtain ⟨later, hrest⟩ := ih (labels ++ [child.label])
      refine ⟨later, ?_⟩
      rw [List.cons_append, descend, descend, hrest]
      exact congrArg₂ Findings.mk (List.append_assoc _ _ _).symm (Nat.add_assoc _ _ _).symm
  obtain ⟨later, heq⟩ := hsplit labels
  rw [heq]
  exact (hfirst labels).append (hsecond later)

end Beneath

variable {parent : Option Node}

/-- **What the walk finds of an element that may stand here, and of its parts.** -/
theorem walk_element {depth : Nat} {q : Prop} (hspec : lookup (some tag) = some spec)
    (hplaced : placed spec depth ancestors = true) (hdepth : depth ≤ MAX_DEPTH) (himage : tag ≠ "Image")
    (hallowed : ∀ entry ∈ values, entry.1 ∈ spec.attributes.map Prod.fst) (hnodup : (values.map Prod.fst).Nodup)
    (hbeneath : Found (descend library path depth (ancestors ++ [tag]) (some (element tag (given values) children)) []
      children) q) : Found (walk library path depth ancestors parent (element tag (given values) children))
      ((∀ entry ∈ spec.attributes, suits spec entry.2 (values.lookup entry.1).join = true) ∧
        contentOf (element tag (given values) children) spec path parent = [] ∧
        (tag = "Question" → questionChoices (element tag (given values) children) path = []) ∧ q) := by
  have hname : tag = spec.name := Option.some.inj (lookup_name hspec)
  have hrefused : refused (element tag (given values) children) path depth = none := by
    rw [refused, if_neg (Nat.not_lt.2 hdepth)]
    rfl
  have htag : (some tag).filter (· ≠ "") = some tag := by
    obtain ⟨own, hown, -⟩ := Option.bind_eq_some_iff.1 hspec
    obtain rfl := Option.some.inj (Option.filter_eq_some_iff.1 hown).1
    exact hown
  have hcomponent : componentOf (element tag (given values) children) path = .ok spec := by
    have hfilter : (element tag (given values) children).name.filter (· ≠ "") = some tag := htag
    rw [componentOf, hfilter]
    dsimp only
    rw [hspec]
  have hwalk : walk library path depth ancestors parent (element tag (given values) children) =
      checksOf library (element tag (given values) children) spec path depth ancestors parent ++
        descend library path depth (ancestors ++ [spec.name]) (some (element tag (given values) children)) []
          children := by
    rw [element] at hrefused hcomponent ⊢
    rw [walk, hrefused]
    dsimp only
    rw [hcomponent]
  rw [hwalk, ← hname]
  constructor
  · rw [Findings.issues_append, List.append_eq_nil_iff, hbeneath.issues, checksOf, ← hname, if_neg himage]
    simp only [List.append_eq_nil_iff, placementOf_element hplaced, attributesOf_given hallowed hnodup, true_and,
      and_true, and_assoc]
    by_cases hquestion : tag = "Question" <;> simp [hquestion]
  · change (if spec.name = "Image" then 1 else 0) + (descend library _ _ _ _ _ _).images = 0
    rw [← hname, if_neg himage, hbeneath.images]

/-- A component that holds nothing and stands in a question. -/
structure IsPart (tag : String) (spec : Component) : Prop where
  lookup : lookup (some tag) = some spec
  content : spec.content = .empty
  placed : placed spec 3 ["Questionnaire", "Question"] = true
  plain : tag ≠ "Image" ∧ tag ≠ "Question"

/-- What the walk finds of a part of a question. -/
theorem walk_part (hpart : IsPart tag spec)
    (hallowed : ∀ entry ∈ values, entry.1 ∈ spec.attributes.map Prod.fst) (hnodup : (values.map Prod.fst).Nodup)
    (parent : Option Node) (path : String) :
    Found (walk library path 3 ["Questionnaire", "Question"] parent (element tag (given values) []))
      (∀ entry ∈ spec.attributes, suits spec entry.2 (values.lookup entry.1).join = true) := by
  have hwalk : Found (walk library path 3 ["Questionnaire", "Question"] parent (element tag (given values) [])) _ :=
    walk_element hpart.lookup hpart.placed (by decide) hpart.plain.1 hallowed hnodup .nothing
  have hcontent : contentOf (element tag (given values) []) spec path parent = [] := by
    rw [contentOf, hpart.content]
    rfl
  refine ⟨hwalk.issues.trans ?_, hwalk.images⟩
  simp [hcontent, hpart.plain.2]

/-! ## Texts and ids -/

theorem suits_id (spec : Component) (id : Units) : suits spec .id (kept (some id)) = isUlid id := by
  cases id <;> rfl

/-- A text that may be blank. -/
theorem suits_loose (hspec : ["Question", "Option", "Answer"].contains spec.name = true)
    (required : Bool) (max : Nat) (value : Units) :
    suits spec (.text required max false) (some value) = true ↔ value.length ≤ max := by
  rw [suits, holds, hspec]
  simp

theorem suits_loose_kept (hspec : ["Question", "Option", "Answer"].contains spec.name = true)
    (max : Nat) (value : Option Units) :
    suits spec (.text false max false) (kept value) = true ↔ ∀ text ∈ value, text.length ≤ max := by
  cases value with
  | none => exact iff_of_true rfl nofun
  | some value =>
    cases value with
    | nil => exact iff_of_true rfl (by simp)
    | cons unit rest =>
      rw [kept_eq_self.2 (by simp), suits_loose hspec]
      simp

variable {value : Units}

/-- A text that may not be. -/
theorem suits_bounded (spec : Component) (required : Bool) {max : Nat}
    (h : bounded max value = true) : suits spec (.text required max false) (some value) = true := by
  rw [bounded, Bool.and_eq_true] at h
  rw [suits, holds, h.1, h.2]
  rfl

theorem suits_strict (hspec : ["Question", "Option", "Answer"].contains spec.name = false)
    (max : Nat) (value : Option Units) : suits spec (.text false max false) (kept value) = true ↔
      ∀ text ∈ value, text ≠ [] → bounded max text = true := by
  cases value with
  | none => exact iff_of_true rfl nofun
  | some value =>
    cases value with
    | nil => exact iff_of_true rfl (by simp)
    | cons unit rest =>
      rw [kept_eq_self.2 (by simp), suits, holds, hspec]
      simp [bounded]

theorem suits_bounded_kept (spec : Component) {max : Nat} {value : Option Units}
    (h : ∀ text ∈ value, bounded max text = true) : suits spec (.text false max false) (kept value) = true := by
  rw [kept_of_bounded h]
  cases value with
  | none => rfl
  | some value => exact suits_bounded spec false (h value rfl)

theorem isUlid_unit (h : isUlid value = true) :
    ∀ unit ∈ value, (0x30 ≤ unit ∧ unit ≤ 0x39) ∨ (0x41 ≤ unit ∧ unit ≤ 0x5a) := by
  intro unit hunit
  rw [isUlid, Bool.and_eq_true, List.all_eq_true] at h
  have hone := h.2 unit hunit
  simp only [isDigit, Bool.or_eq_true, Bool.and_eq_true, decide_eq_true_eq] at hone
  exact hone.imp id fun h ↦ h.1

theorem not_isSpaceUnit {unit : Nat} (h : 0x30 ≤ unit ∧ unit ≤ 0x5a) : isSpaceUnit unit = false := by
  rw [isSpaceUnit, Bool.or_eq_false_iff]
  constructor
  · rw [← Bool.not_eq_true, List.contains_iff_mem]
    intro hmem
    simp only [List.mem_cons, List.not_mem_nil, or_false] at hmem
    omega
  · rw [← Bool.not_eq_true, Bool.and_eq_true, decide_eq_true_eq, decide_eq_true_eq]
    omega

theorem isUlid_word (h : isUlid value = true) : IsWord value ∧ value.length = 26 := by
  have hlength : value.length = 26 := by
    simp only [isUlid, Bool.and_eq_true, beq_iff_eq] at h
    exact h.1.1
  refine ⟨⟨fun hnil ↦ ?_, fun unit hunit ↦ not_isSpaceUnit ?_⟩, hlength⟩
  · rw [hnil] at hlength
    cases hlength
  · have hone := isUlid_unit h unit hunit
    omega

theorem length_join_le {parts : List Units} {size : Nat} (h : ∀ part ∈ parts, part.length ≤ size) :
    (join parts).length ≤ (size + 1) * parts.length := by
  induction parts with
  | nil => exact Nat.zero_le _
  | cons first rest ih =>
    obtain ⟨hfirst, hrest⟩ := List.forall_mem_cons.1 h
    cases rest with
    | nil =>
      rw [join, List.intercalate_singleton]
      simp only [List.length_cons, List.length_nil]
      omega
    | cons second rest =>
      have hothers := ih hrest
      rw [join, List.intercalate_cons_cons, List.length_append, List.length_append]
      rw [join] at hothers
      simp only [List.length_cons, List.length_nil, Nat.mul_add] at hothers ⊢
      omega

theorem not_isBlank (h : words value ≠ []) : isBlank value = false := by
  rw [isBlank, beq_eq_false_iff_ne]
  intro htrim
  rw [← words_trim, htrim] at h
  exact h rfl

/-- Ids of options are few enough, and short enough, to be listed. -/
theorem bounded_join {ids : List Units} (hsome : ids ≠ []) (hulid : ∀ id ∈ ids, isUlid id = true)
    (hfew : ids.length ≤ MAX_OPTIONS) : words (join ids) = ids ∧ bounded MAX_ANSWER_CHOICES (join ids) = true := by
  have hwords : words (join ids) = ids := (words_join ids).2 fun id hid ↦ (isUlid_word (hulid id hid)).1
  have hlength : (join ids).length ≤ (26 + 1) * ids.length :=
    length_join_le fun id hid ↦ (isUlid_word (hulid id hid)).2.le
  have hmax : (join ids).length ≤ MAX_ANSWER_CHOICES := by
    rw [MAX_OPTIONS] at hfew
    rw [MAX_ANSWER_CHOICES]
    omega
  refine ⟨hwords, ?_⟩
  rw [bounded, not_isBlank (by rwa [hwords]), decide_eq_true hmax]
  rfl

/-! ## Parts -/

/-- A component that lists its parts, all of which these are, is without issue when it has some or needs none. -/
theorem contentOf_parts {attributes : List Attribute} {allowed : List String} (hcontent : spec.content = .components allowed)
    (hname : spec.name ≠ "Columns") (hchildren : ∀ child ∈ children, isAllowed allowed child = true) :
    contentOf (element tag attributes children) spec path parent = [] ↔
      children ≠ [] ∨ pendingQuestion (element tag attributes children) spec parent = true ∨
        freeTextQuestion spec parent = true ∨ writtenQuestion (element tag attributes children) spec = true := by
  have hkids : (element tag attributes children).children.filter (fun child ↦ !isFormatting child) = children := by
    refine List.filter_eq_self.2 fun child hchild ↦ ?_
    have hone := hchildren child hchild
    cases child with
    | text => cases hone
    | jsx => rfl
    | markdown => cases hone
  have hfound : children.filter (isAllowed allowed) = children := List.filter_eq_self.2 hchildren
  have hother : children.filter (fun child ↦ !isAllowed allowed child) = [] := by
    refine List.filter_eq_nil_iff.2 fun child hchild ↦ ?_
    rw [hchildren child hchild]
    exact Bool.false_ne_true
  have hcolumns : (spec.name == "Columns" && children.length != 2) = false := by
    rw [beq_eq_false_iff_ne.2 hname]
    rfl
  rw [contentOf, hcontent]
  dsimp only
  rw [hkids, hfound, hother, hcolumns]
  simp only [List.map_nil, List.nil_append, List.append_eq_nil_iff, report_eq_nil, true_and]
  cases children with
  | nil =>
    cases pendingQuestion (element tag attributes []) spec parent <;> cases freeTextQuestion spec parent <;>
      cases writtenQuestion (element tag attributes []) spec <;> simp
  | cons first rest => simp

/-! ## Choices and cells -/

/-- What the validator finds of choices. -/
theorem choicesIssues_eq_nil {node item : Node} {options : List (Option Units)} {written : Bool}
    {kind who textMessage : String} : choicesIssues node item options written path kind who textMessage = [] ↔
      ∀ raw ∈ item.stringAttribute "choices", written = false ∧ (words raw).length ≤ MAX_OPTIONS ∧
        (∀ id ∈ words raw, some id ∈ options) ∧ (words raw).Nodup ∧
        (node.stringAttribute "multiple" = some (utf16 "false") → (words raw).length ≤ 1) := by
  rw [choicesIssues]
  cases item.stringAttribute "choices" with
  | none => exact iff_of_true rfl (by rintro _ ⟨⟩)
  | some raw =>
    have hdistinct : ((words raw).dedup.length != (words raw).length) = false ↔ (words raw).Nodup := by
      rw [bne_eq_false_iff_eq, ← List.dedup_eq_self]
      exact ⟨(List.dedup_sublist _).eq_of_length, congrArg List.length⟩
    have hknown : ((words raw).any fun id ↦ !(options.contains (some id))) = false ↔
        ∀ id ∈ words raw, some id ∈ options := by
      simp [List.any_eq_false]
    have hsingle : (node.stringAttribute "multiple" == some (utf16 "false") && decide (1 < (words raw).length)) =
        false ↔ (node.stringAttribute "multiple" = some (utf16 "false") → (words raw).length ≤ 1) := by
      simp
    simp only [words_trim, List.append_eq_nil_iff, report_eq_nil, hdistinct, hknown, hsingle, decide_eq_false_iff_not,
      Nat.not_lt, Option.mem_def, Option.some.injEq, forall_eq', and_assoc]

/-- A cell of an option and a criterion of these, and its mark. -/
structure GoodCell (options criteria : List (Option Units)) (entry : Units × Units) (option criterion : Units) :
    Prop where
  split : entry.1 = option ++ 0x2f :: criterion
  row : some option ∈ options
  nonempty : option ≠ []
  column : some criterion ∈ criteria
  plain : 0x2f ∉ criterion
  mark : oneOf MARKS entry.2 = true

variable {options criteria : List (Option Units)}

variable {seen : List Units} {entry : Units × Units}

theorem badCell_good {option criterion : Units}
    (h : GoodCell options criteria entry option criterion) (hnew : entry.1 ∉ seen) :
    badCell options criteria seen (token entry) = (false, seen ++ [entry.1]) := by
  have hcolon : lastIndexOf (token entry) 0x3a = some entry.1.length := by
    rw [token, List.append_assoc]
    exact lastIndexOf_eq (marks_plain h.mark).2
  have hfront : (token entry).take (entry.1.length + 1) = entry.1 ++ [0x3a] := by
    rw [token]
    exact List.take_left' (by simp)
  have hcell : (token entry).take entry.1.length = entry.1 := by
    rw [token, List.append_assoc]
    exact List.take_left
  have hmark : (token entry).drop (entry.1.length + 1) = entry.2 := by
    rw [token]
    exact List.drop_left' (by simp)
  have hslash : lastIndexOf (entry.1 ++ [0x3a]) 0x2f = some option.length := by
    rw [h.split, List.append_assoc, List.cons_append]
    refine lastIndexOf_eq fun hmem ↦ ?_
    rcases List.mem_append.1 hmem with hmem | hmem
    · exact h.plain hmem
    · exact absurd (List.mem_singleton.1 hmem) (by decide)
  have hoption : (token entry).take option.length = option := by
    rw [token, h.split, List.append_assoc, List.append_assoc]
    exact List.take_left
  have hcriterion : entry.1.drop (option.length + 1) = criterion := by
    rw [h.split, List.append_cons]
    exact List.drop_left' (by simp)
  have hlength : ¬(option.length < 1) := Nat.not_lt.2 (List.length_pos_iff.2 h.nonempty)
  have hseen : seen.contains entry.1 = false := by
    rwa [← Bool.not_eq_true, List.contains_iff_mem]
  have hrow : options.contains (some option) = true := List.contains_iff_mem.2 h.row
  have hcolumn : criteria.contains (some criterion) = true := List.contains_iff_mem.2 h.column
  have hone : oneOf ["yes", "partly", "no"] entry.2 = true := h.mark
  rw [badCell, hcolon]
  dsimp only
  rw [hfront, hslash]
  dsimp only
  rw [hcell, hmark, hoption, hcriterion, hseen, hrow, hcolumn, hone, decide_eq_false hlength]
  rfl

variable {cells : List (Units × Units)}

/-- No cell is bad where each is of the question, and none stands twice. -/
theorem someBad_good
    (h : ∀ entry ∈ cells, ∃ option criterion, GoodCell options criteria entry option criterion) (hnew : (seen ++ cells.map Prod.fst).Nodup) :
    someBad options criteria seen (cells.map token) = false := by
  induction cells generalizing seen with
  | nil => rfl
  | cons entry rest ih =>
    obtain ⟨⟨option, criterion, hgood⟩, hrest⟩ := List.forall_mem_cons.1 h
    have hfresh : entry.1 ∉ seen := fun hmem ↦ (List.nodup_append.1 hnew).2.2 _ hmem _ List.mem_cons_self rfl
    rw [List.map_cons, someBad, badCell_good hgood hfresh]
    dsimp only
    rw [Bool.false_or]
    refine ih hrest ?_
    rw [List.append_assoc]
    exact hnew

/-- There are at most as many cells as options and criteria go together. -/
theorem cells_le (h : ∀ entry ∈ cells, ∃ option criterion, GoodCell options criteria entry option criterion)
    (hnodup : (cells.map Prod.fst).Nodup) : cells.length ≤ options.length * criteria.length := by
  have hsubset : cells.map Prod.fst ⊆
      (options ×ˢ criteria).map fun pair ↦ pair.1.getD [] ++ 0x2f :: pair.2.getD [] := by
    refine List.forall_mem_map.2 fun entry hentry ↦ ?_
    obtain ⟨option, criterion, hgood⟩ := h entry hentry
    refine List.mem_map.2 ⟨(some option, some criterion), ?_, hgood.split.symm⟩
    exact List.mem_product.2 ⟨hgood.row, hgood.column⟩
  have hle := (List.subperm_of_subset hnodup hsubset).length_le
  rwa [List.length_map, List.length_map, List.length_product] at hle

/-- What is checked of a cell is that it is one of the matrix. -/
theorem goodCell_of_checkCell {ids columns : List Units}
    (h : checkCell ids columns entry.1 entry.2 = true) (hrows : ∀ id ∈ ids, some id ∈ options)
    (hcolumns : ∀ id ∈ columns, some id ∈ criteria) :
    ∃ option ∈ ids, ∃ criterion ∈ columns, GoodCell options criteria entry option criterion := by
  obtain ⟨slash, hslash, hcell⟩ := (Option.any_eq_true _ _).1 h
  simp only [Bool.and_eq_true, decide_eq_true_eq, List.contains_iff_mem] at hcell
  obtain ⟨⟨⟨hone, hrow⟩, hcolumn⟩, hmark⟩ := hcell
  obtain ⟨option, criterion, hsplit, hplain, rfl⟩ := lastIndexOf_split hslash
  have hoption : entry.1.take option.length = option := by
    rw [hsplit]
    exact List.take_left
  have hcriterion : entry.1.drop (option.length + 1) = criterion := by
    rw [hsplit, List.append_cons]
    exact List.drop_left' (by simp)
  rw [hoption] at hrow
  rw [hcriterion] at hcolumn
  exact ⟨option, hrow, criterion, hcolumn, hsplit, hrows option hrow, List.length_pos_iff.1 hone,
    hcolumns criterion hcolumn, hplain, hmark⟩

end Chopin.Mdx.Questionnaires
