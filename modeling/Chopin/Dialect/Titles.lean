import Chopin.Lib.Spaces

/-!
# Document titles

A document's title is the text of the level one heading it begins with, in one line of at most
`MAX_TITLE_LENGTH` code points.  `normalizeDocumentTitleTree` gives a tree such a heading, and leaves a tree
alone that has it.

## What is here

* `normalizeDocumentTitle`, `documentTitleText` and `normalizeDocumentTitleTree`, over trees whose nodes are
  objects: `object` is the node's identity.
* **`titles_settle_iff`**: a second pass changes nothing, and the tree's title is the normalized one, exactly
  when the cut does not fall behind a space.
* `cut_behind_space`: a title of fifty one characters that is cut twice.
-/

set_option autoImplicit false

open Script

namespace Chopin.Dialect

export Script (Units)

def MAX_TITLE_LENGTH : Nat := 50

/-- The text of a title, before it is cut: one line without space at its ends. -/
def titleLine (value : Units) : Units := trimUnits (collapse value)

def normalizeDocumentTitle (value : Units) : Units := ((spread (titleLine value)).take MAX_TITLE_LENGTH).flatten

/-- A node of the tree; a literal is a node that has no children. -/
inductive Node where
  | heading (object depth : Nat) (children : List Node)
  | parent (object : Nat) (type : String) (children : List Node)
  | text (object : Nat) (value : Units)
  | literal (object : Nat) (type : String) (value alt : Option Units)

structure Root where
  object : Nat
  children : List Node

mutual
def plainText : Node → Units
  | .heading _ _ children => plainTexts children
  | .parent _ _ children => plainTexts children
  | .text _ value => value
  | .literal _ _ value alt => value.getD (alt.getD [])

/-- `children.map(plainText).join("")` -/
def plainTexts : List Node → Units
  | [] => []
  | node :: rest => plainText node ++ plainTexts rest
end

/-- The children of the heading that is the title. -/
def titleHeading (root : Root) : Option (List Node) :=
  match root.children with
  | .heading _ depth children :: _ => if depth = 1 then some children else none
  | _ => none

def documentTitleText (root : Root) : Option Units :=
  (titleHeading root).map fun children ↦ normalizeDocumentTitle (plainTexts children)

/-- The title's heading holds the title, as one text, and nothing else. -/
def holdsTitle (title : Units) : List Node → Bool
  | [] => title = []
  | [.text _ value] => title ≠ [] && value = title
  | _ => false

/-- The objects a call makes. -/
structure Made where
  root : Nat
  heading : Nat
  text : Nat

def normalizeDocumentTitleTree (made : Made) (root : Root) (fallback : Units) (replacement : Option Units) : Root :=
  let existing := documentTitleText root
  let title := normalizeDocumentTitle (replacement.getD (existing.getD fallback))
  if ((titleHeading root).map (holdsTitle title)).getD false then root
  else
    let heading := Node.heading made.heading 1 (if title = [] then [] else [.text made.text title])
    { object := made.root, children := heading :: root.children.drop (if existing = none then 0 else 1) }

/-! ## The cut -/

/-- The last code point that is kept is no space. -/
def Fits (value : Units) : Prop := (spread (titleLine value))[MAX_TITLE_LENGTH - 1]? ≠ some [0x20]

instance (value : Units) : Decidable (Fits value) := inferInstanceAs (Decidable (_ ≠ _))

theorem titleLine_trimmed (value : Units) : Trimmed (titleLine value) := trimUnits_trimmed _

theorem titleLine_spaced (value : Units) : Spaced (titleLine value) :=
  (collapse_spaced value).part (trimUnits_part _)

/-- What is cut off stands behind the title. -/
theorem titleLine_eq (value : Units) : titleLine value =
    normalizeDocumentTitle value ++ ((spread (titleLine value)).drop MAX_TITLE_LENGTH).flatten := by
  rw [normalizeDocumentTitle, ← List.flatten_append, List.take_append_drop, spread_flatten]

theorem normalize_spaced (value : Units) : Spaced (normalizeDocumentTitle value) := by
  have hfront : normalizeDocumentTitle value <+: titleLine value := ⟨_, (titleLine_eq value).symm⟩
  exact (titleLine_spaced value).part hfront.isInfix

theorem normalize_characters (value : Units) : (spread (normalizeDocumentTitle value)).length ≤ MAX_TITLE_LENGTH := by
  rw [normalizeDocumentTitle, spread_take]
  exact List.length_take_le _ _

theorem normalize_first {value : Units} {unit : Nat} (h : unit ∈ (normalizeDocumentTitle value).head?) :
    isSpaceUnit unit = false := by
  refine (titleLine_trimmed value).first unit ?_
  rw [titleLine_eq]
  cases hcut : normalizeDocumentTitle value with
  | nil => rw [hcut] at h; exact nomatch h
  | cons first rest => rw [hcut] at h; exact h

/-- **A title ends with a space exactly when the cut falls behind one.** -/
theorem normalize_last_iff (value : Units) :
    (∀ unit ∈ (normalizeDocumentTitle value).getLast?, isSpaceUnit unit = false) ↔ Fits value := by
  rw [Fits]
  cases hlast : (spread (titleLine value))[MAX_TITLE_LENGTH - 1]? with
  | none =>
    -- Nothing is cut off.
    have hshort : (spread (titleLine value)).length ≤ MAX_TITLE_LENGTH - 1 := List.getElem?_eq_none_iff.1 hlast
    have hwhole : normalizeDocumentTitle value = titleLine value := by
      rw [normalizeDocumentTitle, List.take_of_length_le (hshort.trans (Nat.sub_le _ _)), spread_flatten]
    rw [hwhole]
    exact ⟨fun _ ↦ nofun, fun _ ↦ (titleLine_trimmed value).last⟩
  | some piece =>
    have htake : (spread (titleLine value)).take MAX_TITLE_LENGTH =
        (spread (titleLine value)).take (MAX_TITLE_LENGTH - 1) ++ [piece] := by
      rw [show MAX_TITLE_LENGTH = MAX_TITLE_LENGTH - 1 + 1 from rfl, List.take_add_one, hlast]
      rfl
    have hcut : normalizeDocumentTitle value =
        ((spread (titleLine value)).take (MAX_TITLE_LENGTH - 1)).flatten ++ piece := by
      rw [normalizeDocumentTitle, htake, List.flatten_append, List.flatten_singleton]
    rcases mem_spread (List.mem_of_getElem? hlast) with ⟨unit, rfl⟩ | ⟨first, second, rfl, hlow⟩
    · rw [hcut, List.getLast?_append]
      simp only [List.getLast?_singleton, Option.some_or, Option.mem_some_iff, forall_eq', ne_eq, Option.some.injEq,
        List.cons.injEq, and_true]
      have hmem : unit ∈ titleLine value := by
        rw [titleLine_eq, hcut]
        simp
      constructor
      · rintro hspace rfl
        exact absurd hspace (by decide)
      · intro hne
        by_contra hspace
        exact hne ((titleLine_spaced value).space unit hmem (Bool.not_eq_false _ ▸ hspace))
    · rw [hcut, List.getLast?_append]
      simp only [List.getLast?_cons_cons, List.getLast?_singleton, Option.some_or, Option.mem_some_iff, forall_eq',
        isSpaceUnit_of_low hlow, true_iff]
      exact fun heq ↦ nomatch (Option.some.inj heq)

/-- A title that fits is normalized. -/
theorem normalize_eq_self {value : Units} (hspaced : Spaced value) (htrimmed : Trimmed value)
    (hshort : (spread value).length ≤ MAX_TITLE_LENGTH) : normalizeDocumentTitle value = value := by
  have hline : titleLine value = value := by
    rw [titleLine, collapse_eq_self hspaced, trimUnits_eq_self_iff.2 htrimmed]
  rw [normalizeDocumentTitle, hline, List.take_of_length_le hshort, spread_flatten]

/-- **Normalizing twice is normalizing once, unless the cut falls behind a space.** -/
theorem normalize_normalize_iff (value : Units) :
    normalizeDocumentTitle (normalizeDocumentTitle value) = normalizeDocumentTitle value ↔ Fits value := by
  constructor
  · intro h
    -- A fixed point is its own line, so nothing was trimmed from it.
    have hline : titleLine (normalizeDocumentTitle value) = trimUnits (normalizeDocumentTitle value) := by
      rw [titleLine, collapse_eq_self (normalize_spaced value)]
    have hbehind := titleLine_eq (normalizeDocumentTitle value)
    rw [h, hline] at hbehind
    have hshorter := (trimUnits_part (normalizeDocumentTitle value)).length_le
    have hfixed : trimUnits (normalizeDocumentTitle value) = normalizeDocumentTitle value := by
      generalize ((spread (trimUnits (normalizeDocumentTitle value))).drop MAX_TITLE_LENGTH).flatten = behind at hbehind
      rw [hbehind, List.length_append] at hshorter
      rw [hbehind, List.eq_nil_of_length_eq_zero (l := behind) (by omega), List.append_nil]
    exact (normalize_last_iff value).1 (trimUnits_eq_self_iff.1 hfixed).last
  · intro h
    exact normalize_eq_self (normalize_spaced value) ⟨fun _ ↦ normalize_first, (normalize_last_iff value).2 h⟩
      (normalize_characters value)

/-- A normalized title fits, even one that still ends with a space: only that is left to remove. -/
theorem fits_normalize (value : Units) : Fits (normalizeDocumentTitle value) := by
  have hline : titleLine (normalizeDocumentTitle value) = trimUnits (normalizeDocumentTitle value) := by
    rw [titleLine, collapse_eq_self (normalize_spaced value)]
  have hfront : trimUnits (normalizeDocumentTitle value) <+: normalizeDocumentTitle value := by
    have hhead : (normalizeDocumentTitle value).dropWhile isSpaceUnit = normalizeDocumentTitle value := by
      cases hcut : normalizeDocumentTitle value with
      | nil => rfl
      | cons unit rest =>
        have hunit : isSpaceUnit unit = false := normalize_first (by rw [hcut]; rfl)
        rw [List.dropWhile_cons_of_neg (by rw [hunit]; exact Bool.false_ne_true)]
    have hback := List.rdropWhile_prefix isSpaceUnit ((normalizeDocumentTitle value).dropWhile isSpaceUnit)
    rw [hhead] at hback
    rw [trimUnits, hhead]
    exact hback
  have hshort : (spread (titleLine (normalizeDocumentTitle value))).length ≤ MAX_TITLE_LENGTH := by
    obtain ⟨behind, hbehind⟩ := hfront
    have hle := spread_length_le (trimUnits (normalizeDocumentTitle value)) behind
    rw [hbehind] at hle
    rw [hline]
    exact hle.trans (normalize_characters value)
  refine (normalize_last_iff _).1 ?_
  rw [normalizeDocumentTitle, List.take_of_length_le hshort, spread_flatten]
  exact (titleLine_trimmed _).last

/-! ## The tree -/

/-- The text the title of a tree is made from. -/
def titleSource (root : Root) (fallback : Units) (replacement : Option Units) : Units :=
  replacement.getD ((documentTitleText root).getD fallback)

/-- The blocks of a document below its title. -/
def body (root : Root) : List Node := root.children.drop (if (titleHeading root).isSome then 1 else 0)

variable {children : List Node}

theorem plainTexts_of_holdsTitle {title : Units} (h : holdsTitle title children = true) :
    plainTexts children = title := by
  unfold holdsTitle at h
  split at h
  · exact (of_decide_eq_true h).symm
  · rename_i value
    rw [plainTexts, plainTexts, plainText, List.append_nil]
    exact of_decide_eq_true (Bool.and_eq_true_iff.1 h).2
  · cases h

/-- **The tree begins with a heading that holds the title, and keeps its body.** -/
theorem normalizeDocumentTitleTree_spec (made : Made) (root : Root) (fallback : Units) (replacement : Option Units) :
    (∃ children, titleHeading (normalizeDocumentTitleTree made root fallback replacement) = some children ∧
      holdsTitle (normalizeDocumentTitle (titleSource root fallback replacement)) children = true) ∧
    body (normalizeDocumentTitleTree made root fallback replacement) = body root := by
  rw [normalizeDocumentTitleTree]
  simp only [← titleSource.eq_def]
  generalize normalizeDocumentTitle (titleSource root fallback replacement) = title
  split
  · rename_i hholds
    cases hheading : titleHeading root with
    | none => rw [hheading] at hholds; exact nomatch hholds
    | some children => rw [hheading] at hholds; exact ⟨⟨children, rfl, hholds⟩, rfl⟩
  · refine ⟨⟨_, rfl, ?_⟩, ?_⟩
    · split
      · rename_i hnil; rw [hnil]; rfl
      · rename_i hne; simp [holdsTitle, hne]
    · rw [body, body, documentTitleText]
      cases titleHeading root <;> rfl

theorem documentTitleText_normalized (made : Made) (root : Root) (fallback : Units) (replacement : Option Units) :
    documentTitleText (normalizeDocumentTitleTree made root fallback replacement) =
      some (normalizeDocumentTitle (normalizeDocumentTitle (titleSource root fallback replacement))) := by
  obtain ⟨⟨children, hheading, hholds⟩, -⟩ := normalizeDocumentTitleTree_spec made root fallback replacement
  rw [documentTitleText, hheading, Option.map_some, plainTexts_of_holdsTitle hholds]

/-- A tree that holds the title it would be given is left alone. -/
theorem normalizeDocumentTitleTree_eq_self {made : Made} {root : Root} {fallback : Units} {replacement : Option Units} (hheading : titleHeading root = some children)
    (hholds : holdsTitle (normalizeDocumentTitle (titleSource root fallback replacement)) children = true) :
    normalizeDocumentTitleTree made root fallback replacement = root := by
  rw [titleSource] at hholds
  rw [normalizeDocumentTitleTree]
  simp only [hheading, Option.map_some, Option.getD_some, hholds, if_true]

/-! ## The main result -/

/-- Normalizing a title settles it: a second time changes nothing, and it is short and has no space at its ends. -/
structure TitleSettles (value : Units) : Prop where
  again : normalizeDocumentTitle (normalizeDocumentTitle value) = normalizeDocumentTitle value
  short : (spread (normalizeDocumentTitle value)).length ≤ MAX_TITLE_LENGTH
  trimmed : Trimmed (normalizeDocumentTitle value)

/-- Normalizing a tree settles it: its title is the normalized one, a second time changes nothing, with the same
arguments or on the next open, and the body's blocks are the same objects in the same order. -/
structure TreeSettles (made : Made) (root : Root) (fallback : Units) (replacement : Option Units) : Prop where
  title : documentTitleText (normalizeDocumentTitleTree made root fallback replacement) =
    some (normalizeDocumentTitle (titleSource root fallback replacement))
  again : ∀ next, normalizeDocumentTitleTree next (normalizeDocumentTitleTree made root fallback replacement)
    fallback replacement = normalizeDocumentTitleTree made root fallback replacement
  opened : ∀ next other, normalizeDocumentTitleTree next (normalizeDocumentTitleTree made root fallback replacement)
    other none = normalizeDocumentTitleTree made root fallback replacement
  kept : body (normalizeDocumentTitleTree made root fallback replacement) = body root

/-- What a title is taken from fits: the replacement, or the fallback of a document that has no title. -/
def SourceFits (root : Root) (fallback : Units) (replacement : Option Units) : Prop :=
  (∀ given ∈ replacement, Fits given) ∧ (replacement = none → titleHeading root = none → Fits fallback)

theorem sourceFits_iff (root : Root) (fallback : Units) (replacement : Option Units) :
    SourceFits root fallback replacement ↔ Fits (titleSource root fallback replacement) := by
  rw [SourceFits, titleSource, documentTitleText]
  cases replacement with
  | some given => simp
  | none =>
    cases titleHeading root with
    | none => simp
    | some children => simpa using fits_normalize _

theorem titleSettles_iff (value : Units) : TitleSettles value ↔ Fits value :=
  ⟨fun h ↦ (normalize_normalize_iff value).1 h.again, fun h ↦ ⟨(normalize_normalize_iff value).2 h,
    normalize_characters value, fun _ ↦ normalize_first, (normalize_last_iff value).2 h⟩⟩

theorem treeSettles_iff (made : Made) (root : Root) (fallback : Units) (replacement : Option Units) :
    TreeSettles made root fallback replacement ↔ SourceFits root fallback replacement := by
  rw [sourceFits_iff, ← normalize_normalize_iff]
  constructor
  · intro h
    exact Option.some.inj ((documentTitleText_normalized made root fallback replacement).symm.trans h.title)
  · intro h
    obtain ⟨⟨children, hheading, hholds⟩, hbody⟩ := normalizeDocumentTitleTree_spec made root fallback replacement
    have htext := documentTitleText_normalized made root fallback replacement
    rw [h] at htext
    refine ⟨htext, fun next ↦ normalizeDocumentTitleTree_eq_self hheading ?_,
      fun next other ↦ normalizeDocumentTitleTree_eq_self hheading ?_, hbody⟩
    · -- Without a replacement the title is taken from the tree, where it is normalized already.
      rw [titleSource, htext, Option.getD_some]
      cases replacement with
      | none => rw [Option.getD_none, h]; exact hholds
      | some given => exact hholds
    · rw [titleSource, htext, Option.getD_none, Option.getD_some, h]
      exact hholds

/-- **Titles settle exactly when the cut does not fall behind a space.**  A normalized title is normalized again
to itself, and a tree's title is the normalized one and stays as it is, if and only if the last code point of
the line that is kept is no space. -/
theorem titles_settle_iff (value : Units) (made : Made) (root : Root) (fallback : Units) (replacement : Option Units) :
    (TitleSettles value ↔ Fits value) ∧
    (TreeSettles made root fallback replacement ↔ SourceFits root fallback replacement) :=
  ⟨titleSettles_iff value, treeSettles_iff made root fallback replacement⟩

/-- **A title that is cut twice.**  The first cut of `a…a b` leaves a space at the end, the second trims it. -/
theorem cut_behind_space :
    normalizeDocumentTitle (List.replicate 49 0x61 ++ utf16 " b") = List.replicate 49 0x61 ++ utf16 " " ∧
    normalizeDocumentTitle (normalizeDocumentTitle (List.replicate 49 0x61 ++ utf16 " b")) ≠
      normalizeDocumentTitle (List.replicate 49 0x61 ++ utf16 " b") := by decide

end Chopin.Dialect
