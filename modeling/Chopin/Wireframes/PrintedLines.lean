import Chopin.Wireframes.LineFacts
import Chopin.Wireframes.PrintedParts

/-!
# Printed lines, read again

A printed line has its indentation in front and no white space at its end, and no line end within.  So it is split
off and read on its own, with the frames closed that are indented as much.
-/

set_option autoImplicit false
set_option linter.dupNamespace false

open Script

namespace Chopin.Wireframes

/-! ## Solid texts -/

/-- A text without control characters that does not end in a space. -/
structure Solid (text : Units) : Prop where
  full : text ≠ []
  plain : ∀ unit ∈ text, control unit = false
  ends : ∀ unit ∈ text.getLast?, State.blank unit = false

theorem Solid.append {front back : Units} (hfront : ∀ unit ∈ front, control unit = false) (h : Solid back) :
    Solid (front ++ back) where
  full := fun hnil ↦ h.full (List.append_eq_nil_iff.1 hnil).2
  plain := List.forall_mem_append.2 ⟨hfront, h.plain⟩
  ends := by
    rw [List.getLast?_append_of_ne_nil _ h.full]
    exact h.ends

theorem solid_lower {word : Units} (hfull : word ≠ []) (hword : ∀ unit ∈ word, lower unit = true) : Solid word where
  full := hfull
  plain := fun unit hunit ↦ by
    have hrange := hword unit hunit
    simp only [lower, Bool.and_eq_true, decide_eq_true_eq] at hrange
    simp only [control, Bool.or_eq_false_iff, decide_eq_false_iff_not, beq_eq_false_iff_ne]
    omega
  ends := fun unit hunit ↦ (lower_ne (hword unit (List.mem_of_getLast? hunit))).2.2.2.2.2

variable {unit : Nat}

theorem escape_plain {found : Nat} (h : control unit = true → unit = newline) (hfound : found ∈ escape unit) :
    control found = false := by
  rw [escape] at hfound
  split_ifs at hfound with hslash hline
  · rcases hslash with rfl | rfl <;> simp at hfound <;> rcases hfound with rfl | rfl <;> rfl
  · simp at hfound
    rcases hfound with rfl | rfl <;> rfl
  · rw [List.mem_singleton.1 hfound]
    exact Bool.eq_false_iff.2 fun hcontrol ↦ hline (h hcontrol)

theorem solid_quote {text : Units} (h : Legible text) : Solid (quote text) := by
  have hquote : Solid [doubleQuote] :=
    ⟨List.cons_ne_nil _ _, List.forall_mem_singleton.2 rfl, fun unit hunit ↦ by rw [← Option.some.inj hunit]; rfl⟩
  rw [quote, ← List.cons_append]
  refine .append (List.forall_mem_cons.2 ⟨rfl, fun unit hunit ↦ ?_⟩) hquote
  obtain ⟨inner, hinner, hunit⟩ := List.mem_flatMap.1 hunit
  exact escape_plain (h.control inner hinner) hunit

/-- A unit that is no white space is neither a space nor a tab. -/
theorem blank_of_not_space (h : isSpaceUnit unit = false) : State.blank unit = false := by
  rw [State.blank, Bool.or_eq_false_iff, beq_eq_false_iff_ne, beq_eq_false_iff_ne]
  constructor <;> rintro rfl <;> exact absurd h (by decide)

theorem solid_value {value : Units} (h : Legible value) : Solid (printedValue value) := by
  rw [printedValue]
  split_ifs with hbare
  · simp only [bareValue, Bool.and_eq_true, Bool.not_eq_true', List.isEmpty_eq_false_iff, List.all_eq_true] at hbare
    obtain ⟨⟨hfull, hplain⟩, hcontrol⟩ := hbare
    exact ⟨hfull, fun unit hunit ↦ by simpa using List.any_eq_false.1 hcontrol unit hunit,
      fun unit hunit ↦ blank_of_not_space (hplain unit (List.mem_of_getLast? hunit)).1⟩
  · exact solid_quote h

theorem solid_text {text : Units} (h : Legible text) : Solid (printedText text) := by
  refine ⟨printedText_ne_nil text, ?_, fun unit hunit ↦ blank_of_not_space ((printedText_trimmed text).last unit hunit)⟩
  rw [printedText]
  split_ifs with hbare
  · exact fun unit hunit ↦ by simpa using List.any_eq_false.1 (bareText_spec hbare).2.2.2 unit hunit
  · exact (solid_quote h).plain

theorem solid_id {id : Units} (h : isId id = true) : Solid id where
  full := (isId_ne h).1
  plain := fun unit hunit ↦ by
    rw [isId, Bool.and_eq_true, List.all_eq_true] at h
    have hclass := h.2 unit hunit
    simp only [lower, upper, digit, dash, Bool.or_eq_true, Bool.and_eq_true, decide_eq_true_eq, beq_iff_eq] at hclass
    simp only [control, Bool.or_eq_false_iff, decide_eq_false_iff_not, beq_eq_false_iff_ne]
    omega
  ends := fun unit hunit ↦ by
    obtain ⟨hspace, htab⟩ := (isId_ne h).2 unit (List.mem_of_getLast? hunit)
    rw [State.blank, Bool.or_eq_false_iff, beq_eq_false_iff_ne, beq_eq_false_iff_ne]
    exact ⟨hspace, htab⟩

theorem solid_target {target : Units} (h : isTarget target = true) : Solid target := by
  rw [isTarget] at h
  split_ifs at h with hhash
  · cases target with
    | nil => cases hhash
    | cons unit rest =>
      rw [Option.some.inj hhash]
      exact @Solid.append [hash] _ (List.forall_mem_singleton.2 rfl) (solid_id h)
  · obtain ⟨kind, hkind⟩ := Option.isSome_iff_exists.1 h
    rw [kindOf_eq_some hkind]
    exact solid_lower kind.name_lower.1 kind.name_lower.2

variable {part : Part}

theorem Part.Sound.tokens_solid (h : part.Sound) : ∀ token ∈ tokens part, Solid token := by
  intro token htoken
  simp only [tokens, List.mem_append, Option.mem_toList, Option.map_eq_some_iff, List.mem_map] at htoken
  rcases htoken with (((⟨label, hlabel, rfl⟩ | ⟨id, hid, rfl⟩) | hflag) | ⟨⟨key, value⟩, hentry, rfl⟩) |
    ⟨target, htarget, rfl⟩
  · exact solid_quote (h.label label hlabel).2
  · exact @Solid.append [hash] _ (List.forall_mem_singleton.2 rfl) (solid_id (h.id id hid).1)
  · obtain ⟨hfull, hlower⟩ := part.kind.flags_lower token (h.flags token hflag)
    exact solid_lower hfull hlower
  · obtain ⟨htext, allowed, hallowed, -⟩ := h.props key value hentry
    obtain ⟨before, after, hprops, -⟩ := List.lookup_eq_some_iff.1 hallowed
    obtain ⟨hfull, -, hlower⟩ := part.kind.keys_lower key (by simp [hprops])
    have hequals : ∀ unit ∈ [equals], control unit = false := List.forall_mem_singleton.2 rfl
    exact .append (solid_lower hfull hlower).plain (.append hequals (solid_value htext))
  · have harrow : ∀ unit ∈ arrow ++ [space], control unit = false := by decide
    have hsolid := Solid.append harrow (solid_target (h.target target htarget).2.1)
    rwa [List.append_assoc] at hsolid

theorem Solid.spaced {first : Units} {tokens : List Units} (h : Solid first) (htokens : ∀ token ∈ tokens, Solid token) :
    Solid (first ++ spaced tokens) := by
  induction tokens generalizing first with
  | nil => rwa [Wireframes.spaced, List.flatMap_nil, List.append_nil]
  | cons token rest ih =>
    have htoken := ih (htokens token List.mem_cons_self) fun other hother ↦
      htokens other (List.mem_cons_of_mem _ hother)
    have hspace : ∀ unit ∈ first ++ [space], control unit = false :=
      List.forall_mem_append.2 ⟨h.plain, List.forall_mem_singleton.2 rfl⟩
    have hsolid := Solid.append hspace htoken
    rwa [List.append_assoc] at hsolid

/-- What stands on the line of a part, after the indentation. -/
theorem Part.Sound.line_solid (h : part.Sound) : Solid ([space].intercalate (part.kind.name :: tokens part)) := by
  rw [intercalate_space]
  exact (solid_lower part.kind.name_lower.1 part.kind.name_lower.2).spaced h.tokens_solid

theorem indentation_plain (depth : Nat) : ∀ unit ∈ indentation depth, unit = space :=
  fun _ hunit ↦ List.eq_of_mem_replicate hunit

theorem printedPart_solid (h : part.Sound) (depth : Nat) : Solid (printedPart depth part) :=
  .append (fun unit hunit ↦ by rw [indentation_plain depth unit hunit]; rfl) h.line_solid

theorem printedItem_solid {item : Item} (h : Legible item.text) (depth : Nat) : Solid (printedItem depth item) := by
  refine .append (List.forall_mem_append.2 ⟨fun unit hunit ↦ ?_, by decide⟩) (solid_text h)
  rw [indentation_plain depth unit hunit]
  rfl

/-! ## Lines -/

theorem splitLines_cons {rest first : Units} {others : List Units} (h : control unit = false)
    (hrest : splitLines rest = first :: others) : splitLines (unit :: rest) = (unit :: first) :: others := by
  have hreturn : unit ≠ 0xd := by rintro rfl; exact absurd h (by decide)
  have hnewline : unit ≠ 0xa := by rintro rfl; exact absurd h (by decide)
  rw [splitLines.eq_4 _ _ (fun _ heq _ ↦ hreturn heq) hnewline, hrest]

theorem splitLines_line {line rest : Units} (h : ∀ unit ∈ line, control unit = false) :
    splitLines (line ++ newline :: rest) = line :: splitLines rest := by
  induction line with
  | nil => rfl
  | cons unit line ih =>
    exact splitLines_cons (h unit List.mem_cons_self) (ih fun other hother ↦ h other (List.mem_cons_of_mem _ hother))

theorem splitLines_last {line : Units} (h : ∀ unit ∈ line, control unit = false) : splitLines line = [line] := by
  induction line with
  | nil => rfl
  | cons unit line ih =>
    exact splitLines_cons (h unit List.mem_cons_self) (ih fun other hother ↦ h other (List.mem_cons_of_mem _ hother))

/-- **Lines that are joined are split again.** -/
theorem splitLines_join {lines : List Units} (hfull : lines ≠ [])
    (h : ∀ line ∈ lines, ∀ unit ∈ line, control unit = false) : splitLines ([newline].intercalate lines) = lines := by
  induction lines with
  | nil => exact absurd rfl hfull
  | cons line rest ih =>
    cases rest with
    | nil =>
      rw [List.intercalate_singleton]
      exact splitLines_last (h line List.mem_cons_self)
    | cons next rest =>
      rw [List.intercalate_cons_cons, List.append_assoc, List.singleton_append,
        splitLines_line (h line List.mem_cons_self),
        ih (List.cons_ne_nil _ _) fun other hother ↦ h other (List.mem_cons_of_mem _ hother)]

namespace State

variable {state : State} {number depth : Nat}

/-- A line that is indented by a level for each open frame. -/
theorem line_indented {word : Units} (hword : Solid word) (hfirst : ∀ unit ∈ word.head?, blank unit = false)
    (hdeep : (state.close (2 * depth)).tooDeep (2 * depth) = false) :
    state.line number (indentation depth ++ word) =
      if word = [dash] ∨ [dash, space].isPrefixOf word = true then
        (state.close (2 * depth)).itemLine (2 * depth) number word
      else (state.close (2 * depth)).nodeLine (2 * depth) number word := by
  have hplain : ∀ unit ∈ indentation depth, control unit = false := fun unit hunit ↦ by
    rw [indentation_plain depth unit hunit]; rfl
  have hsolid := Solid.append hplain hword
  have htrim : (indentation depth ++ word).rdropWhile blank = indentation depth ++ word := by
    rw [List.rdropWhile_eq_self_iff]
    exact fun hne ↦ by simp [hsolid.ends _ (List.getLast?_eq_some_getLast hne)]
  have hindent : (indentation depth ++ word).takeWhile blank = indentation depth :=
    takeWhile_word (fun unit hunit ↦ by rw [indentation_plain depth unit hunit]; rfl) hfirst
  have hwidth : (indentation depth).length = 2 * depth := List.length_replicate
  have htab : (indentation depth).contains tab = false := by
    simpa using fun hmem ↦ absurd (indentation_plain depth _ hmem) (by decide)
  have hdrop : (indentation depth ++ word).drop (2 * depth) = word := by
    rw [← hwidth, List.drop_left]
  have hempty : (indentation depth ++ word).isEmpty = false := List.isEmpty_eq_false_iff.2 hsolid.full
  have heven : ¬2 * depth % 2 ≠ 0 := by omega
  rw [line]
  simp only [htrim, hindent, htab, hwidth, hdrop, hempty]
  rw [if_neg Bool.false_ne_true, if_neg Bool.false_ne_true, if_neg heven]
  exact if_neg (Bool.eq_false_iff.1 hdeep)

end State

end Chopin.Wireframes
