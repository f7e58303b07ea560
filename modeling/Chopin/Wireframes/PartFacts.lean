import Chopin.Lib.Lists
import Chopin.Wireframes.Parse

/-!
# What one line says

A part that `readNode` reads is as its kind allows: each token that is read keeps that so far, and at the end nothing
that the kind requires is missing.
-/

set_option autoImplicit false
set_option linter.dupNamespace false

open Script

namespace Chopin.Wireframes

/-! ## Texts -/

/-- A text that can be written: more than white space, at most 200 units, no control character but line ends. -/
def Legible (text : Units) : Prop := checkText (oneLine text) = none

variable {text : Units}

theorem checkText_eq_none : checkText text = none ↔
      trimUnits text ≠ [] ∧ text.length ≤ maxLabel ∧ ∀ unit ∈ text, control unit = false := by
  rw [checkText]
  split_ifs with hempty hlong hcontrol
  · simp [List.isEmpty_iff.1 hempty]
  · simp [Nat.not_le.2 hlong]
  · obtain ⟨unit, hunit, hbad⟩ := List.any_eq_true.1 hcontrol
    simp only [false_iff]
    exact fun h ↦ by simp [h.2.2 unit hunit] at hbad
  · simp only [List.any_eq_true, not_exists, not_and, Bool.not_eq_true] at hcontrol
    exact iff_of_true rfl ⟨fun h ↦ hempty (List.isEmpty_iff.2 h), Nat.le_of_not_lt hlong, hcontrol⟩

/-- A text of one line. -/
theorem oneLine_eq_self (h : ∀ unit ∈ text, control unit = false) : oneLine text = text := by
  refine List.map_eq_self.2 fun unit hunit ↦ if_neg fun hline ↦ ?_
  exact absurd (h unit hunit) (by rw [hline]; decide)

theorem Legible.of_checkText (h : checkText text = none) : Legible text := by
  rwa [Legible, oneLine_eq_self (checkText_eq_none.1 h).2.2]

variable {value : Units}

variable {line rest : Units}

theorem readQuoted_legible (h : readQuoted value line = .ok (text, rest)) : Legible text := by
  fun_induction readQuoted value line with
  | case4 value rest hspace hnone =>
    cases h
    exact hnone
  | case6 value _ next rest hnext ih => exact ih h
  | case7 value _ rest _ ih => exact ih h
  | case11 value unit rest hquote hslash hcontrol hlong ih => exact ih h
  | _ => simp at h

theorem readItem_legible (h : readItem line = .ok text) : Legible text := by
  cases line with
  | nil => cases h
  | cons unit rest =>
    rw [readItem] at h
    split_ifs at h with hquote
    · split at h
      · cases h
      · rename_i value rest hread
        split_ifs at h
        cases h
        exact readQuoted_legible hread
    · split at h
      · cases h
      · cases h
        exact .of_checkText ‹_›

/-! ## Parts -/

/-- A property accepts the value. -/
def Value.Allows (value : Units) : Value → Prop
  | .words allowed => value ∈ allowed
  | .text => True
  | .count => isCount value = true

variable {key : Units}

theorem refusedValue_eq_none {allowed : Value} : refusedValue key value allowed = none ↔ allowed.Allows value := by
  cases allowed <;> simp [refusedValue, Value.Allows]

/-- What has been read of a part is what its kind allows. -/
structure Part.Allowed (part : Part) : Prop where
  label : ∀ label ∈ part.label, part.kind.spec.label ≠ .none ∧ Legible label
  id : ∀ id ∈ part.id, isId id = true ∧ id.length ≤ maxId
  flags : ∀ flag ∈ part.flags, flag ∈ part.kind.spec.flags
  flagsOnce : part.flags.Nodup
  props : ∀ key value, (key, value) ∈ part.props →
    Legible value ∧ ∃ allowed, part.kind.spec.props.lookup key = some allowed ∧ allowed.Allows value
  propsOnce : (part.props.map Prod.fst).Nodup
  target : ∀ target ∈ part.target,
    part.kind.spec.target = true ∧ isTarget target = true ∧ target ≠ Kind.note.name

/-- A part that has all that its kind requires. -/
structure Part.Sound (part : Part) : Prop extends part.Allowed where
  labelled : part.kind.spec.label = .required → part.label.isSome = true
  targeted : part.kind.spec.target = true → part.target.isSome = true

/-- Reading a token leaves the kind, the items and the lines of the part. -/
structure Part.Reads (part next : Part) : Prop where
  kind : next.kind = part.kind
  items : next.items = part.items
  span : next.span = part.span

variable {next : Part}

variable {part : Part}

theorem readLabel_allowed (h : readLabel part line = .ok (next, rest))
    (hpart : part.Allowed) : next.Allowed ∧ part.Reads next := by
  rw [readLabel] at h
  split_ifs at h with hlabel hnone
  split at h
  · cases h
  · rename_i hread
    cases h
    refine ⟨{ hpart with label := fun label hfound ↦ ?_ }, rfl, rfl, rfl⟩
    cases hfound
    exact ⟨hnone, readQuoted_legible hread⟩

theorem readId_allowed (h : readId part line = .ok (next, rest))
    (hpart : part.Allowed) : next.Allowed ∧ part.Reads next := by
  rw [readId] at h
  split_ifs at h with hid hbad hlong
  cases h
  refine ⟨{ hpart with id := fun id hfound ↦ ?_ }, rfl, rfl, rfl⟩
  cases hfound
  exact ⟨by simpa using hbad, Nat.le_of_not_lt hlong⟩

theorem readTarget_allowed (h : readTarget part line = .ok (next, rest))
    (hpart : part.Allowed) : next.Allowed ∧ part.Reads next := by
  rw [readTarget] at h
  split_ifs at h with htakes htarget hempty hbad hnote
  cases h
  refine ⟨{ hpart with target := fun target hfound ↦ ?_ }, rfl, rfl, rfl⟩
  cases hfound
  exact ⟨by simpa using htakes, by simpa using hbad, hnote⟩

theorem readValue_legible (h : readValue key line = .ok (value, rest)) : Legible value := by
  rw [readValue] at h
  dsimp only at h
  split_ifs at h with hquote hempty hinner
  · exact readQuoted_legible h
  · split at h
    · cases h
    · cases h
      exact .of_checkText ‹_›

theorem readProp_allowed (h : readProp part key line = .ok (next, rest))
    (hpart : part.Allowed) : next.Allowed ∧ part.Reads next := by
  rw [readProp] at h
  split at h
  · cases h
  rename_i allowed hallowed
  split_ifs at h with hgiven
  split at h
  · cases h
  rename_i value rest' hread
  split at h
  · cases h
  rename_i hvalue
  cases h
  have hnew : key ∉ part.props.map Prod.fst := fun hkey ↦ by
    obtain ⟨⟨key, old⟩, hmem, rfl⟩ := List.mem_map.1 hkey
    exact hgiven (Option.isSome_iff_ne_none.2 fun hnone ↦ by simpa using List.lookup_eq_none_iff.1 hnone _ hmem)
  refine ⟨{ hpart with props := fun found value hfound ↦ ?_, propsOnce := ?_ }, rfl, rfl, rfl⟩
  · rcases List.mem_append.1 hfound with hold | hfound
    · exact hpart.props found value hold
    · cases List.mem_singleton.1 hfound
      exact ⟨readValue_legible hread, allowed, hallowed, refusedValue_eq_none.1 hvalue⟩
  · rw [List.map_append, List.nodup_append]
    exact ⟨hpart.propsOnce, by simp, fun found hfound other hother heq ↦
      hnew (by simpa [heq, List.mem_singleton.1 hother] using hfound)⟩

theorem readFlag_allowed (h : readFlag part line = .ok (next, rest))
    (hpart : part.Allowed) : next.Allowed ∧ part.Reads next := by
  rw [readFlag] at h
  split_ifs at h with hword hknown hgiven
  cases h
  refine ⟨{ hpart with flags := fun flag hfound ↦ ?_, flagsOnce := ?_ }, rfl, rfl, rfl⟩
  · rcases List.mem_append.1 hfound with hold | hfound
    · exact hpart.flags flag hold
    · rw [List.mem_singleton.1 hfound]
      simpa using hknown
  · rw [List.nodup_append]
    refine ⟨hpart.flagsOnce, by simp, fun flag hflag other hother heq ↦ hgiven ?_⟩
    rw [← List.mem_singleton.1 hother, ← heq]
    simpa using hflag

/-- **A token keeps a part allowed.** -/
theorem readToken_allowed (h : readToken part line = .ok (next, rest))
    (hpart : part.Allowed) : next.Allowed ∧ part.Reads next := by
  cases line with
  | nil =>
    cases h
    exact ⟨hpart, rfl, rfl, rfl⟩
  | cons unit line =>
    rw [readToken] at h
    split_ifs at h with hspace hquote hhash harrow
    · cases h
      exact ⟨hpart, rfl, rfl, rfl⟩
    · exact readLabel_allowed h hpart
    · exact readId_allowed h hpart
    · exact readTarget_allowed h hpart
    · split at h
      · exact readProp_allowed h hpart
      · exact readFlag_allowed h hpart

theorem readTokens_allowed {fuel : Nat} {last : Part} (h : readTokens fuel part line = .ok last)
    (hpart : part.Allowed) : last.Allowed ∧ part.Reads last := by
  induction fuel generalizing part line with
  | zero =>
    cases h
    exact ⟨hpart, rfl, rfl, rfl⟩
  | succ fuel ih =>
    rw [readTokens] at h
    split_ifs at h with hempty
    · cases h
      exact ⟨hpart, rfl, rfl, rfl⟩
    · split at h
      · cases h
      · obtain ⟨hnext, hreads⟩ := readToken_allowed ‹_› hpart
        obtain ⟨hlast, hmore⟩ := ih h hnext
        exact ⟨hlast, hmore.kind.trans hreads.kind, hmore.items.trans hreads.items, hmore.span.trans hreads.span⟩

theorem missing_eq_none : missing part = none ↔ (part.kind.spec.label = .required → part.label.isSome = true) ∧
      (part.kind.spec.target = true → part.target.isSome = true) := by
  rw [missing]
  split_ifs with hlabel htarget
  · simp [hlabel.1, hlabel.2]
  · simp [htarget.1, htarget.2]
  · simp only [true_iff]
    exact ⟨fun hrule ↦ Option.isSome_iff_ne_none.2 fun hnone ↦ hlabel ⟨hrule, hnone⟩,
      fun hrule ↦ Option.isSome_iff_ne_none.2 fun hnone ↦ htarget ⟨hrule, hnone⟩⟩

/-- **What a line says is a sound part**, on that line and without items. -/
theorem readNode_sound {number : Nat} (h : readNode line number = .ok part) :
    part.Sound ∧ part.items = [] ∧ part.span = ⟨number, number⟩ := by
  rw [readNode] at h
  split_ifs at h
  split at h
  · cases h
  split at h
  · cases h
  rename_i kind hkind last hread
  split at h
  · cases h
  rename_i hmissing
  cases h
  obtain ⟨hallowed, hreads⟩ := readTokens_allowed hread
    ⟨nofun, nofun, nofun, List.nodup_nil, nofun, List.nodup_nil, nofun⟩
  obtain ⟨hlabelled, htargeted⟩ := missing_eq_none.1 hmissing
  exact ⟨{ hallowed with labelled := hlabelled, targeted := htargeted }, hreads.items, hreads.span⟩

end Chopin.Wireframes
