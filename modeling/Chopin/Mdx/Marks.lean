import Chopin.Lib.Lists
import Chopin.Mdx.Questionnaires
import Mathlib.Data.List.Induction

/-!
# Words and marks

Ids and marks are written into one attribute with spaces between them, and read back as the words of its value.  What
is written comes back exactly when each part is a word: not empty, and without white space (`words_join`).  A token of a
matrix is split at its last colon, so it comes back when the mark has none (`decode_encode`).
-/

set_option autoImplicit false

open Script

namespace Chopin.Mdx

/-! ## Words -/

/-- A part that is read back as it is written. -/
structure IsWord (value : Units) : Prop where
  nonempty : value ≠ []
  solid : ∀ unit ∈ value, isSpaceUnit unit = false

theorem mem_words {value word : Units} (h : word ∈ words value) : IsWord word := by
  rw [words, List.mem_filter, bne_iff_ne] at h
  exact ⟨h.2, List.mem_splitOnP h.1⟩

/-- White space around a value is no part of a word. -/
theorem words_cons_space {unit : Nat} (h : isSpaceUnit unit = true) (value : Units) :
    words (unit :: value) = words value := by
  rw [words, List.splitOnP_cons_eq_if_modifyHead, if_pos h, List.filter_cons_of_neg (by simp), words]

theorem words_concat_space {unit : Nat} (h : isSpaceUnit unit = true) (value : Units) :
    words (value ++ [unit]) = words value := by
  rw [words, List.splitOnP_append_cons _ _ h, List.splitOnP_nil, List.filter_append, words]
  simp

theorem words_trim (value : Units) : words (trimUnits value) = words value := by
  have hfront : ∀ value : Units, words (value.dropWhile isSpaceUnit) = words value := by
    intro value
    induction value with
    | nil => rfl
    | cons unit rest ih =>
      rw [List.dropWhile_cons]
      split
      · rename_i h
        rw [ih, words_cons_space h]
      · rfl
  have hback : ∀ value : Units, words (value.rdropWhile isSpaceUnit) = words value := by
    intro value
    induction value using List.reverseRecOn with
    | nil => rfl
    | append_singleton value unit ih =>
      by_cases h : isSpaceUnit unit = true
      · rw [List.rdropWhile_concat_pos _ _ _ h, ih, words_concat_space h]
      · rw [List.rdropWhile_concat_neg _ _ _ h]
  rw [trimUnits, hback, hfront]

end Chopin.Mdx

namespace Chopin.Mdx.Questionnaires

theorem splitOnP_join {first : Units} {rest : List Units} (h : ∀ part ∈ first :: rest, IsWord part) :
    (join (first :: rest)).splitOnP isSpaceUnit = first :: rest := by
  induction rest generalizing first with
  | nil =>
    rw [join, List.intercalate_singleton]
    exact List.splitOnP_eq_singleton (h first List.mem_cons_self).solid
  | cons second rest ih =>
    rw [join, List.intercalate_cons_cons, List.append_assoc, List.singleton_append,
      List.splitOnP_append_cons_of_forall_mem (h first List.mem_cons_self).solid _ (by decide)]
    exact congrArg (first :: ·) (ih fun part hpart ↦ h part (List.mem_cons_of_mem _ hpart))

/-- **What is joined is read back exactly when it is words.** -/
theorem words_join (parts : List Units) : words (join parts) = parts ↔ ∀ part ∈ parts, IsWord part := by
  constructor
  · intro h part hpart
    exact mem_words (h ▸ hpart)
  · intro h
    cases parts with
    | nil => rfl
    | cons first rest =>
      rw [words, splitOnP_join h, List.filter_eq_self]
      exact fun part hpart ↦ bne_iff_ne.2 (h part hpart).nonempty

end Chopin.Mdx.Questionnaires

namespace Chopin.Mdx

/-! ## The last place of a unit -/

theorem lastIndexOf_eq {unit : Nat} {front back : Units} (h : unit ∉ back) :
    lastIndexOf (front ++ unit :: back) unit = some front.length := by
  have hback : back.reverse.findIdx? (· == unit) = none := by
    rw [List.findIdx?_eq_none_iff]
    intro other hother
    rw [List.mem_reverse] at hother
    exact beq_eq_false_iff_ne.2 fun heq ↦ h (heq ▸ hother)
  have hfind : (front ++ unit :: back).reverse.findIdx? (· == unit) = some back.length := by
    rw [List.reverse_append, List.reverse_cons, List.append_assoc, List.findIdx?_append, hback]
    simp [List.findIdx?_cons]
  rw [lastIndexOf, hfind, Option.map_some]
  simp only [List.length_append, List.length_cons, Option.some.injEq]
  omega

/-- The parts around the place that is found. -/
theorem lastIndexOf_split {value : Units} {unit place : Nat} (h : lastIndexOf value unit = some place) :
    ∃ front back, value = front ++ unit :: back ∧ unit ∉ back ∧ front.length = place := by
  have hmem : unit ∈ value.reverse := by
    by_contra hno
    have hnone : value.reverse.findIdx? (· == unit) = none := by
      rw [List.findIdx?_eq_none_iff]
      exact fun other hother ↦ beq_eq_false_iff_ne.2 fun heq ↦ hno (heq ▸ hother)
    rw [lastIndexOf, hnone] at h
    cases h
  obtain ⟨after, before, hsplit, hafter⟩ := List.eq_append_cons_of_mem hmem
  have hvalue : value = before.reverse ++ unit :: after.reverse := by
    rw [← List.reverse_reverse value, hsplit]
    simp
  rw [hvalue, lastIndexOf_eq (by rwa [List.mem_reverse])] at h
  exact ⟨_, _, hvalue, by rwa [List.mem_reverse], Option.some.inj h⟩

end Chopin.Mdx

namespace Chopin.Mdx.Questionnaires

/-! ## Marks -/

/-- A mark as it is written. -/
def token (entry : Units × Units) : Units := entry.1 ++ [0x3a] ++ entry.2

/-- A cell and its mark that are read back from their token: two words, the second without a colon. -/
structure Legible (entry : Units × Units) : Prop where
  cell : IsWord entry.1
  field : entry.1 ≠ utf16 "__proto__"
  mark : IsWord entry.2
  plain : 0x3a ∉ entry.2

theorem isWord_append {first second : Units} (hfirst : IsWord first)
    (hsecond : ∀ unit ∈ second, isSpaceUnit unit = false) : IsWord (first ++ second) :=
  ⟨List.append_ne_nil_of_left_ne_nil hfirst.nonempty _, List.forall_mem_append.2 ⟨hfirst.solid, hsecond⟩⟩

variable {entry : Units × Units}

theorem isWord_token (h : IsWord entry.1 ∧ ∀ unit ∈ entry.2, isSpaceUnit unit = false) : IsWord (token entry) :=
  isWord_append (isWord_append h.1 (by decide)) h.2

variable {marks : Marks}

theorem set_new (hfield : entry.1 ≠ utf16 "__proto__")
    (hnew : entry.1 ∉ marks.cells.map Prod.fst) : (marks.set entry.1 entry.2).cells = marks.cells ++ [entry] := by
  rw [Marks.set, if_neg hfield]
  exact Entries.set_new hnew entry.2

theorem decodeMark_token (hcell : entry.1 ≠ []) (hplain : 0x3a ∉ entry.2) :
    decodeMark marks (token entry) = .ok (marks.set entry.1 entry.2) := by
  have hplace : lastIndexOf (token entry) 0x3a = some entry.1.length := by
    rw [token, List.append_assoc]
    exact lastIndexOf_eq hplain
  have hlength : 1 ≤ entry.1.length := List.length_pos_iff.2 hcell
  rw [decodeMark, hplace, Option.filter_some_pos (by simpa using hlength)]
  simp [token]

theorem decodeMark_fold {rest : List (Units × Units)} (hrest : ∀ entry ∈ rest, Legible entry) (marks : Marks)
    (hnew : (marks.cells.map Prod.fst ++ rest.map Prod.fst).Nodup) :
    ∃ decoded, (rest.map token).foldlM decodeMark marks = .ok decoded ∧ decoded.cells = marks.cells ++ rest := by
  induction rest generalizing marks with
  | nil => exact ⟨marks, rfl, (List.append_nil _).symm⟩
  | cons entry rest ih =>
    obtain ⟨hentry, hothers⟩ := List.forall_mem_cons.1 hrest
    have hfresh : entry.1 ∉ marks.cells.map Prod.fst := fun hmem ↦
      (List.nodup_append.1 hnew).2.2 _ hmem _ List.mem_cons_self rfl
    have hset : (marks.set entry.1 entry.2).cells = marks.cells ++ [entry] := set_new hentry.field hfresh
    obtain ⟨decoded, hfold, hcells⟩ := ih hothers (marks.set entry.1 entry.2) (by
      rw [hset, List.map_append, List.append_assoc]
      exact hnew)
    refine ⟨decoded, ?_, by rw [hcells, hset, List.append_assoc]; rfl⟩
    rw [List.map_cons, List.foldlM_cons, decodeMark_token hentry.cell.nonempty hentry.plain]
    exact hfold

theorem Marks.ext {first second : Marks} (h : first.cells = second.cells) : first = second := by
  cases first
  cases second
  obtain rfl := h
  rfl

theorem encodeMarks_some (h : marks.cells ≠ []) : encodeMarks marks = some (join (marks.cells.map token)) :=
  if_neg fun hnil ↦ h (List.map_eq_nil_iff.1 hnil)

theorem words_tokens {cells : List (Units × Units)} (h : ∀ entry ∈ cells, Legible entry) :
    words (join (cells.map token)) = cells.map token := by
  rw [words_join]
  intro part hpart
  obtain ⟨entry, hentry, rfl⟩ := List.mem_map.1 hpart
  exact isWord_token ⟨(h entry hentry).cell, (h entry hentry).mark.solid⟩

/-- **Marks that are words are read back as they were written.** -/
theorem decode_encode (hsome : marks.cells ≠ []) (h : ∀ entry ∈ marks.cells, Legible entry) :
    decodeMarks (encodeMarks marks) = .ok (some marks) := by
  obtain ⟨decoded, hfold, hcells⟩ := decodeMark_fold h Marks.empty marks.distinct
  have heq : decoded = marks := Marks.ext hcells
  rw [encodeMarks_some hsome, decodeMarks, words_tokens h, hfold, heq]
  rfl

/-- The cells that are read are words. -/
theorem decodeMark_word {decoded : Marks} {token : Units} (htoken : IsWord token)
    (h : decodeMark marks token = .ok decoded) (hmarks : ∀ entry ∈ marks.cells, IsWord entry.1) :
    ∀ entry ∈ decoded.cells, IsWord entry.1 := by
  rw [decodeMark] at h
  split at h
  · cases h
  · rename_i colon hcolon
    obtain rfl := Except.ok.inj h
    obtain ⟨hplace, hone⟩ := Option.filter_eq_some_iff.1 hcolon
    obtain ⟨cell, mark, rfl, -, rfl⟩ := lastIndexOf_split hplace
    have hcell : IsWord cell :=
      ⟨List.length_pos_iff.1 (of_decide_eq_true hone),
        fun unit hunit ↦ htoken.solid unit (List.mem_append_left _ hunit)⟩
    rw [List.take_left, Marks.set]
    split
    · exact hmarks
    · intro entry hentry
      rcases Entries.mem_set hentry with hentry | rfl
      · exact hmarks entry hentry
      · exact hcell

theorem decodeMarks_words {value : Option Units} (h : decodeMarks value = .ok (some marks)) :
    ∀ entry ∈ marks.cells, IsWord entry.1 := by
  cases value with
  | none => exact nomatch Except.ok.inj h
  | some value =>
    obtain ⟨decoded, hfold, heq⟩ := Except.map_eq_ok.1 h
    obtain rfl := Option.some.inj heq
    have hall : ∀ (tokens : List Units), (∀ token ∈ tokens, IsWord token) → ∀ found : Marks,
        (∀ entry ∈ found.cells, IsWord entry.1) → tokens.foldlM decodeMark found = .ok decoded →
        ∀ entry ∈ decoded.cells, IsWord entry.1 := by
      intro tokens
      induction tokens with
      | nil => exact fun _ found hfound h ↦ Except.ok.inj h ▸ hfound
      | cons first rest ih =>
        intro htokens found hfound h
        rw [List.foldlM_cons] at h
        obtain ⟨next, hnext, h⟩ := Except.bind_eq_ok.1 h
        exact ih (List.forall_mem_cons.1 htokens).2 next
          (decodeMark_word (htokens first List.mem_cons_self) hnext hfound) h
    exact hall _ (fun token htoken ↦ mem_words htoken) _ (fun _ hentry ↦ absurd hentry List.not_mem_nil) hfold

end Chopin.Mdx.Questionnaires
