import Chopin.Lib.Except
import Chopin.Lib.Percent

/-!
# Document paths

A document's page is at `/documents/<owner>/<repository>/<slug>`, and a child document's below its parent
at `/documents/<owner>/<repository>/<parent>/children/<child>`.  The builders encode every part by itself,
the parsers split the path at its slashes and decode every part by itself.

## What is here

* `documentsPath`, `documentPath`, `childDocumentPath` and their parsers.
* **`document_paths_round_trip`**: a built path is parsed to the parts it was built from, a parsed path that
  is text can be built again from its parts, and no path has both forms.
* `lone_surrogate_path`: a path that is no text is parsed to parts the builders refuse.
-/

set_option autoImplicit false

namespace Chopin.Protocol

export Script (Units)

open Script

/-! ## Building -/

inductive PathError where
  /-- `TypeError("document path segments must not be empty")` -/
  | emptySegment
  /-- What `encodeURIComponent` throws. -/
  | uriError
deriving DecidableEq

/-- `/`. -/
def slash : Nat := 0x2f

def encodedSegment (value : Units) : Except PathError Units :=
  if value = [] then .error .emptySegment
  else (encodeURIComponent value).elim (.error .uriError) .ok

def documentsPath (owner repository : Units) : Except PathError Units := do
  let owner ← encodedSegment owner
  let repository ← encodedSegment repository
  pure (utf16 "/documents/" ++ owner ++ [slash] ++ repository)

def documentPath (owner repository slug : Units) : Except PathError Units := do
  let documents ← documentsPath owner repository
  let slug ← encodedSegment slug
  pure (documents ++ [slash] ++ slug)

def childDocumentPath (owner repository parentSlug childSlug : Units) : Except PathError Units := do
  let document ← documentPath owner repository parentSlug
  let child ← encodedSegment childSlug
  pure (document ++ utf16 "/children/" ++ child)

/-! ## Parsing -/

structure ParsedDocumentPath where
  owner : Units
  repository : Units
  slug : Option Units
deriving DecidableEq

structure ParsedChildDocumentPath where
  owner : Units
  repository : Units
  parentSlug : Units
  childSlug : Units
deriving DecidableEq

/-- `[^/]+`, of what stands between two slashes. -/
def part (text : Units) : Bool := text ≠ []

/-- `[^/?#]+`, of what stands between two slashes. -/
def plainPart (text : Units) : Bool := text ≠ [] && 0x3f ∉ text && 0x23 ∉ text

/-- The groups of `DOCUMENT_PATH`, which matches the whole path: what stands between the slashes decides it. -/
def documentGroups (pathname : Units) : Option (Units × Units × Option Units) :=
  match pathname.splitOn slash with
  | [[], documents, owner, repository] =>
    if documents = utf16 "documents" ∧ part owner ∧ part repository then some (owner, repository, none) else none
  | [[], documents, owner, repository, slug] =>
    -- An empty last part is the optional slash at the end.
    if documents = utf16 "documents" ∧ part owner ∧ part repository then
      some (owner, repository, if part slug then some slug else none)
    else none
  | [[], documents, owner, repository, slug, []] =>
    if documents = utf16 "documents" ∧ part owner ∧ part repository ∧ part slug then
      some (owner, repository, some slug)
    else none
  | _ => none

/-- The groups of `CHILD_DOCUMENT_PATH`. -/
def childDocumentGroups (pathname : Units) : Option (Units × Units × Units × Units) :=
  match pathname.splitOn slash with
  | [] :: documents :: owner :: repository :: parentSlug :: children :: childSlug :: rest =>
    if documents = utf16 "documents" ∧ children = utf16 "children" ∧ plainPart owner ∧ plainPart repository ∧
        plainPart parentSlug ∧ plainPart childSlug ∧ (rest = [] ∨ rest = [[]]) then
      some (owner, repository, parentSlug, childSlug)
    else none
  | _ => none

/-- `decodeURIComponent(group)`, which must not be empty; an error is caught as well. -/
def decodedSegment (group : Units) : Option Units :=
  (decodeURIComponent group).filter (· ≠ [])

def parseDocumentPath (pathname : Units) : Option ParsedDocumentPath := do
  let (owner, repository, slug) ← documentGroups pathname
  let owner ← decodedSegment owner
  let repository ← decodedSegment repository
  match slug with
  | none => pure ⟨owner, repository, none⟩
  | some slug =>
    let slug ← decodedSegment slug
    pure ⟨owner, repository, some slug⟩

def parseChildDocumentPath (pathname : Units) : Option ParsedChildDocumentPath := do
  let (owner, repository, parentSlug, childSlug) ← childDocumentGroups pathname
  let owner ← decodedSegment owner
  let repository ← decodedSegment repository
  let parentSlug ← decodedSegment parentSlug
  let childSlug ← decodedSegment childSlug
  pure ⟨owner, repository, parentSlug, childSlug⟩

/-- The builder of a parsed path's form, at its parts. -/
def ParsedDocumentPath.rebuilt (parsed : ParsedDocumentPath) : Except PathError Units :=
  match parsed.slug with
  | none => documentsPath parsed.owner parsed.repository
  | some slug => documentPath parsed.owner parsed.repository slug

def ParsedChildDocumentPath.rebuilt (parsed : ParsedChildDocumentPath) : Except PathError Units :=
  childDocumentPath parsed.owner parsed.repository parsed.parentSlug parsed.childSlug

example : parseDocumentPath (utf16 "/documents/a%2Fb/r/s/") =
    some ⟨utf16 "a/b", utf16 "r", some (utf16 "s")⟩ := by decide

example : parseChildDocumentPath (utf16 "/documents/a/r/s/children/c?view") = none := by decide

/-! ## One part -/

variable {value : Units}

/-- **An encoded part is a part of either form, and is decoded to what it was.** -/
theorem encodedSegment_ok {encoded : Units} (h : encodedSegment value = .ok encoded) :
    plainPart encoded = true ∧ slash ∉ encoded ∧ decodedSegment encoded = some value := by
  rw [encodedSegment] at h
  split at h
  · cases h
  · rename_i hne
    cases hencoded : encodeURIComponent value with
    | none => rw [hencoded] at h; exact nomatch h
    | some found =>
      rw [hencoded] at h
      cases h
      obtain ⟨chars, rfl, rfl⟩ := encodeURIComponent_some hencoded
      have hunit : ∀ unit ∈ chars.flatMap encodedChar, unit ≠ 0x2f ∧ unit ≠ 0x3f ∧ unit ≠ 0x23 := by
        intro unit hmem
        obtain ⟨c, -, hc⟩ := List.mem_flatMap.1 hmem
        exact encodedChar_unit hc
      refine ⟨?_, fun hmem ↦ (hunit _ hmem).1 rfl, ?_⟩
      · simp only [plainPart, Bool.and_eq_true, decide_eq_true_eq]
        refine ⟨⟨?_, fun hmem ↦ (hunit _ hmem).2.1 rfl⟩, fun hmem ↦ (hunit _ hmem).2.2 rfl⟩
        cases chars with
        | nil => exact absurd rfl hne
        | cons c rest => simp [encodedChar_ne_nil c]
      · rw [decodedSegment, decode_encode hencoded, Option.filter_some, if_pos (by simpa using hne)]

theorem part_of_plainPart {text : Units} (h : plainPart text = true) : part text = true := by
  simp only [plainPart, Bool.and_eq_true] at h
  exact h.1.1

variable {chars : List Char}

/-- A part that is text and not empty is encoded. -/
theorem encodedSegment_encode (h : encode chars ≠ []) : ∃ encoded, encodedSegment (encode chars) = .ok encoded := by
  rw [encodedSegment, if_neg h, encodeURIComponent_encode]
  exact ⟨_, rfl⟩

/-- What a group that is text is decoded to can be encoded. -/
theorem decodedSegment_encode (h : decodedSegment (encode chars) = some value) :
    ∃ encoded, encodedSegment value = .ok encoded := by
  rw [decodedSegment, Option.filter_eq_some_iff] at h
  obtain ⟨hdecoded, hne⟩ := h
  obtain ⟨found, rfl⟩ := decode_text hdecoded
  exact encodedSegment_encode (by simpa using hne)

/-! ## What is built -/

variable {owner repository path : Units}

theorem documentsPath_ok (h : documentsPath owner repository = .ok path) :
    ∃ first second, encodedSegment owner = .ok first ∧ encodedSegment repository = .ok second ∧
      path = [slash].intercalate [[], utf16 "documents", first, second] := by
  simp only [documentsPath, Except.bind_eq_ok] at h
  obtain ⟨first, hfirst, second, hsecond, hpath⟩ := h
  cases hpath
  exact ⟨first, second, hfirst, hsecond, by simp [List.intercalate, slash]; rfl⟩

theorem documentPath_ok {slug : Units} (h : documentPath owner repository slug = .ok path) :
    ∃ first second third, encodedSegment owner = .ok first ∧ encodedSegment repository = .ok second ∧
      encodedSegment slug = .ok third ∧ path = [slash].intercalate [[], utf16 "documents", first, second, third] := by
  simp only [documentPath, Except.bind_eq_ok] at h
  obtain ⟨documents, hdocuments, third, hthird, hpath⟩ := h
  obtain ⟨first, second, hfirst, hsecond, rfl⟩ := documentsPath_ok hdocuments
  cases hpath
  exact ⟨first, second, third, hfirst, hsecond, hthird, by simp [List.intercalate]⟩

variable {parentSlug childSlug : Units}

theorem childDocumentPath_ok (h : childDocumentPath owner repository parentSlug childSlug = .ok path) :
    ∃ first second third fourth, encodedSegment owner = .ok first ∧ encodedSegment repository = .ok second ∧
      encodedSegment parentSlug = .ok third ∧ encodedSegment childSlug = .ok fourth ∧ path = [slash].intercalate
        [[], utf16 "documents", first, second, third, utf16 "children", fourth] := by
  simp only [childDocumentPath, Except.bind_eq_ok] at h
  obtain ⟨document, hdocument, fourth, hfourth, hpath⟩ := h
  obtain ⟨first, second, third, hfirst, hsecond, hthird, rfl⟩ := documentPath_ok hdocument
  cases hpath
  exact ⟨first, second, third, fourth, hfirst, hsecond, hthird, hfourth, by simp [List.intercalate, slash]; rfl⟩

theorem parse_documentsPath (h : documentsPath owner repository = .ok path) :
    parseDocumentPath path = some ⟨owner, repository, none⟩ := by
  obtain ⟨first, second, hfirst, hsecond, rfl⟩ := documentsPath_ok h
  obtain ⟨hpart₁, hslash₁, hdecoded₁⟩ := encodedSegment_ok hfirst
  obtain ⟨hpart₂, hslash₂, hdecoded₂⟩ := encodedSegment_ok hsecond
  have hsplit : List.splitOn slash ([slash].intercalate [[], utf16 "documents", first, second]) =
      [[], utf16 "documents", first, second] := by
    refine List.splitOn_intercalate slash ?_ (List.cons_ne_nil _ _)
    simp only [List.forall_mem_cons]
    exact ⟨by decide, by decide, hslash₁, hslash₂, by simp⟩
  rw [parseDocumentPath, documentGroups, hsplit]
  simp only [part_of_plainPart hpart₁, part_of_plainPart hpart₂, and_self, if_true, Option.some_then,
    hdecoded₁, hdecoded₂]
  rfl

theorem parse_documentPath {slug : Units} (h : documentPath owner repository slug = .ok path) :
    parseDocumentPath path = some ⟨owner, repository, some slug⟩ := by
  obtain ⟨first, second, third, hfirst, hsecond, hthird, rfl⟩ := documentPath_ok h
  obtain ⟨hpart₁, hslash₁, hdecoded₁⟩ := encodedSegment_ok hfirst
  obtain ⟨hpart₂, hslash₂, hdecoded₂⟩ := encodedSegment_ok hsecond
  obtain ⟨hpart₃, hslash₃, hdecoded₃⟩ := encodedSegment_ok hthird
  have hsplit : List.splitOn slash ([slash].intercalate [[], utf16 "documents", first, second, third]) =
      [[], utf16 "documents", first, second, third] := by
    refine List.splitOn_intercalate slash ?_ (List.cons_ne_nil _ _)
    simp only [List.forall_mem_cons]
    exact ⟨by decide, by decide, hslash₁, hslash₂, hslash₃, by simp⟩
  rw [parseDocumentPath, documentGroups, hsplit]
  simp only [part_of_plainPart hpart₁, part_of_plainPart hpart₂, part_of_plainPart hpart₃, and_self, if_true,
    Option.some_then, hdecoded₁, hdecoded₂, hdecoded₃]
  rfl

theorem parse_childDocumentPath (h : childDocumentPath owner repository parentSlug childSlug = .ok path) :
    parseChildDocumentPath path = some ⟨owner, repository, parentSlug, childSlug⟩ := by
  obtain ⟨first, second, third, fourth, hfirst, hsecond, hthird, hfourth, rfl⟩ := childDocumentPath_ok h
  obtain ⟨hpart₁, hslash₁, hdecoded₁⟩ := encodedSegment_ok hfirst
  obtain ⟨hpart₂, hslash₂, hdecoded₂⟩ := encodedSegment_ok hsecond
  obtain ⟨hpart₃, hslash₃, hdecoded₃⟩ := encodedSegment_ok hthird
  obtain ⟨hpart₄, hslash₄, hdecoded₄⟩ := encodedSegment_ok hfourth
  have hsplit : List.splitOn slash ([slash].intercalate
      [[], utf16 "documents", first, second, third, utf16 "children", fourth]) =
      [[], utf16 "documents", first, second, third, utf16 "children", fourth] := by
    refine List.splitOn_intercalate slash ?_ (List.cons_ne_nil _ _)
    simp only [List.forall_mem_cons]
    exact ⟨by decide, by decide, hslash₁, hslash₂, hslash₃, by decide, hslash₄, by simp⟩
  rw [parseChildDocumentPath, childDocumentGroups, hsplit]
  simp only [hpart₁, hpart₂, hpart₃, hpart₄, true_or, and_self, if_true, Option.some_then, hdecoded₁, hdecoded₂,
    hdecoded₃, hdecoded₄]
  rfl

/-! ## What is parsed -/

/-- Units that are no slash stay with what follows them. -/
theorem splitOn_append {front : Units} (rest : Units) (h : slash ∉ front) :
    (front ++ rest).splitOn slash = (rest.splitOn slash).modifyHead (front ++ ·) := by
  induction front with
  | nil => cases hrest : rest.splitOn slash <;> simp [hrest]
  | cons unit front ih =>
    rw [List.mem_cons, not_or] at h
    rw [List.cons_append, List.splitOn_cons_eq_if_modifyHead, if_neg (by simpa using Ne.symm h.1), ih h.2]
    cases rest.splitOn slash <;> rfl

/-- What stands between the slashes of a text is text. -/
theorem splitOn_encode (chars : List Char) : (encode chars).splitOn slash = (chars.splitOn '/').map encode := by
  induction chars with
  | nil => rfl
  | cons c rest ih =>
    rw [encode_cons, List.splitOn_cons_eq_if_modifyHead]
    by_cases hc : c = '/'
    · subst hc
      rw [if_pos (by simp), List.map_cons, ← ih]
      exact List.splitOn_cons_eq_if_modifyHead _ _
    · rw [if_neg (by simpa using hc), splitOn_append _ ?_, ih]
      · cases hrest : rest.splitOn '/' with
        | nil => rfl
        | cons head tail =>
          rw [List.modifyHead_cons, List.map_cons, List.map_cons, List.modifyHead_cons, encode_cons]
      · intro hmem
        rcases unitsOf_cases c with ⟨-, hunits, -⟩ | ⟨first, second, hunits, hhigh, hlow, -⟩
        · rw [hunits, List.mem_singleton] at hmem
          exact hc (Char.ext (UInt32.toNat_inj.1 hmem.symm))
        · simp only [hunits, high, low, slash, Bool.and_eq_true, decide_eq_true_eq, List.mem_cons,
            List.not_mem_nil, or_false] at hmem hhigh hlow
          omega

variable {pathname : Units}

theorem documentGroups_some {slug : Option Units} (h : documentGroups pathname = some (owner, repository, slug)) :
    owner ∈ pathname.splitOn slash ∧ repository ∈ pathname.splitOn slash ∧
      (∀ given ∈ slug, given ∈ pathname.splitOn slash) ∧ (pathname.splitOn slash).length ≤ 6 := by
  rw [documentGroups] at h
  split at h
  · rename_i hsplit
    split at h
    · obtain ⟨rfl, rfl, rfl⟩ : _ ∧ _ ∧ _ := by simpa using h
      simp [hsplit]
    · cases h
  · rename_i hsplit
    split at h
    · obtain ⟨rfl, rfl, rfl⟩ : _ ∧ _ ∧ _ := by simpa using h
      rw [hsplit]
      refine ⟨by simp, by simp, ?_, by simp⟩
      intro given hgiven
      split at hgiven
      · simp [Option.mem_some_iff.1 hgiven]
      · cases hgiven
    · cases h
  · rename_i hsplit
    split at h
    · obtain ⟨rfl, rfl, rfl⟩ : _ ∧ _ ∧ _ := by simpa using h
      simp [hsplit]
    · cases h
  · cases h

theorem childDocumentGroups_some (h : childDocumentGroups pathname = some (owner, repository, parentSlug, childSlug)) :
    owner ∈ pathname.splitOn slash ∧ repository ∈ pathname.splitOn slash ∧ parentSlug ∈ pathname.splitOn slash ∧
      childSlug ∈ pathname.splitOn slash ∧ 7 ≤ (pathname.splitOn slash).length := by
  rw [childDocumentGroups] at h
  split at h
  · rename_i hsplit
    split at h
    · obtain ⟨rfl, rfl, rfl, rfl⟩ : _ ∧ _ ∧ _ ∧ _ := by simpa using h
      simp [hsplit]
    · cases h
  · cases h

variable {parsed : ParsedDocumentPath}

theorem parseDocumentPath_some (h : parseDocumentPath pathname = some parsed) :
    ∃ owner repository slug, documentGroups pathname = some (owner, repository, slug) ∧
      decodedSegment owner = some parsed.owner ∧ decodedSegment repository = some parsed.repository ∧
      slug.elim (parsed.slug = none) fun given ↦
        ∃ found, decodedSegment given = some found ∧ parsed.slug = some found := by
  simp only [parseDocumentPath, Option.then_eq_some] at h
  obtain ⟨⟨owner, repository, slug⟩, hgroups, first, hfirst, second, hsecond, h⟩ := h
  refine ⟨owner, repository, slug, hgroups, ?_⟩
  cases slug with
  | none =>
    cases h
    exact ⟨hfirst, hsecond, rfl⟩
  | some slug =>
    obtain ⟨third, hthird, h⟩ := Option.then_eq_some.1 h
    cases h
    exact ⟨hfirst, hsecond, third, hthird, rfl⟩

theorem parseChildDocumentPath_some {parsed : ParsedChildDocumentPath}
    (h : parseChildDocumentPath pathname = some parsed) : ∃ owner repository parentSlug childSlug,
      childDocumentGroups pathname = some (owner, repository, parentSlug, childSlug) ∧
      decodedSegment owner = some parsed.owner ∧ decodedSegment repository = some parsed.repository ∧
      decodedSegment parentSlug = some parsed.parentSlug ∧ decodedSegment childSlug = some parsed.childSlug := by
  simp only [parseChildDocumentPath, Option.then_eq_some] at h
  obtain ⟨⟨owner, repository, parentSlug, childSlug⟩, hgroups, first, hfirst, second, hsecond, third, hthird,
    fourth, hfourth, h⟩ := h
  cases h
  exact ⟨owner, repository, parentSlug, childSlug, hgroups, hfirst, hsecond, hthird, hfourth⟩

/-- A group of a text is decoded to what can be encoded again. -/
theorem decodedSegment_group {group : Units} (hgroup : group ∈ (encode chars).splitOn slash)
    (h : decodedSegment group = some value) : ∃ encoded, encodedSegment value = .ok encoded := by
  rw [splitOn_encode] at hgroup
  obtain ⟨found, -, rfl⟩ := List.mem_map.1 hgroup
  exact decodedSegment_encode h

theorem rebuilt_document (h : parseDocumentPath (encode chars) = some parsed) : ∃ path, parsed.rebuilt = .ok path := by
  obtain ⟨owner, repository, slug, hgroups, hfirst, hsecond, hslug⟩ := parseDocumentPath_some h
  obtain ⟨howner, hrepository, hmem, -⟩ := documentGroups_some hgroups
  obtain ⟨first, hfirst⟩ := decodedSegment_group howner hfirst
  obtain ⟨second, hsecond⟩ := decodedSegment_group hrepository hsecond
  have hdocuments : documentsPath parsed.owner parsed.repository =
      .ok (utf16 "/documents/" ++ first ++ [slash] ++ second) := by
    rw [documentsPath, hfirst, hsecond]
    rfl
  rw [ParsedDocumentPath.rebuilt]
  cases slug with
  | none => exact ⟨_, by rw [show parsed.slug = none from hslug]; exact hdocuments⟩
  | some slug =>
    obtain ⟨found, hfound, hparsed⟩ := hslug
    obtain ⟨third, hthird⟩ := decodedSegment_group (hmem slug rfl) hfound
    have hdocument : documentPath parsed.owner parsed.repository found =
        .ok (utf16 "/documents/" ++ first ++ [slash] ++ second ++ [slash] ++ third) := by
      rw [documentPath, hdocuments, hthird]
      rfl
    exact ⟨_, by rw [hparsed]; exact hdocument⟩

theorem rebuilt_childDocument {parsed : ParsedChildDocumentPath}
    (h : parseChildDocumentPath (encode chars) = some parsed) : ∃ path, parsed.rebuilt = .ok path := by
  obtain ⟨owner, repository, parentSlug, childSlug, hgroups, hfirst, hsecond, hthird, hfourth⟩ :=
    parseChildDocumentPath_some h
  obtain ⟨howner, hrepository, hparent, hchild, -⟩ := childDocumentGroups_some hgroups
  obtain ⟨first, hfirst⟩ := decodedSegment_group howner hfirst
  obtain ⟨second, hsecond⟩ := decodedSegment_group hrepository hsecond
  obtain ⟨third, hthird⟩ := decodedSegment_group hparent hthird
  obtain ⟨fourth, hfourth⟩ := decodedSegment_group hchild hfourth
  rw [ParsedChildDocumentPath.rebuilt, childDocumentPath, documentPath, documentsPath, hfirst, hsecond, hthird,
    hfourth]
  exact ⟨_, rfl⟩

/-- What a parsed path's parts are built into is parsed to the same parts. -/
theorem parse_rebuilt (h : parsed.rebuilt = .ok path) : parseDocumentPath path = some parsed := by
  obtain ⟨owner, repository, slug⟩ := parsed
  cases slug with
  | none => exact parse_documentsPath h
  | some slug => exact parse_documentPath h

/-! ## The main result -/

/-- **Document paths round-trip.**  A built path is parsed to the parts it was built from.  The parts of a
parsed path, where they can be built, are parsed again, and they can be built when the path is text.  No path
is parsed in both forms. -/
theorem document_paths_round_trip : (∀ owner repository path, documentsPath owner repository = .ok path →
      parseDocumentPath path = some ⟨owner, repository, none⟩) ∧
    (∀ owner repository slug path, documentPath owner repository slug = .ok path →
      parseDocumentPath path = some ⟨owner, repository, some slug⟩) ∧ (∀ owner repository parentSlug childSlug path,
      childDocumentPath owner repository parentSlug childSlug = .ok path →
      parseChildDocumentPath path = some ⟨owner, repository, parentSlug, childSlug⟩) ∧
    (∀ pathname parsed, parseDocumentPath pathname = some parsed →
      (∀ path, parsed.rebuilt = .ok path → parseDocumentPath path = some parsed) ∧
      ((∃ chars, pathname = encode chars) → ∃ path, parsed.rebuilt = .ok path)) ∧
    (∀ pathname parsed, parseChildDocumentPath pathname = some parsed →
      (∀ path, parsed.rebuilt = .ok path → parseChildDocumentPath path = some parsed) ∧
      ((∃ chars, pathname = encode chars) → ∃ path, parsed.rebuilt = .ok path)) ∧
    ∀ pathname, parseDocumentPath pathname = none ∨ parseChildDocumentPath pathname = none := by
  refine ⟨fun _ _ _ ↦ parse_documentsPath, fun _ _ _ _ ↦ parse_documentPath,
    fun _ _ _ _ _ ↦ parse_childDocumentPath, ?_, ?_, ?_⟩
  · rintro pathname parsed hparsed
    refine ⟨fun _ ↦ parse_rebuilt, ?_⟩
    rintro ⟨chars, rfl⟩
    exact rebuilt_document hparsed
  · rintro pathname parsed hparsed
    refine ⟨fun _ ↦ parse_childDocumentPath, ?_⟩
    rintro ⟨chars, rfl⟩
    exact rebuilt_childDocument hparsed
  · intro pathname
    by_contra hboth
    rw [not_or, ← ne_eq, ← ne_eq, Option.ne_none_iff_exists', Option.ne_none_iff_exists'] at hboth
    obtain ⟨⟨document, hdocument⟩, ⟨child, hchild⟩⟩ := hboth
    obtain ⟨_, _, _, hgroups, -⟩ := parseDocumentPath_some hdocument
    obtain ⟨_, _, _, _, hchildGroups, -⟩ := parseChildDocumentPath_some hchild
    have hdocumentLength := (documentGroups_some hgroups).2.2.2
    have hchildLength := (childDocumentGroups_some hchildGroups).2.2.2.2
    omega

theorem document_paths_round_trip_sample :
    parseDocumentPath (utf16 "/documents/a/b%2Fc/d") = some ⟨utf16 "a", utf16 "b/c", some (utf16 "d")⟩ :=
  document_paths_round_trip.2.1 (utf16 "a") (utf16 "b/c") (utf16 "d") _ (by decide)

/-- **Half a surrogate pair is parsed, but cannot be built.** -/
theorem lone_surrogate_path :
    parseDocumentPath (utf16 "/documents/" ++ [0xd800] ++ utf16 "/r/s") =
      some ⟨[0xd800], utf16 "r", some (utf16 "s")⟩ ∧
    (⟨[0xd800], utf16 "r", some (utf16 "s")⟩ : ParsedDocumentPath).rebuilt = .error .uriError := by decide

end Chopin.Protocol
