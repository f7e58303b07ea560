import Chopin.Reading.Pages

/-!
# A document read to its end

A reader asks for the start of a document and then, while a result names a next position, for that one.
-/

set_option autoImplicit false

open Script

namespace Chopin.Reading

namespace DocumentText

variable (input : DocumentText)

/-- The same document, asked for another part. -/
def asking (range : ReadRange) : DocumentText := { input with range }

/-- The number of characters in the longest line. -/
def longest : Nat := (input.lines.map characters).foldl max 1

/-- What a result can say of itself above its source section, whichever lines it shows. -/
structure Shown (window : Window) : Prop where
  first : window.first = input.offset
  fromColumn : window.fromColumn = input.column
  last : window.last ≤ input.total
  cut : ∀ cut ∈ window.cut, cut ≤ input.longest + 1
  asked : window.asked = none ∨ window.asked = input.range.limit
  outline : window.outline = input.outlined

/-- The result without its source section and its blocks, but with their title. -/
def bare (window : Window) : Window :=
  { window with text := [], listed := if input.blockLines = [] then [] else [[]] }

/-- Every result from an accepted position has so many bytes left for the source: those that its header,
outline, lists and the blocks of its first line do not take. -/
def Leaves (bytes : Nat) : Prop :=
  ∀ range, range.limit = input.range.limit → checkRange input.source range = .ok () →
    ∀ window, (input.asking range).Shown window →
      size ((input.asking range).render ((input.asking range).bare window))
        + listedBytes ((input.asking range).startingOn (input.asking range).offset (input.asking range).column)
        + bytes ≤ READ_BYTES

end DocumentText

/-! ## The size of a result -/

theorem size_joined (items : List Units) (text : Units) (hne : items ≠ []) :
    size (joined items ++ newline :: text) = listedBytes items + size text := by
  induction items with
  | nil => exact absurd rfl hne
  | cons item more ih =>
    cases more with
    | nil =>
      rw [show joined [item] = item from List.append_nil item, size_before item text (by decide)]
      simp [listedBytes]
    | cons second more =>
      have hjoined : joined (item :: second :: more) = item ++ newline :: joined (second :: more) := by
        simp [joined, List.intercalate, List.intersperse]
      rw [hjoined, List.append_assoc, List.cons_append, size_before item _ (by decide), ih (by simp)]
      simp only [listedBytes, List.map_cons, List.sum_cons]
      omega

variable {input : DocumentText}

theorem size_render (window : Window) :
    size (input.render window) = listedBytes (input.header window) + size window.text :=
  size_joined _ _ (by simp [DocumentText.header])

variable {window : Window}

/-- What a result shows comes on top of its bare header. -/
theorem size_render_le (hlisted : input.blockLines = [] → window.listed = []) : size (input.render window) ≤
      size (input.render (input.bare window)) + listedBytes window.listed + size window.text := by
  have hsummary : input.summary (input.bare window) = input.summary window := rfl
  have hmarker : input.marker (input.bare window) = input.marker window := rfl
  have hblocks : listedBytes (DocumentText.blockListing window) ≤
      listedBytes (DocumentText.blockListing (input.bare window)) + listedBytes window.listed := by
    by_cases hnone : window.listed = []
    · rw [DocumentText.blockListing, if_pos hnone]
      exact Nat.zero_le _
    · have hbare : (input.bare window).listed = [[]] := if_neg fun h ↦ hnone (hlisted h)
      simp only [DocumentText.blockListing, hbare, hnone, if_false, List.cons_ne_nil, listedBytes_append]
      exact Nat.add_le_add_right (Nat.le_add_right _ _) _
  rw [size_render, size_render, DocumentText.header, DocumentText.header, hsummary, hmarker]
  simp only [listedBytes_append]
  have htext : size (input.bare window).text = 0 := rfl
  omega

/-! ## One result -/

theorem worst_shown : input.Shown (input.worst input.outlined) where
  first := rfl
  fromColumn := rfl
  last := le_rfl
  cut := by rintro _ ⟨⟩; exact le_rfl
  asked := .inr rfl
  outline := rfl

theorem bare_worst : input.bare (input.worst input.outlined) = input.worst input.outlined := rfl

variable {chars : List Char}

theorem Page.shown {text : List Char} {room : Option Int} (h : Page input chars text (input.take room input.outlined)) :
    input.Shown (input.take room input.outlined) :=
  ⟨h.first, h.column, h.last, h.cut, h.asked, rfl⟩

variable {range : ReadRange}

/-- There is room for the first character beside what the longest header takes. -/
theorem Leaves.room (hleaves : input.Leaves 4) (hlimit : range.limit = input.range.limit)
    (hrange : checkRange input.source range = .ok ()) (hshown : (input.asking range).Shown window) :
    Room (input.asking range) (READ_BYTES - size ((input.asking range).render ((input.asking range).bare window))) := by
  have hleft := hleaves range hlimit hrange window hshown
  rw [Room]
  omega

/-- **Taking less until the result fits** ends with one that does. -/
theorem shrink_spec {front more : List (List Char)} {line : List Char} (hsource : input.source = encode chars)
    (hat : At chars input.offset input.column front line more) (hrequested : input.offset ≤ input.requested)
    (hroom : ∀ window, input.Shown window → Room input (READ_BYTES - size (input.render (input.bare window)))) :
    ∀ (turns : Nat) (room : Int), Room input room → room ≤ turns →
      ∃ text, Page input chars text (input.shrink input.outlined turns room) ∧
        size (input.render (input.shrink input.outlined turns room)) ≤ READ_BYTES := by
  intro turns
  induction turns with
  | zero =>
    intro room hfour hturns
    rw [Room] at hfour
    omega
  | succ turns ih =>
    intro room hfour hturns
    obtain ⟨text, hpage, hsize⟩ := take_spec (some room) input.outlined hsource hat hrequested
      (by rintro _ ⟨⟩; exact hfour)
    have hsize := hsize room rfl
    have hbare := hroom _ hpage.shown
    have hrender := size_render_le hpage.listed
    rw [hpage.encoded] at hrender
    rw [Room] at hbare hfour
    rw [DocumentText.shrink]
    split
    · rename_i hstop
      refine ⟨text, hpage, ?_⟩
      omega
    · rename_i hgo
      rw [not_or, not_le, not_le] at hgo
      refine ih _ ?_ (by omega)
      rw [Room]
      omega

/-- A result asked for from a position of a text that is not empty. -/
theorem window_spec (hne : chars ≠ []) (hsource : input.source = encode chars)
    (hrange : checkRange input.source input.range = .ok ()) (hlimit : ∀ limit ∈ input.range.limit, 1 ≤ limit)
    (hroom : ∀ window, input.Shown window → Room input (READ_BYTES - size (input.render (input.bare window)))) :
    ∃ window text, input.window = .ok window ∧ Page input chars text window ∧
      size (input.render window) ≤ READ_BYTES := by
  have hlines : input.lines = (charLines chars).map encode := by
    rw [DocumentText.lines, hsource, sourceLines_encode]
  have hsome : charLines chars ≠ [] := fun hnil ↦ hne (by rw [← charLines_flatten chars, hnil]; rfl)
  have hcheck : checkLines ((charLines chars).map encode) input.range = .ok () := by
    rw [← hlines]
    exact hrange
  obtain ⟨front, line, more, hat⟩ : ∃ front line more, At chars input.offset input.column front line more :=
    checkLines_at hcheck hsome
  have htotal : input.total = (charLines chars).length := by rw [DocumentText.total, hlines, List.length_map]
  have hrequested : input.offset ≤ input.requested := by
    have hinside : input.offset ≤ input.total := by
      rw [htotal, hat.lines, hat.offset]
      simp
    rw [DocumentText.requested]
    cases hasked : input.range.limit with
    | none => exact hinside
    | some limit =>
      have hone := hlimit limit hasked
      exact le_min hinside (by omega)
  have hempty : input.total ≠ 0 := by
    rw [htotal]
    exact fun hzero ↦ hsome (List.length_eq_zero_iff.1 hzero)
  rw [DocumentText.window, show checkLines input.lines input.range = .ok () from hrange]
  simp only [bind, Except.bind, hempty, if_false]
  split
  · rename_i hsmall
    obtain ⟨text, hpage, -⟩ := take_spec none none hsource hat hrequested (by simp)
    simp only [Bool.and_eq_true, decide_eq_true_eq] at hsmall
    exact ⟨_, text, rfl, hpage, hsmall.2⟩
  · have hstart := hroom _ worst_shown
    rw [bare_worst] at hstart
    obtain ⟨text, hpage, hsize⟩ := shrink_spec hsource hat hrequested hroom _ _ hstart
      (Int.self_le_toNat _)
    exact ⟨_, text, rfl, hpage, hsize⟩

/-! ## Reading on -/

/-- One result: the range asked for, what it shows and its whole text. -/
structure Part where
  range : ReadRange
  window : Window
  text : Units

/-- The results in order, when each is asked for where the one before it continues. -/
inductive Reads (input : DocumentText) : ReadRange → List Part → Prop
  | last {range : ReadRange} {window : Window} {text : Units}
      (shown : (input.asking range).window = .ok window) (result : documentText (input.asking range) = .ok text)
      (ends : window.next = none) : Reads input range [⟨range, window, text⟩]
  | next {range : ReadRange} {window : Window} {text : Units} {position : Position} {parts : List Part}
      (shown : (input.asking range).window = .ok window) (result : documentText (input.asking range) = .ok text)
      (continues : window.next = some position)
      (rest : Reads input { position.range with limit := input.range.limit } parts) :
      Reads input range (⟨range, window, text⟩ :: parts)

/-- What holds of each result on its own. -/
structure Part.Sound (input : DocumentText) (part : Part) : Prop where
  bytes : size part.text ≤ READ_BYTES
  whole : ∃ piece : List Char, part.window.text = encode piece
  accepted : ∀ position ∈ part.window.next, checkRange input.source position.range = .ok ()
  ended : part.window.next = none → part.window.last = input.total ∧ part.window.cut = none

/-- A limit does not move a position. -/
theorem checkRange_limit (source : Units) (range : ReadRange) (limit : Option Nat) :
    checkRange source { range with limit } = checkRange source range := rfl

theorem documentText_of_window (h : input.window = .ok window) : documentText input = .ok (input.render window) := by
  rw [documentText, h]
  rfl

/-- From any accepted range, the results are what is left of the text from there. -/
theorem reads_left (hne : chars ≠ []) (hsource : input.source = encode chars)
    (hlimit : ∀ limit ∈ input.range.limit, 1 ≤ limit) (hleaves : input.Leaves 4) :
    ∀ (size : Nat) (range : ReadRange), range.limit = input.range.limit → checkRange input.source range = .ok () →
      (left chars (range.offset.getD 1) (range.column.getD 1)).length = size →
      ∃ parts, Reads input range parts ∧ (∀ part ∈ parts, part.Sound input) ∧ (parts.map (·.window.text)).flatten =
          encode (left chars (range.offset.getD 1) (range.column.getD 1)) := by
  intro size
  induction size using Nat.strongRecOn with
  | ind size ih =>
    intro range hrangeLimit hrange hsize
    obtain ⟨window, text, hwindow, hpage, hbytes⟩ : ∃ window text, (input.asking range).window = .ok window ∧
        Page (input.asking range) chars text window ∧
        Script.size ((input.asking range).render window) ≤ READ_BYTES :=
      window_spec hne hsource hrange (fun limit hlimited ↦ hlimit limit (hrangeLimit ▸ hlimited))
        (fun window hshown ↦ Leaves.room hleaves hrangeLimit hrange hshown)
    have hresult := documentText_of_window hwindow
    have hsound : Part.Sound input ⟨range, window, (input.asking range).render window⟩ :=
      ⟨hbytes, ⟨text, hpage.encoded⟩, hpage.accepted, hpage.ended⟩
    have hrest : left chars (range.offset.getD 1) (range.column.getD 1) =
        text ++ (window.next.map (Position.left chars)).getD [] := hpage.rest
    cases hnext : window.next with
    | none =>
      rw [hnext, Option.map_none, Option.getD_none, List.append_nil] at hrest
      refine ⟨[⟨range, window, _⟩], .last hwindow hresult hnext, List.forall_mem_singleton.2 hsound, ?_⟩
      rw [hrest, List.map_singleton, List.flatten_singleton, hpage.encoded]
    | some position =>
      rw [hnext, Option.map_some, Option.getD_some] at hrest
      have hshorter : (position.left chars).length < size := by
        have hpos := List.length_pos_iff.2 hpage.some
        rw [← hsize, hrest, List.length_append]
        omega
      obtain ⟨parts, hreads, hparts, hflatten⟩ := ih _ hshorter { position.range with limit := input.range.limit }
        rfl ((checkRange_limit _ _ _).trans (hpage.accepted position hnext)) rfl
      refine ⟨⟨range, window, _⟩ :: parts, .next hwindow hresult hnext hreads,
        List.forall_mem_cons.2 ⟨hsound, hparts⟩, ?_⟩
      rw [hrest, encode_append, List.map_cons, List.flatten_cons, hpage.encoded, hflatten]
      rfl

/-- The one result of a document without a source. -/
theorem window_empty (hsource : input.source = []) (hoffset : input.range.offset = none)
    (hcolumn : input.range.column = none)
    (hroom : ∀ window, input.Shown window → Room input (READ_BYTES - size (input.render (input.bare window)))) :
    ∃ window, input.window = .ok window ∧ window.text = [] ∧ window.next = none ∧
      window.last = input.total ∧ window.cut = none ∧ size (input.render window) ≤ READ_BYTES := by
  have hlines : input.lines = [] := by rw [DocumentText.lines, hsource]; rfl
  have htotal : input.total = 0 := by rw [DocumentText.total, hlines]; rfl
  have hfirst : input.offset = 1 := by rw [DocumentText.offset, hoffset]; rfl
  have hlisted : input.blockLines = [] := by rw [DocumentText.blockLines, if_pos htotal]
  have htake : input.take none none = ⟨1, input.column, 0, none, false, none, [], [], none⟩ := by
    simp [DocumentText.take, DocumentText.takeLines, hlines, htotal, hfirst]
  have hshown : input.Shown (input.take none none) := by
    rw [htake]
    refine ⟨hfirst.symm, rfl, Nat.zero_le _, by simp, .inl rfl, ?_⟩
    rw [DocumentText.outlined, if_pos (by simp [htotal])]
  have hbare : input.bare (input.take none none) = input.take none none := by
    rw [DocumentText.bare, if_pos hlisted, htake]
  have hsize : size (input.render (input.take none none)) ≤ READ_BYTES := by
    have hleft := hroom _ hshown
    rw [hbare, Room] at hleft
    omega
  refine ⟨input.take none none, ?_, by rw [htake], by rw [htake]; rfl, by rw [htake, htotal], by rw [htake],
    hsize⟩
  have hcheck : checkLines input.lines input.range = .ok () := by
    simp [checkLines, hlines, hoffset, hcolumn]
  have hsmall : input.sourceBytes = 0 := by simp [DocumentText.sourceBytes, hlines]
  rw [DocumentText.window, hcheck]
  simp only [bind, Except.bind, hsmall]
  rw [if_pos (by simpa using hsize)]
  rfl

/-- The start of a text is a position, and of no text as well. -/
theorem start_accepted (hsource : input.source = encode chars)
    (hoffset : input.range.offset = none) (hcolumn : input.range.column = none) :
    checkRange input.source input.range = .ok () := by
  rw [checkRange, hsource, sourceLines_encode]
  cases hlines : charLines chars with
  | nil => simp [checkLines, hoffset, hcolumn]
  | cons text more =>
    have hlength : 1 ≤ text.length :=
      List.length_pos_iff.2 (charLines_ne_nil chars text (by rw [hlines]; exact List.mem_cons_self))
    have hfirst := (⟨hlines, rfl, le_rfl, hlength⟩ : At chars 1 1 [] text more).accepted
      ⟨1, none⟩ rfl rfl
    rw [hlines] at hfirst
    simpa [checkLines, hoffset, hcolumn, Position.range] using hfirst

/-- **Reading a document in parts gives the document**, where four bytes are left for the source. -/
theorem reads_source {input : DocumentText} {chars : List Char} (hsource : input.source = encode chars)
    (hoffset : input.range.offset = none) (hcolumn : input.range.column = none)
    (hlimit : ∀ limit ∈ input.range.limit, 1 ≤ limit) (hleaves : input.Leaves 4) :
    ∃ parts, Reads input input.range parts ∧ (parts.map (·.window.text)).flatten = input.source ∧
      ∀ part ∈ parts, part.Sound input := by
  have hrange := start_accepted hsource hoffset hcolumn
  by_cases hne : chars = []
  · subst hne
    obtain ⟨window, hwindow, htext, hnext, hlast, hcut, hsize⟩ := window_empty hsource hoffset hcolumn
      fun window hshown ↦ Leaves.room hleaves rfl hrange hshown
    refine ⟨[⟨input.range, window, _⟩], .last hwindow (documentText_of_window hwindow) hnext, ?_, ?_⟩
    · rw [List.map_singleton, List.flatten_singleton, htext, hsource]
      rfl
    · exact List.forall_mem_singleton.2 ⟨hsize, ⟨[], htext⟩, by simp [hnext], fun _ ↦ ⟨hlast, hcut⟩⟩
  · obtain ⟨parts, hreads, hparts, hflatten⟩ :=
      reads_left hne hsource hlimit hleaves _ input.range rfl hrange rfl
    refine ⟨parts, hreads, ?_, hparts⟩
    rw [hflatten, hoffset, hcolumn, hsource]
    exact congrArg encode (left_start chars)

/-! ## Less room than that

`crowded name` is one line of characters a byte wide, under a header that takes 306 bytes at most beside
the name of its one field. -/

def crowded (name : Nat) : DocumentText where
  fields := [(encode (List.replicate name 'a'), [])]
  notes := []
  source := encode (List.replicate 300 'a')
  blocks := none
  next := fun _ ↦ []
  range := ⟨none, none, none⟩
  parts := []

theorem crowded_charLines : charLines (List.replicate 300 'a') = [List.replicate 300 'a'] := by decide +kernel

theorem crowded_lines (name : Nat) (range : ReadRange) :
    ((crowded name).asking range).lines = [encode (List.replicate 300 'a')] := by
  rw [DocumentText.lines, show ((crowded name).asking range).source = encode (List.replicate 300 'a') from rfl,
    sourceLines_encode, crowded_charLines]
  rfl

variable {name number : Nat}

theorem crowded_lengths (h : number ≤ 1) : ((crowded name).asking range).lengths number = 300 := by
  rw [DocumentText.lengths, crowded_lines, line, show number - 1 = 0 by omega, List.getElem?_cons_zero,
    Option.getD_some, characters_encode, List.length_replicate]

theorem crowded_total (name : Nat) (range : ReadRange) : ((crowded name).asking range).total = 1 := by
  rw [DocumentText.total, crowded_lines]
  rfl

theorem size_utf16 (literal : String) (rest : Units) :
    size (utf16 literal ++ rest) = size (utf16 literal) + size rest := size_append _ _

theorem size_decimal (number : Nat) (rest : Units) :
    size (decimal number ++ rest) = size (decimal number) + size rest := size_append _ _

theorem size_digit (h : number ≤ 1) : size (decimal number) = 1 := by
  have hsmall : ∀ number ∈ List.range 2, size (decimal number) = 1 := by decide
  exact hsmall _ (List.mem_range.2 (by omega))

theorem size_digits (h : number ≤ 300) : size (decimal number) ≤ 3 := by
  have hone : ∀ c ∈ Nat.toDigits 10 number, (width ∘ Char.toNat) c = 1 := fun c hc ↦ by
    have hdigit := Nat.isDigit_of_mem_toDigits (by decide) (by decide) hc
    rw [Char.isDigit, Bool.and_eq_true, decide_eq_true_eq, decide_eq_true_eq] at hdigit
    have hle : c.toNat ≤ 57 := hdigit.2
    rw [Function.comp_apply, width, if_pos (by omega)]
  rw [decimal, utf16, Nat.toString_eq_ofList_toDigits, String.toList_ofList, size, points_encode, List.map_map,
    List.map_congr_left hone, List.map_const', List.sum_replicate_nat, Nat.mul_one]
  exact (Nat.length_toDigits_le_iff (by decide) (by decide)).2 (by omega)

theorem size_name (name : Nat) : size (encode (List.replicate name 'a')) = name := by
  rw [size, points_encode]
  simp [width]

/-- The name of the field is a part of the result like any other. -/
theorem crowded_size (name : Nat) (range : ReadRange) (window : Window) :
    size (((crowded name).asking range).render window) = name + size (((crowded 0).asking range).render window) := by
  have hheader : ∀ count, ((crowded count).asking range).header window =
      (encode (List.replicate count 'a') ++ utf16 ": " ++ []) ::
        (((crowded 0).asking range).header window).tail := fun _ ↦ rfl
  rw [size_render, size_render, hheader name, hheader 0]
  generalize (((crowded 0).asking range).header window).tail = rest
  simp only [List.append_nil, listedBytes, List.map_cons, List.sum_cons, size_append, size_name,
    List.replicate_zero, encode_nil, List.nil_append, List.tail_cons]
  omega

theorem crowded_bare (hshown : ((crowded 0).asking range).Shown window)
    (hlimit : range.limit = none) (hfirst : window.first = 1) (hcolumn : window.fromColumn ≤ 300)
    (houtline : window.outline = none ∨ window.outline = some [] ∧ window.fromColumn = 1) :
    size (((crowded 0).asking range).render (((crowded 0).asking range).bare window)) ≤ 306 := by
  have htotal := crowded_total 0 range
  have hnoted : ((crowded 0).asking range).noted = [] := ite_self _
  have hlisted : ((crowded 0).asking range).blockLines = [] := ite_self _
  have hblocks : ((crowded 0).asking range).blocks = none := rfl
  have hposition : ((crowded 0).asking range).next = fun _ ↦ [] := rfl
  have hfields : ((crowded 0).asking range).fields = [([], [])] := rfl
  have hvalue : oneLine [] FIELD_CHARS = [] := rfl
  have hsource : ((crowded 0).asking range).source = encode (List.replicate 300 'a') := rfl
  obtain ⟨first, column, last, cut, more, asked, text, listed, outline⟩ := window
  obtain rfl : first = 1 := hfirst
  obtain rfl : asked = none := hshown.asked.elim id fun h ↦ h.trans hlimit
  have hlast : last ≤ 1 := hshown.last.trans_eq htotal
  have hlongest : ((crowded 0).asking range).longest = 300 := by
    rw [DocumentText.longest, crowded_lines, List.map_singleton, characters_encode, List.length_replicate]
    rfl
  have hcut : ∀ column ∈ cut, size (decimal (column - 1)) ≤ 3 := fun column hmem ↦ by
    have hle : column ≤ _ + 1 := hshown.cut column hmem
    rw [hlongest] at hle
    exact size_digits (by omega)
  have hdigit := size_digit hlast
  have hdigits : size (decimal column) ≤ 3 := size_digits hcolumn
  have hlength : size (decimal 300) ≤ 3 := size_digits le_rfl
  have hbudget : size (decimal READ_BYTES) = 5 := by decide
  have hempty : size [] = 0 := rfl
  have hcolon : size (utf16 ": ") = 2 := by decide +kernel
  have hsize : size (utf16 "size: ") = 6 := by decide +kernel
  have hcharacters : size (utf16 " characters, ") = 13 := by decide +kernel
  have hlines : size (utf16 " lines") = 6 := by decide +kernel
  have hall : size (utf16 "lines: all ") = 11 := by decide +kernel
  have hsome : size (utf16 "lines: ") = 7 := by decide +kernel
  have hto : size (utf16 "-") = 1 := by decide +kernel
  have hof : size (utf16 " of ") = 4 := by decide +kernel
  have hmarker : size (utf16 "--- source lines ") = 17 := by decide +kernel
  have hend : size (utf16 " ---") = 4 := by decide +kernel
  have hstarts : size (utf16 "starts mid-line: line ") = 22 := by decide +kernel
  have hfrom : size (utf16 " from character ") = 16 := by decide +kernel
  have hends : size (utf16 "ends mid-line: line ") = 20 := by decide +kernel
  have hafter : size (utf16 " after character ") = 17 := by decide +kernel
  have hnext : size (utf16 "next: ") = 6 := by decide +kernel
  have hfollows : size (utf16 "More follows: each call returns at most ") = 40 := by decide +kernel
  have hbytes : size (utf16 " bytes.") = 7 := by decide +kernel
  have hlarger : size (utf16 "This document is larger than one result holds (") = 47 := by decide +kernel
  have hrest : size (utf16
      " bytes), so this is its outline and first part. Read the rest with the next call, ") = 82 := by
    decide +kernel
  have hjump : size (utf16 "or jump to a line from the outline.") = 35 := by decide +kernel
  rw [size_render, DocumentText.header, DocumentText.summary]
  rcases cut with _ | cut <;> cases more <;> rcases houtline with rfl | ⟨rfl, rfl⟩ <;>
    simp only [htotal, DocumentText.bare, List.map_cons, List.map_nil, List.sum_cons, List.sum_nil, List.append_nil,
      List.nil_append, List.append_assoc, Option.filter, if_true, if_false, reduceCtorEq, Option.isSome_none,
      Option.isSome_some, Bool.false_eq_true, lt_irrefl, List.cons_append, and_true, and_false, true_and,
      List.length_replicate, DocumentText.blockListing, DocumentText.marker, listedBytes, hnoted, hlisted, hblocks,
      hposition, hfields, hsource, Window.next, crowded_lengths hlast, DocumentText.lineRange, hvalue, size_utf16,
      size_decimal, characters_encode, hempty]
  all_goals try have hcut := hcut cut rfl
  all_goals try split_ifs
  all_goals
    simp only [List.map_cons, List.map_nil, List.sum_cons, List.sum_nil, List.nil_append, List.cons_append,
      size_utf16, size_decimal, hempty, hcolon, hsize, hcharacters, hlines, hall, hof, hsome, hto, hmarker, hend,
      hfollows, hbytes, hlarger, hrest, hjump, hstarts, hends, hafter, hfrom, hnext, hbudget, crowded_lengths le_rfl,
      size_digit le_rfl]
    simp only [← Nat.add_assoc, Nat.reduceAdd]
    omega

theorem crowded_outlined (name : Nat) : (crowded name).outlined = some [] := by
  have htotal : (crowded name).total = 1 := crowded_total name (crowded name).range
  have hempty : outline [] = [] := by simp [outline, listedBytes, chosen]
  rw [DocumentText.outlined, htotal]
  exact (if_neg (show ¬ (false || false || decide (1 = 0)) = true by decide)).trans (congrArg some hempty)

theorem crowded_range (hlimit : range.limit = none) (h : checkRange (crowded name).source range = .ok ()) :
    ((crowded name).asking range).offset = 1 ∧ ((crowded name).asking range).column ≤ 300 ∧
      (((crowded name).asking range).outlined = none ∨ ((crowded name).asking range).outlined = some [] ∧
        ((crowded name).asking range).column = 1) := by
  rw [checkRange, show (crowded name).source = encode (List.replicate 300 'a') from rfl, sourceLines_encode] at h
  obtain ⟨front, text, more, hat⟩ := checkLines_at h (by rw [crowded_charLines]; exact List.cons_ne_nil _ _)
  have hlines := hat.lines
  rw [crowded_charLines] at hlines
  obtain ⟨rfl, rfl, rfl⟩ : front = [] ∧ text = List.replicate 300 'a' ∧ more = [] := by
    cases front with
    | nil =>
      obtain ⟨htext, hmore⟩ := List.cons.inj hlines
      exact ⟨rfl, htext.symm, hmore.symm⟩
    | cons _ front => cases List.append_ne_nil_of_right_ne_nil _ (List.cons_ne_nil _ _) (List.cons.inj hlines).2.symm
  refine ⟨hat.offset, hat.within.trans_eq List.length_replicate, ?_⟩
  obtain ⟨offset, limit, column⟩ := range
  obtain rfl : limit = none := hlimit
  cases offset with
  | some offset => exact .inl rfl
  | none =>
    cases column with
    | none => exact .inr ⟨crowded_outlined name, rfl⟩
    | some column => cases h

theorem crowded_leaves {bytes : Nat} (h : name + 306 + bytes ≤ READ_BYTES) : (crowded name).Leaves bytes := by
  intro range hlimit hrange window hshown
  obtain ⟨hoffset, hcolumn, houtline⟩ := crowded_range hlimit hrange
  have hplain : ((crowded 0).asking range).Shown window :=
    ⟨hshown.first, hshown.fromColumn, hshown.last, hshown.cut, hshown.asked, hshown.outline⟩
  have hbare := crowded_bare hplain hlimit (hshown.first.trans hoffset)
    (hshown.fromColumn.trans_le hcolumn) (by rwa [hshown.outline, hshown.fromColumn])
  have hsize := crowded_size name range (((crowded name).asking range).bare window)
  have hlisted : ((crowded name).asking range).blockLines = [] := ite_self _
  rw [startingOn_none hlisted, hsize]
  have hsame : ((crowded name).asking range).bare window = ((crowded 0).asking range).bare window := rfl
  rw [hsame]
  simp only [listedBytes, List.map_nil, List.sum_nil]
  omega

/-- A reader's first result is the one asked for. -/
theorem Reads.result {parts : List Part} (h : Reads input range parts) :
    ∃ part ∈ parts, documentText (input.asking range) = .ok part.text := by
  cases h with
  | last _ result _ => exact ⟨_, List.mem_singleton_self _, result⟩
  | next _ result _ _ => exact ⟨_, List.mem_cons_self, result⟩

theorem takeLines_fields (input : DocumentText) (fields : List (Units × Units)) (room : Option Int)
    (lines : List Units) : ∀ taking, { input with fields }.takeLines room lines taking =
      input.takeLines room lines taking := by
  induction lines with
  | nil => exact fun _ ↦ rfl
  | cons unit more ih =>
    intro taking
    simp only [DocumentText.takeLines, ih]
    rfl

/-- What is taken depends on the header only by the room it leaves. -/
theorem take_fields (input : DocumentText) (fields : List (Units × Units)) (room : Option Int)
    (outlined : Option (List Units)) : { input with fields }.take room outlined = input.take room outlined := by
  rw [DocumentText.take, DocumentText.take, takeLines_fields]
  rfl

theorem worst_fields (input : DocumentText) (fields : List (Units × Units)) (outlined : Option (List Units)) :
    { input with fields }.worst outlined = input.worst outlined := rfl

theorem crowded_fields (name : Nat) :
    crowded name = { crowded 0 with fields := [(encode (List.replicate name 'a'), [])] } := rfl

/-- Four characters are taken where there is room for one. -/
theorem crowded_result (hname : name + 307 = READ_BYTES) :
    ∃ text, documentText (crowded name) = .ok text ∧ size text = name + 308 := by
  have hsize : ∀ window, size ((crowded name).render window) = name + size ((crowded 0).render window) :=
    crowded_size name (crowded 0).range
  have hall : size ((crowded 0).render ((crowded 0).take none none)) = 377 := by decide +kernel
  have hworst : size ((crowded 0).render ((crowded 0).worst (some []))) = 306 := by decide +kernel
  have htaken : size ((crowded 0).render ((crowded 0).take (some 1) (some []))) = 308 := by decide +kernel
  have hcheck : checkLines (crowded name).lines (crowded name).range = .ok () :=
    start_accepted (show (crowded name).source = encode (List.replicate 300 'a') from rfl) rfl rfl
  have houtlined := crowded_outlined name
  have hlongest : (crowded name).worst (some []) = (crowded 0).worst (some []) := by
    rw [crowded_fields, worst_fields]
  have htake : ∀ room outlined, (crowded name).take room outlined = (crowded 0).take room outlined := fun _ _ ↦ by
    rw [crowded_fields, take_fields]
  have hroom : (READ_BYTES : Int) - (name + 306 : Nat) = 1 := by omega
  have hshrink : (crowded name).shrink (some []) 1 1 = (crowded name).take (some 1) (some []) := by
    rw [DocumentText.shrink]
    exact if_pos (.inr (by decide))
  refine ⟨_, documentText_of_window ?_, (hsize ((crowded 0).take (some 1) (some []))).trans (by rw [htaken])⟩
  rw [DocumentText.window, hcheck]
  simp only [bind, Except.bind, htake, hsize, hall]
  have htotal : (crowded name).total ≠ 0 := by
    rw [show (crowded name).total = 1 from crowded_total _ _]
    decide
  rw [if_neg (by simp; omega), if_neg htotal, houtlined, hlongest, hworst, hroom, show (1 : Int).toNat = 1 from rfl, hshrink, htake]
  rfl

/-- One byte is room for any of these characters, but at least four are taken. -/
theorem crowded_overflows : (crowded 15693).source = encode (List.replicate 300 'a') ∧ (crowded 15693).Leaves 1 ∧
    ¬ ∃ parts, Reads (crowded 15693) (crowded 15693).range parts ∧
      (parts.map (·.window.text)).flatten = (crowded 15693).source ∧ ∀ part ∈ parts, part.Sound (crowded 15693) := by
  refine ⟨rfl, crowded_leaves (by decide), ?_⟩
  rintro ⟨parts, hreads, -, hsound⟩
  obtain ⟨part, hmem, hresult⟩ := hreads.result
  obtain ⟨text, htext, hsize⟩ := crowded_result (show 15693 + 307 = READ_BYTES from rfl)
  have hbytes := (hsound part hmem).bytes
  obtain rfl : part.text = text := Except.ok.inj (hresult.symm.trans htext)
  rw [hsize] at hbytes
  exact absurd hbytes (by decide)

/-- Four bytes are room enough. -/
theorem reads_crowded : ∃ parts, Reads (crowded 15690) (crowded 15690).range parts ∧
    (parts.map (·.window.text)).flatten = (crowded 15690).source ∧ ∀ part ∈ parts, part.Sound (crowded 15690) :=
  reads_source (show (crowded 15690).source = encode (List.replicate 300 'a') from rfl) rfl rfl
    (fun limit hlimit ↦ absurd hlimit (Option.not_mem_none limit)) (crowded_leaves (by decide))

end Chopin.Reading
