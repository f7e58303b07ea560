import Chopin.Reading.Documents

/-!
# What one result takes

The source of a document is a text, so everything that a result slices out of it is text as well.  This
file reads the operations of `document-reading.ts` on characters: `encode` carries each over.
-/

set_option autoImplicit false

open Script

namespace Chopin.Reading

/-! ## Lines -/

/-- The lines of a text, each with its newline. -/
def charLines : List Char → List (List Char)
  | [] => []
  | c :: rest => if c = '\n' then [c] :: charLines rest else before [c] (charLines rest)

theorem before_flatten {α : Type} (start : List α) (lines : List (List α)) :
    (before start lines).flatten = start ++ lines.flatten := by
  cases lines with
  | nil => simp [before]
  | cons line more => simp [before]

theorem charLines_flatten (chars : List Char) : (charLines chars).flatten = chars := by
  induction chars with
  | nil => rfl
  | cons c rest ih =>
    rw [charLines]
    split
    · rw [List.flatten_cons, ih, List.singleton_append]
    · rw [before_flatten, ih, List.singleton_append]

theorem charLines_ne_nil (chars : List Char) : ∀ line ∈ charLines chars, line ≠ [] := by
  induction chars with
  | nil => simp [charLines]
  | cons c rest ih =>
    rw [charLines]
    split
    · exact List.forall_mem_cons.2 ⟨List.cons_ne_nil _ _, ih⟩
    · cases hlines : charLines rest with
      | nil => simp [before]
      | cons line more =>
        rw [hlines] at ih
        exact List.forall_mem_cons.2 ⟨List.cons_ne_nil _ _, (List.forall_mem_cons.1 ih).2⟩

/-- A unit that is no newline goes on with the line. -/
theorem linesFrom_unit {unit : Nat} (h : unit ≠ newline) (rest : Units) :
    linesFrom (unit :: rest) = before [unit] (linesFrom rest) := by
  rw [linesFrom, if_neg h]

/-- Every character but the newline goes on with the line as a whole. -/
theorem linesFrom_unitsOf {c : Char} (h : c ≠ '\n') (rest : Units) :
    linesFrom (unitsOf c ++ rest) = before (unitsOf c) (linesFrom rest) := by
  rcases unitsOf_cases c with ⟨-, hunits, -⟩ | ⟨first, second, hunits, hhigh, hlow, -⟩
  · have hne : c.toNat ≠ newline := fun heq ↦ h (Char.toNat_inj.1 heq)
    rw [hunits, List.singleton_append, linesFrom_unit hne]
  · simp only [high, low, Bool.and_eq_true, decide_eq_true_eq] at hhigh hlow
    have hfirst : first ≠ newline := by rw [newline]; omega
    have hsecond : second ≠ newline := by rw [newline]; omega
    rw [hunits, List.cons_append, List.singleton_append, linesFrom_unit hfirst, linesFrom_unit hsecond]
    cases linesFrom rest <;> rfl

theorem sourceLines_encode (chars : List Char) : sourceLines (encode chars) = (charLines chars).map encode := by
  rw [sourceLines]
  induction chars with
  | nil => rfl
  | cons c rest ih =>
    rw [encode_cons, charLines]
    by_cases hnewline : c = '\n'
    · subst hnewline
      rw [if_pos rfl, List.map_cons, ← ih]
      rfl
    · rw [if_neg hnewline, linesFrom_unitsOf hnewline, ih]
      cases charLines rest with
      | nil => simp [before, encode]
      | cons line more => simp [before, encode_cons]

/-! ## Cuts -/

theorem encode_take (chars : List Char) (count : Nat) :
    (encode chars).take (encode (chars.take count)).length = encode (chars.take count) := by
  conv_lhs => rw [← List.take_append_drop count chars, encode_append]
  simp

theorem encode_drop (chars : List Char) (count : Nat) :
    (encode chars).drop (encode (chars.take count)).length = encode (chars.drop count) := by
  conv_lhs => rw [← List.take_append_drop count chars, encode_append]
  simp

/-- A prefix of code points is one of characters: those that fit, and no longer. -/
theorem prefixUnits_spec (bytes : Int) (chars : List Char) : ∀ (used finish : Nat), ∃ count ≤ chars.length,
      prefixUnits bytes (chars.map Char.toNat) used finish = finish + (encode (chars.take count)).length ∧
      (count = 0 ∨ (used + size (encode (chars.take count)) : Int) ≤ bytes) ∧
      (count < chars.length → bytes < (used + size (encode (chars.take (count + 1))) : Int)) := by
  induction chars with
  | nil => exact fun used finish ↦ ⟨0, le_rfl, rfl, .inl rfl, by simp⟩
  | cons c rest ih =>
    intro used finish
    rw [List.map_cons, prefixUnits]
    split
    · rename_i hover
      refine ⟨0, Nat.zero_le _, by simp, .inl rfl, fun _ ↦ ?_⟩
      rw [List.take_succ_cons, List.take_zero, size_cons]
      push_cast at hover ⊢
      simpa [size, points] using hover
    · rename_i hfits
      obtain ⟨count, hle, hunits, hsize, hnext⟩ := ih (used + width c.toNat) (finish + pointUnits c.toNat)
      refine ⟨count + 1, Nat.succ_le_succ hle, ?_, .inr ?_, fun hlt ↦ ?_⟩
      · rw [hunits, List.take_succ_cons, encode_cons, List.length_append, length_unitsOf, Nat.add_assoc]
      · rw [List.take_succ_cons, size_cons]
        rcases hsize with rfl | hsize
        · rw [List.take_zero, encode_nil, show size [] = 0 from rfl]
          push_cast at hfits ⊢
          omega
        · push_cast at hsize ⊢
          omega
      · have hnext := hnext (Nat.lt_of_succ_lt_succ hlt)
        rw [List.take_succ_cons, size_cons]
        push_cast at hnext ⊢
        omega

variable {chars : List Char}

/-- **A cut piece is not empty where a character fits, fits, and leaves something where not all does.** -/
theorem prefix_encode (bytes : Int) (hne : chars ≠ []) (hbytes : 4 ≤ bytes) :
    ∃ count, 0 < count ∧ prefixOf (encode chars) bytes = encode (chars.take count) ∧
      (size (encode (chars.take count)) : Int) ≤ bytes ∧ (bytes < size (encode chars) → count < chars.length) := by
  rw [prefixOf]
  split
  · rename_i hfits
    refine ⟨chars.length, List.length_pos_iff.2 hne, by rw [List.take_length], by rwa [List.take_length], ?_⟩
    omega
  · rename_i hover
    obtain ⟨count, hle, hunits, hsize, hnext⟩ := prefixUnits_spec bytes chars 0 0
    rw [points_encode, hunits, Nat.zero_add, encode_take]
    have hpos : 0 < count := by
      by_contra hzero
      obtain rfl : count = 0 := by omega
      obtain ⟨c, rest, rfl⟩ := List.exists_cons_of_ne_nil hne
      have hnext := hnext (Nat.succ_pos _)
      rw [List.take_succ_cons, List.take_zero, size_cons, encode_nil, show size [] = 0 from rfl] at hnext
      have hwidth := width_le c.toNat
      push_cast at hnext
      omega
    have hsize : (size (encode (chars.take count)) : Int) ≤ bytes := by
      rcases hsize with rfl | hsize
      · omega
      · simpa using hsize
    refine ⟨count, hpos, rfl, hsize, fun hlong ↦ ?_⟩
    by_contra hall
    rw [List.take_of_length_le (by omega)] at hsize
    omega

theorem unitsAt_encode {count : Nat} {c : Char} (h : chars[count]? = some c) :
    unitsAt (encode chars) (encode (chars.take count)).length = (unitsOf c).length := by
  rw [unitsAt, encode_drop, points_encode, List.head?_map, List.head?_drop, h, length_unitsOf]
  rfl

theorem skipColumns_encode (chars : List Char) (columns : Nat) : ∀ count,
    skipColumns (encode chars) columns (encode (chars.take count)).length =
      (encode (chars.take (count + columns))).length := by
  induction columns with
  | zero => exact fun _ ↦ rfl
  | succ columns ih =>
    intro count
    rw [skipColumns]
    cases hnext : chars[count]? with
    | none =>
      have hlength := List.getElem?_eq_none_iff.1 hnext
      rw [List.take_of_length_le hlength, List.take_of_length_le (by omega), if_neg (lt_irrefl _)]
    | some c =>
      have hsnoc : encode (chars.take (count + 1)) = encode (chars.take count) ++ unitsOf c := by
        rw [List.take_add_one, hnext, Option.toList_some, encode_append]
        simp [encode]
      have hlt : (encode (chars.take count)).length < (encode chars).length := by
        conv_rhs => rw [← List.take_append_drop (count + 1) chars, encode_append, List.length_append, hsnoc,
          List.length_append, length_unitsOf]
        have hpos : 0 < pointUnits c.toNat := by rw [pointUnits]; split_ifs <;> decide
        omega
      rw [if_pos hlt, unitsAt_encode hnext, ← List.length_append, ← hsnoc, ih (count + 1),
        Nat.add_right_comm, Nat.add_assoc]

/-- What a column leaves of a line begins with the character it counts. -/
theorem drop_column (chars : List Char) (column : Nat) :
    (encode chars).drop (indexOfColumn (encode chars) column) = encode (chars.drop (column - 1)) := by
  have hindex := skipColumns_encode chars (column - 1) 0
  rw [List.take_zero, Nat.zero_add] at hindex
  rw [indexOfColumn, show (0 : Nat) = (encode []).length from rfl, hindex, encode_drop]

/-! ## Positions -/

/-- What these lines hold from a column of the first. -/
def afterColumn (column : Nat) : List (List Char) → List Char
  | [] => []
  | line :: more => line.drop (column - 1) ++ more.flatten

/-- What is left of a text from a position. -/
def left (chars : List Char) (offset column : Nat) : List Char :=
  afterColumn column ((charLines chars).drop (offset - 1))

def Position.left (chars : List Char) (position : Position) : List Char :=
  Reading.left chars position.offset (position.column.getD 1)

theorem afterColumn_one (lines : List (List Char)) : afterColumn 1 lines = lines.flatten := by
  cases lines <;> rfl

theorem left_start (chars : List Char) : left chars 1 1 = chars := by
  rw [left, afterColumn_one, Nat.sub_self, List.drop_zero, charLines_flatten]

/-- A column of a line, with the lines before and after it. -/
structure At (chars : List Char) (offset column : Nat) (front : List (List Char)) (line : List Char)
    (more : List (List Char)) : Prop where
  lines : charLines chars = front ++ line :: more
  offset : offset = front.length + 1
  first : 1 ≤ column
  within : column ≤ line.length

variable {front more : List (List Char)}

variable {offset column : Nat}

theorem At.drop {line : List Char}
    (h : At chars offset column front line more) : (charLines chars).drop (offset - 1) = line :: more := by
  rw [h.lines, h.offset, Nat.add_sub_cancel, List.drop_left]

theorem At.left {line : List Char} (h : At chars offset column front line more) :
    Reading.left chars offset column = line.drop (column - 1) ++ more.flatten := by
  rw [Reading.left, h.drop]
  rfl

/-- A position is left with something. -/
theorem At.left_ne_nil
    {line : List Char} (h : At chars offset column front line more) : line.drop (column - 1) ≠ [] := by
  have hfirst := h.first
  have hwithin := h.within
  rw [ne_eq, List.drop_eq_nil_iff]
  omega

/-- The start of a later line. -/
theorem At.next {line : List Char}
    (h : At chars offset column front line more) {count : Nat} (hmore : count < more.length) :
    ∃ front line more, At chars (offset + count + 1) 1 front line more := by
  obtain ⟨next, rest, hdrop⟩ : ∃ next rest, more.drop count = next :: rest :=
    ⟨_, _, List.drop_eq_getElem_cons hmore⟩
  have hsplit : more = more.take count ++ next :: rest := by rw [← hdrop, List.take_append_drop]
  have hlines : charLines chars = (front ++ line :: more.take count) ++ next :: rest := by
    rw [h.lines, List.append_assoc, List.cons_append, ← hsplit]
  have hne := charLines_ne_nil chars next (by rw [hlines]; simp)
  refine ⟨_, next, rest, hlines, ?_, le_rfl, List.length_pos_iff.2 hne⟩
  rw [h.offset, List.length_append, List.length_cons, List.length_take_of_le hmore.le]
  omega

variable {text : List Char}

theorem line_encode (hoffset : offset = front.length + 1) :
    line ((front ++ text :: more).map encode) offset = encode text := by
  rw [line, hoffset, Nat.add_sub_cancel, List.getElem?_map, List.getElem?_append_right le_rfl,
    Nat.sub_self, List.getElem?_cons_zero]
  rfl

/-- A range that is accepted is at a position, unless the document is empty. -/
theorem checkLines_at {range : ReadRange}
    (h : checkLines ((charLines chars).map encode) range = .ok ()) (hne : charLines chars ≠ []) :
    ∃ front line more, At chars (range.offset.getD 1) (range.column.getD 1) front line more := by
  have htotal : ((charLines chars).map encode).length ≠ 0 := by simpa using hne
  simp only [checkLines, htotal, ne_eq, not_false_eq_true, if_true] at h
  split at h; · cases h
  split at h; · cases h
  rename_i hoffset
  split at h; · cases h
  rename_i hcolumn
  simp only [List.length_map, Bool.or_eq_true, decide_eq_true_eq, not_or, not_lt] at hoffset hcolumn
  have hlt : range.offset.getD 1 - 1 < (charLines chars).length := by omega
  obtain ⟨front, text, more, hsplit, hlength⟩ : ∃ front text more, charLines chars = front ++ text :: more ∧
      front.length = range.offset.getD 1 - 1 :=
    ⟨(charLines chars).take _, _, _, (List.take_append_drop _ _).symm.trans
      (congrArg _ (List.drop_eq_getElem_cons hlt)), List.length_take_of_le hlt.le⟩
  have hfront : range.offset.getD 1 = front.length + 1 := by omega
  rw [hsplit, line_encode hfront, characters_encode] at hcolumn
  exact ⟨front, text, more, hsplit, hfront, hcolumn.1, hcolumn.2⟩

theorem At.accepted (h : At chars offset column front text more)
    (position : Position) (hoffset : position.offset = offset) (hcolumn : position.column.getD 1 = column) :
    checkLines ((charLines chars).map encode) position.range = .ok () := by
  have htotal : ((charLines chars).map encode).length ≠ 0 := by rw [h.lines]; simp
  have hline : offset ≤ ((charLines chars).map encode).length := by
    rw [h.lines, h.offset]
    simp
  have hfirst := h.first
  have hwithin := h.within
  have hone : 1 ≤ offset := by rw [h.offset]; omega
  rw [checkLines]
  simp only [Position.range, Option.isNone_some, Bool.and_false, Bool.false_eq_true, if_false, htotal, ne_eq,
    not_false_eq_true, if_true, Option.getD_some, hoffset, hcolumn]
  rw [if_neg, if_neg]
  · rw [h.lines, line_encode h.offset, characters_encode]
    simp only [Bool.or_eq_true, decide_eq_true_eq, not_or, not_lt]
    exact ⟨hfirst, hwithin⟩
  · simp only [Bool.or_eq_true, decide_eq_true_eq, not_or, not_lt]
    exact ⟨hone, hline⟩

/-! ## Filling a result -/

variable {input : DocumentText}

/-- What has been taken is this text, it fits, and no line of it is cut. -/
structure Taken (input : DocumentText) (room : Option Int) (text : List Char)
    (taking : DocumentText.Taking) : Prop where
  pieces : taking.pieces.flatten = encode text
  used : taking.used = size (encode text) + listedBytes taking.listed
  fits : DocumentText.fits room taking.used = true
  listed : input.blockLines = [] → taking.listed = []
  uncut : taking.cut = none

theorem listedBytes_append (before after : List Units) :
    listedBytes (before ++ after) = listedBytes before + listedBytes after := by
  rw [listedBytes, List.map_append, List.sum_append]
  rfl

theorem startingOn_none (h : input.blockLines = []) (number column : Nat) : input.startingOn number column = [] := by
  rw [DocumentText.startingOn, DocumentText.blocksOn, h]
  exact ite_self _

variable {room : Option Int}

/-- One more whole line. -/
theorem Taken.line {rest : List Char} {taking : DocumentText.Taking}
    {starting : List Units} (h : Taken input room text taking)
    (hfits : DocumentText.fits room (taking.used + (size (encode rest) + listedBytes starting)) = true)
    (hlisted : input.blockLines = [] → starting = []) :
    Taken input room (text ++ rest)
      { pieces := taking.pieces ++ [encode rest], listed := taking.listed ++ starting
        used := taking.used + (size (encode rest) + listedBytes starting), line := taking.line + 1
        fromColumn := 1, cut := none } := by
  refine ⟨?_, ?_, hfits, fun hnone ↦ ?_, rfl⟩
  · rw [List.flatten_append, h.pieces, encode_append, List.flatten_singleton]
  · simp only [encode_append, size_append, listedBytes_append, h.used]
    omega
  · rw [h.listed hnone, hlisted hnone, List.append_nil]

/-- Once something is taken, only whole lines are. -/
theorem takeLines_whole (lines : List (List Char)) :
    ∀ {text : List Char} {taking : DocumentText.Taking}, Taken input room text taking →
      taking.fromColumn = 1 → taking.pieces ≠ [] →
      ∃ count ≤ lines.length, Taken input room (text ++ (lines.take count).flatten)
          (input.takeLines room (lines.map encode) taking) ∧
        (input.takeLines room (lines.map encode) taking).line = taking.line + count := by
  induction lines with
  | nil => exact fun h _ _ ↦ ⟨0, le_rfl, by simpa [DocumentText.takeLines] using h, rfl⟩
  | cons text' more ih =>
    intro text taking h hcolumn hpieces
    have hstop : ∃ count ≤ (text' :: more).length,
        Taken input room (text ++ ((text' :: more).take count).flatten) taking ∧
          taking.line = taking.line + count := ⟨0, Nat.zero_le _, by simpa using h, rfl⟩
    rw [List.map_cons, DocumentText.takeLines]
    split
    · dsimp only
      rw [show DocumentText.restOfLine (encode text') taking.fromColumn = encode text' by
        rw [hcolumn, DocumentText.restOfLine, if_pos rfl]]
      split
      · rename_i hfits
        obtain ⟨count, hle, htaken, hline⟩ :=
          ih (h.line hfits fun hnone ↦ startingOn_none hnone _ _) rfl (by simp)
        refine ⟨count + 1, Nat.succ_le_succ hle, ?_, ?_⟩
        · rw [List.take_succ_cons, List.flatten_cons, ← List.append_assoc]
          exact htaken
        · simp only [hline]
          omega
      · exact hstop
    · exact hstop

/-- There is room for any character beside the blocks that start where the result does. -/
def Room (input : DocumentText) (room : Int) : Prop :=
  4 + (listedBytes (input.startingOn input.offset input.column) : Int) ≤ room

/-- Nothing taken yet. -/
def nothing (input : DocumentText) : DocumentText.Taking :=
  { pieces := [], listed := [], used := 0, line := input.offset, fromColumn := input.column, cut := none }

/-- What is left of the first line is taken whole, with whole lines after it, or cut. -/
theorem takeLines_first {line : List Char} (more : List (List Char))
    (hne : line.drop (input.column - 1) ≠ []) (hrequested : input.offset ≤ input.requested)
    (hroom : ∀ bytes ∈ room, Room input bytes) :
    (∃ count ≤ more.length, Taken input room (line.drop (input.column - 1) ++ (more.take count).flatten)
        (input.takeLines room (encode line :: more.map encode) (nothing input)) ∧
      (input.takeLines room (encode line :: more.map encode) (nothing input)).line =
        input.offset + 1 + count) ∨
    ∃ bytes ∈ room, ∃ count, 0 < count ∧ count < (line.drop (input.column - 1)).length ∧
      input.takeLines room (encode line :: more.map encode) (nothing input) =
        { nothing input with
          pieces := [encode ((line.drop (input.column - 1)).take count)]
          listed := input.startingOn input.offset input.column, cut := some (input.column + count) } ∧
      (size (encode ((line.drop (input.column - 1)).take count))
        + listedBytes (input.startingOn input.offset input.column) : Int) ≤ bytes := by
  have hrest : DocumentText.restOfLine (encode line) input.column = encode (line.drop (input.column - 1)) := by
    rw [DocumentText.restOfLine]
    split
    · rename_i hone; rw [hone]; rfl
    · exact drop_column line input.column
  rw [DocumentText.takeLines, if_pos (by exact hrequested)]
  simp only [nothing, hrest]
  split
  · rename_i hfits
    have hstart : Taken input room [] (nothing input) := by
      refine ⟨rfl, rfl, ?_, fun _ ↦ rfl, rfl⟩
      cases room with
      | none => rfl
      | some bytes =>
        have hbytes := hroom bytes rfl
        simp only [Room] at hbytes
        exact decide_eq_true (by simp only [nothing]; omega)
    obtain ⟨count, hle, htaken, hline⟩ := takeLines_whole more
      (hstart.line hfits fun hnone ↦ startingOn_none hnone _ _) rfl (by simp)
    exact .inl ⟨count, hle, htaken, hline⟩
  · rename_i hover
    cases room with
    | none => exact absurd rfl hover
    | some bytes =>
      have hbytes := hroom bytes rfl
      rw [Room] at hbytes
      have hover : bytes < (size (encode (line.drop (input.column - 1)))
          + listedBytes (input.startingOn input.offset input.column) : Nat) := by
        simpa [DocumentText.fits] using hover
      rw [if_pos trivial, Option.getD_some, max_eq_left (by omega)]
      obtain ⟨count, hpos, hpiece, hsize, hcut⟩ :=
        prefix_encode (bytes - listedBytes (input.startingOn input.offset input.column)) hne (by omega)
      have hlt := hcut (by push_cast at hover; omega)
      rw [hpiece, characters_encode, List.length_take_of_le hlt.le]
      exact .inr ⟨bytes, rfl, count, hpos, hlt, by simp, by omega⟩

/-- No line is longer than the longest. -/
theorem longest_le {line : List Char}
    (hsplit : charLines chars = front ++ line :: more) (hlines : input.lines = (charLines chars).map encode) :
    line.length ≤ (input.lines.map characters).foldl max 1 := by
  have hmem : line.length ∈ input.lines.map characters := by
    rw [hlines, hsplit, List.map_map]
    exact List.mem_map.2 ⟨line, by simp, characters_encode line⟩
  rw [List.foldl_max]
  obtain ⟨longest, hlongest⟩ := Option.isSome_iff_exists.1 (List.isSome_max?_of_mem hmem)
  have hle := (List.max?_le_iff hlongest).1 le_rfl _ hmem
  rw [hlongest, Option.getD_some]
  omega

/-- What a result is of a text: it takes some of what is left, and names the position of the rest. -/
structure Page (input : DocumentText) (chars text : List Char) (window : Window) : Prop where
  encoded : window.text = encode text
  some : text ≠ []
  rest : left chars input.offset input.column = text ++ (window.next.map (Position.left chars)).getD []
  accepted : ∀ position ∈ window.next, checkLines input.lines position.range = .ok ()
  first : window.first = input.offset
  column : window.fromColumn = input.column
  last : window.last ≤ input.total
  cut : ∀ cut ∈ window.cut, cut ≤ (input.lines.map characters).foldl max 1 + 1
  asked : window.asked = none ∨ window.asked = input.range.limit
  listed : input.blockLines = [] → window.listed = []
  ended : window.next = none → window.last = input.total ∧ window.cut = none

/-- **One result.**  From a position of a text it takes something, within the room it is given. -/
theorem take_spec {line : List Char} (room : Option Int) (outlined : Option (List Units))
    (hsource : input.source = encode chars) (hat : At chars input.offset input.column front line more)
    (hrequested : input.offset ≤ input.requested) (hroom : ∀ bytes ∈ room, Room input bytes) :
    ∃ text, Page input chars text (input.take room outlined) ∧ ∀ bytes ∈ room,
      (size (encode text) + listedBytes (input.take room outlined).listed : Int) ≤ bytes := by
  have hlines : input.lines = (charLines chars).map encode := by
    rw [DocumentText.lines, hsource, sourceLines_encode]
  have hdrop : input.lines.drop (input.offset - 1) = encode line :: more.map encode := by
    rw [hlines, ← List.map_drop, hat.drop, List.map_cons]
  have htotal : input.total = front.length + (more.length + 1) := by
    rw [DocumentText.total, hlines, hat.lines]
    simp
  have hoffset := hat.offset
  have hfirst := takeLines_first more hat.left_ne_nil hrequested hroom
  rw [DocumentText.take, hdrop, ← nothing]
  generalize input.takeLines room (encode line :: more.map encode) (nothing input) = taken at *
  rcases hfirst with ⟨count, hle, htaken, hline⟩ | ⟨bytes, hbytes, count, hpos, hlt, rfl, hsize⟩
  · -- whole lines: the next result starts on the line after them
    have hlength : (more.take count).length = count := List.length_take_of_le hle
    have hleft : left chars input.offset input.column =
        (line.drop (input.column - 1) ++ (more.take count).flatten) ++ (more.drop count).flatten := by
      rw [hat.left, List.append_assoc, ← List.flatten_append, List.take_append_drop]
    have hafter : (charLines chars).drop (input.offset + count) = more.drop count := by
      rw [hat.lines, hoffset, ← List.singleton_append, ← List.append_assoc,
        show front.length + 1 + count = (front ++ [line]).length + count by simp,
        List.drop_length_add_append]
    have hnext : ∀ asked, Window.next ⟨input.offset, input.column, taken.line - 1, none,
        decide (taken.line ≤ input.total), asked, taken.pieces.flatten, taken.listed, outlined⟩ =
          if count < more.length then some ⟨input.offset + count + 1, none⟩ else none := fun asked ↦ by
      rw [Window.next]
      simp only [decide_eq_true_eq, hline, htotal, hoffset]
      split_ifs <;> first | omega | rfl | (congr 2; omega)
    simp only [htaken.uncut, Option.isSome_none, Bool.false_or, Bool.false_eq_true, if_false]
    refine ⟨line.drop (input.column - 1) ++ (more.take count).flatten, ⟨htaken.pieces, ?_, ?_, ?_, rfl, rfl, ?_,
      by simp, ?_, htaken.listed, ?_⟩, fun bytes hbytes ↦ ?_⟩
    · simp [hat.left_ne_nil]
    · rw [hleft, hnext]
      split_ifs with hmore
      · rw [Option.map_some, Option.getD_some, Position.left, Option.getD_none, Reading.left, Nat.add_sub_cancel,
          hafter, afterColumn_one]
      · rw [List.drop_of_length_le (show more.length ≤ count by omega)]
        rfl
    · intro position hposition
      rw [hnext] at hposition
      split_ifs at hposition with hmore
      · cases hposition
        rw [hlines]
        obtain ⟨_, _, _, hnext⟩ := hat.next hmore
        exact hnext.accepted _ rfl rfl
      · cases hposition
    · simp only [hline, htotal, hoffset]; omega
    · dsimp only; split_ifs
      · exact .inr rfl
      · exact .inl rfl
    · intro hend
      rw [hnext] at hend
      split_ifs at hend
      exact ⟨by simp only [hline, htotal, hoffset]; omega, rfl⟩
    · have hused := htaken.used
      have hfits := htaken.fits
      rw [Option.mem_def.1 hbytes] at hfits
      have hfits : (taken.used : Int) ≤ bytes := by simpa [DocumentText.fits] using hfits
      omega
  · -- a line longer than the room: the next result starts in it
    simp only [nothing, Option.isSome_some, Bool.true_or, if_true]
    have hat' : At chars input.offset (input.column + count) front line more := by
      have hcolumn := hat.first
      rw [List.length_drop] at hlt
      exact ⟨hat.lines, hoffset, by omega, by omega⟩
    refine ⟨(line.drop (input.column - 1)).take count, ⟨by simp, ?_, ?_, ?_, rfl, rfl, ?_, ?_, ?_,
      fun hnone ↦ startingOn_none hnone _ _, by simp [Window.next]⟩, fun other hother ↦ ?_⟩
    · simp [hat.left_ne_nil]
      omega
    · rw [hat.left, Window.next, if_pos rfl, Option.map_some, Option.getD_some, Position.left, Option.getD_some,
        hat'.left, ← List.append_assoc, Nat.sub_add_comm hat.first, ← List.drop_drop, List.take_append_drop]
    · intro position hposition
      cases hposition
      rw [hlines]
      exact hat'.accepted _ rfl rfl
    · simp only [htotal, hoffset]; omega
    · rintro _ ⟨⟩
      have hlongest := longest_le hat.lines hlines
      have hwithin := hat'.within
      omega
    · dsimp only; split_ifs
      · exact .inr rfl
      · exact .inl rfl
    · obtain rfl := Option.mem_unique hbytes hother
      exact hsize

end Chopin.Reading
