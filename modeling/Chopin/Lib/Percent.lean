import Chopin.Lib.Utf16

/-!
# Percent encoding

`encodeURIComponent` writes every character that is not one of a few ASCII ones as its UTF-8 bytes, each
as `%` and two digits, and throws on a text with half a surrogate pair; `decodeURIComponent` reads the
bytes back, and throws when they are no UTF-8.
-/

set_option autoImplicit false

namespace Script

/-! ## Text -/

/-- A code point that is no half of a pair. -/
def scalar? (point : Nat) : Option Char :=
  if point.isValidChar then some (Char.ofNat point) else none

/-- The characters of a string, unless half a surrogate pair stands alone in it. -/
def chars? (text : Units) : Option (List Char) := do
  let chars ← (points text).mapM scalar?
  -- This only refuses numbers that are no code units.
  if encode chars = text then some chars else none

theorem scalar?_toNat (c : Char) : scalar? c.toNat = some c := by
  rw [scalar?, if_pos (show c.toNat.isValidChar from c.valid), Char.ofNat_toNat]

variable {chars : List Char}

theorem chars?_iff {text : Units} : chars? text = some chars ↔ text = encode chars := by
  constructor
  · intro h
    rw [chars?] at h
    cases hchars : (points text).mapM scalar? with
    | none => rw [hchars] at h; exact nomatch h
    | some found =>
      rw [hchars] at h
      replace h : (if encode found = text then some found else none) = some chars := h
      split at h
      · rename_i htext
        rw [← Option.some.inj h, htext]
      · cases h
  · rintro rfl
    have hpoints : ((chars.map Char.toNat).mapM scalar?) = some chars := by
      induction chars with
      | nil => rfl
      | cons c rest ih => rw [List.map_cons, List.mapM_cons, scalar?_toNat, ih]; rfl
    rw [chars?, points_encode, hpoints]
    exact if_pos rfl

@[simp] theorem chars?_encode (chars : List Char) : chars? (encode chars) = some chars := chars?_iff.2 rfl

/-! ## Bytes -/

/-- The UTF-8 bytes of a code point. -/
def utf8 (point : Nat) : List Nat :=
  if point < 0x80 then [point]
  else if point < 0x800 then [0xc0 + point / 0x40, 0x80 + point % 0x40]
  else if point < 0x10000 then [0xe0 + point / 0x1000, 0x80 + point / 0x40 % 0x40, 0x80 + point % 0x40]
  else [0xf0 + point / 0x40000, 0x80 + point / 0x1000 % 0x40, 0x80 + point / 0x40 % 0x40, 0x80 + point % 0x40]

/-- How many bytes follow this first byte of a character; none where it is no first byte. -/
def following (octet : Nat) : Option Nat :=
  if octet < 0x80 then some 0
  else if octet < 0xc0 then none
  else if octet < 0xe0 then some 1
  else if octet < 0xf0 then some 2
  else if octet < 0xf8 then some 3
  else none

/-- The bits a group of bytes carries. -/
def payload : List Nat → Nat
  | [first] => first
  | [first, second] => first % 0x20 * 0x40 + second % 0x40
  | [first, second, third] => first % 0x10 * 0x1000 + second % 0x40 * 0x40 + third % 0x40
  | [first, second, third, fourth] =>
    first % 0x8 * 0x40000 + second % 0x40 * 0x1000 + third % 0x40 * 0x40 + fourth % 0x40
  | _ => 0

/-- The character these bytes are the UTF-8 of, in its shortest form. -/
def char? (octets : List Nat) : Option Char := do
  let c ← scalar? (payload octets)
  if utf8 c.toNat = octets then some c else none

theorem toNat_lt (c : Char) : c.toNat < 0x110000 := by
  have hvalid := c.valid
  simp only [UInt32.isValidChar, Nat.isValidChar] at hvalid
  simp only [Char.toNat]
  omega

variable {point : Nat}

theorem payload_utf8 (h : point < 0x110000) : payload (utf8 point) = point := by
  rw [utf8]
  split_ifs <;> simp only [payload] <;> omega

/-- **A character's own bytes are read as that character.** -/
theorem char?_utf8 (c : Char) : char? (utf8 c.toNat) = some c := by
  rw [char?, payload_utf8 (toNat_lt c), scalar?_toNat]
  exact if_pos rfl

variable {octet : Nat}

theorem utf8_octet (h : point < 0x110000) (hoctet : octet ∈ utf8 point) : octet < 0x100 := by
  rw [utf8] at hoctet
  split_ifs at hoctet <;> simp only [List.mem_cons, List.not_mem_nil, or_false] at hoctet <;> omega

/-- The first byte tells how many follow. -/
theorem utf8_following (h : point < 0x110000) :
    ∃ first rest, utf8 point = first :: rest ∧ following first = some rest.length := by
  rw [utf8]
  split_ifs <;> refine ⟨_, _, rfl, ?_⟩ <;> simp only [following, List.length_cons, List.length_nil] <;>
    split_ifs <;> first | rfl | omega

/-! ## Escapes -/

/-- `%`. -/
def percent : Nat := 0x25

/-- A digit of an escape, in upper case. -/
def hexDigit (value : Nat) : Nat := if value < 10 then 0x30 + value else 0x37 + value

/-- The value of a hexadecimal digit in either case. -/
def digit? (unit : Nat) : Option Nat :=
  if 0x30 ≤ unit ∧ unit ≤ 0x39 then some (unit - 0x30)
  else if 0x41 ≤ unit ∧ unit ≤ 0x46 then some (unit - 0x37)
  else if 0x61 ≤ unit ∧ unit ≤ 0x66 then some (unit - 0x57)
  else none

/-- The byte two digits are for. -/
def octet? (upper lower : Nat) : Option Nat := do
  let upper ← digit? upper
  let lower ← digit? lower
  pure (0x10 * upper + lower)

/-- A byte as an escape. -/
def escape (octet : Nat) : Units := [percent, hexDigit (octet / 0x10), hexDigit (octet % 0x10)]

variable {value : Nat}

theorem digit?_digit (h : value < 0x10) : digit? (hexDigit value) = some value := by
  rw [hexDigit, digit?]
  split_ifs <;> first | omega | (congr 1; omega)

theorem octet?_escape (h : octet < 0x100) :
    octet? (hexDigit (octet / 0x10)) (hexDigit (octet % 0x10)) = some octet := by
  rw [octet?, digit?_digit (by omega), digit?_digit (by omega)]
  exact congrArg some (Nat.div_add_mod octet 0x10)

/-- The characters `encodeURIComponent` leaves as they are. -/
def unreserved (c : Char) : Bool :=
  c.isAlphanum || c ∈ ['-', '_', '.', '!', '~', '*', '\'', '(', ')']

/-- One character of `encodeURIComponent`. -/
def encodedChar (c : Char) : Units := if unreserved c then unitsOf c else (utf8 c.toNat).flatMap escape

/-- `encodeURIComponent(text)`; none where it throws a `URIError`. -/
def encodeURIComponent (text : Units) : Option Units := do
  let chars ← chars? text
  pure (chars.flatMap encodedChar)

/-- What one more byte makes of a character being read: the whole character, or more of its bytes. -/
inductive Taken where
  | whole (c : Char)
  | pending (octets : List Nat) (more : Nat)

/-- The next byte, when `octets` were read and `more` are still to come. -/
def takeOctet (octets : List Nat) (more octet : Nat) : Option Taken :=
  match more with
  | 0 =>
    match following octet with
    | none => none
    | some 0 => (char? [octet]).map .whole
    | some (count + 1) => some (.pending [octet] (count + 1))
  | 1 => (char? (octets ++ [octet])).map .whole
  | count + 2 => some (.pending (octets ++ [octet]) (count + 1))

/-- `decodeURIComponent` from one place of a text, where `octets` are the bytes of a character already read
and `more` the number it still needs. -/
def decodeFrom (octets : List Nat) (more : Nat) : Units → Option Units
  | [] => if more = 0 then some [] else none
  | first :: upper :: lower :: rest =>
    if first = percent then
      match (octet? upper lower).bind (takeOctet octets more) with
      | none => none
      | some (.pending octets more) => decodeFrom octets more rest
      | some (.whole c) => (decodeFrom [] 0 rest).map (unitsOf c ++ ·)
    else if more = 0 then (decodeFrom [] 0 (upper :: lower :: rest)).map (first :: ·)
    else none
  | first :: rest =>
    if first = percent then none
    else if more = 0 then (decodeFrom [] 0 rest).map (first :: ·)
    else none

/-- `decodeURIComponent(text)`; none where it throws a `URIError`. -/
def decodeURIComponent (text : Units) : Option Units := decodeFrom [] 0 text

example : decodeURIComponent (utf16 "a%2F%C3%a9/") = some (utf16 "a/é/") := by decide

example : decodeURIComponent (utf16 "%C3") = none ∧ decodeURIComponent (utf16 "%C0%80") = none ∧
    decodeURIComponent (utf16 "%ED%A0%80") = none ∧ decodeURIComponent (utf16 "%4") = none := by decide

/-! ## Reading back -/

/-- A unit that begins no escape stands for itself. -/
theorem decodeFrom_cons (octets : List Nat) (more : Nat) {first : Nat} (rest : Units) (h : first ≠ percent) :
    decodeFrom octets more (first :: rest) =
      if more = 0 then (decodeFrom [] 0 rest).map (first :: ·) else none := by
  rcases rest with _ | ⟨second, _ | ⟨third, rest⟩⟩
  · rw [decodeFrom.eq_3 _ _ _ _ (by simp), if_neg h]
  · rw [decodeFrom.eq_3 _ _ _ _ (by simp), if_neg h]
  · rw [decodeFrom, if_neg h]

variable {octets : List Nat} {more : Nat}

theorem decodeFrom_escape (rest : Units) (h : octet < 0x100) :
    decodeFrom octets more (escape octet ++ rest) =
      match takeOctet octets more octet with
      | none => none
      | some (.pending octets more) => decodeFrom octets more rest
      | some (.whole c) => (decodeFrom [] 0 rest).map (unitsOf c ++ ·) := by
  rw [escape, List.cons_append, List.cons_append, List.cons_append, List.nil_append, decodeFrom, if_pos rfl,
    octet?_escape h]
  rfl

variable {c : Char}

/-- The bytes of a character that are still to come are read to its end. -/
theorem decodeFrom_octets (rest : Units) : ∀ (more : List Nat) (octets : List Nat), more ≠ [] →
    octets ≠ [] → octets ++ more = utf8 c.toNat → decodeFrom octets more.length (more.flatMap escape ++ rest) =
      (decodeFrom [] 0 rest).map (unitsOf c ++ ·) := by
  intro more
  induction more with
  | nil => exact fun _ h ↦ absurd rfl h
  | cons octet more ih =>
    intro octets _ hne hall
    have hoctet : octet < 0x100 := utf8_octet (toNat_lt c) (hall ▸ by simp)
    rw [List.flatMap_cons, List.append_assoc, decodeFrom_escape _ hoctet]
    rcases more with _ | ⟨next, more⟩
    · simp only [List.length_singleton, takeOctet, hall, char?_utf8, Option.map_some, List.flatMap_nil,
        List.nil_append]
    · simp only [List.length_cons, takeOctet]
      exact ih (octets ++ [octet]) (by simp) (by simp) (by simpa using hall)

/-- An ASCII character is its own unit. -/
theorem unitsOf_ascii (h : c.toNat < 0x80) : unitsOf c = [c.toNat] := by
  rw [unitsOf, if_pos (by omega)]

/-- What is left as it is is ASCII, and neither `%` nor a separator of a path or a link. -/
theorem unreserved_unit (h : unreserved c = true) :
    c.toNat < 0x80 ∧ c.toNat ≠ percent ∧ c.toNat ≠ 0x2f ∧ c.toNat ≠ 0x3f ∧ c.toNat ≠ 0x23 := by
  rw [unreserved] at h
  delta Char.isAlphanum Char.isAlpha Char.isUpper Char.isLower Char.isDigit at h
  simp only [Bool.or_eq_true, Bool.and_eq_true, decide_eq_true_eq, List.mem_cons, List.not_mem_nil, or_false,
    ← Char.val_inj, UInt32.le_iff_toNat_le, ← UInt32.toNat_inj] at h
  simp at h
  simp only [percent]
  omega

theorem decodeFrom_encodedChar (c : Char) (rest : Units) :
    decodeFrom [] 0 (encodedChar c ++ rest) = (decodeFrom [] 0 rest).map (unitsOf c ++ ·) := by
  rw [encodedChar]
  split
  · rename_i hunreserved
    obtain ⟨hascii, hpercent, -⟩ := unreserved_unit hunreserved
    rw [unitsOf_ascii hascii, List.singleton_append, decodeFrom_cons _ _ _ hpercent, if_pos rfl]
    rfl
  · obtain ⟨first, more, hutf8, hfollowing⟩ := utf8_following (toNat_lt c)
    have hfirst : first < 0x100 := utf8_octet (toNat_lt c) (hutf8 ▸ by simp)
    rw [hutf8, List.flatMap_cons, List.append_assoc, decodeFrom_escape _ hfirst]
    rcases more with _ | ⟨next, more⟩
    · simp only [takeOctet, hfollowing, List.length_nil, ← hutf8, char?_utf8, Option.map_some, List.flatMap_nil,
        List.nil_append]
    · simp only [takeOctet, hfollowing, List.length_cons]
      exact decodeFrom_octets rest (next :: more) [first] (by simp) (by simp) hutf8.symm

/-- A text is refused only for half a pair. -/
theorem encodeURIComponent_encode (chars : List Char) :
    encodeURIComponent (encode chars) = some (chars.flatMap encodedChar) := by
  rw [encodeURIComponent, chars?_encode]
  rfl

theorem encodeURIComponent_some {text encoded : Units} (h : encodeURIComponent text = some encoded) :
    ∃ chars, text = encode chars ∧ encoded = chars.flatMap encodedChar := by
  rw [encodeURIComponent] at h
  cases hchars : chars? text with
  | none => rw [hchars] at h; exact nomatch h
  | some chars =>
    rw [hchars] at h
    exact ⟨chars, chars?_iff.1 hchars, (Option.some.inj h).symm⟩

/-- **What `encodeURIComponent` wrote, `decodeURIComponent` reads back.** -/
theorem decode_encode {text encoded : Units} (h : encodeURIComponent text = some encoded) :
    decodeURIComponent encoded = some text := by
  obtain ⟨chars, rfl, rfl⟩ := encodeURIComponent_some h
  clear h
  induction chars with
  | nil => rfl
  | cons c rest ih =>
    rw [decodeURIComponent] at ih
    rw [decodeURIComponent, List.flatMap_cons, decodeFrom_encodedChar, ih, encode_cons]
    rfl

/-! ## What is written -/

theorem digit_bounds (h : value < 0x10) : 0x2f < hexDigit value ∧ hexDigit value < 0x80 ∧ hexDigit value ≠ 0x3f := by
  rw [hexDigit]
  split <;> omega

variable {unit : Nat}

/-- Nothing written separates the parts of a path or begins a query or a fragment. -/
theorem encodedChar_unit (h : unit ∈ encodedChar c) : unit ≠ 0x2f ∧ unit ≠ 0x3f ∧ unit ≠ 0x23 := by
  rw [encodedChar] at h
  split at h
  · rename_i hunreserved
    obtain ⟨hascii, -, hslash, hquery, hhash⟩ := unreserved_unit hunreserved
    rw [unitsOf_ascii hascii] at h
    rw [List.mem_singleton.1 h]
    exact ⟨hslash, hquery, hhash⟩
  · obtain ⟨octet, hoctet, hunit⟩ := List.mem_flatMap.1 h
    have hlt := utf8_octet (toNat_lt c) hoctet
    have hupper : octet / 0x10 < 0x10 := by omega
    have hlower : octet % 0x10 < 0x10 := by omega
    have hupperDigit := digit_bounds hupper
    have hlowerDigit := digit_bounds hlower
    simp only [escape, percent, List.mem_cons, List.not_mem_nil, or_false] at hunit
    omega

theorem encodedChar_ne_nil (c : Char) : encodedChar c ≠ [] := by
  rw [encodedChar]
  split
  · rcases unitsOf_cases c with ⟨-, hunits, -⟩ | ⟨_, _, hunits, -⟩ <;> rw [hunits] <;> exact List.cons_ne_nil _ _
  · obtain ⟨first, more, hutf8, -⟩ := utf8_following (toNat_lt c)
    rw [hutf8, List.flatMap_cons]
    exact List.cons_ne_nil _ _

/-! ## Texts stay texts -/

variable {rest : Units}

/-- An ASCII unit of a text is a character of it. -/
theorem encode_eq_cons (h : encode chars = unit :: rest)
    (hascii : unit < 0x80) : ∃ more, rest = encode more ∧ more.length < chars.length := by
  cases chars with
  | nil => cases h
  | cons c more =>
    rw [encode_cons] at h
    rcases unitsOf_cases c with ⟨-, hunits, -⟩ | ⟨first, second, hunits, hhigh, -⟩
    · rw [hunits] at h
      exact ⟨more, (List.cons.inj h).2.symm, Nat.lt_succ_self _⟩
    · rw [hunits] at h
      obtain ⟨rfl, -⟩ := List.cons.inj h
      simp only [high, Bool.and_eq_true, decide_eq_true_eq] at hhigh
      omega

theorem digit?_ascii (h : digit? unit = some value) : unit < 0x80 := by
  rw [digit?] at h
  split_ifs at h <;> omega

variable {out : Units}

theorem decodeFrom_cons_some {first : Nat} (hfirst : first ≠ percent)
    (h : decodeFrom octets more (first :: rest) = some out) :
    ∃ tail, decodeFrom [] 0 rest = some tail ∧ out = first :: tail := by
  rw [decodeFrom_cons _ _ _ hfirst] at h
  split at h
  · obtain ⟨tail, htail, rfl⟩ := Option.map_eq_some_iff.1 h
    exact ⟨tail, htail, rfl⟩
  · cases h

/-- An escape is two digits, and the reading goes on after them. -/
theorem decodeFrom_percent_some (h : decodeFrom octets more (percent :: rest) = some out) :
    ∃ upper lower tail octet, rest = upper :: lower :: tail ∧ octet? upper lower = some octet ∧
      ((∃ octets more, decodeFrom octets more tail = some out) ∨
        ∃ c found, decodeFrom [] 0 tail = some found ∧ out = unitsOf c ++ found) := by
  rcases rest with _ | ⟨upper, _ | ⟨lower, tail⟩⟩
  · rw [decodeFrom.eq_3 _ _ _ _ (by simp), if_pos rfl] at h; exact nomatch h
  · rw [decodeFrom.eq_3 _ _ _ _ (by simp), if_pos rfl] at h; exact nomatch h
  · rw [decodeFrom, if_pos rfl] at h
    cases hoctet : octet? upper lower with
    | none => rw [hoctet] at h; exact nomatch h
    | some octet =>
      refine ⟨upper, lower, tail, octet, rfl, hoctet, ?_⟩
      rw [hoctet, Option.bind_some] at h
      cases htaken : takeOctet octets more octet with
      | none => rw [htaken] at h; exact nomatch h
      | some taken =>
        rw [htaken] at h
        cases taken with
        | pending octets more => exact .inl ⟨octets, more, h⟩
        | whole c =>
          obtain ⟨found, hfound, rfl⟩ := Option.map_eq_some_iff.1 h
          exact .inr ⟨c, found, hfound, rfl⟩

theorem octet?_ascii {upper lower : Nat} (h : octet? upper lower = some octet) : upper < 0x80 ∧ lower < 0x80 := by
  rw [octet?] at h
  cases hupper : digit? upper with
  | none => rw [hupper] at h; exact nomatch h
  | some _ =>
    cases hlower : digit? lower with
    | none => rw [hupper, hlower] at h; exact nomatch h
    | some _ => exact ⟨digit?_ascii hupper, digit?_ascii hlower⟩

/-- The induction is on the length of the text, as an escape takes three characters at once. -/
theorem decodeFrom_text {size : Nat} : ∀ {chars : List Char} {octets : List Nat} {more : Nat} {out : Units},
    chars.length = size → decodeFrom octets more (encode chars) = some out → ∃ found, out = encode found := by
  induction size using Nat.strong_induction_on with
  | _ size ih =>
    intro chars octets more out hsize h
    cases chars with
    | nil =>
      rw [encode_nil, decodeFrom] at h
      split at h
      · exact ⟨[], (Option.some.inj h).symm⟩
      · cases h
    | cons c tail =>
      have htail : tail.length < size := hsize ▸ Nat.lt_succ_self _
      rw [encode_cons] at h
      rcases unitsOf_cases c with ⟨-, hunits, -⟩ | ⟨first, second, hunits, hhigh, hlow, -⟩
      · rw [hunits, List.singleton_append] at h
        by_cases hpercent : c.toNat = percent
        · rw [hpercent] at h
          obtain ⟨upper, lower, rest, octet, hrest, hoctet, hread⟩ := decodeFrom_percent_some h
          obtain ⟨hupper, hlower⟩ := octet?_ascii hoctet
          obtain ⟨more₁, hmore₁, hlength₁⟩ := encode_eq_cons hrest hupper
          obtain ⟨more₂, rfl, hlength₂⟩ := encode_eq_cons hmore₁.symm hlower
          rcases hread with ⟨octets, more, hread⟩ | ⟨c, found, hread, rfl⟩
          · exact ih more₂.length (by omega) rfl hread
          · obtain ⟨found, rfl⟩ := ih more₂.length (by omega) rfl hread
            exact ⟨c :: found, (encode_cons c found).symm⟩
        · obtain ⟨out, hout, rfl⟩ := decodeFrom_cons_some hpercent h
          obtain ⟨found, rfl⟩ := ih tail.length htail rfl hout
          exact ⟨c :: found, by rw [encode_cons, hunits]; rfl⟩
      · rw [hunits] at h
        simp only [high, low, Bool.and_eq_true, decide_eq_true_eq] at hhigh hlow
        obtain ⟨out, hsecond, rfl⟩ := decodeFrom_cons_some (by rw [percent]; omega) h
        obtain ⟨out, hout, rfl⟩ := decodeFrom_cons_some (by rw [percent]; omega) hsecond
        obtain ⟨found, rfl⟩ := ih tail.length htail rfl hout
        exact ⟨c :: found, by rw [encode_cons, hunits]; rfl⟩

/-- **A text is only decoded to a text.** -/
theorem decode_text (h : decodeURIComponent (encode chars) = some out) :
    ∃ found, out = encode found := decodeFrom_text rfl h

end Script
