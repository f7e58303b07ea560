import Chopin.Wireframes.PartFacts
import Chopin.Wireframes.Print

/-!
# Printed parts, read again

Each token that is printed is read as what it was printed from, up to the space or the end that follows it.  So the
printed line of a part that is sound is read as the part.
-/

set_option autoImplicit false
set_option linter.dupNamespace false

open Script

namespace Chopin.Wireframes

/-! ## Texts -/

/-- Nothing follows, or a space does. -/
def Ends (rest : Units) : Prop := ∀ unit ∈ rest.head?, unit = space

theorem Ends.any {rest : Units} (h : Ends rest) : rest.head?.any (· != space) = false := by
  cases rest with
  | nil => rfl
  | cons unit rest => simp [h unit rfl]

theorem Legible.control {text : Units} (h : Legible text) : ∀ unit ∈ text, control unit = true → unit = newline := by
  intro unit hunit hcontrol
  by_contra hline
  have hmem : unit ∈ oneLine text := List.mem_map.2 ⟨unit, hunit, if_neg hline⟩
  exact Bool.false_ne_true (((checkText_eq_none.1 h).2.2 unit hmem).symm.trans hcontrol)

theorem Legible.length_le {text : Units} (h : Legible text) : text.length ≤ maxLabel := by
  simpa [oneLine] using (checkText_eq_none.1 h).2.1

theorem Legible.checkText {text : Units} (h : Legible text) (hcontrol : text.any Wireframes.control = false) :
    checkText text = none := by
  have hline : oneLine text = text := oneLine_eq_self fun unit hunit ↦ by
    simpa using List.any_eq_false.1 hcontrol unit hunit
  rwa [Legible, hline] at h

section

variable {value rest : Units} {unit : Nat}

theorem readQuoted_close (h : Legible value) (hrest : Ends rest) :
    readQuoted value (doubleQuote :: rest) = .ok (value, rest) := by
  rw [readQuoted.eq_def]
  dsimp only
  rw [if_pos rfl, hrest.any, if_neg Bool.false_ne_true, show checkText (oneLine value) = none from h]

theorem readQuoted_escaped (h : unit = doubleQuote ∨ unit = backslash) :
    readQuoted value (backslash :: unit :: rest) = readQuoted (value ++ [unit]) rest := by
  have hquote : backslash ≠ doubleQuote := by decide
  rw [readQuoted.eq_def]
  dsimp only
  rw [if_neg hquote, if_pos rfl, if_pos h]

theorem readQuoted_newline :
    readQuoted value (backslash :: letterN :: rest) = readQuoted (value ++ [newline]) rest := by
  have hquote : backslash ≠ doubleQuote := by decide
  have hletter : ¬(letterN = doubleQuote ∨ letterN = backslash) := by decide
  rw [readQuoted.eq_def]
  dsimp only
  rw [if_neg hquote, if_pos rfl, if_neg hletter, if_pos rfl]

theorem readQuoted_plain (hquote : unit ≠ doubleQuote) (hslash : unit ≠ backslash) (hcontrol : control unit = false)
    (hlength : (value ++ [unit]).length ≤ maxLabel) :
    readQuoted value (unit :: rest) = readQuoted (value ++ [unit]) rest := by
  rw [readQuoted.eq_def]
  dsimp only
  rw [if_neg hquote, if_neg hslash, hcontrol, if_neg Bool.false_ne_true, if_neg (Nat.not_lt.2 hlength)]

end

/-- **A quoted text is read as what was quoted.** -/
theorem readQuoted_quote {value text rest : Units} (h : Legible (value ++ text)) (hrest : Ends rest) :
    readQuoted value (text.flatMap escape ++ doubleQuote :: rest) = .ok (value ++ text, rest) := by
  induction text generalizing value with
  | nil =>
    rw [List.append_nil] at h ⊢
    exact readQuoted_close h hrest
  | cons unit text ih =>
    have hmore : Legible (value ++ [unit] ++ text) := by rwa [List.append_assoc]
    have hread := ih hmore
    rw [List.append_assoc, List.singleton_append] at hread
    rw [List.flatMap_cons, List.append_assoc, ← hread, escape]
    split_ifs with hslash hline
    · exact readQuoted_escaped hslash.symm
    · rw [hline]
      exact readQuoted_newline
    · rw [not_or] at hslash
      refine readQuoted_plain hslash.2 hslash.1 (Bool.eq_false_iff.2 fun hcontrol ↦ ?_) ?_
      · exact hline (h.control unit (by simp) hcontrol)
      · have hlength := hmore.length_le
        rw [List.length_append] at hlength
        exact Nat.le_of_add_right_le hlength

theorem readQuoted_text {text rest : Units} (h : Legible text) (hrest : Ends rest) :
    readQuoted [] (text.flatMap escape ++ doubleQuote :: rest) = .ok (text, rest) :=
  @readQuoted_quote [] text rest h hrest

theorem quote_append (text rest : Units) :
    quote text ++ rest = doubleQuote :: (text.flatMap escape ++ doubleQuote :: rest) := by
  rw [quote, List.cons_append, List.append_assoc, List.singleton_append]

/-! ## Words -/

section

variable {p : Nat → Bool} {word rest : Units}

/-- A word ends where the first unit stands that is none of its own. -/
theorem takeWhile_word (hword : ∀ unit ∈ word, p unit = true) (hrest : ∀ unit ∈ rest.head?, p unit = false) :
    (word ++ rest).takeWhile p = word := by
  rw [List.takeWhile_append_of_pos hword]
  cases rest with
  | nil => rw [List.takeWhile_nil, List.append_nil]
  | cons unit rest => rw [List.takeWhile_cons_of_neg (by simp [hrest unit rfl]), List.append_nil]

theorem dropWhile_word (hword : ∀ unit ∈ word, p unit = true) (hrest : ∀ unit ∈ rest.head?, p unit = false) :
    (word ++ rest).dropWhile p = rest := by
  rw [List.dropWhile_append_of_pos hword]
  cases rest with
  | nil => rfl
  | cons unit rest => rw [List.dropWhile_cons_of_neg (by simp [hrest unit rfl])]

theorem wordOf_append (hword : ∀ unit ∈ word, unit ≠ space) (hrest : Ends rest) : wordOf (word ++ rest) = word :=
  takeWhile_word (by simpa using hword) fun unit hunit ↦ by simp [hrest unit hunit]

theorem afterWord_append (hword : ∀ unit ∈ word, unit ≠ space) (hrest : Ends rest) : afterWord (word ++ rest) = rest :=
  dropWhile_word (by simpa using hword) fun unit hunit ↦ by simp [hrest unit hunit]

end

/-- A lower case letter has no meaning of its own. -/
theorem lower_ne {unit : Nat} (h : lower unit = true) :
    unit ≠ space ∧ unit ≠ doubleQuote ∧ unit ≠ hash ∧ unit ≠ dash ∧ unit ≠ equals ∧ State.blank unit = false := by
  have hrange : 0x61 ≤ unit := by simp [lower] at h; exact h.1
  refine ⟨?_, ?_, ?_, ?_, ?_, ?_⟩ <;> simp only [State.blank, space, tab, doubleQuote, hash, dash, equals]
  all_goals first | omega | simp; omega

theorem isId_ne {id : Units} (h : isId id = true) : id ≠ [] ∧ ∀ unit ∈ id, unit ≠ space ∧ unit ≠ tab := by
  rw [isId, Bool.and_eq_true, List.all_eq_true] at h
  refine ⟨fun hnil ↦ by simp [hnil] at h, fun unit hunit ↦ ?_⟩
  have hclass := h.2 unit hunit
  constructor <;> rintro rfl <;> exact absurd hclass (by decide)

/-- The words of the table are lower case letters. -/
theorem Kind.name_lower (kind : Kind) : kind.name ≠ [] ∧ ∀ unit ∈ kind.name, lower unit = true := by
  cases kind <;> decide

theorem Kind.flags_lower (kind : Kind) : ∀ flag ∈ kind.spec.flags, flag ≠ [] ∧ ∀ unit ∈ flag, lower unit = true := by
  cases kind <;> decide

theorem Kind.keys_lower (kind : Kind) :
    ∀ key ∈ kind.spec.props.map Prod.fst, key ≠ [] ∧ key.length < 32 ∧ ∀ unit ∈ key, lower unit = true := by
  cases kind <;> decide

theorem kindOf_name (kind : Kind) : kindOf kind.name = some kind := by
  cases kind <;> rfl

theorem kindOf_eq_some {word : Units} {kind : Kind} (h : kindOf word = some kind) : word = kind.name := by
  have hfound : Kind.all.find? (·.name == word) = some kind := h
  have hname := List.find?_some hfound
  exact (beq_iff_eq.1 hname).symm

/-- A target is a word of its own. -/
theorem isTarget_ne {target : Units} (h : isTarget target = true) : target ≠ [] ∧ ∀ unit ∈ target, unit ≠ space := by
  rw [isTarget] at h
  split_ifs at h with hhash
  · cases target with
    | nil => cases hhash
    | cons unit rest =>
      have hunit : unit = hash := Option.some.inj hhash
      have hspace : unit ≠ space := by rw [hunit]; decide
      exact ⟨List.cons_ne_nil _ _, List.forall_mem_cons.2 ⟨hspace, fun other hother ↦ ((isId_ne h).2 other hother).1⟩⟩
  · obtain ⟨kind, hkind⟩ := Option.isSome_iff_exists.1 h
    rw [kindOf_eq_some hkind]
    exact ⟨kind.name_lower.1, fun unit hunit ↦ (lower_ne (kind.name_lower.2 unit hunit)).1⟩

/-! ### Keys -/

/-- A word without `=` is no key. -/
theorem keyOf_word {word rest : Units} (hword : ∀ unit ∈ word, lower unit = true) (hrest : Ends rest) :
    keyOf (word ++ rest) = none := by
  have hstop : ∀ unit ∈ (rest.take (32 - word.length)).head?, unit = space := fun unit hunit ↦ by
    rw [List.head?_take] at hunit
    split_ifs at hunit
    · cases hunit
    · exact hrest unit hunit
  have hfront : ∀ unit ∈ word.take 32, lower unit = true := fun unit hunit ↦ hword unit (List.mem_of_mem_take hunit)
  have hkey : (word.take 32 ++ rest.take (32 - word.length)).takeWhile lower = word.take 32 :=
    takeWhile_word hfront fun unit hunit ↦ by rw [hstop unit hunit]; rfl
  have hnone : ((rest.take (32 - word.length)).head? == some equals) = false := by
    cases hhead : (rest.take (32 - word.length)).head? with
    | none => rfl
    | some unit => rw [hstop unit hhead]; rfl
  rw [keyOf, List.take_append]
  simp only [hkey, List.drop_left, hnone, Bool.and_false]
  rfl

theorem keyOf_key {key rest : Units} (hfull : key ≠ []) (hshort : key.length < 32)
    (hkey : ∀ unit ∈ key, lower unit = true) : keyOf (key ++ equals :: rest) = some key := by
  obtain ⟨more, hmore⟩ : ∃ more, 32 - key.length = more + 1 := ⟨31 - key.length, by omega⟩
  have hfound : (key ++ equals :: rest.take more).takeWhile lower = key :=
    takeWhile_word hkey fun unit hunit ↦ by cases hunit; rfl
  rw [keyOf, List.take_append, List.take_of_length_le hshort.le, hmore, List.take_succ_cons]
  simp only [hfound, List.drop_left, List.head?_cons, beq_self_eq_true, Bool.and_true]
  rw [if_pos (by simpa using hfull)]

/-! ## Tokens -/

/-- The value of a property is read as it was printed. -/
theorem readValue_printed {key value rest : Units} (h : Legible value) (hrest : Ends rest) :
    readValue key (printedValue value ++ rest) = .ok (value, rest) := by
  rw [printedValue]
  split_ifs with hbare
  · simp only [bareValue, Bool.and_eq_true, Bool.not_eq_true', List.isEmpty_eq_false_iff, List.all_eq_true] at hbare
    obtain ⟨⟨hfull, hplain⟩, hcontrol⟩ := hbare
    have hspace : ∀ unit ∈ value, unit ≠ space := by
      rintro unit hunit rfl
      exact absurd (hplain _ hunit).1 (by decide)
    have hquote : ∀ unit ∈ value, unit ≠ doubleQuote := fun unit hunit ↦ by simpa using (hplain unit hunit).2
    have hhead : (value ++ rest).head? ≠ some doubleQuote := by
      cases value with
      | nil => exact absurd rfl hfull
      | cons unit text => simpa using hquote unit List.mem_cons_self
    have hnone : value.contains doubleQuote = false := by
      simpa using fun hmem ↦ hquote _ hmem rfl
    rw [readValue, if_neg hhead]
    simp only [wordOf_append hspace hrest, afterWord_append hspace hrest]
    rw [if_neg (by simpa using hfull), if_neg (by simpa using hnone), h.checkText hcontrol]
  · rw [quote_append, readValue, List.head?_cons, if_pos rfl, List.tail_cons]
    exact readQuoted_text h hrest

section

variable {part : Part} {rest : Units}

theorem readToken_label {label : Units} (hnone : part.label = none) (hrule : part.kind.spec.label ≠ .none)
    (htext : Legible label) (hrest : Ends rest) :
    readToken part (quote label ++ rest) = .ok ({ part with label := some label }, rest) := by
  have hspace : doubleQuote ≠ space := by decide
  rw [quote_append, readToken, if_neg hspace, if_pos rfl, readLabel, hnone, Option.isSome_none,
    if_neg Bool.false_ne_true, if_neg hrule, readQuoted_text htext hrest]

theorem readToken_id {id : Units} (hnone : part.id = none) (hid : isId id = true) (hlength : id.length ≤ maxId)
    (hrest : Ends rest) : readToken part (hash :: id ++ rest) = .ok ({ part with id := some id }, rest) := by
  have hspace : hash ≠ space := by decide
  have hquote : hash ≠ doubleQuote := by decide
  have hword : ∀ unit ∈ hash :: id, unit ≠ space :=
    List.forall_mem_cons.2 ⟨hspace, fun unit hunit ↦ ((isId_ne hid).2 unit hunit).1⟩
  rw [List.cons_append, readToken, if_neg hspace, if_neg hquote, if_pos rfl, readId, ← List.cons_append,
    wordOf_append hword hrest, afterWord_append hword hrest, hnone, Option.isSome_none, if_neg Bool.false_ne_true,
    List.tail_cons, hid, Bool.not_true, if_neg Bool.false_ne_true, if_neg (Nat.not_lt.2 hlength)]

theorem readToken_target {target : Units} (hnone : part.target = none) (htakes : part.kind.spec.target = true)
    (htarget : isTarget target = true) (hnote : target ≠ Kind.note.name) (hrest : Ends rest) :
    readToken part ((arrow ++ space :: target) ++ rest) = .ok ({ part with target := some target }, rest) := by
  obtain ⟨hfull, hword⟩ := isTarget_ne htarget
  have hspaces : (space :: target ++ rest).dropWhile (· == space) = target ++ rest := by
    refine @dropWhile_word (· == space) [space] _ (by simp) fun unit hunit ↦ ?_
    cases target with
    | nil => exact absurd rfl hfull
    | cons first target =>
      cases hunit
      exact beq_false_of_ne (hword _ List.mem_cons_self)
  have hpoints : pointsOn ((arrow ++ space :: target) ++ rest) = true := rfl
  rw [show (arrow ++ space :: target) ++ rest = dash :: 0x3e :: (space :: target ++ rest) from rfl] at hpoints ⊢
  rw [readToken, if_neg (by decide), if_neg (by decide), if_neg (by decide), if_pos hpoints, readTarget]
  simp only [List.drop_succ_cons, List.drop_zero, hspaces, wordOf_append hword hrest, afterWord_append hword hrest]
  rw [htakes, hnone, htarget, if_neg (by simp), if_neg (by simp), if_neg (by simpa using hfull), if_neg (by simp),
    if_neg hnote]

/-- A flag or a key begins with a letter. -/
theorem readToken_lower {unit : Nat} (h : lower unit = true) :
    readToken part (unit :: rest) =
      match keyOf (unit :: rest) with
      | some key => readProp part key (unit :: rest)
      | none => readFlag part (unit :: rest) := by
  obtain ⟨hspace, hquote, hhash, hdash, -, -⟩ := lower_ne h
  have hpoints : pointsOn (unit :: rest) = false := by
    simp [pointsOn, arrow, List.isPrefixOf, hdash.symm]
  rw [readToken, if_neg hspace, if_neg hquote, if_neg hhash, hpoints]
  exact if_neg Bool.false_ne_true

theorem readToken_flag {flag : Units} (hflag : flag ∈ part.kind.spec.flags) (hnew : flag ∉ part.flags)
    (hrest : Ends rest) : readToken part (flag ++ rest) = .ok ({ part with flags := part.flags ++ [flag] }, rest) := by
  obtain ⟨hfull, hlower⟩ := part.kind.flags_lower flag hflag
  have hspace : ∀ unit ∈ flag, unit ≠ space := fun unit hunit ↦ (lower_ne (hlower unit hunit)).1
  have hall : flag.all lower = true := List.all_eq_true.2 hlower
  have hread : readToken part (flag ++ rest) = readFlag part (flag ++ rest) := by
    cases flag with
    | nil => exact absurd rfl hfull
    | cons unit word =>
      have hkey := keyOf_word hlower hrest
      rw [List.cons_append] at hkey ⊢
      rw [readToken_lower (hlower unit List.mem_cons_self), hkey]
  rw [hread, readFlag]
  simp only [wordOf_append hspace hrest, afterWord_append hspace hrest]
  rw [hall, Bool.not_true, if_neg Bool.false_ne_true, if_neg (by simpa using hflag), if_neg (by simpa using hnew)]

theorem readToken_prop {key value : Units} {allowed : Value} (hallowed : part.kind.spec.props.lookup key = some allowed)
    (hvalue : allowed.Allows value) (htext : Legible value) (hnew : key ∉ part.props.map Prod.fst) (hrest : Ends rest) :
    readToken part (key ++ equals :: printedValue value ++ rest) =
      .ok ({ part with props := part.props ++ [(key, value)] }, rest) := by
  obtain ⟨before, after, hprops, -⟩ := List.lookup_eq_some_iff.1 hallowed
  obtain ⟨hfull, hshort, hlower⟩ := part.kind.keys_lower key (by simp [hprops])
  have hnone : part.props.lookup key = none := List.lookup_eq_none_iff.2 fun entry hentry ↦ by
    simpa using fun heq : key = entry.1 ↦ hnew (heq ▸ List.mem_map_of_mem hentry)
  have hread : readToken part (key ++ equals :: (printedValue value ++ rest)) =
      readProp part key (key ++ equals :: (printedValue value ++ rest)) := by
    have hkey : keyOf (key ++ equals :: (printedValue value ++ rest)) = some key := keyOf_key hfull hshort hlower
    cases key with
    | nil => exact absurd rfl hfull
    | cons unit word =>
      rw [List.cons_append] at hkey ⊢
      rw [readToken_lower (hlower unit List.mem_cons_self), hkey]
  have hdrop : (key ++ equals :: (printedValue value ++ rest)).drop (key.length + 1) = printedValue value ++ rest := by
    rw [List.drop_append, List.drop_eq_nil_of_le (Nat.le_succ _), Nat.add_sub_cancel_left]
    rfl
  rw [List.append_assoc, List.cons_append, hread, readProp, hallowed]
  dsimp only
  rw [hnone, hdrop, Option.isSome_none, if_neg Bool.false_ne_true, readValue_printed htext hrest]
  dsimp only
  rw [refusedValue_eq_none.2 hvalue]

end

/-! ## Lines of parts -/

/-- The tokens are read one after the other, whatever follows the last. -/
inductive Reading : Part → List Units → Part → Prop
  | nil {part : Part} : Reading part [] part
  | cons {part next last : Part} {token : Units} {rest : List Units} (full : token ≠ [])
      (read : ∀ line, Ends line → readToken part (token ++ line) = .ok (next, line)) (more : Reading next rest last) :
      Reading part (token :: rest) last

theorem Reading.one {part next : Part} {token : Units} (full : token ≠ [])
    (read : ∀ line, Ends line → readToken part (token ++ line) = .ok (next, line)) : Reading part [token] next :=
  .cons full read .nil

theorem Reading.append {part next last : Part} {first second : List Units} (h : Reading part first next)
    (hmore : Reading next second last) : Reading part (first ++ second) last := by
  induction h with
  | nil => exact hmore
  | cons full read _ ih => exact .cons full read (ih hmore)

/-- Tokens as they follow the kind. -/
def spaced (tokens : List Units) : Units := tokens.flatMap (space :: ·)

theorem ends_spaced (tokens : List Units) : Ends (spaced tokens) := by
  cases tokens with
  | nil => exact nofun
  | cons token rest => exact fun unit hunit ↦ (Option.some.inj hunit).symm

theorem Reading.readTokens {part last : Part} {tokens : List Units} (h : Reading part tokens last) {fuel : Nat}
    (hfuel : (spaced tokens).length ≤ fuel) : readTokens fuel part (spaced tokens) = .ok last := by
  induction h generalizing fuel with
  | nil =>
    cases fuel with
    | zero => rfl
    | succ fuel => rfl
  | @cons part next last token rest full read more ih =>
    have hline : spaced (token :: rest) = space :: (token ++ spaced rest) := rfl
    have hpos : 0 < token.length := List.length_pos_iff.2 full
    rw [hline, List.length_cons, List.length_append] at hfuel
    obtain ⟨fuel, rfl⟩ : ∃ less, fuel = less + 1 + 1 := ⟨fuel - 2, by omega⟩
    rw [hline, Wireframes.readTokens, List.isEmpty_cons, if_neg Bool.false_ne_true, readToken, if_pos rfl]
    dsimp only
    rw [Wireframes.readTokens, if_neg (by simp [full]), read _ (ends_spaced rest)]
    exact ih (by omega)

section

variable {part : Part}

/-- Flags, after those that have been read. -/
theorem reading_flags {flags todo : List Units} (hallowed : ∀ flag ∈ todo, flag ∈ part.kind.spec.flags)
    (honce : (flags ++ todo).Nodup) : Reading { part with flags } todo { part with flags := flags ++ todo } := by
  induction todo generalizing flags with
  | nil =>
    rw [List.append_nil]
    exact .nil
  | cons flag rest ih =>
    have hmore : flags ++ flag :: rest = flags ++ [flag] ++ rest := by simp
    have hnew : flag ∉ flags := fun hmem ↦ (List.nodup_append.1 honce).2.2 flag hmem flag List.mem_cons_self rfl
    have hflag := hallowed flag List.mem_cons_self
    refine .cons (part.kind.flags_lower flag hflag).1 (fun line hline ↦ readToken_flag hflag hnew hline) ?_
    rw [hmore] at honce ⊢
    exact ih (fun other hother ↦ hallowed other (List.mem_cons_of_mem _ hother)) honce

theorem reading_props {props todo : List (Units × Units)} (hallowed : ∀ key value, (key, value) ∈ todo →
      Legible value ∧ ∃ allowed, part.kind.spec.props.lookup key = some allowed ∧ allowed.Allows value)
    (honce : ((props ++ todo).map Prod.fst).Nodup) :
    Reading { part with props } (todo.map fun (key, value) ↦ key ++ equals :: printedValue value)
      { part with props := props ++ todo } := by
  induction todo generalizing props with
  | nil =>
    rw [List.append_nil]
    exact .nil
  | cons entry rest ih =>
    obtain ⟨key, value⟩ := entry
    have hmore : props ++ (key, value) :: rest = props ++ [(key, value)] ++ rest := by simp
    have hnew : key ∉ props.map Prod.fst := fun hmem ↦ by
      rw [List.map_append] at honce
      exact (List.nodup_append.1 honce).2.2 key hmem key List.mem_cons_self rfl
    obtain ⟨htext, allowed, hlookup, hvalue⟩ := hallowed key value List.mem_cons_self
    refine .cons (by simp) (fun line hline ↦ readToken_prop hlookup hvalue htext hnew hline) ?_
    rw [hmore] at honce ⊢
    exact ih (fun key value hentry ↦ hallowed key value (List.mem_cons_of_mem _ hentry)) honce

/-- **The tokens of a sound part are read as the part**, without its items. -/
theorem reading_tokens (h : part.Sound) (span : Span) :
    Reading { kind := part.kind, span } (tokens part) { part with items := [], span } := by
  have hlabel : Reading { kind := part.kind, span } (part.label.map quote).toList
      { kind := part.kind, label := part.label, span } := by
    cases hlabel : part.label with
    | none => exact .nil
    | some label =>
      obtain ⟨hrule, htext⟩ := h.label label hlabel
      exact .one (by simp [quote]) fun line hline ↦ readToken_label rfl hrule htext hline
  have hid : Reading { kind := part.kind, label := part.label, span } (part.id.map (hash :: ·)).toList
      { kind := part.kind, label := part.label, id := part.id, span } := by
    cases hid : part.id with
    | none => exact .nil
    | some id =>
      obtain ⟨hword, hlength⟩ := h.id id hid
      exact .one (by simp) fun line hline ↦ readToken_id rfl hword hlength hline
  have hflags : Reading { kind := part.kind, label := part.label, id := part.id, span } part.flags
      { kind := part.kind, label := part.label, id := part.id, flags := part.flags, span } :=
    @reading_flags { kind := part.kind, label := part.label, id := part.id, span } [] _ h.flags h.flagsOnce
  have hprops : Reading { kind := part.kind, label := part.label, id := part.id, flags := part.flags, span }
      (part.props.map fun (key, value) ↦ key ++ equals :: printedValue value)
      { kind := part.kind, label := part.label, id := part.id, flags := part.flags, props := part.props, span } :=
    @reading_props { kind := part.kind, label := part.label, id := part.id, flags := part.flags, span } [] _ h.props
      h.propsOnce
  have htarget : Reading
      { kind := part.kind, label := part.label, id := part.id, flags := part.flags, props := part.props, span }
      (part.target.map fun target ↦ arrow ++ space :: target).toList { part with items := [], span } := by
    cases htarget : part.target with
    | none => exact .nil
    | some target =>
      obtain ⟨htakes, hword, hnote⟩ := h.target target htarget
      exact .one (by simp) fun line hline ↦ readToken_target rfl htakes hword hnote hline
  exact (((hlabel.append hid).append hflags).append hprops).append htarget

theorem intercalate_space (first : Units) (tokens : List Units) :
    [space].intercalate (first :: tokens) = first ++ spaced tokens := by
  induction tokens generalizing first with
  | nil => simp [List.intercalate, spaced]
  | cons token rest ih =>
    rw [List.intercalate_cons_cons, ih]
    simp [spaced]

/-- **The printed line of a sound part is read as the part.** -/
theorem readNode_printed (h : part.Sound) (number : Nat) :
    readNode ([space].intercalate (part.kind.name :: tokens part)) number =
      .ok { part with items := [], span := ⟨number, number⟩ } := by
  have hlower := part.kind.name_lower
  have hends := ends_spaced (tokens part)
  have hstop : ∀ unit ∈ (spaced (tokens part)).head?, lower unit = false := fun unit hunit ↦ by
    rw [hends unit hunit]; rfl
  have hmissing : missing { part with items := [], span := ⟨number, number⟩ } = none :=
    missing_eq_none.2 ⟨h.labelled, h.targeted⟩
  rw [intercalate_space, readNode]
  simp only [takeWhile_word hlower.2 hstop, dropWhile_word hlower.2 hstop, hends.any, kindOf_name]
  rw [if_neg (by simpa using hlower.1), if_neg Bool.false_ne_true, (reading_tokens h _).readTokens le_rfl]
  dsimp only
  rw [hmissing]

end

/-! ## Items -/

theorem trimUnits_space (text : Units) : trimUnits (space :: text) = trimUnits text := by
  rw [trimUnits, List.dropWhile_cons_of_pos (by decide)]
  rfl

theorem bareText_spec {text : Units} (h : bareText text = true) :
    text ≠ [] ∧ trimUnits text = text ∧ text.head? ≠ some doubleQuote ∧ text.any control = false := by
  simp only [bareText, Bool.and_eq_true, Bool.not_eq_true', List.isEmpty_eq_false_iff, beq_iff_eq, bne_iff_ne] at h
  exact ⟨h.1.1.1, h.1.1.2.symm, h.1.2, h.2⟩

theorem printedText_trimmed (text : Units) : Trimmed (printedText text) := by
  rw [printedText]
  split_ifs with hbare
  · exact trimUnits_eq_self_iff.1 (bareText_spec hbare).2.1
  · refine ⟨fun unit hunit ↦ ?_, fun unit hunit ↦ ?_⟩
    · rw [← Option.some.inj hunit]; rfl
    · rw [quote, ← List.cons_append, List.getLast?_concat] at hunit
      rw [← Option.some.inj hunit]; rfl

theorem printedText_ne_nil (text : Units) : printedText text ≠ [] := by
  rw [printedText]
  split_ifs with hbare
  · exact (bareText_spec hbare).1
  · exact List.cons_ne_nil _ _

theorem readItem_printed {text : Units} (h : Legible text) : readItem (printedText text) = .ok text := by
  rw [printedText]
  split_ifs with hbare
  · obtain ⟨hfull, -, hhead, hcontrol⟩ := bareText_spec hbare
    cases text with
    | nil => exact absurd rfl hfull
    | cons unit rest =>
      have hquote : unit ≠ doubleQuote := fun heq ↦ hhead (congrArg some heq)
      rw [readItem, if_neg hquote, h.checkText hcontrol]
  · have hread : readQuoted [] (text.flatMap escape ++ [doubleQuote]) = .ok (text, []) := readQuoted_text h (by rintro _ ⟨⟩)
    rw [quote, readItem, if_pos rfl, hread]
    rfl

end Chopin.Wireframes
