import Chopin.Questions.Store

/-!
# What the operations of the question store come to

Every operation that changes a questionnaire looks at its claim first.  So it leaves the store as it is, or
it puts another questionnaire in the place of an unclaimed one (`Alters`), and `perform_alters` says so of
all of them at once.
-/

set_option autoImplicit false

namespace Chopin.Questions

variable {M : Type} {crdt : Crdt M} {store after : Store M} {key : String} {place : Nat} {entry : Open M}

/-! ## The map and the objects -/

namespace Store

theorem get_eq_some : store.get key = some (place, entry) ↔
    store.opened.lookup key = some place ∧ store.objects[place]? = some entry := by
  rw [get, Option.bind_eq_some_iff]
  constructor
  · rintro ⟨found, hlookup, hobject⟩
    obtain ⟨object, hfound, heq⟩ := Option.map_eq_some_iff.1 hobject
    obtain ⟨rfl, rfl⟩ := Prod.mk.inj heq
    exact ⟨hlookup, hfound⟩
  · rintro ⟨hlookup, hobject⟩
    exact ⟨place, hlookup, by rw [hobject, Option.map_some]⟩

theorem objects_assign {found : Nat} (h : store.objects[place]? = some entry) (now : Open M) :
    (store.assign place now).objects[found]? =
      if found = place then some now else store.objects[found]? := by
  have hlt : place < store.objects.length := (List.getElem?_eq_some_iff.1 h).1
  rw [assign, List.getElem?_set]
  by_cases hfound : place = found
  · rw [if_pos hfound, if_pos hlt, if_pos hfound.symm]
  · rw [if_neg hfound, if_neg fun heq ↦ hfound heq.symm]

theorem opened_add (entry : Open M) (id : String) : (store.add entry).opened.lookup id =
    if id = entry.id then some store.objects.length else store.opened.lookup id :=
  Entries.lookup_set _ _ _ _

theorem objects_add (entry : Open M) (found : Nat) : (store.add entry).objects[found]? =
    if found = store.objects.length then some entry else store.objects[found]? := by
  rw [add, List.getElem?_append]
  by_cases hlt : found < store.objects.length
  · rw [if_pos hlt, if_neg (by omega)]
  · rw [if_neg hlt, List.getElem?_singleton]
    by_cases heq : found = store.objects.length
    · rw [if_pos heq, if_pos (by omega)]
    · rw [if_neg heq, if_neg (by omega), List.getElem?_eq_none (by omega)]

/-- The map leads from each id to its questionnaire. -/
def Placed (store : Store M) : Prop :=
  ∀ id place, store.opened.lookup id = some place → ∃ entry, store.objects[place]? = some entry ∧ entry.id = id

theorem Placed.id (h : store.Placed) (hget : store.get key = some (place, entry)) : entry.id = key := by
  obtain ⟨hlookup, hobject⟩ := get_eq_some.1 hget
  obtain ⟨found, hfound, hid⟩ := h key place hlookup
  obtain rfl := Option.mem_unique hobject hfound
  exact hid

end Store

/-! ## The operations a claim keeps out -/

/-- An operation on a questionnaire other than resolving it. -/
inductive Change
  | edit (id : String) (binary : List Int) (editor : Option String)
  | suggest (id : String) (suggestion : Option Suggestion)
  | addOption (id optionId label : String)
  | relabelOption (id optionId label : String) (expectedRevision : Nat)
  | retitle (id title : String)
  | redefine (id : String) (definition : Definition)
  | reserveOption (id : String)
  | reserveEdit (id : String)

def Change.id : Change → String
  | .edit id _ _ | .suggest id _ | .addOption id _ _ | .relabelOption id _ _ _ | .retitle id _
  | .redefine id _ | .reserveOption id | .reserveEdit id => id

def Edited.accepted : Edited → Bool
  | .taken _ _ => true
  | _ => false

def Advised.accepted : Advised → Bool
  | .taken _ => true
  | _ => false

/-- Ask the store for a change, and whether it took it. -/
def perform (crdt : Crdt M) (store : Store M) : Change → Store M × Bool
  | .edit id binary editor =>
    ((edit crdt store id binary editor).1, (edit crdt store id binary editor).2.accepted)
  | .suggest id suggestion => ((suggest crdt store id suggestion).1, (suggest crdt store id suggestion).2.accepted)
  | .addOption id optionId label =>
    ((growOption crdt store id optionId label).1,
      ((growOption crdt store id optionId label).2.toOption.bind Except.toOption).isSome)
  | .relabelOption id optionId label expectedRevision =>
    ((relabelOption crdt store id optionId label expectedRevision).1,
      (relabelOption crdt store id optionId label expectedRevision).2.toBool)
  | .retitle id title => ((retitle store id title).1, (retitle store id title).2.toBool)
  | .redefine id definition => ((redefine store id definition).1, (redefine store id definition).2.toBool)
  | .reserveOption id => reserveOption store id
  | .reserveEdit id => reserveEdit store id

/-- A questionnaire that is being resolved or set aside takes no change. -/
theorem perform_claimed {change : Change} (hget : store.get change.id = some (place, entry))
    (hclaim : entry.claim.isSome) : perform crdt store change = (store, false) := by
  obtain ⟨hold, hhold⟩ := Option.isSome_iff_exists.1 hclaim
  cases change <;> rw [Change.id] at hget
  case edit => simp only [perform, edit, hget, hclaim, if_true, Edited.accepted]
  case suggest => simp only [perform, suggest, hget, hclaim, if_true, Advised.accepted]
  case addOption =>
    simp only [perform, growOption, hget, hclaim, if_true]
    rfl
  case relabelOption =>
    simp only [perform, relabelOption, hget, hhold]
    rfl
  case retitle =>
    simp only [perform, retitle, hget, hhold]
    rfl
  case redefine =>
    simp only [perform, redefine, hget, hclaim, if_true]
    rfl
  case reserveOption => simp only [perform, reserveOption, reserve, hget, hclaim, if_true]
  case reserveEdit => simp only [perform, reserveEdit, reserve, hget, hclaim, if_true]

/-- An operation on the questionnaire under `id` that does nothing, or replaces it unclaimed. -/
def Alters (store after : Store M) (id : String) (how : Open M → Open M → Prop) : Prop :=
  after = store ∨ ∃ place entry now, store.get id = some (place, entry) ∧ entry.claim = none ∧
    after = store.assign place now ∧ how entry now

theorem Alters.imp {how other : Open M → Open M → Prop} (h : Alters store after key how)
    (himp : ∀ entry now, how entry now → other entry now) : Alters store after key other := by
  obtain heq | ⟨place, entry, now, hget, hclaim, hafter, hhow⟩ := h
  · exact .inl heq
  · exact .inr ⟨place, entry, now, hget, hclaim, hafter, himp entry now hhow⟩

/-- A later version of a questionnaire. -/
def Advances (entry now : Open M) : Prop :=
  now.id = entry.id ∧ now.claim = none ∧ entry.revision < now.revision

theorem edit_alters (binary : List Int) (editor : Option String) :
    Alters store (edit crdt store key binary editor).1 key Advances := by
  rw [edit]
  split
  · exact .inl rfl
  rename_i place entry hget
  by_cases hclaim : entry.claim.isSome
  · rw [if_pos hclaim]
    exact .inl rfl
  rw [if_neg hclaim]
  split
  · exact .inl rfl
  · exact .inl rfl
  · have hnone := Option.not_isSome_iff_eq_none.1 hclaim
    exact .inr ⟨place, entry, _, hget, hnone, rfl, rfl, hnone, Nat.lt_succ_self _⟩

theorem suggest_alters (suggestion : Option Suggestion) :
    Alters store (suggest crdt store key suggestion).1 key Advances := by
  rw [suggest]
  split
  · exact .inl rfl
  rename_i place entry hget
  by_cases hclaim : entry.claim.isSome
  · rw [if_pos hclaim]
    exact .inl rfl
  rw [if_neg hclaim]
  have hnone := Option.not_isSome_iff_eq_none.1 hclaim
  split
  · split
    · exact .inl rfl
    · exact .inr ⟨place, entry, _, hget, hnone, rfl, rfl, hnone, Nat.lt_succ_self _⟩
  · split
    · split
      · exact .inl rfl
      split
      · exact .inl rfl
      split
      · exact .inl rfl
      split
      · exact .inl rfl
      · exact .inr ⟨place, entry, _, hget, hnone, rfl, rfl, hnone, Nat.lt_succ_self _⟩
    · exact .inl rfl

theorem growOption_alters (optionId label : String) :
    Alters store (growOption crdt store key optionId label).1 key Advances := by
  rw [growOption]
  split
  · exact .inl rfl
  rename_i place entry hget
  by_cases hclaim : entry.claim.isSome
  · rw [if_pos hclaim]
    exact .inl rfl
  rw [if_neg hclaim]
  have hnone := Option.not_isSome_iff_eq_none.1 hclaim
  split
  · split
    · exact .inl rfl
    · exact .inl rfl
    · exact .inr ⟨place, entry, _, hget, hnone, rfl, rfl, hnone, Nat.lt_succ_self _⟩
  · exact .inl rfl

theorem relabelOption_alters (optionId label : String) (expectedRevision : Nat) :
    Alters store (relabelOption crdt store key optionId label expectedRevision).1 key Advances := by
  rw [relabelOption]
  split
  · exact .inl rfl
  rename_i place entry hget
  split
  · rename_i hnone _
    split
    · exact .inl rfl
    split
    · exact .inl rfl
    split
    · exact .inl rfl
    split
    · exact .inl rfl
    dsimp only
    split
    · exact .inl rfl
    · exact .inr ⟨place, entry, _, hget, hnone, rfl, rfl, hnone, Nat.lt_succ_self _⟩
  · exact .inl rfl

theorem retitle_alters (title : String) : Alters store (retitle store key title).1 key Advances := by
  rw [retitle]
  split
  · exact .inl rfl
  rename_i place entry hget
  split
  · rename_i hnone _
    dsimp only
    split
    · exact .inl rfl
    split
    · exact .inl rfl
    · exact .inr ⟨place, entry, _, hget, hnone, rfl, rfl, hnone, Nat.lt_succ_self _⟩
  · exact .inl rfl

theorem redefine_alters (definition : Definition) : Alters store (redefine store key definition).1 key
    fun entry now ↦ now = { entry with definition } := by
  rw [redefine]
  split
  · exact .inl rfl
  rename_i place entry hget
  by_cases hclaim : entry.claim.isSome
  · rw [if_pos hclaim]
    exact .inl rfl
  · rw [if_neg hclaim]
    exact .inr ⟨place, entry, _, hget, Option.not_isSome_iff_eq_none.1 hclaim, rfl, rfl⟩

theorem reserve_alters (hold : Hold) : Alters store (reserve store key hold).1 key
    fun entry now ↦ now = { entry with claim := some hold } := by
  rw [reserve]
  split
  · exact .inl rfl
  rename_i place entry hget
  by_cases hclaim : entry.claim.isSome
  · rw [if_pos hclaim]
    exact .inl rfl
  · rw [if_neg hclaim]
    exact .inr ⟨place, entry, _, hget, Option.not_isSome_iff_eq_none.1 hclaim, rfl, rfl⟩

/-- What a change leaves in the place of the questionnaire: a later version, the same under another
definition, or the same set aside. -/
def Change.Gives (change : Change) (entry now : Open M) : Prop :=
  Advances entry now ∨ (∃ definition, change = .redefine change.id definition ∧ now = { entry with definition }) ∨
    now = { entry with claim := some .option } ∨ now = { entry with claim := some .edit }

theorem perform_alters (change : Change) : Alters store (perform crdt store change).1 change.id change.Gives := by
  cases change
  case edit => exact (edit_alters _ _).imp fun _ _ ↦ .inl
  case suggest => exact (suggest_alters _).imp fun _ _ ↦ .inl
  case addOption => exact (growOption_alters _ _).imp fun _ _ ↦ .inl
  case relabelOption => exact (relabelOption_alters _ _ _).imp fun _ _ ↦ .inl
  case retitle => exact (retitle_alters _).imp fun _ _ ↦ .inl
  case redefine id definition =>
    exact (redefine_alters _).imp fun _ _ h ↦ .inr (.inl ⟨definition, rfl, h⟩)
  case reserveOption => exact (reserve_alters _).imp fun _ _ h ↦ .inr (.inr (.inl h))
  case reserveEdit => exact (reserve_alters _).imp fun _ _ h ↦ .inr (.inr (.inr h))

/-! ## The other operations -/

/-- A questionnaire is put into the store as a new object, or only tombstones change. -/
def Enters (store after : Store M) (id : String) : Prop :=
  (∃ closed, after = { store with closed }) ∨ store.opened.lookup id = none ∧ ∃ closed entry,
    entry.id = id ∧ entry.claim = none ∧ after = ({ store with closed } : Store M).add entry

theorem ask_enters (definition : Definition) (widget : Option String) :
    Enters store (ask crdt store key definition widget).1 key := by
  rw [ask]
  by_cases hopened : (store.opened.lookup key).isSome
  · rw [if_pos hopened]
    exact .inl ⟨_, rfl⟩
  rw [if_neg hopened]
  dsimp only
  split
  · exact .inl ⟨_, rfl⟩
  · exact .inr ⟨Option.not_isSome_iff_eq_none.1 hopened, _, _, rfl, rfl, rfl⟩

theorem reopen_enters (definition : Definition) (widget : Option String) :
    Enters store (reopen crdt store key definition widget).1 key := by
  rw [reopen]
  by_cases hopened : (store.opened.lookup key).isSome
  · rw [if_pos hopened]
    exact .inl ⟨_, rfl⟩
  rw [if_neg hopened]
  split
  · exact .inl ⟨_, rfl⟩
  · exact .inr ⟨Option.not_isSome_iff_eq_none.1 hopened, _, _, rfl, rfl, rfl⟩

/-- The same questionnaire with other people at it, or no longer set aside. -/
def Rests (entry now : Open M) : Prop :=
  (∃ presence, now = { entry with presence }) ∨
    (entry.claim = some .option ∨ entry.claim = some .edit) ∧ now = { entry with claim := none }

theorem Rests.refl (entry : Open M) : Rests entry entry := .inl ⟨entry.presence, rfl⟩

/-- Nothing is opened or closed, and every questionnaire rests as it is. -/
structure Calm (store after : Store M) : Prop where
  opened : after.opened = store.opened
  objects : ∀ (place : Nat) (entry : Open M), store.objects[place]? = some entry →
    ∃ now, after.objects[place]? = some now ∧ Rests entry now
  length : after.objects.length = store.objects.length

theorem Calm.refl (store : Store M) : Calm store store where
  opened := rfl
  objects _ entry h := ⟨entry, h, .refl entry⟩
  length := rfl

theorem Calm.assign {now : Open M} (hobject : store.objects[place]? = some entry) (hrests : Rests entry now) :
    Calm store (store.assign place now) where
  opened := rfl
  objects found old hold := by
    rw [Store.objects_assign hobject]
    by_cases hfound : found = place
    · subst hfound
      obtain rfl := Option.mem_unique hobject hold
      exact ⟨now, if_pos rfl, hrests⟩
    · exact ⟨old, by rw [if_neg hfound, hold], .refl old⟩
  length := List.length_set

theorem release_calm {hold : Hold} (hhold : hold = .option ∨ hold = .edit) : Calm store (release store key hold) := by
  rw [release]
  split
  · exact .refl store
  rename_i place entry hget
  by_cases hclaim : entry.claim = some hold
  · rw [if_pos hclaim]
    refine .assign (Store.get_eq_some.1 hget).2 (.inr ⟨?_, rfl⟩)
    obtain rfl | rfl := hhold
    · exact .inl hclaim
    · exact .inr hclaim
  · rw [if_neg hclaim]
    exact .refl store

theorem focus_calm (person : Collaborator) : Calm store (focus store key person).1 := by
  rw [focus]
  split
  · exact .refl store
  rename_i place entry hget
  have hobject := (Store.get_eq_some.1 hget).2
  split
  · exact .assign hobject (.inl ⟨_, rfl⟩)
  split
  · exact .assign hobject (.inl ⟨_, rfl⟩)
  · exact .refl store

theorem away_calm (client : String) : Calm store (away store client).1 where
  opened := rfl
  objects place entry h := by
    rw [away]
    simp only [List.getElem?_map, List.getElem?_zipIdx, h, Option.map_some]
    refine ⟨_, rfl, ?_⟩
    split
    · exact .inl ⟨_, rfl⟩
    · exact .refl entry
  length := by rw [away]; simp

/-! ## Restoring -/

/-- What a stored questionnaire comes back as. -/
theorem restoreOne_spec {stored : StoredOpen} (h : restoreOne crdt stored = .ok entry) :
    crdt.identified stored.definition = .ok () ∧ ∃ model,
      restore crdt (stored.model.map Int.toNat) stored.definition = .ok model ∧
        entry = { fresh stored.id stored.definition stored.widget (upgrade crdt model stored.definition) false with
          revision := stored.revision.toNat, suggested := stored.suggested } := by
  simp only [restoreOne, Except.bind_eq_ok] at h
  obtain ⟨-, -, -, -, _, hidentified, -, -, model, hrestore, -, -, h⟩ := h
  exact ⟨hidentified, model, hrestore, (Except.ok.inj h).symm⟩

theorem Store.Placed.add (h : store.Placed) (entry : Open M) : (store.add entry).Placed := by
  intro id place hlookup
  rw [Store.opened_add] at hlookup
  by_cases hkey : id = entry.id
  · rw [if_pos hkey] at hlookup
    cases hlookup
    exact ⟨entry, by rw [Store.objects_add, if_pos rfl], hkey.symm⟩
  · rw [if_neg hkey] at hlookup
    obtain ⟨found, hfound, hid⟩ := h id place hlookup
    have hlt : place < store.objects.length := (List.getElem?_eq_some_iff.1 hfound).1
    exact ⟨found, by rw [Store.objects_add, if_neg (Nat.ne_of_lt hlt), hfound], hid⟩

variable {entries : List StoredOpen}

theorem placed_restoreAll (h : restoreAll crdt entries = .ok store) : store.Placed := by
  induction entries using List.reverseRecOn generalizing store with
  | nil =>
    cases h
    intro id place hlookup
    cases hlookup
  | append_singleton entries stored ih =>
    rw [restoreAll, List.foldlM_append] at h
    obtain ⟨front, hfront, h⟩ := Except.bind_eq_ok.1 h
    simp only [List.foldlM_cons, List.foldlM_nil, Except.bind_eq_ok] at h
    obtain ⟨last, ⟨-, -, entry, -, hlast⟩, h⟩ := h
    cases hlast
    cases h
    exact (ih hfront).add entry

/-- Everything that is open after restoring was stored. -/
theorem get_restoreAll (h : restoreAll crdt entries = .ok store) :
    (store.opened.map (·.1)).Nodup ∧ ∀ id place entry, store.get id = some (place, entry) →
      entry.id = id ∧ ∃ stored ∈ entries, restoreOne crdt stored = .ok entry := by
  induction entries using List.reverseRecOn generalizing store with
  | nil =>
    cases h
    exact ⟨List.nodup_nil, fun id place entry hget ↦ nomatch hget⟩
  | append_singleton entries stored ih =>
    rw [restoreAll, List.foldlM_append] at h
    obtain ⟨front, hfront, h⟩ := Except.bind_eq_ok.1 h
    simp only [List.foldlM_cons, List.foldlM_nil, Except.bind_eq_ok] at h
    obtain ⟨last, ⟨-, -, new, hnew, hlast⟩, h⟩ := h
    cases hlast
    cases h
    obtain ⟨hkeys, hstored⟩ := ih hfront
    refine ⟨Entries.nodup_set hkeys _ _, fun id place entry hget ↦ ?_⟩
    obtain ⟨hlookup, hobject⟩ := Store.get_eq_some.1 hget
    rw [Store.opened_add] at hlookup
    rw [Store.objects_add] at hobject
    by_cases hkey : id = new.id
    · rw [if_pos hkey] at hlookup
      rw [if_pos (Option.some.inj hlookup).symm] at hobject
      cases hobject
      exact ⟨hkey.symm, stored, List.mem_concat_self, hnew⟩
    · rw [if_neg hkey] at hlookup
      obtain ⟨found, hfound, -⟩ := placed_restoreAll hfront id place hlookup
      have hlt : place < front.objects.length := (List.getElem?_eq_some_iff.1 hfound).1
      rw [if_neg (Nat.ne_of_lt hlt)] at hobject
      obtain ⟨hid, old, hold, hentry⟩ := hstored id place entry (Store.get_eq_some.2 ⟨hlookup, hobject⟩)
      exact ⟨hid, old, List.mem_append_left _ hold, hentry⟩

end Chopin.Questions
