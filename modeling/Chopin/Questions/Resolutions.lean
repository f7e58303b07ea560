import Chopin.Lib.Lists
import Chopin.Lib.Runs
import Chopin.Questions.StoreFacts

/-!
# Each questionnaire is resolved exactly once

The callers of the store make a claim, write the plan, and then commit or roll back.  Meanwhile every other
operation may come.  A `Desk` is the store with the claims that are being made durable; beside each stands
the questionnaire as it was when it was claimed, which no code keeps.
-/

set_option autoImplicit false

namespace Chopin.Questions

variable {M : Type} {crdt : Crdt M}

/-! ## The operations in any order -/

/-- A claim that is neither committed nor rolled back, and its questionnaire as it was claimed. -/
structure Held (M : Type) where
  claim : Claim
  was : Open M

structure Desk (M : Type) where
  store : Store M
  held : List (Held M)
  /-- The questionnaires whose askers were told, and what. -/
  settlements : List (Nat × Ended)
  /-- The process is going away. -/
  gone : Bool

def Desk.start (store : Store M) : Desk M := { store, held := [], settlements := [], gone := false }

inductive Act
  | ask (id : String) (definition : Definition) (widget : Option String)
  | reopen (id : String) (definition : Definition) (widget : Option String)
  | change (change : Change)
  | releaseOption (id : String)
  | releaseEdit (id : String)
  | focus (id : String) (person : Collaborator)
  | away (client : String)
  | claimSubmit (id : String) (revision : Nat) (resolver : String) (suggestedOptionId : Option String)
  | claimCancel (id resolver : String)
  /-- The caller of the claim on this object commits it, at this time. -/
  | commit (entry : Nat) (now : Int)
  | rollback (entry : Nat)
  | shutdown

/-- A claim that was made is held, with what it was made on. -/
def Desk.take {ε : Type} (desk : Desk M) (id : String) (out : Store M × Except ε Claimed) : Desk M :=
  match out.2, desk.store.get id with
  | .ok claimed, some found =>
    { desk with store := out.1, held := desk.held ++ [{ claim := claimed.claim, was := found.2 }] }
  | _, _ => { desk with store := out.1 }

def Desk.find (desk : Desk M) (entry : Nat) : Option (Held M) := desk.held.find? (·.claim.entry == entry)

def Desk.drop (desk : Desk M) (entry : Nat) : List (Held M) := desk.held.filter (·.claim.entry != entry)

def step (crdt : Crdt M) (desk : Desk M) : Act → Option (Desk M)
  | .ask id definition widget => some { desk with store := (ask crdt desk.store id definition widget).1 }
  | .reopen id definition widget => some { desk with store := (reopen crdt desk.store id definition widget).1 }
  | .change change => some { desk with store := (perform crdt desk.store change).1 }
  | .releaseOption id => some { desk with store := releaseOption desk.store id }
  | .releaseEdit id => some { desk with store := releaseEdit desk.store id }
  | .focus id person => some { desk with store := (focus desk.store id person).1 }
  | .away client => some { desk with store := (away desk.store client).1 }
  | .claimSubmit id revision resolver suggestedOptionId =>
    some (desk.take id (claimSubmit crdt desk.store id revision resolver suggestedOptionId))
  | .claimCancel id resolver => some (desk.take id (claimCancel desk.store id resolver))
  | .commit entry now => (desk.find entry).map fun held ↦
    { desk with
      store := stage desk.store held.claim now
      held := desk.drop entry
      settlements := desk.settlements ++ [(entry, held.claim.result)] }
  | .rollback entry => (desk.find entry).map fun held ↦
    { desk with store := rollback desk.store held.claim, held := desk.drop entry }
  | .shutdown => some { desk with store := shutdown desk.store, gone := true }

/-! ## The invariant -/

/-- Being resolved, rather than free or set aside for a change. -/
def Resolving (entry : Open M) : Prop := entry.claim = some .submit ∨ entry.claim = some .cancel

/-- A questionnaire that is being resolved, beside itself at the claim: only who looks at it and the claim
differ. -/
def Stands (was entry : Open M) : Prop :=
  Resolving entry ∧ ∃ presence, was = { entry with claim := none, presence }

/-- The outcome of a claim is a cancellation, or the answers of the draft it was made on. -/
def Derived (crdt : Crdt M) (was : Open M) (result : Ended) : Prop :=
  (∃ resolver, result = .cancelled resolver) ∨ ∃ suggestedOptionId answers resolver,
    answersOf crdt was suggestedOptionId = .ok answers ∧ result = .answered answers resolver

structure Kept (crdt : Crdt M) (store : Store M) (gone : Bool) (held : Held M) : Prop where
  stands : ∃ entry, store.objects[held.claim.entry]? = some entry ∧ Stands held.was entry ∧
    held.was.id = held.claim.id
  derived : Derived crdt held.was held.claim.result
  opened : gone = false → store.opened.lookup held.claim.id = some held.claim.entry

structure Desk.Good (crdt : Crdt M) (desk : Desk M) : Prop where
  opened : desk.store.Placed
  kept : ∀ held ∈ desk.held, Kept crdt desk.store desk.gone held
  apart : (desk.held.map (·.claim.entry)).Nodup
  once : (desk.settlements.map (·.1)).Nodup
  done : ∀ settled ∈ desk.settlements, settled.1 < desk.store.objects.length ∧
    (∀ id, desk.store.opened.lookup id ≠ some settled.1) ∧ settled.1 ∉ desk.held.map (·.claim.entry)

/-! ## What every operation keeps -/

/-- No questionnaire that is being resolved changes but for who looks at it, and nothing else is done to
what is open. -/
structure Respects (store after : Store M) : Prop where
  objects : ∀ (place : Nat) (entry : Open M), store.objects[place]? = some entry →
    ∃ now, after.objects[place]? = some now ∧ now.id = entry.id ∧
      (Resolving entry → ∃ presence, now = { entry with presence })
  kept : ∀ id place, store.opened.lookup id = some place → after.opened.lookup id = some place
  opened : ∀ id place, after.opened.lookup id = some place → store.opened.lookup id = some place ∨
    store.objects.length ≤ place ∧ ∃ entry, after.objects[place]? = some entry ∧ entry.id = id

variable {store after : Store M} {key : String}

theorem Respects.refl (store : Store M) : Respects store store where
  objects _ entry h := ⟨entry, h, rfl, fun _ ↦ ⟨entry.presence, rfl⟩⟩
  kept _ _ h := h
  opened _ _ h := .inl h

variable {place : Nat} {entry : Open M}

theorem Respects.assign {now : Open M} (hobject : store.objects[place]? = some entry)
    (hid : now.id = entry.id) (hfree : ¬Resolving entry) : Respects store (store.assign place now) where
  objects found old hold := by
    rw [Store.objects_assign hobject]
    by_cases hfound : found = place
    · subst hfound
      obtain rfl := Option.mem_unique hobject hold
      exact ⟨now, if_pos rfl, hid, fun h ↦ absurd h hfree⟩
    · exact ⟨old, by rw [if_neg hfound, hold], rfl, fun _ ↦ ⟨old.presence, rfl⟩⟩
  kept _ _ h := h
  opened _ _ h := .inl h

theorem not_resolving_of_none (h : entry.claim = none) : ¬Resolving entry := by
  rintro (hsubmit | hcancel)
  · rw [h] at hsubmit
    cases hsubmit
  · rw [h] at hcancel
    cases hcancel

theorem Alters.respects {how : Open M → Open M → Prop} (h : Alters store after key how)
    (hid : ∀ entry now, how entry now → now.id = entry.id) : Respects store after := by
  obtain rfl | ⟨place, entry, now, hget, hclaim, rfl, hhow⟩ := h
  · exact .refl after
  · exact .assign (Store.get_eq_some.1 hget).2 (hid entry now hhow) (not_resolving_of_none hclaim)

theorem Change.Gives.id {change : Change} {now : Open M} (h : change.Gives entry now) : now.id = entry.id := by
  obtain hadvances | ⟨definition, -, rfl⟩ | rfl | rfl := h
  · exact hadvances.1
  all_goals rfl

theorem Enters.respects (h : Enters store after key) : Respects store after := by
  obtain ⟨closed, rfl⟩ | ⟨hnone, closed, entry, hid, -, rfl⟩ := h
  · exact ⟨(Respects.refl store).objects, fun _ _ h ↦ h, fun _ _ h ↦ .inl h⟩
  refine ⟨fun place old hold ↦ ⟨old, ?_, rfl, fun _ ↦ ⟨old.presence, rfl⟩⟩, fun id place hlookup ↦ ?_,
    fun id place hlookup ↦ ?_⟩
  · have hlt : place < store.objects.length := (List.getElem?_eq_some_iff.1 hold).1
    rw [Store.objects_add, if_neg (Nat.ne_of_lt hlt)]
    exact hold
  · have hne : id ≠ entry.id := by
      rintro rfl
      rw [hid, hnone] at hlookup
      cases hlookup
    rw [Store.opened_add, if_neg hne]
    exact hlookup
  · rw [Store.opened_add] at hlookup
    by_cases hkey : id = entry.id
    · rw [if_pos hkey] at hlookup
      cases hlookup
      exact .inr ⟨Nat.le_refl _, entry, by rw [Store.objects_add, if_pos rfl], hkey.symm⟩
    · rw [if_neg hkey] at hlookup
      exact .inl hlookup

theorem Calm.respects (h : Calm store after) : Respects store after where
  objects place entry hobject := by
    obtain ⟨now, hnow, ⟨presence, rfl⟩ | ⟨hclaim, rfl⟩⟩ := h.objects place entry hobject
    · exact ⟨_, hnow, rfl, fun _ ↦ ⟨presence, rfl⟩⟩
    · refine ⟨_, hnow, rfl, fun hresolving ↦ ?_⟩
      obtain hoption | hedit := hclaim <;> obtain hsubmit | hcancel := hresolving <;> simp_all
  kept id place hlookup := by rw [h.opened]; exact hlookup
  opened id place hlookup := .inl (by rw [h.opened] at hlookup; exact hlookup)

theorem Respects.length_le (h : Respects store after) : store.objects.length ≤ after.objects.length := by
  by_contra hlt
  obtain ⟨now, hnow, -⟩ := h.objects after.objects.length _ (List.getElem?_eq_getElem (by omega))
  rw [List.getElem?_eq_none (Nat.le_refl _)] at hnow
  cases hnow

theorem Stands.presence {was : Open M} (h : Stands was entry) (presence : List (String × Collaborator)) :
    Stands was { entry with presence } := by
  obtain ⟨hresolving, old, rfl⟩ := h
  exact ⟨hresolving, old, rfl⟩

variable {held : Held M}

theorem Kept.respects {gone : Bool} (h : Kept crdt store gone held) (hr : Respects store after) :
    Kept crdt after gone held := by
  obtain ⟨⟨entry, hentry, hstands, hid⟩, hderived, hopened⟩ := h
  obtain ⟨now, hnow, -, hsame⟩ := hr.objects _ entry hentry
  obtain ⟨presence, rfl⟩ := hsame hstands.1
  exact ⟨⟨_, hnow, hstands.presence presence, hid⟩, hderived, fun hgone ↦ hr.kept _ _ (hopened hgone)⟩

variable {desk : Desk M}

theorem Desk.Good.respects (h : desk.Good crdt) (hr : Respects desk.store after) :
    Desk.Good crdt { desk with store := after } where
  opened id place hlookup := by
    obtain hold | ⟨-, hnew⟩ := hr.opened id place hlookup
    · obtain ⟨entry, hentry, hid⟩ := h.opened id place hold
      obtain ⟨now, hnow, hsame, -⟩ := hr.objects place entry hentry
      exact ⟨now, hnow, hsame.trans hid⟩
    · exact hnew
  kept held hmem := (h.kept held hmem).respects hr
  apart := h.apart
  once := h.once
  done settled hmem := by
    obtain ⟨hlt, hclosed, hdropped⟩ := h.done settled hmem
    have hle := hr.length_le
    refine ⟨by dsimp only; omega, fun id hlookup ↦ ?_, hdropped⟩
    obtain hold | ⟨hnew, -⟩ := hr.opened id _ hlookup
    · exact hclosed id hold
    · omega

/-! ## Claims -/

theorem claimSubmit_cases (crdt : Crdt M) (store : Store M) (key : String) (revision : Nat) (resolver : String)
    (suggestedOptionId : Option String) :
    (∃ refusal, claimSubmit crdt store key revision resolver suggestedOptionId = (store, .error refusal)) ∨
      ∃ place entry answers, store.get key = some (place, entry) ∧ entry.claim = none ∧
        revision = entry.revision ∧ answersOf crdt entry suggestedOptionId = .ok answers ∧
        claimSubmit crdt store key revision resolver suggestedOptionId =
          (store.assign place { entry with claim := some .submit },
            .ok { claim := { id := key, entry := place, result := .answered answers resolver }
                  widget := entry.widget }) := by
  rw [claimSubmit]
  split
  · exact .inl ⟨_, rfl⟩
  split
  · exact .inl ⟨_, rfl⟩
  rename_i place entry hget
  by_cases hclaim : entry.claim.isSome
  · rw [if_pos hclaim]
    exact .inl ⟨_, rfl⟩
  rw [if_neg hclaim]
  by_cases hrevision : revision = entry.revision
  · rw [if_neg (not_not.2 hrevision)]
    split
    · exact .inl ⟨_, rfl⟩
    · rename_i answers hanswers
      exact .inr ⟨place, entry, answers, hget, Option.not_isSome_iff_eq_none.1 hclaim, hrevision, hanswers, rfl⟩
  · rw [if_pos hrevision]
    exact .inl ⟨_, rfl⟩

theorem claimCancel_cases (store : Store M) (key : String) (resolver : String) :
    (∃ refusal, claimCancel store key resolver = (store, .error refusal)) ∨
      ∃ place entry, store.get key = some (place, entry) ∧ entry.claim = none ∧
        claimCancel store key resolver =
          (store.assign place { entry with claim := some .cancel },
            .ok { claim := { id := key, entry := place, result := .cancelled resolver }
                  widget := entry.widget }) := by
  rw [claimCancel]
  split
  · exact .inl ⟨_, rfl⟩
  split
  · exact .inl ⟨_, rfl⟩
  rename_i place entry hget
  by_cases hclaim : entry.claim.isSome
  · rw [if_pos hclaim]
    exact .inl ⟨_, rfl⟩
  · rw [if_neg hclaim]
    exact .inr ⟨place, entry, hget, Option.not_isSome_iff_eq_none.1 hclaim, rfl⟩

/-- No object that is free is held. -/
theorem Desk.Good.not_held (h : desk.Good crdt)
    (hobject : desk.store.objects[place]? = some entry) (hclaim : entry.claim = none) :
    place ∉ desk.held.map (·.claim.entry) := by
  intro hmem
  obtain ⟨held, hheld, rfl⟩ := List.mem_map.1 hmem
  obtain ⟨found, hfound, hstands, -⟩ := (h.kept held hheld).stands
  obtain rfl := Option.mem_unique hobject hfound
  exact not_resolving_of_none hclaim hstands.1

theorem Desk.Good.take (h : desk.Good crdt) {hold : Hold}
    {result : Ended} (hget : desk.store.get key = some (place, entry)) (hclaim : entry.claim = none)
    (hhold : hold = .submit ∨ hold = .cancel) (hderived : Derived crdt entry result) :
    Desk.Good crdt { desk with
      store := desk.store.assign place { entry with claim := some hold }
      held := desk.held ++ [{ claim := { id := key, entry := place, result }, was := entry }] } := by
  obtain ⟨hlookup, hobject⟩ := Store.get_eq_some.1 hget
  have hfree := h.not_held hobject hclaim
  have hr : Respects desk.store (desk.store.assign place { entry with claim := some hold }) :=
    .assign hobject rfl (not_resolving_of_none hclaim)
  have hgood := h.respects hr
  have hresolving : Resolving { entry with claim := some hold } := by
    obtain rfl | rfl := hhold
    · exact .inl rfl
    · exact .inr rfl
  have hwas : entry = { entry with claim := none } := by rw [← hclaim]
  obtain ⟨found, hfound, hid⟩ := h.opened key place hlookup
  obtain rfl := Option.mem_unique hobject hfound
  refine ⟨hgood.opened, fun held hmem ↦ ?_, ?_, hgood.once, fun settled hmem ↦ ?_⟩
  · obtain hmem | hmem := List.mem_append.1 hmem
    · exact hgood.kept held hmem
    · obtain rfl := List.mem_singleton.1 hmem
      exact ⟨⟨_, by rw [Store.objects_assign hobject, if_pos rfl], ⟨hresolving, entry.presence, hwas⟩, hid⟩,
        hderived, fun _ ↦ hlookup⟩
  · rw [List.map_append, List.map_singleton, ← List.concat_eq_append]
    exact List.Nodup.concat hfree h.apart
  · obtain ⟨hlt, hclosed, hdropped⟩ := hgood.done settled hmem
    refine ⟨hlt, hclosed, fun hheld ↦ ?_⟩
    rw [List.map_append, List.map_singleton] at hheld
    obtain hheld | hheld := List.mem_append.1 hheld
    · exact hdropped hheld
    · rw [List.mem_singleton.1 hheld] at hclosed
      exact hclosed key hlookup

theorem Desk.mem_of_find (h : desk.find place = some held) : held ∈ desk.held ∧ held.claim.entry = place :=
  ⟨List.mem_of_find?_eq_some h, by simpa using List.find?_some h⟩

theorem Desk.mem_drop : held ∈ desk.drop place ↔ held ∈ desk.held ∧ held.claim.entry ≠ place := by
  rw [drop, List.mem_filter, bne_iff_ne]

theorem Desk.not_mem_drop (desk : Desk M) (place : Nat) : place ∉ (desk.drop place).map (·.claim.entry) := by
  intro hmem
  obtain ⟨held, hheld, heq⟩ := List.mem_map.1 hmem
  exact (mem_drop.1 hheld).2 heq

theorem Desk.drop_apart (h : (desk.held.map (·.claim.entry)).Nodup) (place : Nat) :
    ((desk.drop place).map (·.claim.entry)).Nodup :=
  h.sublist (List.filter_sublist.map _)

/-- Two claims that are held are on questionnaires with different ids while nothing went away. -/
theorem Desk.Good.ids_apart (h : desk.Good crdt) {one two : Held M} (hone : one ∈ desk.held)
    (htwo : two ∈ desk.held) (hgone : desk.gone = false) (hne : one.claim.entry ≠ two.claim.entry) :
    one.claim.id ≠ two.claim.id := by
  intro heq
  have hone' := (h.kept one hone).opened hgone
  rw [heq, (h.kept two htwo).opened hgone] at hone'
  exact hne (Option.some.inj hone').symm

theorem Desk.Good.commit (h : desk.Good crdt) (now : Int) (hfind : desk.find place = some held) :
    Desk.Good crdt { desk with
      store := stage desk.store held.claim now
      held := desk.drop place
      settlements := desk.settlements ++ [(place, held.claim.result)] } := by
  obtain ⟨hmem, rfl⟩ := Desk.mem_of_find hfind
  obtain ⟨entry, hentry, hstands, hid⟩ := (h.kept held hmem).stands
  have hopened : ∀ id, (stage desk.store held.claim now).opened.lookup id =
      if id = held.claim.id then none else desk.store.opened.lookup id := fun id ↦ Entries.lookup_delete _ _ _
  have hstill : ∀ id place, (stage desk.store held.claim now).opened.lookup id = some place →
      id ≠ held.claim.id ∧ desk.store.opened.lookup id = some place := by
    intro id place hlookup
    rw [hopened] at hlookup
    by_cases hkey : id = held.claim.id
    · rw [if_pos hkey] at hlookup
      cases hlookup
    · exact ⟨hkey, by rw [if_neg hkey] at hlookup; exact hlookup⟩
  have hentryId : entry.id = held.claim.id := by
    obtain ⟨-, presence, heq⟩ := hstands
    rw [← hid, heq]
  have hclosed : ∀ id, desk.store.opened.lookup id = some held.claim.entry → id = held.claim.id := by
    intro id hlookup
    obtain ⟨found, hfound, hsame⟩ := h.opened id _ hlookup
    obtain rfl := Option.mem_unique hentry hfound
    exact hsame.symm.trans hentryId
  refine ⟨fun id place hlookup ↦ h.opened id place (hstill id place hlookup).2, fun other hother ↦ ?_,
    Desk.drop_apart h.apart _, ?_, fun settled hsettled ↦ ?_⟩
  · obtain ⟨hother, hne⟩ := Desk.mem_drop.1 hother
    obtain ⟨hstands, hderived, hlookup⟩ := h.kept other hother
    refine ⟨hstands, hderived, fun hgone ↦ ?_⟩
    rw [hopened, if_neg (h.ids_apart hother hmem hgone hne)]
    exact hlookup hgone
  · rw [List.map_append, List.map_singleton, ← List.concat_eq_append]
    refine List.Nodup.concat (fun hdone ↦ ?_) h.once
    obtain ⟨settled, hsettled, heq⟩ := List.mem_map.1 hdone
    exact (h.done settled hsettled).2.2 (heq ▸ List.mem_map_of_mem hmem)
  · obtain hsettled | hsettled := List.mem_append.1 hsettled
    · obtain ⟨hlt, hnot, hdropped⟩ := h.done settled hsettled
      refine ⟨hlt, fun id hlookup ↦ hnot id (hstill id _ hlookup).2, fun hheld ↦ hdropped ?_⟩
      exact (List.filter_sublist.map _).subset hheld
    · obtain rfl := List.mem_singleton.1 hsettled
      refine ⟨(List.getElem?_eq_some_iff.1 hentry).1, fun id hlookup ↦ ?_, Desk.not_mem_drop _ _⟩
      obtain ⟨hne, hlookup⟩ := hstill id _ hlookup
      exact hne (hclosed id hlookup)

/-- A claim that is given up changes only its own questionnaire. -/
theorem rollback_objects (hentry : store.objects[held.claim.entry]? = some entry) (hne : place ≠ held.claim.entry) :
    (rollback store held.claim).objects[place]? = store.objects[place]? := by
  rw [rollback]
  split
  · rw [hentry]
    dsimp only
    rw [Store.objects_assign hentry, if_neg hne]
  · rfl

theorem rollback_opened (claim : Claim) : (rollback store claim).opened = store.opened := by
  rw [rollback]
  split
  · split <;> rfl
  · rfl

theorem rollback_own (hentry : store.objects[held.claim.entry]? = some entry) : ∃ now,
    (rollback store held.claim).objects[held.claim.entry]? = some now ∧ now.id = entry.id := by
  rw [rollback]
  split
  · rw [hentry]
    dsimp only
    exact ⟨{ entry with claim := none }, by rw [Store.objects_assign hentry, if_pos rfl], rfl⟩
  · exact ⟨entry, hentry, rfl⟩

theorem Desk.Good.rollback (h : desk.Good crdt) (hfind : desk.find place = some held) :
    Desk.Good crdt { desk with store := rollback desk.store held.claim, held := desk.drop place } := by
  obtain ⟨hmem, rfl⟩ := Desk.mem_of_find hfind
  obtain ⟨entry, hentry, -⟩ := (h.kept held hmem).stands
  obtain ⟨own, hown, hownId⟩ := rollback_own hentry
  refine ⟨fun id place hlookup ↦ ?_, fun other hother ↦ ?_, Desk.drop_apart h.apart _, h.once,
    fun settled hsettled ↦ ?_⟩
  · rw [rollback_opened] at hlookup
    obtain ⟨found, hfound, hsame⟩ := h.opened id place hlookup
    by_cases hplace : place = held.claim.entry
    · subst hplace
      obtain rfl := Option.mem_unique hentry hfound
      exact ⟨own, hown, hownId.trans hsame⟩
    · exact ⟨found, by rw [rollback_objects hentry hplace, hfound], hsame⟩
  · obtain ⟨hother, hne⟩ := Desk.mem_drop.1 hother
    obtain ⟨⟨found, hfound, hstands⟩, hderived, hlookup⟩ := h.kept other hother
    refine ⟨⟨found, by rw [rollback_objects hentry hne, hfound], hstands⟩, hderived, fun hgone ↦ ?_⟩
    rw [rollback_opened]
    exact hlookup hgone
  · obtain ⟨hlt, hnot, hdropped⟩ := h.done settled hsettled
    have hlength : (Questions.rollback desk.store held.claim).objects.length = desk.store.objects.length := by
      rw [Questions.rollback]
      split
      · rw [hentry]
        exact List.length_set
      · rfl
    refine ⟨hlength ▸ hlt, fun id hlookup ↦ ?_, fun hheld ↦ hdropped ?_⟩
    · rw [rollback_opened] at hlookup
      exact hnot id hlookup
    · exact (List.filter_sublist.map _).subset hheld

/-- What one operation keeps. -/
theorem step_good {next : Desk M} {act : Act} (h : desk.Good crdt) (hstep : step crdt desk act = some next) :
    next.Good crdt := by
  cases act <;> simp only [step, Option.some.injEq] at hstep
  case ask => exact hstep ▸ h.respects (ask_enters _ _).respects
  case reopen => exact hstep ▸ h.respects (reopen_enters _ _).respects
  case change change => exact hstep ▸ h.respects ((perform_alters change).respects fun _ _ ↦ Change.Gives.id)
  case releaseOption => exact hstep ▸ h.respects (release_calm (.inl rfl)).respects
  case releaseEdit => exact hstep ▸ h.respects (release_calm (.inr rfl)).respects
  case focus => exact hstep ▸ h.respects (focus_calm _).respects
  case away => exact hstep ▸ h.respects (away_calm _).respects
  case claimSubmit id revision resolver suggestedOptionId =>
    obtain ⟨refusal, hclaim⟩ | ⟨place, entry, answers, hget, hnone, -, hanswers, hclaim⟩ :=
      claimSubmit_cases crdt desk.store id revision resolver suggestedOptionId
    · rw [hclaim, Desk.take] at hstep
      exact hstep ▸ h
    · rw [hclaim, Desk.take, hget] at hstep
      exact hstep ▸ h.take hget hnone (.inl rfl) (.inr ⟨suggestedOptionId, answers, resolver, hanswers, rfl⟩)
  case claimCancel id resolver =>
    obtain ⟨refusal, hclaim⟩ | ⟨place, entry, hget, hnone, hclaim⟩ :=
      claimCancel_cases desk.store id resolver
    · rw [hclaim, Desk.take] at hstep
      exact hstep ▸ h
    · rw [hclaim, Desk.take, hget] at hstep
      exact hstep ▸ h.take hget hnone (.inr rfl) (.inl ⟨resolver, rfl⟩)
  case commit =>
    obtain ⟨held, hfind, rfl⟩ := Option.map_eq_some_iff.1 hstep
    exact h.commit _ hfind
  case rollback =>
    obtain ⟨held, hfind, rfl⟩ := Option.map_eq_some_iff.1 hstep
    exact h.rollback hfind
  case shutdown =>
    subst hstep
    refine ⟨fun id place hlookup ↦ by simp [shutdown] at hlookup, fun held hmem ↦ ?_, h.apart, h.once,
      fun settled hmem ↦ ?_⟩
    · obtain ⟨hstands, hderived, -⟩ := h.kept held hmem
      exact ⟨hstands, hderived, fun hgone ↦ by simp at hgone⟩
    · obtain ⟨hlt, -, hdropped⟩ := h.done settled hmem
      exact ⟨hlt, fun id hlookup ↦ by simp [shutdown] at hlookup, hdropped⟩

/-! ## What restoring gives -/

theorem start_good {entries : List StoredOpen} (h : restoreAll crdt entries = .ok store) :
    (Desk.start store).Good crdt := by
  refine ⟨placed_restoreAll h, fun held hmem ↦ ?_, List.nodup_nil, List.nodup_nil, fun settled hmem ↦ ?_⟩
  · cases hmem
  · cases hmem

/-! ## The claims -/

/-- Nobody else changes or claims the questionnaire. -/
def Exclusive (crdt : Crdt M) (store : Store M) (id : String) : Prop :=
  (∀ change, change.id = id → perform crdt store change = (store, false)) ∧
    (∀ revision resolver suggestedOptionId, ∃ refusal,
      claimSubmit crdt store id revision resolver suggestedOptionId = (store, .error refusal)) ∧
    ∀ resolver, ∃ refusal, claimCancel store id resolver = (store, .error refusal)

/-- Committing the claim settles its questionnaire, with the outcome that was reserved. -/
def Commits (crdt : Crdt M) (desk : Desk M) (held : Held M) : Prop :=
  ∀ now, ∃ next, step crdt desk (.commit held.claim.entry now) = some next ∧
    next.settlements = desk.settlements ++ [(held.claim.entry, held.claim.result)] ∧
    next.store.opened.lookup held.claim.id = none ∧
    next.store.closed.lookup held.claim.id =
      some { result := held.claim.result, revision := held.was.revision, expires := now + CLOSED_TTL }

/-- Rolling the claim back leaves the questionnaire as it was claimed, but for who looks at it. -/
def Returns (crdt : Crdt M) (desk : Desk M) (held : Held M) : Prop :=
  ∃ next presence, step crdt desk (.rollback held.claim.entry) = some next ∧
    next.store.get held.claim.id = some (held.claim.entry, { held.was with presence })

theorem exclusive_of_claimed (hget : store.get key = some (place, entry))
    (hclaim : entry.claim.isSome) : Exclusive crdt store key := by
  refine ⟨fun change hkey ↦ perform_claimed (hkey ▸ hget) hclaim, fun revision resolver suggestedOptionId ↦ ?_,
    fun resolver ↦ ?_⟩
  · obtain hrefused | ⟨_, found, _, hfound, hnone, -⟩ :=
      claimSubmit_cases crdt store key revision resolver suggestedOptionId
    · exact hrefused
    · obtain ⟨-, rfl⟩ := Prod.mk.inj (Option.mem_unique hget hfound)
      rw [hnone] at hclaim
      cases hclaim
  · obtain hrefused | ⟨_, found, hfound, hnone, -⟩ := claimCancel_cases store key resolver
    · exact hrefused
    · obtain ⟨-, rfl⟩ := Prod.mk.inj (Option.mem_unique hget hfound)
      rw [hnone] at hclaim
      cases hclaim

theorem Resolving.isSome (h : Resolving entry) : entry.claim.isSome := by
  obtain h | h := h <;> rw [h] <;> rfl

/-- A held claim is the one its object is found by. -/
theorem Desk.Good.find (h : desk.Good crdt) (hmem : held ∈ desk.held) : desk.find held.claim.entry = some held :=
  List.find?_key h.apart hmem

theorem Desk.Good.commits (h : desk.Good crdt) (hmem : held ∈ desk.held) : Commits crdt desk held := by
  obtain ⟨entry, hentry, ⟨-, presence, hwas⟩, -⟩ := (h.kept held hmem).stands
  have hrevision : held.was.revision = entry.revision := by rw [hwas]
  refine fun now ↦ ⟨_, by rw [step, h.find hmem, Option.map_some], rfl, ?_, ?_⟩
  · exact (Entries.lookup_delete _ _ _).trans (if_pos rfl)
  · refine (Entries.lookup_set _ _ _ _).trans ((if_pos rfl).trans ?_)
    rw [hentry, hrevision]
    rfl

theorem Desk.Good.returns (h : desk.Good crdt) (hmem : held ∈ desk.held)
    (hlookup : desk.store.opened.lookup held.claim.id = some held.claim.entry) : Returns crdt desk held := by
  obtain ⟨entry, hentry, ⟨-, presence, hwas⟩, -⟩ := (h.kept held hmem).stands
  refine ⟨_, entry.presence, by rw [step, h.find hmem, Option.map_some], ?_⟩
  rw [Store.get_eq_some]
  refine ⟨by rw [rollback_opened, hlookup], ?_⟩
  rw [Questions.rollback, if_pos hlookup, hentry]
  dsimp only
  rw [Store.objects_assign hentry, if_pos rfl, hwas]

/-- Each questionnaire is resolved once, and a claim on it keeps everybody else off until it is committed
or rolled back. -/
theorem resolved_once (entries : List StoredOpen) {store : Store M} {acts : List Act} {desk : Desk M}
    (hstart : restoreAll crdt entries = .ok store) (run : Runs (step crdt) (Desk.start store) acts desk) :
    (desk.settlements.map (·.1)).Nodup ∧
      (∀ settled ∈ desk.settlements, ∀ id, desk.store.opened.lookup id ≠ some settled.1) ∧ ∀ held ∈ desk.held,
        (desk.gone = false → desk.store.opened.lookup held.claim.id = some held.claim.entry) ∧
        (desk.store.opened.lookup held.claim.id = some held.claim.entry →
          Exclusive crdt desk.store held.claim.id ∧ Returns crdt desk held) ∧
        Derived crdt held.was held.claim.result ∧ Commits crdt desk held := by
  have hgood : desk.Good crdt := run.invariant (start_good hstart) fun _ _ _ ↦ step_good
  refine ⟨hgood.once, fun settled hmem ↦ (hgood.done settled hmem).2.1, fun held hmem ↦ ?_⟩
  have hkept := hgood.kept held hmem
  refine ⟨hkept.opened, fun hlookup ↦ ⟨?_, hgood.returns hmem hlookup⟩, hkept.derived, hgood.commits hmem⟩
  obtain ⟨entry, hentry, hstands, -⟩ := hkept.stands
  exact exclusive_of_claimed (Store.get_eq_some.2 ⟨hlookup, hentry⟩) hstands.1.isSome

/-! ## An instance -/

namespace Sample

def option (id : String) : Choice := { id, label := id, description := "", preview := none }

def question : Item where
  id := "q"
  header := "Size"
  question := "Which size?"
  description := none
  options := [option "a", option "b"]
  criteria := []
  multiple := false
  written := false
  verbatim := false

def definition : Definition := { questions := [question] }

def choice : Nat → Value
  | 0 => .null
  | 1 => .str "a"
  | _ => .str "b"

/-- Documents of the one question above, by what is chosen; a patch is the next choice. -/
def plain : Crdt Nat where
  root chosen := .obj [("q", .obj [("marks", .obj []), ("mode", .val (.str "choices")),
    ("choice", .val (choice chosen)),
    ("options", .obj [("a", .val (.bool false)), ("b", .val (.bool false))]), ("custom", .str "")])]
  toBinary chosen := [chosen]
  fromBinary binary := binary.head?.elim (.error "empty") .ok
  create _ := 0
  applyPatch _ patch := patch.head?.elim (.error "empty") .ok
  setOption chosen _ _ := chosen
  setMarks chosen _ := chosen
  toLowerCase text := text
  toLocaleLowerCase text := text
  identified definition :=
    if (definition.questions.map (·.id)).Nodup then .ok () else .error "Question IDs are duplicated"

/-- A question is asked, answered and claimed; then somebody else edits it. -/
def acts : List Act :=
  [.ask "q" definition none, .change (.edit "q" [1] (some "amy")), .claimSubmit "q" 1 "amy" none,
    .change (.edit "q" [2] (some "bob"))]

end Sample

theorem resolved_once_sample : ∃ desk, Runs (step Sample.plain) (Desk.start empty) Sample.acts desk ∧
    desk.held.length = 1 ∧ ∀ held ∈ desk.held, Commits Sample.plain desk held := by
  have run : Runs (step Sample.plain) (Desk.start empty) Sample.acts _ := runs_iff_foldlM.2 rfl
  exact ⟨_, run, rfl, fun held hmem ↦ ((resolved_once [] rfl run).2.2 held hmem).2.2.2⟩

end Chopin.Questions
