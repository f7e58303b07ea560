import Chopin.Questions.DraftFacts
import Chopin.Questions.Resolutions

/-!
# What the revisions of a questionnaire identify

`claimSubmit` compares a bare number with the revision of the questionnaire, so that somebody who works
from stale state is told so.  That is sound as long as one revision of one id never stands for two
different drafts.  A `Ledger` keeps what every revision has stood for; no code does.

Reopening a card starts its revisions again at 0, reverting goes back to an earlier one, and replacing a
definition takes none.  Each of them lets a revision stand for something else.
-/

set_option autoImplicit false

namespace Chopin.Questions

variable {M : Type} {crdt : Crdt M}

/-! ## A store over its life -/

/-- What a revision of a questionnaire stands for. -/
structure Version where
  id : String
  revision : Nat
  definition : Definition
  content : Except String Drafts

def version (crdt : Crdt M) (entry : Open M) : Version where
  id := entry.id
  revision := entry.revision
  definition := entry.definition
  content := read crdt entry.model entry.definition

/-- What the revisions of everything open stand for now. -/
def versions (crdt : Crdt M) (store : Store M) : List Version :=
  store.opened.filterMap fun entry ↦ (store.get entry.1).map fun found ↦ version crdt found.2

structure Ledger (M : Type) where
  desk : Desk M
  /-- Every version that anybody could have been told. -/
  carried : List Version

def Ledger.start : Ledger M := { desk := .start empty, carried := [] }

inductive Move (M : Type)
  | act (act : Act)
  | revert (id : String) (previous : Before M)
  | restoreDefinition (id : String) (definition : Definition)
  /-- The process ends, and the next one restores what is stored. -/
  | restart

def nextDesk (crdt : Crdt M) (desk : Desk M) : Move M → Option (Desk M)
  | .act act => step crdt desk act
  | .revert id previous => some { desk with store := revert desk.store id previous }
  | .restoreDefinition id definition => some { desk with store := restoreDefinition desk.store id definition }
  | .restart => (restoreAll crdt (dump crdt desk.store)).toOption.map .start

def advance (crdt : Crdt M) (ledger : Ledger M) (move : Move M) : Option (Ledger M) :=
  (nextDesk crdt ledger.desk move).map fun desk ↦
    { desk, carried := ledger.carried ++ versions crdt desk.store }

/-- A revision of a questionnaire stands for one draft. -/
def Identifies (carried : List Version) : Prop :=
  ∀ one ∈ carried, ∀ two ∈ carried, one.id = two.id → one.revision = two.revision → one = two

/-- The ones a revision is accepted for are those it stood for whenever somebody was told of it. -/
def Current (crdt : Crdt M) (ledger : Ledger M) : Prop :=
  ∀ id revision resolver suggestedOptionId after claimed,
    claimSubmit crdt ledger.desk.store id revision resolver suggestedOptionId = (after, .ok claimed) →
    ∃ place entry, ledger.desk.store.get id = some (place, entry) ∧
      ∀ told ∈ ledger.carried, told.id = id → told.revision = revision → told = version crdt entry

/-! ## When a revision is used again -/

/-- The step gives no revision to another draft than before: a questionnaire comes into the store under
a new id, a definition is replaced by itself, and a revert undoes nothing. -/
def Fresh (crdt : Crdt M) (ledger : Ledger M) : Move M → Prop
  | .act (.ask id _ _) | .act (.reopen id _ _) => ∀ told ∈ ledger.carried, told.id ≠ id
  | .act (.change (.redefine id definition)) | .restoreDefinition id definition =>
    ∀ place entry, ledger.desk.store.get id = some (place, entry) → definition = entry.definition
  | .revert id previous =>
    ∀ place entry, ledger.desk.store.get id = some (place, entry) → previous.revision = entry.revision ∧
      previous.definition = entry.definition ∧
      read crdt previous.model previous.definition = read crdt entry.model entry.definition
  | _ => True

/-- The same questionnaire: as it was, or at a later revision. -/
def Later (crdt : Crdt M) (entry now : Open M) : Prop :=
  now.id = entry.id ∧ (entry.revision < now.revision ∨ version crdt now = version crdt entry)

/-- Every questionnaire that is open then was open before, or has a new id. -/
structure Follows (crdt : Crdt M) (carried : List Version) (store after : Store M) : Prop where
  keys : (after.opened.map (·.1)).Nodup
  placed : after.Placed
  found : ∀ id place now, after.get id = some (place, now) →
    (∃ place entry, store.get id = some (place, entry) ∧ Later crdt entry now) ∨ ∀ told ∈ carried, told.id ≠ id

variable {carried : List Version} {store after : Store M} {key : String}

theorem Later.refl (entry : Open M) : Later crdt entry entry := ⟨rfl, .inr rfl⟩

/-- Everything that is still open stands as it did. -/
theorem Follows.narrow (hkeys : (after.opened.map (·.1)).Nodup) (hplaced : store.Placed)
    (hopened : ∀ id place, after.opened.lookup id = some place → store.opened.lookup id = some place)
    (hobjects : after.objects = store.objects) : Follows crdt carried store after where
  keys := hkeys
  placed id place hlookup := by
    rw [hobjects]
    exact hplaced id place (hopened id place hlookup)
  found id place now hget := by
    obtain ⟨hlookup, hobject⟩ := Store.get_eq_some.1 hget
    rw [hobjects] at hobject
    exact .inl ⟨place, now, Store.get_eq_some.2 ⟨hopened id place hlookup, hobject⟩, .refl now⟩

/-- What each object becomes says what each questionnaire becomes. -/
theorem Follows.objects (hkeys : (store.opened.map (·.1)).Nodup) (hplaced : store.Placed)
    (hopened : after.opened = store.opened)
    (hobjects : ∀ (place : Nat) (entry : Open M), store.objects[place]? = some entry →
      ∃ now, after.objects[place]? = some now ∧ Later crdt entry now) :
    Follows crdt carried store after where
  keys := hopened ▸ hkeys
  placed id place hlookup := by
    rw [hopened] at hlookup
    obtain ⟨entry, hentry, hid⟩ := hplaced id place hlookup
    obtain ⟨now, hnow, hlater⟩ := hobjects place entry hentry
    exact ⟨now, hnow, hlater.1.trans hid⟩
  found id place now hget := by
    obtain ⟨hlookup, hobject⟩ := Store.get_eq_some.1 hget
    rw [hopened] at hlookup
    obtain ⟨entry, hentry, -⟩ := hplaced id place hlookup
    obtain ⟨new, hnew, hlater⟩ := hobjects place entry hentry
    obtain rfl := Option.mem_unique hobject hnew
    exact .inl ⟨place, entry, Store.get_eq_some.2 ⟨hlookup, hentry⟩, hlater⟩

variable {entry now : Open M}

theorem Follows.assign {place : Nat} (hkeys : (store.opened.map (·.1)).Nodup)
    (hplaced : store.Placed) (hobject : store.objects[place]? = some entry) (hlater : Later crdt entry now) :
    Follows crdt carried store (store.assign place now) := by
  refine .objects hkeys hplaced rfl fun found old hold ↦ ?_
  rw [Store.objects_assign hobject]
  by_cases hfound : found = place
  · subst hfound
    obtain rfl := Option.mem_unique hobject hold
    exact ⟨now, if_pos rfl, hlater⟩
  · exact ⟨old, by rw [if_neg hfound, hold], .refl old⟩

/-- The invariant: what is open stands at the latest version of its id. -/
structure Ledger.Good (crdt : Crdt M) (ledger : Ledger M) : Prop where
  keys : (ledger.desk.store.opened.map (·.1)).Nodup
  placed : ledger.desk.store.Placed
  latest : ∀ id place entry, ledger.desk.store.get id = some (place, entry) →
    ∀ told ∈ ledger.carried, told.id = id → told.revision < entry.revision ∨ told = version crdt entry
  identifies : Identifies ledger.carried

theorem mem_versions {told : Version} (h : told ∈ versions crdt store) :
    ∃ id place entry, store.get id = some (place, entry) ∧ told = version crdt entry := by
  obtain ⟨entry, -, hmap⟩ := List.mem_filterMap.1 h
  obtain ⟨found, hget, rfl⟩ := Option.map_eq_some_iff.1 hmap
  exact ⟨entry.1, found.1, found.2, hget, rfl⟩

variable {ledger : Ledger M}

theorem Ledger.Good.follows (h : ledger.Good crdt) {desk : Desk M}
    (hf : Follows crdt ledger.carried ledger.desk.store desk.store) :
    Ledger.Good crdt { desk, carried := ledger.carried ++ versions crdt desk.store } := by
  have hlatest : ∀ id place entry, desk.store.get id = some (place, entry) → ∀ told ∈ ledger.carried,
      told.id = id → told.revision < entry.revision ∨ told = version crdt entry := by
    intro id place entry hget told htold hid
    obtain ⟨old, was, hwas, -, hlater⟩ | hnew := hf.found id place entry hget
    · obtain hlt | heq := h.latest id old was hwas told htold hid
      · obtain hgrown | hsame := hlater
        · exact .inl (by omega)
        · have hrevision : entry.revision = was.revision := congrArg Version.revision hsame
          exact .inl (by omega)
      · obtain hgrown | hsame := hlater
        · have hrevision : told.revision = was.revision := congrArg Version.revision heq
          exact .inl (by omega)
        · exact .inr (heq.trans hsame.symm)
    · exact absurd hid (hnew told htold)
  have hnow : ∀ id place entry, desk.store.get id = some (place, entry) → ∀ told ∈ versions crdt desk.store,
      told.id = id → told = version crdt entry := by
    intro id place entry hget told htold hid
    obtain ⟨other, found, object, hother, rfl⟩ := mem_versions htold
    obtain rfl : other = id := (hf.placed.id hother).symm.trans hid
    obtain ⟨-, rfl⟩ := Prod.mk.inj (Option.mem_unique hother hget)
    rfl
  have hmixed : ∀ one ∈ ledger.carried, ∀ two ∈ versions crdt desk.store, one.id = two.id →
      one.revision = two.revision → one = two := by
    intro one hone two htwo hid hrevision
    obtain ⟨id, place, entry, hget, rfl⟩ := mem_versions htwo
    have hkey : one.id = id := hid.trans (hf.placed.id hget)
    obtain hlt | heq := hlatest id place entry hget one hone hkey
    · have hsame : one.revision = entry.revision := hrevision
      omega
    · exact heq
  refine ⟨hf.keys, hf.placed, fun id place entry hget told htold hid ↦ ?_, fun one hone two htwo hid hrevision ↦ ?_⟩
  · obtain htold | htold := List.mem_append.1 htold
    · exact hlatest id place entry hget told htold hid
    · exact .inr (hnow id place entry hget told htold hid)
  · obtain hone | hone := List.mem_append.1 hone <;> obtain htwo | htwo := List.mem_append.1 htwo
    · exact h.identifies one hone two htwo hid hrevision
    · exact hmixed one hone two htwo hid hrevision
    · exact (hmixed two htwo one hone hid.symm hrevision.symm).symm
    · obtain ⟨id, place, entry, hget, rfl⟩ := mem_versions htwo
      exact hnow id place entry hget one hone (hid.trans (hf.placed.id hget))

/-! ## What one step gives -/

theorem Enters.follows (h : ledger.Good crdt)
    (henters : Enters ledger.desk.store after key) (hnew : ∀ told ∈ ledger.carried, told.id ≠ key) :
    Follows crdt ledger.carried ledger.desk.store after := by
  obtain ⟨closed, rfl⟩ | ⟨-, closed, entry, rfl, -, rfl⟩ := henters
  · exact .narrow h.keys h.placed (fun _ _ hlookup ↦ hlookup) rfl
  have hplaced : ({ ledger.desk.store with closed } : Store M).Placed := h.placed
  refine ⟨Entries.nodup_set h.keys _ _, hplaced.add entry, fun id place now hget ↦ ?_⟩
  obtain ⟨hlookup, hobject⟩ := Store.get_eq_some.1 hget
  rw [Store.opened_add] at hlookup
  rw [Store.objects_add] at hobject
  by_cases hkey : id = entry.id
  · exact .inr (hkey ▸ hnew)
  · rw [if_neg hkey] at hlookup
    obtain ⟨found, hfound, -⟩ := h.placed id place hlookup
    have hlt : place < ledger.desk.store.objects.length := (List.getElem?_eq_some_iff.1 hfound).1
    rw [if_neg (Nat.ne_of_lt hlt)] at hobject
    exact .inl ⟨place, now, Store.get_eq_some.2 ⟨hlookup, hobject⟩, .refl now⟩

theorem Alters.follows {how : Open M → Open M → Prop} (h : ledger.Good crdt)
    (halters : Alters ledger.desk.store after key how)
    (hlater : ∀ place entry now, ledger.desk.store.get key = some (place, entry) → how entry now →
      Later crdt entry now) : Follows crdt ledger.carried ledger.desk.store after := by
  obtain rfl | ⟨place, entry, now, hget, -, rfl, hhow⟩ := halters
  · exact .narrow h.keys h.placed (fun _ _ hlookup ↦ hlookup) rfl
  · exact .assign h.keys h.placed (Store.get_eq_some.1 hget).2 (hlater place entry now hget hhow)

theorem Rests.later (h : Rests entry now) : Later crdt entry now := by
  obtain ⟨presence, rfl⟩ | ⟨-, rfl⟩ := h
  all_goals exact ⟨rfl, .inr rfl⟩

theorem Calm.follows (h : ledger.Good crdt) (hcalm : Calm ledger.desk.store after) :
    Follows crdt ledger.carried ledger.desk.store after := by
  refine .objects h.keys h.placed hcalm.opened fun place entry hentry ↦ ?_
  obtain ⟨now, hnow, hrests⟩ := hcalm.objects place entry hentry
  exact ⟨now, hnow, hrests.later⟩

/-- A claim that is made or given up changes nothing a revision stands for. -/
theorem Follows.claim (h : ledger.Good crdt) {place : Nat}
    (hobject : ledger.desk.store.objects[place]? = some entry) (claim : Option Hold) :
    Follows crdt ledger.carried ledger.desk.store (ledger.desk.store.assign place { entry with claim }) :=
  .assign h.keys h.placed hobject ⟨rfl, .inr rfl⟩

theorem follows_restart (lawful : crdt.Lawful) (h : ledger.Good crdt)
    (hrestore : restoreAll crdt (dump crdt ledger.desk.store) = .ok after) :
    Follows crdt ledger.carried ledger.desk.store after := by
  obtain ⟨hkeys, hstored⟩ := get_restoreAll hrestore
  refine ⟨hkeys, placed_restoreAll hrestore, fun id place now hget ↦ .inl ?_⟩
  obtain ⟨hid, stored, hmem, hone⟩ := hstored id place now hget
  obtain ⟨entry, hentry, rfl⟩ := List.mem_map.1 hmem
  obtain ⟨⟨name, old⟩, hopened, hobject⟩ := List.mem_filterMap.1 hentry
  have hold : ledger.desk.store.get name = some (old, entry) :=
    Store.get_eq_some.2 ⟨Entries.lookup_of_mem h.keys hopened, hobject⟩
  obtain ⟨hidentified, model, hmodel, rfl⟩ := restoreOne_spec hone
  obtain rfl : name = id := (h.placed.id hold).symm.trans hid
  refine ⟨old, entry, hold, rfl, .inr ?_⟩
  have hbytes : ((crdt.toBinary entry.model).map Int.ofNat).map Int.toNat = crdt.toBinary entry.model := by
    rw [List.map_map]
    exact List.map_id _
  rw [hbytes] at hmodel
  have hread := read_restore lawful hmodel (lawful.distinct _ hidentified)
  rw [version, version, ← hread]
  rfl

theorem Follows.same (h : ledger.Good crdt) : Follows crdt ledger.carried ledger.desk.store ledger.desk.store :=
  .narrow h.keys h.placed (fun _ _ hlookup ↦ hlookup) rfl

theorem Change.Gives.later {change : Change} (h : change.Gives entry now)
    (hsame : ∀ definition, change = .redefine change.id definition → definition = entry.definition) :
    Later crdt entry now := by
  obtain ⟨hid, -, hrevision⟩ | ⟨definition, hredefine, rfl⟩ | rfl | rfl := h
  · exact ⟨hid, .inl hrevision⟩
  · rw [hsame definition hredefine]
    exact .refl entry
  all_goals exact ⟨rfl, .inr rfl⟩

theorem follows_step (h : ledger.Good crdt) {act : Act} {desk : Desk M}
    (hfresh : Fresh crdt ledger (.act act)) (hstep : step crdt ledger.desk act = some desk) :
    Follows crdt ledger.carried ledger.desk.store desk.store := by
  cases act <;> simp only [step, Option.some.injEq] at hstep
  case ask => exact hstep ▸ (ask_enters _ _).follows h hfresh
  case reopen => exact hstep ▸ (reopen_enters _ _).follows h hfresh
  case change change =>
    subst hstep
    refine (perform_alters change).follows h fun place entry now hget hgives ↦
      hgives.later fun definition hredefine ↦ ?_
    rw [hredefine] at hfresh hget
    exact hfresh place entry hget
  case releaseOption => exact hstep ▸ (release_calm (.inl rfl)).follows h
  case releaseEdit => exact hstep ▸ (release_calm (.inr rfl)).follows h
  case focus => exact hstep ▸ (focus_calm _).follows h
  case away => exact hstep ▸ (away_calm _).follows h
  case claimSubmit id revision resolver suggestedOptionId =>
    obtain ⟨refusal, hclaim⟩ | ⟨place, entry, answers, hget, -, -, -, hclaim⟩ :=
      claimSubmit_cases crdt ledger.desk.store id revision resolver suggestedOptionId
    · rw [hclaim, Desk.take] at hstep
      exact hstep ▸ .same h
    · rw [hclaim, Desk.take, hget] at hstep
      exact hstep ▸ .claim h (Store.get_eq_some.1 hget).2 _
  case claimCancel id resolver =>
    obtain ⟨refusal, hclaim⟩ | ⟨place, entry, hget, -, hclaim⟩ :=
      claimCancel_cases ledger.desk.store id resolver
    · rw [hclaim, Desk.take] at hstep
      exact hstep ▸ .same h
    · rw [hclaim, Desk.take, hget] at hstep
      exact hstep ▸ .claim h (Store.get_eq_some.1 hget).2 _
  case commit =>
    obtain ⟨held, -, rfl⟩ := Option.map_eq_some_iff.1 hstep
    refine .narrow (h.keys.sublist (List.filter_sublist.map _)) h.placed (fun id place hlookup ↦ ?_) rfl
    have hdeleted := (Entries.lookup_delete ledger.desk.store.opened held.claim.id id).symm.trans hlookup
    by_cases hid : id = held.claim.id
    · rw [if_pos hid] at hdeleted
      cases hdeleted
    · rw [if_neg hid] at hdeleted
      exact hdeleted
  case rollback =>
    obtain ⟨held, -, rfl⟩ := Option.map_eq_some_iff.1 hstep
    dsimp only
    rw [rollback]
    split
    · split
      · rename_i entry hentry
        exact .claim h hentry none
      · exact .same h
    · exact .same h
  case shutdown =>
    subst hstep
    exact .narrow List.nodup_nil h.placed (fun id place hlookup ↦ by cases hlookup) rfl

theorem advance_good (lawful : crdt.Lawful) {next : Ledger M} {move : Move M} (h : ledger.Good crdt)
    (hfresh : Fresh crdt ledger move) (hadvance : advance crdt ledger move = some next) : next.Good crdt := by
  obtain ⟨desk, hdesk, rfl⟩ := Option.map_eq_some_iff.1 hadvance
  refine h.follows ?_
  cases move <;> simp only [nextDesk, Option.some.injEq] at hdesk
  case act => exact follows_step h hfresh hdesk
  case revert id previous =>
    subst hdesk
    dsimp only
    rw [revert]
    split
    · exact .same h
    · rename_i place entry hget
      obtain ⟨hrevision, hdefinition, hcontent⟩ := hfresh place entry hget
      refine .assign h.keys h.placed (Store.get_eq_some.1 hget).2 ⟨rfl, .inr ?_⟩
      rw [version, version, Version.mk.injEq]
      exact ⟨rfl, hrevision, hdefinition, hcontent⟩
  case restoreDefinition id definition =>
    subst hdesk
    dsimp only
    rw [restoreDefinition]
    split
    · exact .same h
    · rename_i place entry hget
      rw [hfresh place entry hget]
      exact .assign h.keys h.placed (Store.get_eq_some.1 hget).2 (.refl entry)
  case restart =>
    obtain ⟨store, hstore, rfl⟩ := Option.map_eq_some_iff.1 hdesk
    exact follows_restart lawful h (Except.toOption_eq_some.1 hstore)

theorem start_ledger_good : (Ledger.start : Ledger M).Good crdt where
  keys := List.nodup_nil
  placed _ _ hlookup := nomatch hlookup
  latest _ _ _ hget := nomatch hget
  identifies _ hone := nomatch hone

/-! ## The revisions -/

/-- Where no step uses a revision again, revisions identify drafts, and a submission is accepted only for
the draft its revision was told for. -/
theorem revision_identifies (lawful : crdt.Lawful) {moves : List (Move M)} {ledger : Ledger M}
    (run : Guarded (Fresh crdt) (advance crdt) .start moves ledger) :
    Identifies ledger.carried ∧ Current crdt ledger := by
  have hgood : ledger.Good crdt :=
    run.invariant start_ledger_good fun _ _ _ h hfresh hadvance ↦ advance_good lawful h hfresh hadvance
  refine ⟨hgood.identifies, fun id revision resolver suggestedOptionId after claimed hclaim ↦ ?_⟩
  obtain ⟨refusal, hrefused⟩ | ⟨place, entry, answers, hget, -, hrevision, -⟩ :=
    claimSubmit_cases crdt ledger.desk.store id revision resolver suggestedOptionId
  · exact nomatch (Prod.mk.inj (hclaim.symm.trans hrefused)).2
  · refine ⟨place, entry, hget, fun told htold hid htold' ↦ ?_⟩
    obtain hlt | heq := hgood.latest id place entry hget told htold hid
    · omega
    · exact heq

namespace Sample

/-- The card is answered with `a` and reopened, somebody answers it with `b`, and the submission of what
was seen before it was reopened arrives. -/
def reopened : List (Move Nat) :=
  [.act (.ask "q" definition none), .act (.change (.edit "q" [1] (some "amy"))),
    .act (.claimSubmit "q" 1 "amy" none), .act (.commit 0 0), .act (.reopen "q" definition (some "q")),
    .act (.change (.edit "q" [2] (some "bob")))]

def last : Ledger Nat := (reopened.foldlM (advance plain) .start).getD .start

/-- What was seen of the card before it was reopened, and what it is when the submission arrives. -/
def seen : Version where
  id := "q"
  revision := 1
  definition := definition
  content := .ok [("q", { mode := .choices, choice := some "a", options := [("a", false), ("b", false)]
                          custom := "", marks := none })]

def stands : Version where
  id := "q"
  revision := 1
  definition := definition
  content := .ok [("q", { mode := .choices, choice := some "b", options := [("a", false), ("b", false)]
                          custom := "", marks := none })]

theorem seen_mem : seen ∈ last.carried := List.mem_of_getElem? (i := 1) rfl

theorem stands_mem : stands ∈ last.carried := List.mem_of_getElem? (i := 4) rfl

theorem seen_ne_stands : seen ≠ stands := fun heq ↦
  absurd (congrArg (fun told ↦ told.content.toOption) heq) (by decide)

end Sample

/-- Somebody who looked at a draft of revision 1 submits another one of revision 1. -/
theorem stale_submission : Runs (advance Sample.plain) .start Sample.reopened Sample.last ∧
    ¬Identifies Sample.last.carried ∧ ¬Current Sample.plain Sample.last := by
  refine ⟨runs_iff_foldlM.2 rfl, fun h ↦ ?_, fun h ↦ ?_⟩
  · exact Sample.seen_ne_stands (h _ Sample.seen_mem _ Sample.stands_mem rfl rfl)
  · obtain ⟨place, entry, hget, htold⟩ := h "q" 1 "amy" none _ _ rfl
    have hseen := htold _ Sample.seen_mem rfl rfl
    obtain ⟨-, rfl⟩ := Prod.mk.inj (Option.some.inj hget)
    exact Sample.seen_ne_stands hseen

theorem plain_lawful : Sample.plain.Lawful where
  stored model restored h := by
    cases h
    rfl
  marked model root node key hroot hnode hnone := by
    obtain rfl := (Node.obj.inj hroot).symm
    rw [Node.get, List.lookup_cons] at hnode
    split at hnode
    · obtain rfl := Node.obj.inj (Option.some.inj hnode)
      exact absurd List.mem_cons_self hnone
    · cases hnode
  distinct definition h := by
    by_contra hnot
    cases (if_neg hnot).symm.trans h

/-- Before the card is reopened, the submission of what somebody looks at is accepted. -/
theorem revision_identifies_sample : Current Sample.plain
    (((Sample.reopened.take 2).foldlM (advance Sample.plain) .start).getD .start) := by
  have asked : Guarded (Fresh Sample.plain) (advance Sample.plain) .start
      [.act (.ask "q" Sample.definition none)] _ :=
    .snoc (.nil _) (fun told htold ↦ nomatch htold) rfl
  have edited : Guarded (Fresh Sample.plain) (advance Sample.plain) .start (Sample.reopened.take 2) _ :=
    .snoc asked trivial rfl
  exact (revision_identifies plain_lawful edited).2

end Chopin.Questions
