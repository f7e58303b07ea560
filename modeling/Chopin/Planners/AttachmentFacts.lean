import Chopin.Planners.Attachments

/-!
# Holds and their links

A link that has a hold's grant and is open is the one link of the document's current hold, and a suspended link is
parked on its hold.  Each operation on the table keeps this.  What an operation does besides is little: holds are
forgotten and links are closed, so that whatever is said of those that remain was said of them before.
-/

set_option autoImplicit false

namespace Chopin.Planners

variable {table next : Table} {h l : Nat} {hold : Hold} {link : Link} {lost : Option Nat}

/-- The hold whose grant the link has. -/
def Stage.on : Stage → Option Nat
  | .answered (.granted h) => some h
  | .bound h _ => some h
  | _ => none

namespace Table

theorem current_iff : table.current h hold = true ↔ table.holds.lookup hold.channelId = some h := beq_iff_eq

@[simp] theorem terminate_heap (table : Table) (l : Nat) : (table.terminate l).heap = table.heap := by
  rw [terminate]
  split
  · rfl
  · split <;> rfl

@[simp] theorem terminate_holds (table : Table) (l : Nat) : (table.terminate l).holds = table.holds := by
  rw [terminate]
  split
  · rfl
  · split <;> rfl

@[simp] theorem terminateParked_heap (table : Table) (parked : Option Nat) :
    (table.terminateParked parked).heap = table.heap := by
  cases parked
  · rfl
  · exact terminate_heap _ _

@[simp] theorem terminateParked_holds (table : Table) (parked : Option Nat) :
    (table.terminateParked parked).holds = table.holds := by
  cases parked
  · rfl
  · exact terminate_holds _ _

/-- The holds and the links belong together; only the lost hold may not be current and have its link still. -/
structure Linked (table : Table) (lost : Option Nat) : Prop where
  holds : ∀ c h, table.holds.lookup c = some h → ∃ hold, table.heap[h]? = some hold ∧ hold.channelId = c
  on : ∀ (l : Nat) (link : Link) h, table.links[l]? = some link → link.stage.on = some h → link.state ≠ .closed →
    ∃ hold, table.heap[h]? = some hold ∧ hold.channelId = link.request.channelId ∧ hold.link = some l ∧
      (lost ≠ some h → table.current h hold = true)
  bound : ∀ (l : Nat) (link : Link) h claim, table.links[l]? = some link → link.stage = .bound h claim → link.state = .attached
  parked : ∀ (h : Nat) (hold : Hold) (l : Nat), table.heap[h]? = some hold → hold.parked = some l → table.current h hold = true ∧
    ∃ link, table.links[l]? = some link ∧ link.state = .suspended ∧ link.stage = .parked h
  kept : ∀ (l : Nat) (link : Link) h, table.links[l]? = some link → link.stage = .parked h → link.state = .suspended ∧
    ∃ hold, table.heap[h]? = some hold ∧ hold.parked = some l
  suspended : ∀ (l : Nat) (link : Link), table.links[l]? = some link → link.state = .suspended → ∃ h, link.stage = .parked h

/-! ## Holds that change -/

/-- A hold that changes its link, or its timer: the links with its grant have it still, or are closed. -/
theorem Linked.setHold (hlinked : Linked table lost) (hhold : table.heap[h]? = some hold) {after : Hold}
    (hchannel : after.channelId = hold.channelId) (hparked : after.parked = hold.parked)
    (hlink : after.link = hold.link ∨
      ∀ (l : Nat) (link : Link), table.links[l]? = some link → link.stage.on = some h → link.state = .closed) :
    Linked (table.setHold h after) lost := by
  have hget : ∀ h', (table.setHold h after).heap[h']? = if h' = h then some after else table.heap[h']? :=
    List.getElem?_set_of hhold after
  refine ⟨fun c h' hc ↦ ?_, fun l' link' h' hl' hon hopen ↦ ?_, hlinked.bound, fun h' hold' l' hhold' hp ↦ ?_,
    fun l' link' h' hl' hstage ↦ ?_, hlinked.suspended⟩
  · obtain ⟨hold', hhold', hsame⟩ := hlinked.holds c h' hc
    rw [hget]
    split
    · subst h'
      obtain rfl := Option.mem_unique hhold hhold'
      exact ⟨after, rfl, hchannel.trans hsame⟩
    · exact ⟨hold', hhold', hsame⟩
  · obtain ⟨hold', hhold', hsame, hlink', hcurrent⟩ := hlinked.on l' link' h' hl' hon hopen
    rw [hget]
    split
    · subst h'
      obtain rfl := Option.mem_unique hhold hhold'
      refine ⟨after, rfl, hchannel.trans hsame, ?_, fun hlost ↦ ?_⟩
      · exact (hlink.resolve_right fun hall ↦ hopen (hall l' link' hl' hon)).trans hlink'
      · have hbefore := hcurrent hlost
        rw [current_iff] at hbefore ⊢
        rw [hchannel]
        exact hbefore
    · exact ⟨hold', hhold', hsame, hlink', hcurrent⟩
  · rw [hget] at hhold'
    split at hhold'
    · subst h'
      cases hhold'
      obtain ⟨hcurrent, hkept⟩ := hlinked.parked h hold l' hhold (hparked.symm.trans hp)
      refine ⟨?_, hkept⟩
      rw [current_iff] at hcurrent ⊢
      rw [hchannel]
      exact hcurrent
    · exact hlinked.parked h' hold' l' hhold' hp
  · obtain ⟨hstate, hold', hhold', hp⟩ := hlinked.kept l' link' h' hl' hstage
    refine ⟨hstate, ?_⟩
    rw [hget]
    split
    · subst h'
      obtain rfl := Option.mem_unique hhold hhold'
      exact ⟨after, rfl, hparked.trans hp⟩
    · exact ⟨hold', hhold', hp⟩

/-- A link that changes, and neither was suspended nor is. -/
theorem Linked.setLink (hlinked : Linked table lost) (hlink : table.links[l]? = some link) {after : Link}
    (hbefore : link.state ≠ .suspended) (hafter : after.state ≠ .suspended) (hstage : ∀ h, after.stage ≠ .parked h)
    (hbound : ∀ h claim, after.stage = .bound h claim → after.state = .attached)
    (hon : ∀ h, after.stage.on = some h → after.state ≠ .closed →
      ∃ hold, table.heap[h]? = some hold ∧ hold.channelId = after.request.channelId ∧ hold.link = some l ∧
        (lost ≠ some h → table.current h hold = true)) : Linked (table.setLink l after) lost := by
  have hget : ∀ l', (table.setLink l after).links[l']? = if l' = l then some after else table.links[l']? :=
    List.getElem?_set_of hlink after
  refine ⟨hlinked.holds, fun l' link' h' hl' hon' hopen ↦ ?_, fun l' link' h' claim hl' hstage' ↦ ?_,
    fun h' hold' l' hhold' hp ↦ ?_, fun l' link' h' hl' hstage' ↦ ?_, fun l' link' hl' hstate ↦ ?_⟩
  · rw [hget] at hl'
    split at hl'
    · subst l'
      cases hl'
      exact hon h' hon' hopen
    · exact hlinked.on l' link' h' hl' hon' hopen
  · rw [hget] at hl'
    split at hl'
    · cases hl'
      exact hbound h' claim hstage'
    · exact hlinked.bound l' link' h' claim hl' hstage'
  · obtain ⟨hcurrent, link', hl', hstate, hstage'⟩ := hlinked.parked h' hold' l' hhold' hp
    refine ⟨hcurrent, link', ?_, hstate, hstage'⟩
    rw [hget, if_neg]
    · exact hl'
    · rintro rfl
      obtain rfl := Option.mem_unique hlink hl'
      exact hbefore hstate
  · rw [hget] at hl'
    split at hl'
    · cases hl'
      exact absurd hstage' (hstage h')
    · exact hlinked.kept l' link' h' hl' hstage'
  · rw [hget] at hl'
    split at hl'
    · cases hl'
      exact absurd hstate hafter
    · exact hlinked.suspended l' link' hl' hstate

/-- The link that is parked on a hold, terminated. -/
theorem Linked.terminate (hlinked : Linked table lost) (hhold : table.heap[h]? = some hold)
    (hparked : hold.parked = some l) : ∃ link, table.links[l]? = some link ∧ link.stage = .parked h ∧
      table.terminate l = table.setLink l { link with state := .closed, stage := .over } := by
  obtain ⟨_, link, hlink, hstate, hstage⟩ := hlinked.parked h hold l hhold hparked
  refine ⟨link, hlink, hstage, ?_⟩
  rw [Table.terminate, hlink]
  exact if_pos hstate

/-- A hold that gives up what it keeps. -/
theorem Linked.unpark (hlinked : Linked table lost) (hhold : table.heap[h]? = some hold) (after : Hold)
    (hchannel : after.channelId = hold.channelId) (hparked : after.parked = none)
    (hlink : after.link = hold.link ∨ ∀ (l : Nat) (link : Link), table.links[l]? = some link → link.stage.on = some h →
      link.state = .closed) : Linked ((table.terminateParked hold.parked).setHold h after) lost := by
  cases hp : hold.parked with
  | none => exact hlinked.setHold hhold hchannel (hparked.trans hp.symm) hlink
  | some p =>
    obtain ⟨given, hgiven, hstage, hterminate⟩ := hlinked.terminate hhold hp
    rw [terminateParked, hterminate]
    have hheap : ∀ h', ((table.setLink p { given with state := .closed, stage := .over }).setHold h after).heap[h']? =
        if h' = h then some after else table.heap[h']? := List.getElem?_set_of hhold after
    have hlinks : ∀ l', ((table.setLink p { given with state := .closed, stage := .over }).setHold h after).links[l']? =
        if l' = p then some { given with state := .closed, stage := .over } else table.links[l']? :=
      List.getElem?_set_of hgiven _
    refine ⟨fun c h' hc ↦ ?_, fun l' link' h' hl' hon hopen ↦ ?_, fun l' link' h' claim hl' hbound ↦ ?_,
      fun h' hold' l' hhold' hp' ↦ ?_, fun l' link' h' hl' hstage' ↦ ?_, fun l' link' hl' hstate ↦ ?_⟩
    · obtain ⟨hold', hhold', hsame⟩ := hlinked.holds c h' hc
      rw [hheap]
      split
      · subst h'
        obtain rfl := Option.mem_unique hhold hhold'
        exact ⟨after, rfl, hchannel.trans hsame⟩
      · exact ⟨hold', hhold', hsame⟩
    · rw [hlinks] at hl'
      split at hl'
      · cases hl'
        exact absurd rfl hopen
      · obtain ⟨hold', hhold', hsame, hlink', hcurrent⟩ := hlinked.on l' link' h' hl' hon hopen
        rw [hheap]
        split
        · subst h'
          obtain rfl := Option.mem_unique hhold hhold'
          refine ⟨after, rfl, hchannel.trans hsame, ?_, fun hlost ↦ ?_⟩
          · exact (hlink.resolve_right fun hall ↦ hopen (hall l' link' hl' hon)).trans hlink'
          · have hbefore := hcurrent hlost
            rw [current_iff] at hbefore ⊢
            rw [hchannel]
            exact hbefore
        · exact ⟨hold', hhold', hsame, hlink', hcurrent⟩
    · rw [hlinks] at hl'
      split at hl'
      · cases hl'
        cases hbound
      · exact hlinked.bound l' link' h' claim hl' hbound
    · rw [hheap] at hhold'
      split at hhold'
      · cases hhold'
        exact nomatch hparked.symm.trans hp'
      · rename_i hne
        obtain ⟨hcurrent, link', hl', hstate, hstage'⟩ := hlinked.parked h' hold' l' hhold' hp'
        refine ⟨hcurrent, link', ?_, hstate, hstage'⟩
        rw [hlinks, if_neg]
        · exact hl'
        · rintro rfl
          obtain rfl := Option.mem_unique hgiven hl'
          exact hne (Stage.parked.inj (hstage'.symm.trans hstage))
    · rw [hlinks] at hl'
      split at hl'
      · cases hl'
        cases hstage'
      · rename_i hne
        obtain ⟨hstate, hold', hhold', hp'⟩ := hlinked.kept l' link' h' hl' hstage'
        refine ⟨hstate, hold', ?_, hp'⟩
        rw [hheap, if_neg]
        · exact hhold'
        · rintro rfl
          obtain rfl := Option.mem_unique hhold hhold'
          exact hne (Option.mem_unique hp' hp)
    · rw [hlinks] at hl'
      split at hl'
      · cases hl'
        cases hstate
      · exact hlinked.suspended l' link' hl' hstate

/-! ## Each operation -/

/-- No open link has the grant of a hold. -/
def Free (table : Table) (h : Nat) : Prop :=
  ∀ (l : Nat) (link : Link), table.links[l]? = some link → link.stage.on = some h → link.state = .closed

/-- A hold without a link is free. -/
theorem Linked.free (hlinked : Linked table lost) (hhold : table.heap[h]? = some hold) (hlink : hold.link = none) :
    table.Free h := by
  intro l link hl hon
  by_contra hopen
  obtain ⟨hold', hhold', _, hlink', _⟩ := hlinked.on l link h hl hon hopen
  obtain rfl := Option.mem_unique hhold hhold'
  exact nomatch hlink.symm.trans hlink'

/-- What was lost is free now. -/
theorem Linked.found (hlinked : Linked table (some h)) (hfree : table.Free h) : Linked table none where
  holds := hlinked.holds
  on l link h' hl hon hopen := by
    obtain ⟨hold, hhold, hchannel, hlink, hcurrent⟩ := hlinked.on l link h' hl hon hopen
    refine ⟨hold, hhold, hchannel, hlink, fun _ ↦ hcurrent fun heq ↦ ?_⟩
    cases heq
    exact hopen (hfree l link hl hon)
  bound := hlinked.bound
  parked := hlinked.parked
  kept := hlinked.kept
  suspended := hlinked.suspended

theorem Linked.weaken (hlinked : Linked table none) (lost : Option Nat) : Linked table lost where
  holds := hlinked.holds
  on l link h hl hon hopen := by
    obtain ⟨hold, hhold, hchannel, hlink, hcurrent⟩ := hlinked.on l link h hl hon hopen
    exact ⟨hold, hhold, hchannel, hlink, fun _ ↦ hcurrent nofun⟩
  bound := hlinked.bound
  parked := hlinked.parked
  kept := hlinked.kept
  suspended := hlinked.suspended

/-- A hold is dropped: its link, if it has one, is still to be revoked. -/
theorem drop_linked (hlinked : Linked table none) (h : Nat) : Linked (table.drop h) (some h) := by
  rw [drop]
  split
  · exact hlinked.weaken _
  · rename_i hold hhold
    split
    · rename_i hcurrent
      have hunparked := (hlinked.weaken (some h)).unpark hhold { hold with timer := false, parked := none } rfl rfl (.inl rfl)
      -- Only the hold's own document is forgotten.
      have hothers : ∀ h' hold', h' ≠ h → table.current h' hold' = true →
          (Entries.delete table.holds hold.channelId).lookup hold'.channelId = some h' := by
        intro h' hold' hne hcurrent'
        rw [current_iff] at hcurrent hcurrent'
        rw [Entries.lookup_delete, if_neg]
        · exact hcurrent'
        · intro hsame
          rw [hsame, hcurrent] at hcurrent'
          exact hne (Option.some.inj hcurrent').symm
      have hstill : ∀ h' hold', ((table.terminateParked hold.parked).setHold h
          { hold with timer := false, parked := none }).current h' hold' = table.current h' hold' := by
        intro h' hold'
        rw [current, current, setHold, terminateParked_holds]
      dsimp only
      refine ⟨fun c h' hc ↦ ?_, fun l link h' hl hon hopen ↦ ?_, hunparked.bound, fun h' hold' l hhold' hp ↦ ?_,
        hunparked.kept, hunparked.suspended⟩
      · refine hunparked.holds c h' ?_
        have hlookup : (Entries.delete (table.terminateParked hold.parked).holds hold.channelId).lookup c = some h' := hc
        rw [Entries.lookup_delete] at hlookup
        split at hlookup
        · cases hlookup
        · exact hlookup
      · obtain ⟨hold', hhold', hchannel, hlink, hcurrent'⟩ := hunparked.on l link h' hl hon hopen
        refine ⟨hold', hhold', hchannel, hlink, fun hlost ↦ current_iff.2 ?_⟩
        have hne : h' ≠ h := fun heq ↦ hlost (heq ▸ rfl)
        show (Entries.delete (table.terminateParked hold.parked).holds hold.channelId).lookup hold'.channelId = some h'
        rw [terminateParked_holds]
        exact hothers h' hold' hne (hstill h' hold' ▸ hcurrent' hlost)
      · obtain ⟨hcurrent', hkept⟩ := hunparked.parked h' hold' l hhold' hp
        refine ⟨current_iff.2 ?_, hkept⟩
        have hne : h' ≠ h := by
          rintro rfl
          have hset : some hold' = some { hold with timer := false, parked := none } := by
            rw [← hhold', setHold, terminateParked_heap]
            exact (List.getElem?_set_of hhold _ _).trans (if_pos rfl)
          cases hset
          cases hp
        show (Entries.delete (table.terminateParked hold.parked).holds hold.channelId).lookup hold'.channelId = some h'
        rw [terminateParked_holds]
        exact hothers h' hold' hne (hstill h' hold' ▸ hcurrent')
    · exact ((hlinked.weaken _).setHold hhold rfl rfl (.inl rfl))

/-- The link of a hold lets go of it. -/
theorem detached_linked (hlinked : Linked table lost) (h l : Nat)
    (hover : ∀ link : Link, table.links[l]? = some link → link.stage.on = some h → link.state = .closed) :
    Linked (table.detached h l false) lost := by
  rw [detached]
  split
  · exact hlinked
  · rename_i hold hhold
    split
    · exact hlinked
    · rename_i hlink
      have hfree : ∀ (l' : Nat) (link : Link), table.links[l']? = some link → link.stage.on = some h → link.state = .closed := by
        intro l' link hl' hon
        by_contra hopen
        obtain ⟨hold', hhold', _, hlink', _⟩ := hlinked.on l' link h hl' hon hopen
        obtain rfl := Option.mem_unique hhold hhold'
        obtain rfl := Option.some.inj ((not_not.1 hlink).symm.trans hlink')
        exact hopen (hover link hl' hon)
      split
      · exact hlinked.setHold hhold rfl rfl (.inr hfree)
      · split
        · exact nomatch ‹false = true›
        · split
          · exact hlinked.setHold hhold rfl rfl (.inr hfree)
          · exact hlinked.setHold hhold rfl rfl (.inr hfree)

/-- A link that is closed, and has let go of its hold if it was bound. -/
theorem close_linked (hlinked : Linked table lost) (hlink : table.links[l]? = some link)
    (hbefore : link.state ≠ .suspended)
    {stage : Stage} (hstage : ∀ h, stage ≠ .parked h) (hbound : ∀ h claim, stage ≠ .bound h claim) :
    Linked (table.setLink l { link with state := .closed, stage }) lost :=
  hlinked.setLink hlink hbefore nofun hstage (fun h claim heq ↦ absurd heq (hbound h claim)) fun _ _ hopen ↦ absurd rfl hopen

theorem Linked.stage_ne_parked (hlinked : Linked table lost) (hlink : table.links[l]? = some link)
    (hstate : link.state ≠ .suspended) (h : Nat) : link.stage ≠ .parked h :=
  fun hstage ↦ hstate (hlinked.kept l link h hlink hstage).1

theorem terminate_setLink (table : Table) {p : Nat} (after : Link) (hne : p ≠ l) :
    (table.setLink l after).terminate p = (table.terminate p).setLink l after := by
  have hget : (table.setLink l after).links[p]? = table.links[p]? := List.getElem?_set_ne (Ne.symm hne)
  rw [terminate, hget, terminate]
  split
  · rfl
  · split
    · rw [setLink, setLink, setLink, setLink]
      exact congrArg (Table.mk _ · _) (List.set_comm _ _ (Ne.symm hne))
    · rfl

/-- A hold that keeps nothing parks its own link. -/
theorem park_linked (hlinked : Linked table none) (hhold : table.heap[h]? = some hold) (hparked : hold.parked = none)
    (hheld : hold.link = some l) (hcurrent : table.current h hold = true) (hlink : table.links[l]? = some link)
    (hbefore : link.state ≠ .suspended) :
    Linked ((table.setLink l { link with state := .suspended, stage := .parked h }).setHold h
      { hold with link := none, parked := some l }) none := by
  have hheap : ∀ h', ((table.setLink l { link with state := .suspended, stage := .parked h }).setHold h
      { hold with link := none, parked := some l }).heap[h']? =
        if h' = h then some { hold with link := none, parked := some l } else table.heap[h']? :=
    List.getElem?_set_of hhold _
  have hlinks : ∀ l', ((table.setLink l { link with state := .suspended, stage := .parked h }).setHold h
      { hold with link := none, parked := some l }).links[l']? =
        if l' = l then some { link with state := .suspended, stage := .parked h } else table.links[l']? :=
    List.getElem?_set_of hlink _
  refine ⟨fun c h' hc ↦ ?_, fun l' link' h' hl' hon hopen ↦ ?_, fun l' link' h' claim hl' hbound ↦ ?_,
    fun h' hold' l' hhold' hp ↦ ?_, fun l' link' h' hl' hstage ↦ ?_, fun l' link' hl' hstate ↦ ?_⟩
  · obtain ⟨hold', hhold', hsame⟩ := hlinked.holds c h' hc
    rw [hheap]
    split
    · subst h'
      obtain rfl := Option.mem_unique hhold hhold'
      exact ⟨_, rfl, hsame⟩
    · exact ⟨hold', hhold', hsame⟩
  · rw [hlinks] at hl'
    split at hl'
    · cases hl'
      cases hon
    · rename_i hne
      obtain ⟨hold', hhold', hsame, hlink', hcurrent'⟩ := hlinked.on l' link' h' hl' hon hopen
      refine ⟨hold', ?_, hsame, hlink', hcurrent'⟩
      rw [hheap, if_neg]
      · exact hhold'
      · rintro rfl
        obtain rfl := Option.mem_unique hhold hhold'
        exact hne (Option.mem_unique hlink' hheld)
  · rw [hlinks] at hl'
    split at hl'
    · cases hl'
      cases hbound
    · exact hlinked.bound l' link' h' claim hl' hbound
  · rw [hheap] at hhold'
    split at hhold'
    · subst h'
      cases hhold'
      cases hp
      exact ⟨hcurrent, _, (hlinks l).trans (if_pos rfl), rfl, rfl⟩
    · obtain ⟨hcurrent', link', hl', hstate, hstage⟩ := hlinked.parked h' hold' l' hhold' hp
      refine ⟨hcurrent', link', ?_, hstate, hstage⟩
      rw [hlinks, if_neg]
      · exact hl'
      · rintro rfl
        obtain rfl := Option.mem_unique hlink hl'
        exact hbefore hstate
  · rw [hlinks] at hl'
    split at hl'
    · subst l'
      cases hl'
      obtain rfl := Stage.parked.inj hstage
      exact ⟨rfl, _, (hheap h).trans (if_pos rfl), rfl⟩
    · obtain ⟨hstate, hold', hhold', hp⟩ := hlinked.kept l' link' h' hl' hstage
      refine ⟨hstate, hold', ?_, hp⟩
      rw [hheap, if_neg]
      · exact hhold'
      · rintro rfl
        obtain rfl := Option.mem_unique hhold hhold'
        exact nomatch hparked.symm.trans hp
  · rw [hlinks] at hl'
    split at hl'
    · cases hl'
      exact ⟨h, rfl⟩
    · exact hlinked.suspended l' link' hl' hstate

/-- The link of the current hold drops and keeps its sessions; what an earlier link kept ends. -/
theorem suspend_linked (hlinked : Linked table none) (hlink : table.links[l]? = some link) {claim : Bool}
    (hbound : link.stage = .bound h claim) :
    Linked ((table.setLink l { link with state := .suspended, stage := .parked h }).detached h l true) none := by
  have hstate := hlinked.bound l link h claim hlink hbound
  have hopen : link.state ≠ .closed := fun heq ↦ nomatch hstate.symm.trans heq
  have hbefore : link.state ≠ .suspended := fun heq ↦ nomatch hstate.symm.trans heq
  obtain ⟨hold, hhold, hchannel, hheld, hcurrent⟩ := hlinked.on l link h hlink (hbound ▸ rfl) hopen
  have hcurrent := hcurrent nofun
  have hne : ∀ p, hold.parked = some p → p ≠ l := by
    rintro p hp rfl
    obtain ⟨_, given, hgiven, hsuspended, _⟩ := hlinked.parked h hold p hhold hp
    obtain rfl := Option.mem_unique hlink hgiven
    exact hbefore hsuspended
  have hunparked := hlinked.unpark hhold { hold with parked := none } rfl rfl (.inl rfl)
  have hsame : (table.setLink l { link with state := .suspended, stage := .parked h }).detached h l true =
      (((table.terminateParked hold.parked).setHold h { hold with parked := none }).setLink l
        { link with state := .suspended, stage := .parked h }).setHold h { hold with link := none, parked := some l } := by
    have hget : (table.setLink l { link with state := .suspended, stage := .parked h }).heap[h]? = some hold := hhold
    rw [detached, hget]
    dsimp only
    rw [if_neg (not_not.2 hheld), if_neg, if_pos rfl]
    · cases hp : hold.parked with
      | none => exact congrArg (Table.mk · _ _) (List.set_set _).symm
      | some p =>
        have hkeep : (some p).filter (· != l) = some p := Option.filter_eq_some_iff.2 ⟨rfl, bne_iff_ne.2 (hne p hp)⟩
        rw [hkeep, terminateParked, terminate_setLink table _ (hne p hp)]
        exact congrArg (Table.mk · _ _) (List.set_set _).symm
    · rw [Bool.not_eq_true', Bool.not_eq_false]
      exact hcurrent
  rw [hsame]
  have hafter : ((table.terminateParked hold.parked).setHold h { hold with parked := none }).heap[h]? =
      some { hold with parked := none } := by
    rw [setHold, terminateParked_heap, List.getElem?_set_of hhold, if_pos rfl]
  have hstill : ((table.terminateParked hold.parked).setHold h { hold with parked := none }).current h
      { hold with parked := none } = true := by
    rw [current_iff] at hcurrent ⊢
    exact (congrArg (List.lookup _) (terminateParked_holds _ _)).trans hcurrent
  have hlink' : ((table.terminateParked hold.parked).setHold h { hold with parked := none }).links[l]? = some link := by
    cases hp : hold.parked with
    | none => exact hlink
    | some p =>
      obtain ⟨given, hgiven, _, hterminate⟩ := hlinked.terminate hhold hp
      rw [terminateParked, hterminate]
      exact (List.getElem?_set_ne (hne p hp)).trans hlink
  have hparked := park_linked hunparked hafter rfl hheld hstill hlink' hbefore
  exact hparked

theorem disconnected_linked (hlinked : Linked table lost) (l : Nat) {planned kept : Bool}
    (hplanned : lost = none ∨ planned = true) : Linked (table.disconnected l planned kept) lost := by
  rw [disconnected]
  split
  · exact hlinked
  · rename_i link hlink
    split
    · exact hlinked
    · rename_i hopen
      rw [not_or] at hopen
      split
      · rename_i h claim hbound
        split
        · rename_i hkept
          obtain rfl : lost = none := hplanned.resolve_right fun heq ↦ by rw [heq] at hkept; exact nomatch hkept
          exact suspend_linked hlinked hlink hbound
        · refine detached_linked (close_linked hlinked hlink hopen.2 (by exact nofun) (by exact nofun)) h l
            fun link' hlink' hon ↦ ?_
          rw [setLink, List.getElem?_set_of hlink, if_pos rfl] at hlink'
          cases hlink'
          cases hon
      · exact close_linked hlinked hlink hopen.2 nofun nofun
      · rename_i hnot _
        exact close_linked hlinked hlink hopen.2 (hlinked.stage_ne_parked hlink hopen.2) hnot

theorem revoke_linked (hlinked : Linked table lost) (l : Nat) (refusal : AttachRefusal) :
    Linked (table.revoke l refusal) lost := by
  rw [revoke]
  split
  · exact hlinked
  · rename_i link hlink
    split
    · exact hlinked
    · rename_i hopen
      rw [not_or] at hopen
      have hstage := hlinked.stage_ne_parked hlink hopen.2
      refine disconnected_linked ?_ l (.inr rfl)
      exact hlinked.setLink hlink hopen.2 hopen.2 hstage (fun h claim ↦ hlinked.bound l link h claim hlink)
        (fun h ↦ hlinked.on l link h hlink)

/-! ## What is left -/

end Table

/-- What is left of a hold. -/
structure Hold.Goes (before after : Hold) : Prop where
  channelId : after.channelId = before.channelId
  userId : after.userId = before.userId
  ownerSessionId : after.ownerSessionId = before.ownerSessionId
  begun : after.begun = before.begun
  asked : after.asked = before.asked
  link : after.link = before.link ∨ after.link = none

/-- A link's call is on its way. -/
def Stage.called : Stage → Bool
  | .queued _ | .running | .answered _ => true
  | .offered _ _ | .bound _ _ | .parked _ | .over => false

/-- What is left of a link. -/
structure Link.Goes (before after : Link) : Prop where
  request : after.request = before.request
  asked : after.asked = before.asked
  turn : after.turn = before.turn
  called : before.stage.called = true → after.stage = before.stage
  stage : after.stage = before.stage ∨ after.stage = .over ∨ (∃ h, after.stage = .parked h) ∨
    ∃ h claim, before.stage = .bound h true ∧ after.stage = .bound h claim
  closed : before.state = .closed → after.state = .closed

theorem Hold.Goes.refl (hold : Hold) : hold.Goes hold := ⟨rfl, rfl, rfl, rfl, rfl, .inl rfl⟩

theorem Hold.Goes.trans {first second third : Hold} (h : first.Goes second) (h' : second.Goes third) :
    first.Goes third :=
  ⟨h'.channelId.trans h.channelId, h'.userId.trans h.userId, h'.ownerSessionId.trans h.ownerSessionId,
    h'.begun.trans h.begun, h'.asked.trans h.asked, h'.link.elim (fun heq ↦ heq ▸ h.link) .inr⟩

theorem Link.Goes.refl (link : Link) : link.Goes link := ⟨rfl, rfl, rfl, fun _ ↦ rfl, .inl rfl, id⟩

theorem Link.Goes.trans {first second third : Link} (h : first.Goes second) (h' : second.Goes third) :
    first.Goes third := by
  refine ⟨h'.request.trans h.request, h'.asked.trans h.asked, h'.turn.trans h.turn, fun hcalled ↦ ?_, ?_,
    fun hclosed ↦ h'.closed (h.closed hclosed)⟩
  · have hsame := h.called hcalled
    exact (h'.called (hsame ▸ hcalled)).trans hsame
  · obtain hsame | hover | hparked | ⟨hold, claim, hbefore, hafter⟩ := h'.stage
    · rw [hsame]
      exact h.stage
    · exact .inr (.inl hover)
    · exact .inr (.inr (.inl hparked))
    · obtain hsame | hover | ⟨_, hparked⟩ | ⟨hold', claim', hfirst, hsecond⟩ := h.stage
      · exact .inr (.inr (.inr ⟨hold, claim, hsame ▸ hbefore, hafter⟩))
      · exact nomatch hover.symm.trans hbefore
      · exact nomatch hparked.symm.trans hbefore
      · obtain ⟨rfl, -⟩ := Stage.bound.inj (hsecond.symm.trans hbefore)
        exact .inr (.inr (.inr ⟨hold', claim, hfirst, hafter⟩))

/-- A grant that is left was there. -/
theorem Link.Goes.on {before after : Link} (hgoes : before.Goes after) (hon : after.stage.on = some h) :
    before.stage.on = some h := by
  obtain hsame | hover | ⟨_, hparked⟩ | ⟨h', claim, hbefore, hafter⟩ := hgoes.stage
  · exact hsame ▸ hon
  · rw [hover] at hon
    cases hon
  · rw [hparked] at hon
    cases hon
  · rw [hafter] at hon
    rw [hbefore]
    exact hon

/-- A call, or an offer, that is left was there. -/
theorem Link.Goes.waits {before after : Link} (hgoes : before.Goes after) {stage : Stage} (hafter : after.stage = stage)
    (hover : stage ≠ .over) (hparked : ∀ h, stage ≠ .parked h) (hbound : ∀ h claim, stage ≠ .bound h claim) :
    before.stage = stage := by
  obtain hsame | heq | ⟨h, heq⟩ | ⟨h, claim, _, heq⟩ := hgoes.stage
  · exact hsame.symm.trans hafter
  · exact absurd (hafter.symm.trans heq) hover
  · exact absurd (hafter.symm.trans heq) (hparked h)
  · exact absurd (hafter.symm.trans heq) (hbound h claim)

namespace Table

/-- What an operation leaves. -/
structure Goes (before after : Table) : Prop where
  heap : List.Forall₂ Hold.Goes before.heap after.heap
  links : List.Forall₂ Link.Goes before.links after.links
  holds : ∀ c h, after.holds.lookup c = some h → before.holds.lookup c = some h

theorem Goes.refl (table : Table) : table.Goes table :=
  ⟨List.forall₂_same.2 fun hold _ ↦ .refl hold, List.forall₂_same.2 fun link _ ↦ .refl link, fun _ _ ↦ id⟩

theorem Goes.trans {first second third : Table} (h : first.Goes second) (h' : second.Goes third) :
    first.Goes third where
  heap := List.Forall₂.trans_of (R := Hold.Goes) (fun _ _ _ ↦ Hold.Goes.trans) h.heap h'.heap
  links := List.Forall₂.trans_of (R := Link.Goes) (fun _ _ _ ↦ Link.Goes.trans) h.links h'.links
  holds c hold hc := h.holds c hold (h'.holds c hold hc)

theorem goes_setHold (hhold : table.heap[h]? = some hold) {after : Hold} (hgoes : hold.Goes after) :
    table.Goes (table.setHold h after) :=
  ⟨List.forall₂_set .refl hhold hgoes, List.forall₂_same.2 fun link _ ↦ .refl link, fun _ _ ↦ id⟩

variable {after : Link}

theorem goes_setLink (hlink : table.links[l]? = some link) (hgoes : link.Goes after) :
    table.Goes (table.setLink l after) :=
  ⟨List.forall₂_same.2 fun hold _ ↦ .refl hold, List.forall₂_set .refl hlink hgoes, fun _ _ ↦ id⟩

/-- A suspended link has no call on its way. -/
def Parks (table : Table) : Prop :=
  ∀ (l : Nat) (link : Link), table.links[l]? = some link → link.state = .suspended → link.stage.called = false

theorem Linked.parks (hlinked : Linked table lost) : table.Parks := by
  intro l link hlink hstate
  obtain ⟨h, hstage⟩ := hlinked.suspended l link hlink hstate
  rw [hstage]
  rfl

theorem Parks.setLink (hparks : table.Parks) (hlink : table.links[l]? = some link)
    (hafter : after.state = .suspended → after.stage.called = false) : (table.setLink l after).Parks := by
  intro l' link' hl' hstate
  rw [Table.setLink, List.getElem?_set_of hlink] at hl'
  split at hl'
  · cases hl'
    exact hafter hstate
  · exact hparks l' link' hl' hstate

theorem goes_terminate (hparks : table.Parks) (l : Nat) : table.Goes (table.terminate l) := by
  rw [terminate]
  split
  · exact .refl table
  · rename_i link hlink
    split
    · rename_i hsuspended
      have hcalled := hparks l link hlink hsuspended
      exact goes_setLink hlink ⟨rfl, rfl, rfl, fun heq ↦ (nomatch hcalled.symm.trans heq), .inr (.inl rfl), fun _ ↦ rfl⟩
    · exact .refl table

theorem goes_terminateParked (hparks : table.Parks) (parked : Option Nat) :
    table.Goes (table.terminateParked parked) := by
  cases parked with
  | none => exact .refl table
  | some l => exact goes_terminate hparks l

/-- A hold, once the link that it keeps is terminated. -/
theorem goes_unpark (hparks : table.Parks) (parked : Option Nat) (hhold : table.heap[h]? = some hold) {after : Hold}
    (hgoes : hold.Goes after) : table.Goes ((table.terminateParked parked).setHold h after) := by
  refine (goes_terminateParked hparks parked).trans (goes_setHold ?_ hgoes)
  rw [terminateParked_heap]
  exact hhold

theorem goes_drop (hparks : table.Parks) (h : Nat) : table.Goes (table.drop h) := by
  rw [drop]
  split
  · exact .refl table
  · rename_i hold hhold
    split
    · have hunparked := goes_unpark hparks hold.parked hhold (⟨rfl, rfl, rfl, rfl, rfl, .inl rfl⟩ :
        hold.Goes { hold with timer := false, parked := none })
      refine ⟨hunparked.heap, hunparked.links, fun c h' hc ↦ ?_⟩
      have hlookup : (Entries.delete (table.terminateParked hold.parked).holds hold.channelId).lookup c = some h' := hc
      rw [Entries.lookup_delete, terminateParked_holds] at hlookup
      split at hlookup
      · cases hlookup
      · exact hlookup
    · exact goes_setHold hhold ⟨rfl, rfl, rfl, rfl, rfl, .inl rfl⟩

theorem goes_detached (hparks : table.Parks) (h l : Nat) (suspended : Bool) :
    table.Goes (table.detached h l suspended) := by
  rw [detached]
  split
  · exact .refl table
  · rename_i hold hhold
    split
    · split
      · exact goes_terminate hparks l
      · exact .refl table
    · split
      · have hgone : table.Goes (table.setHold h { hold with link := none }) :=
          goes_setHold hhold ⟨rfl, rfl, rfl, rfl, rfl, .inr rfl⟩
        have hstill : (table.setHold h { hold with link := none }).Parks := hparks
        dsimp only
        split
        · exact hgone.trans (goes_terminate hstill l)
        · exact hgone
      · split
        · exact goes_unpark hparks _ hhold ⟨rfl, rfl, rfl, rfl, rfl, .inr rfl⟩
        · split
          · exact goes_setHold hhold ⟨rfl, rfl, rfl, rfl, rfl, .inr rfl⟩
          · exact goes_setHold hhold ⟨rfl, rfl, rfl, rfl, rfl, .inr rfl⟩

/-- A link that is closed while its call is on its way, or ends. -/
theorem goes_close (hlink : table.links[l]? = some link) {stage : Stage}
    (hstage : stage = link.stage ∨ stage = .over ∧ link.stage.called = false) :
    table.Goes (table.setLink l { link with state := .closed, stage }) := by
  refine goes_setLink hlink ⟨rfl, rfl, rfl, fun hcalled ↦ ?_, ?_, fun _ ↦ rfl⟩
  · exact hstage.resolve_right fun hover ↦ nomatch hover.2.symm.trans hcalled
  · exact hstage.imp_right fun hover ↦ .inl hover.1

theorem goes_disconnected (hparks : table.Parks) (l : Nat) (planned kept : Bool) :
    table.Goes (table.disconnected l planned kept) := by
  rw [disconnected]
  split
  · exact .refl table
  · rename_i link hlink
    split
    · exact .refl table
    · rename_i hopen
      split
      · rename_i h claim hbound
        have hcalled : link.stage.called = false := hbound ▸ rfl
        split
        · have hparked : (table.setLink l { link with state := .suspended, stage := .parked h }).Parks :=
            hparks.setLink hlink fun _ ↦ rfl
          refine Goes.trans (goes_setLink hlink ?_) (goes_detached hparked h l true)
          exact ⟨rfl, rfl, rfl, fun heq ↦ (nomatch hcalled.symm.trans heq), .inr (.inr (.inl ⟨h, rfl⟩)),
            fun hclosed ↦ absurd (.inl hclosed) hopen⟩
        · exact (goes_close hlink (.inr ⟨rfl, hcalled⟩)).trans (goes_detached (hparks.setLink hlink fun _ ↦ rfl) h l false)
      · rename_i hoffered
        exact goes_close hlink (.inr ⟨rfl, hoffered ▸ rfl⟩)
      · exact goes_close hlink (.inl rfl)

theorem goes_revoke (hparks : table.Parks) (l : Nat) (refusal : AttachRefusal) :
    table.Goes (table.revoke l refusal) := by
  rw [revoke]
  split
  · exact .refl table
  · rename_i link hlink
    split
    · exact .refl table
    · rename_i hopen
      rw [not_or] at hopen
      have htold : table.Goes (table.setLink l { link with refused := some refusal }) :=
        goes_setLink hlink ⟨rfl, rfl, rfl, fun _ ↦ rfl, .inl rfl, id⟩
      have hstill : (table.setLink l { link with refused := some refusal }).Parks :=
        hparks.setLink hlink fun heq ↦ absurd heq hopen.2
      exact htold.trans (goes_disconnected hstill l true false)

theorem detached_links (table : Table) (h l : Nat) : (table.detached h l false).links = table.links := by
  rw [detached]
  split
  · rfl
  split
  · rfl
  split
  · rfl
  split
  · exact nomatch ‹false = true›
  split <;> rfl

/-- What was revoked is not open. -/
theorem revoke_over (table : Table) (l : Nat) (refusal : AttachRefusal)
    (hafter : (table.revoke l refusal).links[l]? = some after) : after.state = .closed ∨ after.state = .suspended := by
  rw [revoke] at hafter
  split at hafter
  · rename_i hnone
    exact nomatch hnone.symm.trans hafter
  · rename_i link hlink
    split at hafter
    · rename_i hover
      obtain rfl := Option.mem_unique hlink hafter
      exact hover
    · rename_i hopen
      have hset : ∀ before : Link, (table.setLink l before).links[l]? = some before := fun before ↦
        (List.getElem?_set_of hlink _ _).trans (if_pos rfl)
      rw [disconnected, hset] at hafter
      dsimp only at hafter
      rw [if_neg hopen] at hafter
      split at hafter
      · rw [if_neg (by simp), detached_links, setLink, List.getElem?_set_of (hset _), if_pos rfl] at hafter
        cases hafter
        exact .inl rfl
      · rw [setLink, List.getElem?_set_of (hset _), if_pos rfl] at hafter
        cases hafter
        exact .inl rfl
      · rw [setLink, List.getElem?_set_of (hset _), if_pos rfl] at hafter
        cases hafter
        exact .inl rfl

/-- A hold that is invalidated, with its link. -/
theorem invalidate_linked (hlinked : Linked table none) (h : Nat) (refusal : AttachRefusal) :
    Linked (table.invalidate h refusal) none := by
  rw [invalidate]
  split
  · exact hlinked
  · rename_i hold hhold
    split
    · exact hlinked
    · have hdropped := drop_linked hlinked h
      obtain ⟨left, hleft, hgoes⟩ := (goes_drop hlinked.parks h).heap.getElem?_left hhold
      split
      · rename_i hnone
        refine hdropped.found (hdropped.free hleft ?_)
        exact hgoes.link.elim (fun heq ↦ heq.trans hnone) id
      · rename_i l hlink
        refine (revoke_linked hdropped l refusal).found fun l' link hl' hon ↦ ?_
        by_contra hopen
        obtain ⟨hold', hhold', _, hheld, _⟩ := (revoke_linked hdropped l refusal).on l' link h hl' hon hopen
        obtain ⟨before, hbefore, hgoes'⟩ := (goes_revoke hdropped.parks l refusal).heap.getElem?_right hhold'
        obtain rfl := Option.mem_unique hleft hbefore
        obtain hsame := (hgoes'.link.resolve_right fun heq ↦ nomatch heq.symm.trans hheld).symm.trans hheld
        have hsame' := (hgoes.link.resolve_right fun heq ↦ nomatch heq.symm.trans hsame).symm.trans hsame
        obtain rfl := Option.mem_unique hlink hsame'
        obtain hclosed | hsuspended := revoke_over _ l refusal hl'
        · exact hopen hclosed
        · obtain ⟨_, hstage⟩ := (revoke_linked hdropped l refusal).suspended l link hl' hsuspended
          rw [hstage] at hon
          cases hon

theorem goes_invalidate (hlinked : Linked table none) (h : Nat) (refusal : AttachRefusal) :
    table.Goes (table.invalidate h refusal) := by
  rw [invalidate]
  split
  · exact .refl table
  · split
    · exact .refl table
    · split
      · exact goes_drop hlinked.parks h
      · exact (goes_drop hlinked.parks h).trans (goes_revoke (drop_linked hlinked h).parks _ refusal)

theorem drop_gone (hhold : table.heap[h]? = some hold) : (table.drop h).holds.lookup hold.channelId ≠ some h := by
  rw [drop, hhold]
  dsimp only
  split
  · show (Entries.delete (table.terminateParked hold.parked).holds hold.channelId).lookup hold.channelId ≠ some h
    rw [Entries.lookup_delete, if_pos rfl]
    exact nofun
  · rename_i hcurrent
    rwa [current_iff] at hcurrent

/-- The hold is not its document's any more. -/
theorem invalidate_gone (hlinked : Linked table none) (hhold : table.heap[h]? = some hold) (refusal : AttachRefusal) :
    (table.invalidate h refusal).holds.lookup hold.channelId ≠ some h := by
  rw [invalidate, hhold]
  dsimp only
  split
  · rename_i hcurrent
    rw [Bool.not_eq_true', ← Bool.not_eq_true, current_iff] at hcurrent
    exact hcurrent
  · split
    · exact drop_gone hhold
    · exact fun hc ↦ drop_gone hhold ((goes_revoke (drop_linked hlinked h).parks _ refusal).holds _ _ hc)

/-- What an earlier link kept is taken, or ends. -/
theorem claim_linked (hlinked : Linked table none) (h l : Nat) : Linked (table.claim h l) none := by
  rw [claim]
  split
  · exact hlinked
  · rename_i hold hhold
    split
    · exact hlinked
    · exact hlinked.unpark hhold _ rfl rfl (.inl rfl)

theorem goes_claim (hparks : table.Parks) (h l : Nat) : table.Goes (table.claim h l) := by
  rw [claim]
  split
  · exact .refl table
  · rename_i hold hhold
    split
    · exact .refl table
    · exact goes_unpark hparks hold.parked hhold ⟨rfl, rfl, rfl, rfl, rfl, .inl rfl⟩

/-- A suspended link has nothing left to keep. -/
theorem lapsed_eq (hlinked : Linked table none) (hlink : table.links[l]? = some link)
    (hstage : link.stage = .parked h) :
    ∃ hold after, table.heap[h]? = some hold ∧ hold.Goes after ∧ after.link = hold.link ∧ after.parked = none ∧
      (table.setLink l { link with state := .closed, stage := .over }).lapsed h l =
        (table.terminateParked hold.parked).setHold h after := by
  obtain ⟨hstate, hold, hhold, hparked⟩ := hlinked.kept l link h hlink hstage
  obtain ⟨hcurrent, _⟩ := hlinked.parked h hold l hhold hparked
  have hterminate : table.terminateParked hold.parked = table.setLink l { link with state := .closed, stage := .over } := by
    rw [hparked, terminateParked, terminate, hlink]
    exact if_pos hstate
  have hget : (table.setLink l { link with state := .closed, stage := .over }).heap[h]? = some hold := hhold
  have hcurrent' : (table.setLink l { link with state := .closed, stage := .over }).current h hold = true := hcurrent
  refine ⟨hold, ?_⟩
  rw [hterminate, lapsed, hget]
  dsimp only
  rw [if_neg (by simp [hparked, hcurrent'])]
  split
  · exact ⟨{ hold with parked := none }, hhold, ⟨rfl, rfl, rfl, rfl, rfl, .inl rfl⟩, rfl, rfl, rfl⟩
  · exact ⟨{ hold with parked := none, timer := true, releasing := true }, hhold, ⟨rfl, rfl, rfl, rfl, rfl, .inl rfl⟩,
      rfl, rfl, rfl⟩

theorem lapsed_linked (hlinked : Linked table none) (hlink : table.links[l]? = some link)
    (hstage : link.stage = .parked h) :
    Linked ((table.setLink l { link with state := .closed, stage := .over }).lapsed h l) none := by
  obtain ⟨hold, after, hhold, hgoes, hsame, hparked, heq⟩ := lapsed_eq hlinked hlink hstage
  rw [heq]
  exact hlinked.unpark hhold after hgoes.channelId hparked (.inl hsame)

theorem goes_lapsed (hlinked : Linked table none) (hlink : table.links[l]? = some link)
    (hstage : link.stage = .parked h) :
    table.Goes ((table.setLink l { link with state := .closed, stage := .over }).lapsed h l) := by
  obtain ⟨hold, after, hhold, hgoes, _, _, heq⟩ := lapsed_eq hlinked hlink hstage
  rw [heq]
  exact goes_unpark hlinked.parks hold.parked hhold hgoes

/-- A link is granted a hold that has no link. -/
theorem bind_linked (hlinked : Linked table none) (hhold : table.heap[h]? = some hold) (hfree : hold.link = none)
    (hcurrent : table.current h hold = true) (hlink : table.links[l]? = some link) (hstate : link.state ≠ .suspended)
    (hchannel : hold.channelId = link.request.channelId) :
    Linked ((table.bind h l).setLink l { link with stage := .answered (.granted h) }) none := by
  have hbound : Linked (table.setHold h { hold with timer := false, releasing := false, link := some l }) none :=
    hlinked.setHold hhold rfl rfl (.inr (hlinked.free hhold hfree))
  rw [bind, hhold]
  refine hbound.setLink hlink hstate hstate nofun (fun h claim heq ↦ (nomatch heq)) fun h' hon hopen ↦ ?_
  cases hon
  exact ⟨_, (List.getElem?_set_of hhold _ _).trans (if_pos rfl), hchannel, rfl, fun _ ↦ hcurrent⟩

/-- A document that nobody holds gets a hold. -/
theorem hold_linked (hlinked : Linked table none) (hnone : table.holds.lookup hold.channelId = none)
    (hparked : hold.parked = none) :
    Linked { table with heap := table.heap ++ [hold], holds := Entries.set table.holds hold.channelId table.heap.length } none := by
  have hold' : ∀ {h : Nat} {other : Hold}, table.heap[h]? = some other → (table.heap ++ [hold])[h]? = some other :=
    fun hget ↦ (List.getElem?_append_left (List.getElem?_eq_some_iff.1 hget).1).trans hget
  have hcurrent : ∀ {h : Nat} {other : Hold}, table.current h other = true →
      (Entries.set table.holds hold.channelId table.heap.length).lookup other.channelId = some h := by
    intro h other hother
    rw [current_iff] at hother
    rw [Entries.lookup_set, if_neg]
    · exact hother
    · intro hsame
      rw [hsame, hnone] at hother
      cases hother
  refine ⟨fun c h hc ↦ ?_, fun l link h hl hon hopen ↦ ?_, hlinked.bound, fun h other l hother hp ↦ ?_,
    fun l link h hl hstage ↦ ?_, hlinked.suspended⟩
  · have hlookup : (Entries.set table.holds hold.channelId table.heap.length).lookup c = some h := hc
    rw [Entries.lookup_set] at hlookup
    split at hlookup
    · cases hlookup
      exact ⟨hold, List.getElem?_concat_length, ‹c = _›.symm⟩
    · obtain ⟨other, hother, hchannel⟩ := hlinked.holds c h hlookup
      exact ⟨other, hold' hother, hchannel⟩
  · obtain ⟨other, hother, hchannel, hlink, hstill⟩ := hlinked.on l link h hl hon hopen
    exact ⟨other, hold' hother, hchannel, hlink, fun hlost ↦ current_iff.2 (hcurrent (hstill hlost))⟩
  · have hget : (table.heap ++ [hold])[h]? = some other := hother
    rw [List.getElem?_append] at hget
    split at hget
    · obtain ⟨hstill, hkept⟩ := hlinked.parked h other l hget hp
      exact ⟨current_iff.2 (hcurrent hstill), hkept⟩
    · obtain rfl : other = hold := List.mem_singleton.1 (List.mem_of_getElem? hget)
      exact nomatch hparked.symm.trans hp
  · obtain ⟨hstate, other, hother, hp⟩ := hlinked.kept l link h hl hstage
    exact ⟨hstate, other, hold' hother, hp⟩

end Table

end Chopin.Planners
