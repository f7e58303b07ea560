import Chopin.Editor.Provider
import Mathlib.Algebra.BigOperators.Group.List.Basic
import Mathlib.Data.List.Induction
import Mathlib.Data.List.Nodup

/-!
# What merging outbox entries keeps

`Merges` is what becomes of an outbox when some of its entries are replaced by merged ones: nothing it
held is lost, its bytes still add up, and an entry that was waiting or had been sent goes on as one.  It is
proved of one group and then, group by group, of `merge`.
-/

set_option autoImplicit false

namespace Chopin.Editor

namespace Provider

variable {U E : Type} {yjs : Yjs U E} {provider next last : Provider U}

/-- The updates of a merge are together in what they were merged to. -/
def Union (yjs : Yjs U E) : Prop :=
  ∀ updates, ∀ update ∈ updates, yjs.edits update ⊆ yjs.edits (yjs.mergeUpdates updates)

/-- The bytes of the entries. -/
def bytes (yjs : Yjs U E) (outbox : List (Id × U)) : Nat := (outbox.map fun entry ↦ yjs.byteLength entry.2).sum

structure Sound (yjs : Yjs U E) (provider : Provider U) : Prop where
  apart : provider.ids.Nodup
  waiting : provider.unsent.Nodup
  total : provider.outboxBytes = bytes yjs provider.outbox
  old : ∀ id, id ∈ provider.ids ∨ id ∈ provider.unsent ∨ id ∈ provider.sent.map (·.1) ∨
    id ∈ provider.sends.map (·.1) → id.counter < provider.counter
  /-- A frame on its way has what the entry of its id has. -/
  same : ∀ frame ∈ provider.sent, ∀ update, provider.outbox.lookup frame.1 = some update → update = frame.2

/-- Every entry waits or was sent. -/
def Begun (provider : Provider U) : Prop :=
  ∀ id ∈ provider.ids, id ∈ provider.unsent ∨ 1 ≤ provider.sendsOf id

/-- Something is armed if an entry is to be sent again. -/
def Due (armed : Prop) (provider : Provider U) : Prop :=
  ∀ id ∈ provider.ids, id ∉ provider.unsent → provider.sendsOf id < MAX_SENDS → armed

/-- The timers and the open document are as they were. -/
structure Aside (provider next : Provider U) : Prop where
  pacing : next.pacing = provider.pacing
  resending : next.resending = provider.resending
  epoch : next.epoch = provider.epoch
  synced : next.synced = provider.synced
  connected : next.connected = provider.connected

/-- The entries under the ids `gone` were replaced by those under the ids `out`. -/
structure Merges (yjs : Yjs U E) (provider next : Provider U) (gone out : List Id) : Prop where
  sound : Sound yjs next
  covers : ∀ entry ∈ provider.outbox, ∃ held ∈ next.outbox, yjs.edits entry.2 ⊆ yjs.edits held.2
  kept : ∀ id ∈ provider.ids, id ∉ gone → id ∈ next.ids ∧ (id ∈ next.unsent ↔ id ∈ provider.unsent) ∧
    next.sendsOf id = provider.sendsOf id
  found : ∀ id ∈ next.ids, id ∈ out ∨ id ∈ provider.ids ∧ id ∉ gone
  out : ∀ id ∈ out, id ∈ next.ids ∧ (id ∈ gone ∨ provider.counter ≤ id.counter)
  counter : provider.counter ≤ next.counter
  begun : provider.Begun → next.Begun
  due : ∀ armed, provider.Due armed → next.Due armed
  idle : provider.unsent = [] → next.unsent = []
  aside : Aside provider next

theorem Aside.refl (provider : Provider U) : Aside provider provider := ⟨rfl, rfl, rfl, rfl, rfl⟩

theorem Aside.trans (first : Aside provider next) (second : Aside next last) : Aside provider last where
  pacing := second.pacing.trans first.pacing
  resending := second.resending.trans first.resending
  epoch := second.epoch.trans first.epoch
  synced := second.synced.trans first.synced
  connected := second.connected.trans first.connected

theorem Merges.none (h : Sound yjs provider) : Merges yjs provider provider [] [] where
  sound := h
  covers entry hmem := ⟨entry, hmem, fun _ hedit ↦ hedit⟩
  kept _ hmem _ := ⟨hmem, Iff.rfl, rfl⟩
  found _ hmem := .inr ⟨hmem, List.not_mem_nil⟩
  out _ hmem := nomatch hmem
  counter := Nat.le_refl _
  begun hbegun := hbegun
  due _ hdue := hdue
  idle hidle := hidle
  aside := .refl provider

/-- One group after another. -/
theorem Merges.trans {gone others out news : List Id} (h : Sound yjs provider)
    (first : Merges yjs provider next gone out) (second : Merges yjs next last others news)
    (hothers : ∀ id ∈ others, id ∈ provider.ids ∧ id ∉ gone) :
    Merges yjs provider last (gone ++ others) (out ++ news) := by
  have hout : ∀ id ∈ out, id ∉ others := by
    intro id hmem hother
    obtain ⟨hid, hnot⟩ := hothers id hother
    obtain hgone | hnew := (first.out id hmem).2
    · exact hnot hgone
    · have hold := h.old id (.inl hid)
      omega
  refine ⟨second.sound, fun entry hmem ↦ ?_, fun id hmem hnot ↦ ?_, fun id hmem ↦ ?_, fun id hmem ↦ ?_,
    Nat.le_trans first.counter second.counter, fun hbegun ↦ second.begun (first.begun hbegun),
    fun armed hdue ↦ second.due armed (first.due armed hdue), fun hidle ↦ second.idle (first.idle hidle),
    first.aside.trans second.aside⟩
  · obtain ⟨held, hheld, hsub⟩ := first.covers entry hmem
    obtain ⟨kept, hkept, hsub'⟩ := second.covers held hheld
    exact ⟨kept, hkept, fun _ hedit ↦ hsub' (hsub hedit)⟩
  · rw [List.mem_append, not_or] at hnot
    obtain ⟨hid, hwaits, hsends⟩ := first.kept id hmem hnot.1
    obtain ⟨hid', hwaits', hsends'⟩ := second.kept id hid hnot.2
    exact ⟨hid', hwaits'.trans hwaits, hsends'.trans hsends⟩
  · obtain hnew | ⟨hid, hnot⟩ := second.found id hmem
    · exact .inl (List.mem_append_right _ hnew)
    · obtain hout' | ⟨hold, hgone⟩ := first.found id hid
      · exact .inl (List.mem_append_left _ hout')
      · exact .inr ⟨hold, fun hmem ↦ (List.mem_append.1 hmem).elim hgone hnot⟩
  · obtain hfirst | hsecond := List.mem_append.1 hmem
    · obtain ⟨hid, hgone⟩ := first.out id hfirst
      exact ⟨(second.kept id hid (hout id hfirst)).1, hgone.imp_left (List.mem_append_left _)⟩
    · obtain ⟨hid, hgone⟩ := second.out id hsecond
      refine ⟨hid, hgone.imp (List.mem_append_right _) fun hnew ↦ Nat.le_trans first.counter hnew⟩

/-! ## One group -/

theorem mem_ids {entry : Id × U} (h : entry ∈ provider.outbox) : entry.1 ∈ provider.ids := List.mem_map_of_mem h

variable {id : Id}

theorem lookup_isSome_iff : (provider.outbox.lookup id).isSome ↔ id ∈ provider.ids := by
  rw [ids, List.mem_map, List.lookup_isSome_iff]
  constructor
  · rintro ⟨entry, hmem, heq⟩
    exact ⟨entry, hmem, (beq_iff_eq.1 heq).symm⟩
  · rintro ⟨entry, hmem, rfl⟩
    exact ⟨entry, hmem, beq_self_eq_true _⟩

theorem start_le_foldl_max (counts : List Nat) : ∀ most, most ≤ counts.foldl max most := by
  induction counts with
  | nil => exact fun most ↦ Nat.le_refl most
  | cons count rest ih =>
    intro most
    rw [List.foldl_cons]
    exact Nat.le_trans (Nat.le_max_left _ _) (ih _)

theorem le_foldl_max {counts : List Nat} {count : Nat} (h : count ∈ counts) (most : Nat) :
    count ≤ counts.foldl max most := by
  induction counts generalizing most with
  | nil => cases h
  | cons head rest ih =>
    rw [List.foldl_cons]
    obtain rfl | hrest := List.mem_cons.1 h
    · exact Nat.le_trans (Nat.le_max_right _ _) (start_le_foldl_max rest _)
    · exact ih hrest _

/-- The bytes of the entry under one id, and of the others. -/
theorem bytes_delete {outbox : List (Id × U)} (h : (outbox.map (·.1)).Nodup) {update : U}
    (hlookup : outbox.lookup id = some update) :
    bytes yjs outbox = bytes yjs (Entries.delete outbox id) + yjs.byteLength update := by
  induction outbox with
  | nil => cases hlookup
  | cons entry rest ih =>
    obtain ⟨name, value⟩ := entry
    obtain ⟨hnot, hrest⟩ := List.nodup_cons.1 h
    rw [List.lookup_cons] at hlookup
    rw [Entries.delete, List.filter_cons]
    by_cases hname : id = name
    · subst hname
      rw [beq_self_eq_true] at hlookup
      cases hlookup
      have hall : rest.filter (·.1 != id) = rest := by
        rw [List.filter_eq_self]
        intro other hother
        have hne : other.1 ≠ id := fun heq ↦ hnot (List.mem_map.2 ⟨other, hother, heq⟩)
        simpa using hne
      rw [if_neg (by simp), hall, bytes, bytes, List.map_cons, List.sum_cons, Nat.add_comm]
    · rw [beq_eq_false_iff_ne.2 hname] at hlookup
      have hkeep : (name != id) = true := by simpa using Ne.symm hname
      have hsum := ih hrest hlookup
      rw [if_pos hkeep]
      simp only [bytes, Entries.delete, List.map_cons, List.sum_cons] at hsum ⊢
      omega

/-- The bytes of the entries of a group, and of the others. -/
theorem bytes_group {group : List Id} : ∀ {outbox : List (Id × U)}, (outbox.map (·.1)).Nodup → group.Nodup →
    (∀ id ∈ group, id ∈ outbox.map (·.1)) →
    bytes yjs outbox = bytes yjs (outbox.filter fun entry ↦ !group.contains entry.1) +
      ((group.filterMap fun id ↦ outbox.lookup id).map yjs.byteLength).sum := by
  induction group with
  | nil =>
    intro outbox _ _ _
    simp
  | cons id rest ih =>
    intro outbox hkeys hgroup hmem
    obtain ⟨hnot, hrest⟩ := List.nodup_cons.1 hgroup
    obtain ⟨entry, hentry, rfl⟩ := List.mem_map.1 (hmem _ List.mem_cons_self)
    have hlookup : outbox.lookup entry.1 = some entry.2 := Entries.lookup_of_mem hkeys hentry
    have hkept : ((Entries.delete outbox entry.1).map (·.1)).Nodup := hkeys.sublist (List.filter_sublist.map _)
    have hothers : ∀ id ∈ rest, id ∈ (Entries.delete outbox entry.1).map (·.1) := by
      intro other hother
      obtain ⟨found, hfound, rfl⟩ := List.mem_map.1 (hmem other (List.mem_cons_of_mem _ hother))
      have hne : found.1 ≠ entry.1 := fun heq ↦ hnot (heq ▸ hother)
      exact List.mem_map_of_mem (Entries.mem_delete.2 ⟨hfound, hne⟩)
    have hsame : (rest.filterMap fun id ↦ (Entries.delete outbox entry.1).lookup id) =
        rest.filterMap fun id ↦ outbox.lookup id := by
      refine List.filterMap_congr fun other hother ↦ ?_
      have hne : other ≠ entry.1 := fun heq ↦ hnot (heq ▸ hother)
      rw [Entries.lookup_delete, if_neg hne]
    have hleft : (Entries.delete outbox entry.1).filter (fun other ↦ !rest.contains other.1) =
        outbox.filter fun other ↦ !(entry.1 :: rest).contains other.1 := by
      rw [Entries.delete, List.filter_filter]
      refine List.filter_congr fun other _ ↦ ?_
      by_cases hother : other.1 = entry.1 <;> simp [hother, bne]
    have hsum := ih hkept hrest hothers
    rw [hsame, hleft] at hsum
    have hfirst : ((entry.1 :: rest).filterMap fun id ↦ outbox.lookup id) =
        entry.2 :: rest.filterMap fun id ↦ outbox.lookup id := List.filterMap_cons_some hlookup
    rw [bytes_delete hkeys hlookup, hsum, hfirst, List.map_cons, List.sum_cons]
    omega

/-- The group that is left alone. -/
theorem merges_single (h : Sound yjs provider) (hmem : id ∈ provider.ids) :
    Merges yjs provider provider [id] [id] where
  sound := h
  covers entry hentry := ⟨entry, hentry, fun _ hedit ↦ hedit⟩
  kept _ hother _ := ⟨hother, Iff.rfl, rfl⟩
  found other hother := by
    by_cases heq : other = id
    · exact .inl (List.mem_singleton.2 heq)
    · exact .inr ⟨hother, fun hgone ↦ heq (List.mem_singleton.1 hgone)⟩
  out other hother := by
    obtain rfl := List.mem_singleton.1 hother
    exact ⟨hmem, .inl hother⟩
  counter := Nat.le_refl _
  begun hbegun := hbegun
  due _ hdue := hdue
  idle hidle := hidle
  aside := .refl provider

variable {group : List Id}

/-- An id of the present count is nowhere yet. -/
theorem fresh_not_mem (h : Sound yjs provider) (hid : id.counter = provider.counter) :
    id ∉ provider.ids ∧ id ∉ provider.unsent ∧ id ∉ provider.sent.map (·.1) ∧ id ∉ provider.sends.map (·.1) := by
  have hnot : ¬id.counter < provider.counter := by omega
  exact ⟨fun hmem ↦ hnot (h.old _ (.inl hmem)), fun hmem ↦ hnot (h.old _ (.inr (.inl hmem))),
    fun hmem ↦ hnot (h.old _ (.inr (.inr (.inl hmem)))), fun hmem ↦ hnot (h.old _ (.inr (.inr (.inr hmem))))⟩

theorem outbox_joined (h : Sound yjs provider) : (joined yjs provider group).outbox =
    (provider.outbox.filter fun entry ↦ !group.contains entry.1) ++ [(Id.merged provider.counter,
      yjs.mergeUpdates (group.filterMap fun id ↦ provider.outbox.lookup id))] := by
  rw [joined]
  dsimp only
  exact Entries.set_new (fun hmem ↦ (fresh_not_mem h rfl).1 ((List.filter_sublist.map _).subset hmem)) _

theorem mem_ids_joined (h : Sound yjs provider) : id ∈ (joined yjs provider group).ids ↔
    id ∈ provider.ids ∧ id ∉ group ∨ id = Id.merged provider.counter := by
  rw [ids, outbox_joined h, List.map_append, List.mem_append, List.map_singleton, List.mem_singleton]
  refine or_congr_left ?_
  rw [List.mem_map, ids, List.mem_map]
  constructor
  · rintro ⟨entry, hmem, rfl⟩
    obtain ⟨hmem, hkeep⟩ := List.mem_filter.1 hmem
    exact ⟨⟨entry, hmem, rfl⟩, by simpa using hkeep⟩
  · rintro ⟨⟨entry, hmem, rfl⟩, hkeep⟩
    exact ⟨entry, List.mem_filter.2 ⟨hmem, by simpa using hkeep⟩, rfl⟩

theorem mem_unsent_joined : id ∈ (joined yjs provider group).unsent ↔ id ∈ provider.unsent ∧ id ∉ group ∨
      id = Id.merged provider.counter ∧ ∃ part ∈ group, part ∈ provider.unsent := by
  rw [joined]
  dsimp only
  rw [List.mem_append, List.mem_filter]
  refine or_congr (by simp) ?_
  by_cases hany : group.any provider.unsent.contains = true
  · rw [if_pos hany, List.mem_singleton]
    obtain ⟨part, hpart, hwaits⟩ := List.any_eq_true.1 hany
    exact ⟨fun heq ↦ ⟨heq, part, hpart, by simpa using hwaits⟩, fun heq ↦ heq.1⟩
  · rw [if_neg hany]
    refine ⟨fun hmem ↦ (nomatch hmem), fun ⟨_, part, hpart, hwaits⟩ ↦ absurd ?_ hany⟩
    exact List.any_eq_true.2 ⟨part, hpart, by simpa using hwaits⟩

theorem sends_joined (hne : id ≠ Id.merged provider.counter) (hnot : id ∉ group) :
    (joined yjs provider group).sendsOf id = provider.sendsOf id := by
  have hleft : (provider.sends.filter fun entry ↦ !group.contains entry.1).lookup id = provider.sends.lookup id := by
    rw [Entries.lookup_filter provider.sends (!group.contains ·), if_pos (by simpa using hnot)]
  rw [sendsOf, joined, sendsOf]
  dsimp only
  split
  · rw [Entries.lookup_set, if_neg hne, hleft]
  · rw [hleft]

/-- The merged entry counts as sent as often as any of its parts. -/
theorem le_sends_joined {part : Id} (hpart : part ∈ group) :
    provider.sendsOf part ≤ (joined yjs provider group).sendsOf (Id.merged provider.counter) := by
  have hle : provider.sendsOf part ≤ (group.map provider.sendsOf).foldl max 0 :=
    le_foldl_max (List.mem_map_of_mem hpart) 0
  rw [sendsOf.eq_def (joined yjs provider group), joined]
  dsimp only
  by_cases hpos : 0 < (group.map provider.sendsOf).foldl max 0
  · rw [if_pos hpos, Entries.lookup_set, if_pos rfl, Option.getD_some]
    exact hle
  · omega

theorem total_joined (h : Sound yjs provider) (hgroup : group.Nodup) (hmem : ∀ id ∈ group, id ∈ provider.ids) :
    (joined yjs provider group).outboxBytes = bytes yjs (joined yjs provider group).outbox := by
  have hsplit : bytes yjs provider.outbox = _ := bytes_group h.apart hgroup hmem
  rw [outbox_joined h, bytes, List.map_append, List.sum_append, ← bytes, List.map_singleton, List.sum_singleton]
  rw [joined]
  dsimp only
  rw [h.total, hsplit]
  omega

theorem sound_joined (h : Sound yjs provider) (hgroup : group.Nodup) (hmem : ∀ id ∈ group, id ∈ provider.ids) :
    Sound yjs (joined yjs provider group) := by
  have hfresh : (Id.merged provider.counter).counter = provider.counter := rfl
  obtain ⟨hids, hunsent, hsent, -⟩ := fresh_not_mem h hfresh
  have hcounter : (joined yjs provider group).counter = provider.counter + 1 := rfl
  refine ⟨?_, ?_, total_joined h hgroup hmem, fun id hid ↦ ?_, fun frame hframe update hlookup ↦ ?_⟩
  · rw [ids, outbox_joined h, List.map_append, List.map_singleton, ← List.concat_eq_append]
    refine List.Nodup.concat (fun hnew ↦ ?_) (h.apart.sublist (List.filter_sublist.map _))
    exact hids ((List.filter_sublist.map _).subset hnew)
  · rw [joined]
    dsimp only
    have hleft : (provider.unsent.filter fun waiting ↦ !group.contains waiting).Nodup :=
      h.waiting.sublist List.filter_sublist
    split
    · rw [← List.concat_eq_append]
      exact List.Nodup.concat (fun hnew ↦ hunsent (List.filter_sublist.subset hnew)) hleft
    · rw [List.append_nil]
      exact hleft
  · rw [hcounter]
    obtain hid | hid | hid | hid := hid
    · obtain ⟨hid, -⟩ | rfl := (mem_ids_joined h).1 hid
      · exact Nat.lt_succ_of_lt (h.old id (.inl hid))
      · omega
    · obtain ⟨hid, -⟩ | ⟨rfl, -⟩ := mem_unsent_joined.1 hid
      · exact Nat.lt_succ_of_lt (h.old id (.inr (.inl hid)))
      · omega
    · exact Nat.lt_succ_of_lt (h.old id (.inr (.inr (.inl hid))))
    · obtain ⟨entry, hentry, rfl⟩ := List.mem_map.1 hid
      rw [joined] at hentry
      dsimp only at hentry
      have hkept : ∀ entry ∈ provider.sends.filter (fun entry ↦ !group.contains entry.1),
          entry.1.counter < provider.counter + 1 := fun entry hentry ↦
        Nat.lt_succ_of_lt (h.old _ (.inr (.inr (.inr (List.mem_map_of_mem (List.mem_filter.1 hentry).1)))))
      split at hentry
      · obtain hentry | rfl := Entries.mem_set hentry
        · exact hkept entry hentry
        · exact Nat.lt_succ_self _
      · exact hkept entry hentry
  · have hframe' : frame.1 ≠ Id.merged provider.counter := fun heq ↦ hsent (heq ▸ List.mem_map_of_mem hframe)
    rw [joined] at hlookup
    dsimp only at hlookup
    rw [Entries.lookup_set, if_neg hframe', Entries.lookup_filter provider.outbox (!group.contains ·)] at hlookup
    split at hlookup
    · exact h.same frame hframe update hlookup
    · cases hlookup

theorem merges_joined (hunion : Union yjs) (h : Sound yjs provider) (hgroup : group.Nodup)
    (hmem : ∀ id ∈ group, id ∈ provider.ids) (hsome : group ≠ []) :
    Merges yjs provider (joined yjs provider group) group [Id.merged provider.counter] := by
  have hfresh : (Id.merged provider.counter).counter = provider.counter := rfl
  obtain ⟨hids, -, -, -⟩ := fresh_not_mem h hfresh
  obtain ⟨part, hpart⟩ := List.exists_mem_of_ne_nil group hsome
  have hold : ∀ id ∈ provider.ids, id ≠ Id.merged provider.counter := fun id hid heq ↦ hids (heq ▸ hid)
  refine ⟨sound_joined h hgroup hmem, fun entry hentry ↦ ?_, fun id hid hnot ↦ ⟨?_, ?_, ?_⟩, fun id hid ↦ ?_,
    fun id hid ↦ ?_, Nat.le_succ _, fun hbegun id hid ↦ ?_, fun armed hdue id hid hwaits hsends ↦ ?_,
    fun hidle ↦ ?_, ⟨rfl, rfl, rfl, rfl, rfl⟩⟩
  · rw [outbox_joined h]
    by_cases hentry' : entry.1 ∈ group
    · refine ⟨_, List.mem_concat_self, hunion _ entry.2 ?_⟩
      exact List.mem_filterMap.2 ⟨entry.1, hentry', Entries.lookup_of_mem h.apart hentry⟩
    · refine ⟨entry, List.mem_append_left _ (List.mem_filter.2 ⟨hentry, ?_⟩), fun _ hedit ↦ hedit⟩
      simpa using hentry'
  · exact (mem_ids_joined h).2 (.inl ⟨hid, hnot⟩)
  · rw [mem_unsent_joined]
    exact ⟨fun hwaits ↦ hwaits.elim (·.1) fun hnew ↦ absurd hnew.1 (hold id hid), fun hwaits ↦ .inl ⟨hwaits, hnot⟩⟩
  · exact sends_joined (hold id hid) hnot
  · obtain hkept | rfl := (mem_ids_joined h).1 hid
    · exact .inr hkept
    · exact .inl (List.mem_singleton_self _)
  · obtain rfl := List.mem_singleton.1 hid
    exact ⟨(mem_ids_joined h).2 (.inr rfl), .inr (Nat.le_refl _)⟩
  · obtain ⟨hid, hnot⟩ | rfl := (mem_ids_joined h).1 hid
    · obtain hwaits | hsent := hbegun id hid
      · exact .inl (mem_unsent_joined.2 (.inl ⟨hwaits, hnot⟩))
      · exact .inr (by rw [sends_joined (hold id hid) hnot]; exact hsent)
    · obtain hwaits | hsent := hbegun part (hmem part hpart)
      · exact .inl (mem_unsent_joined.2 (.inr ⟨rfl, part, hpart, hwaits⟩))
      · exact .inr (Nat.le_trans hsent (le_sends_joined hpart))
  · obtain ⟨hid, hnot⟩ | rfl := (mem_ids_joined h).1 hid
    · rw [sends_joined (hold id hid) hnot] at hsends
      exact hdue id hid (fun hwaits' ↦ hwaits (mem_unsent_joined.2 (.inl ⟨hwaits', hnot⟩))) hsends
    · refine hdue part (hmem part hpart) (fun hwaits' ↦ ?_) (Nat.lt_of_le_of_lt (le_sends_joined hpart) hsends)
      exact hwaits (mem_unsent_joined.2 (.inr ⟨rfl, part, hpart, hwaits'⟩))
  · rw [List.eq_nil_iff_forall_not_mem]
    intro id hwaits
    rw [mem_unsent_joined, hidle] at hwaits
    obtain ⟨hwaits, -⟩ | ⟨-, part, -, hwaits⟩ := hwaits
    · exact List.not_mem_nil hwaits
    · exact List.not_mem_nil hwaits

theorem merges_group (hunion : Union yjs) (h : Sound yjs provider) (hgroup : group.Nodup)
    (hmem : ∀ id ∈ group, id ∈ provider.ids) (hsome : group ≠ []) :
    Merges yjs provider (mergeGroup yjs provider group).1 group [(mergeGroup yjs provider group).2] := by
  rw [mergeGroup.eq_def]
  split
  · rename_i id
    exact merges_single h (hmem id (List.mem_singleton_self id))
  · exact merges_joined hunion h hgroup hmem hsome

/-! ## All groups -/

theorem merges_groups (hunion : Union yjs) : ∀ {groups : List (List Id)} {provider : Provider U}, Sound yjs provider →
    groups.flatten.Nodup → (∀ id ∈ groups.flatten, id ∈ provider.ids) → (∀ group ∈ groups, group ≠ []) →
    Merges yjs provider (mergeGroups yjs provider groups).1 groups.flatten (mergeGroups yjs provider groups).2 := by
  intro groups
  induction groups with
  | nil => exact fun h _ _ _ ↦ .none h
  | cons group rest ih =>
    intro provider h hdistinct hmem hsome
    rw [List.flatten_cons] at hdistinct hmem ⊢
    obtain ⟨hgroup, hrest, hapart⟩ := List.nodup_append.1 hdistinct
    have first := merges_group hunion h hgroup (fun id hid ↦ hmem id (List.mem_append_left _ hid))
      (hsome group List.mem_cons_self)
    have hnot : ∀ id ∈ rest.flatten, id ∉ group := fun id hid hid' ↦ hapart id hid' id hid rfl
    have hold : ∀ id ∈ rest.flatten, id ∈ provider.ids := fun id hid ↦ hmem id (List.mem_append_right _ hid)
    refine .trans h first (ih first.sound hrest ?_ fun other hother ↦ hsome other (List.mem_cons_of_mem _ hother)) ?_
    · exact fun id hid ↦ (first.kept id (hold id hid) (hnot id hid)).1
    · exact fun id hid ↦ ⟨hold id hid, hnot id hid⟩

/-- The groups hold the ids that are in the outbox, and none is empty. -/
theorem groups_spec (yjs : Yjs U E) (provider : Provider U) (ids : List Id) :
    (groups yjs provider ids).flatten = ids.filter (fun id ↦ (provider.outbox.lookup id).isSome) ∧
      ∀ group ∈ groups yjs provider ids, group ≠ [] := by
  induction ids using List.reverseRecOn with
  | nil => exact ⟨rfl, fun group hmem ↦ nomatch hmem⟩
  | append_singleton ids id ih =>
    obtain ⟨hflat, hsome⟩ := ih
    rw [groups] at hflat hsome ⊢
    rw [List.foldl_append, List.foldl_cons, List.foldl_nil, List.filter_append, ← hflat]
    generalize ids.foldl (group yjs provider) ([], 0) = state at hsome ⊢
    rw [group]
    split
    · rename_i hnone
      refine ⟨?_, hsome⟩
      simp [hnone]
    · rename_i update hlookup
      have hkeep : [id].filter (fun id ↦ (provider.outbox.lookup id).isSome) = [id] := by simp [hlookup]
      rw [hkeep]
      have happend : ∀ group ∈ state.1 ++ [[id]], group ≠ [] := by
        intro group hmem
        obtain hmem | hmem := List.mem_append.1 hmem
        · exact hsome group hmem
        · rw [List.mem_singleton.1 hmem]
          exact List.cons_ne_nil _ _
      split
      · exact ⟨by rw [List.flatten_append]; rfl, happend⟩
      · rename_i last hlast
        obtain ⟨front, hfront⟩ := List.getLast?_eq_some_iff.1 hlast
        dsimp only
        split
        · exact ⟨by rw [List.flatten_append]; rfl, happend⟩
        · rw [hfront, List.dropLast_concat]
          refine ⟨by simp, fun group hmem ↦ ?_⟩
          obtain hmem | hmem := List.mem_append.1 hmem
          · exact hsome group (hfront ▸ List.mem_append_left _ hmem)
          · rw [List.mem_singleton.1 hmem]
            exact List.append_ne_nil_of_right_ne_nil _ (List.cons_ne_nil _ _)

/-- Merging replaces the entries of the ids it is given, of those there are. -/
theorem merge_merges (hunion : Union yjs) (h : Sound yjs provider) {ids : List Id} (hids : ids.Nodup) :
    Merges yjs provider (merge yjs provider ids).1
      (ids.filter fun id ↦ (provider.outbox.lookup id).isSome) (merge yjs provider ids).2 := by
  obtain ⟨hflat, hsome⟩ := groups_spec yjs provider ids
  rw [← hflat]
  refine merges_groups hunion h (hflat ▸ hids.sublist List.filter_sublist) (fun id hid ↦ ?_) hsome
  rw [hflat] at hid
  exact lookup_isSome_iff.1 (List.mem_filter.1 hid).2

end Provider

end Chopin.Editor
