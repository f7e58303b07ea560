import Chopin.Editing.Gaps

/-!
# What left its place

The changes of a batch are read off its operations.  In a batch that was accepted, no two operations name a
block, so what they take from its place is each block that moved once, and once each block that is gone and
has no other in its place.
-/

set_option autoImplicit false

open Script

open scoped List

namespace Chopin.Editing

variable {dialect : Dialect} {base after : List Held} {operations : List Operation}

/-! ## What departed -/

theorem blockAt_some {index : Int} {moved : Bool} {item : Departed} (h : blockAt base index moved = some item) :
    index = item.index ∧ base[item.index]? = some item.node ∧ item.moved = moved := by
  cases index with
  | ofNat place =>
    obtain ⟨node, hnode, rfl⟩ := Option.map_eq_some_iff.1 h
    exact ⟨rfl, hnode, rfl⟩
  | negSucc _ => cases h

theorem blockAt_of {place : Nat} {block : Held} (moved : Bool) (h : base[place]? = some block) :
    blockAt base place moved = some ⟨block, place, moved⟩ := by
  rw [show (place : Int) = .ofNat place from rfl, blockAt, h]
  rfl

/-- The questionnaire that an operation detaches. -/
def Operation.detachedId : Operation → Option String
  | .detachQuestion id => some id
  | _ => none

variable {operation : Operation}

/-- The ways to depart: moved elsewhere, deleted, or detached as the first of an id. -/
theorem departed_some {item : Departed} (h : departed base operation = some item) : base[item.index]? = some item.node ∧
      ((∃ «to» : Int, operation = .move item.index «to» ∧ «to» ≠ item.index ∧ item.moved = true) ∨
        (operation = .delete item.index ∧ item.moved = false) ∨
        ∃ id, operation = .detachQuestion id ∧ item.node.node.questionnaire = some id ∧ item.moved = false) := by
  cases operation with
  | delete index =>
    obtain ⟨rfl, hget, hmoved⟩ := blockAt_some h
    exact ⟨hget, .inr (.inl ⟨rfl, hmoved⟩)⟩
  | detachQuestion id =>
    obtain ⟨index, hindex, hblock⟩ := Option.bind_eq_some_iff.1 h
    obtain ⟨heq, hget, hmoved⟩ := blockAt_some hblock
    obtain rfl := Int.ofNat.inj heq
    obtain ⟨hlt, hid, -⟩ := List.findIdx?_eq_some_iff_getElem.1 hindex
    rw [List.getElem?_eq_getElem hlt] at hget
    rw [Option.some.inj hget, beq_iff_eq] at hid
    exact ⟨by rw [List.getElem?_eq_getElem hlt, hget], .inr (.inr ⟨id, rfl, hid, hmoved⟩)⟩
  | move index «to» =>
    rw [departed] at h
    split at h
    · cases h
    · rename_i hne
      obtain ⟨rfl, hget, hmoved⟩ := blockAt_some h
      exact ⟨hget, .inl ⟨«to», rfl, hne, hmoved⟩⟩
  | insert _ _ => cases h
  | insertRoot _ => cases h
  | replace _ _ => cases h
  | replaceRoot _ => cases h

theorem targetedTwice_nodup {targets : List Int} (h : targetedTwice targets operations = none) :
    (operations.filterMap Operation.index).Nodup ∧ ∀ index ∈ operations.filterMap Operation.index, index ∉ targets := by
  induction operations generalizing targets with
  | nil => exact ⟨List.nodup_nil, fun _ hindex ↦ (List.not_mem_nil hindex).elim⟩
  | cons operation rest ih =>
    rw [targetedTwice] at h
    cases hindex : operation.index with
    | none =>
      rw [hindex] at h
      rw [List.filterMap_cons_none hindex]
      exact ih h
    | some index =>
      rw [hindex] at h
      dsimp only at h
      split at h
      · cases h
      · rename_i hnew
        obtain ⟨hnodup, hfresh⟩ := ih h
        rw [List.filterMap_cons_some hindex, List.nodup_cons]
        refine ⟨⟨fun hmem ↦ hfresh index hmem List.mem_concat_self, hnodup⟩, ?_⟩
        intro other hother
        obtain rfl | hother := List.mem_cons.1 hother
        · exact hnew
        · exact fun hmem ↦ hfresh other hother (List.mem_append_left _ hmem)

theorem checkBatch_indices (h : checkBatch operations = .ok ()) : (operations.filterMap Operation.index).Nodup := by
  obtain ⟨_, -, h⟩ := Except.bind_eq_ok.1 h
  obtain ⟨_, -, h⟩ := Except.bind_eq_ok.1 h
  rw [refuse] at h
  cases htwice : targetedTwice [] operations with
  | none => exact (targetedTwice_nodup htwice).1
  | some index =>
    rw [htwice] at h
    cases h

/-- An operation detaches its own questionnaire and no other. -/
theorem step_detached {children : List Held} {position : Nat} {detached : List String}
    (h : step dialect base children position operation = .ok (after, detached)) :
    detached = operation.detachedId.toList := by
  cases operation with
  | replaceRoot source =>
    rw [step] at h
    split at h
    · cases h
    · obtain ⟨_, -, h⟩ := Except.bind_eq_ok.1 h
      cases h
      rfl
  | insertRoot source =>
    obtain ⟨_, -, h⟩ := Except.bind_eq_ok.1 h
    cases h
    rfl
  | insert index source =>
    obtain ⟨_, -, h⟩ := Except.bind_eq_ok.1 h
    obtain ⟨_, -, h⟩ := Except.bind_eq_ok.1 h
    obtain ⟨_, -, h⟩ := Except.bind_eq_ok.1 h
    cases h
    rfl
  | replace index source =>
    obtain ⟨_, -, h⟩ := Except.bind_eq_ok.1 h
    obtain ⟨_, -, h⟩ := Except.bind_eq_ok.1 h
    obtain ⟨_, -, h⟩ := Except.bind_eq_ok.1 h
    obtain ⟨_, -, h⟩ := Except.bind_eq_ok.1 h
    cases h
    rfl
  | delete index =>
    obtain ⟨_, -, h⟩ := Except.bind_eq_ok.1 h
    obtain ⟨_, -, h⟩ := Except.bind_eq_ok.1 h
    obtain ⟨_, -, h⟩ := Except.bind_eq_ok.1 h
    cases h
    rfl
  | move index «to» =>
    obtain ⟨_, -, h⟩ := Except.bind_eq_ok.1 h
    obtain ⟨_, -, h⟩ := Except.bind_eq_ok.1 h
    obtain ⟨_, -, h⟩ := Except.bind_eq_ok.1 h
    obtain ⟨_, -, h⟩ := Except.bind_eq_ok.1 h
    obtain ⟨_, -, h⟩ := Except.bind_eq_ok.1 h
    split at h
    · cases h
      rfl
    · cases h
      rfl
  | detachQuestion id =>
    rw [step] at h
    split at h
    · cases h
    · cases h
      rfl

theorem applyAll_detached {children : List Held} {position : Nat} {detach detached : List String}
    (h : applyAll dialect base position operations (children, detach) = .ok (after, detached)) :
    detached = detach ++ operations.filterMap Operation.detachedId := by
  induction operations generalizing children position detach with
  | nil =>
    obtain ⟨-, rfl⟩ := Prod.mk.inj (Except.ok.inj h)
    exact (List.append_nil _).symm
  | cons operation rest ih =>
    rw [applyAll] at h
    split at h
    · cases h
    · rename_i between freed hstep
      rw [ih h, step_detached hstep, List.append_assoc]
      congr 1
      cases hid : operation.detachedId with
      | none => rw [List.filterMap_cons_none hid]; rfl
      | some id => rw [List.filterMap_cons_some hid]; rfl

/-- An accepted batch, as far as its reports depend on it. -/
structure Accepted (nodes : List Node) (operations : List Operation) (after gone loosed added : List Held) : Prop where
  effect : Effect (held nodes) operations (held nodes) after gone loosed added
    (operations.filterMap Operation.detachedId)
  nodup : ((held nodes ++ added).map (·.origin)).Nodup
  indices : (operations.filterMap Operation.index).Nodup
  root : ∀ operation ∈ operations, operation.replacesRoot = false
  /-- The questionnaires of the base have ids of their own. -/
  ids : (nodes.filterMap Node.questionnaire).Nodup

theorem prepare_accepted {plan : Plan} {revision : Int} {prepared : Prepared}
    (h : prepare dialect plan revision operations = .ok prepared)
    (hroot : ∀ operation ∈ operations, operation.replacesRoot = false)
    (hids : (prepared.root.filterMap (·.node.questionnaire)).Nodup) :
    ∃ nodes gone loosed added, prepared.root = held nodes ∧
      Accepted nodes operations prepared.children gone loosed added := by
  obtain ⟨-, hbatch, root, -, hbase, happly, -⟩ := prepare_ok h
  obtain ⟨gone, loosed, added, more, hsupplied, hmore, heffect⟩ :=
    applyAll_effect operations (Sound.start root) happly (checkBatch_tail hbatch) fun _ _ hblock ↦ hblock
  have hdetached := applyAll_detached happly
  rw [List.nil_append] at hmore hdetached
  rw [← hmore, hdetached] at heffect
  refine ⟨root, gone, loosed, added, hbase, heffect, (Sound.start root).nodup hsupplied, checkBatch_indices hbatch,
    hroot, ?_⟩
  have hmap : (held root).filterMap (·.node.questionnaire) = root.filterMap Node.questionnaire := by
    calc (held root).filterMap (·.node.questionnaire)
      _ = ((held root).map (·.node)).filterMap Node.questionnaire := by
          rw [List.filterMap_map]
          rfl
      _ = root.filterMap Node.questionnaire := by rw [map_node_held]
  rw [hbase, hmap] at hids
  exact hids

namespace Accepted

variable {nodes : List Node} {gone loosed added : List Held}

variable {block : Held}

variable {place : Nat}

theorem getElem?_origin (h : (held nodes)[place]? = some block) :
    block ∈ held nodes ∧ block.origin = .base place ∧ ∀ index : Int, block.isAt index = true ↔ index = place := by
  obtain ⟨hmem, horigin⟩ := getElem?_held h
  refine ⟨hmem, horigin, fun index ↦ ?_⟩
  rw [Held.isAt, horigin, beq_iff_eq]
  exact eq_comm

theorem taken_nodup (h : Accepted nodes operations after gone loosed added) :
    ((gone ++ loosed ++ after).map (·.origin)).Nodup :=
  (h.effect.exchange.perm.map _).nodup_iff.2 h.nodup

theorem after_nodup (h : Accepted nodes operations after gone loosed added) : (after.map (·.origin)).Nodup := by
  have hnodup := h.taken_nodup
  rw [List.map_append] at hnodup
  exact hnodup.of_append_right

/-- A block of the base is in the result unless it was taken. -/
theorem has_after (h : Accepted nodes operations after gone loosed added) (hblock : block ∈ held nodes) :
    has after block = true ↔ block ∉ gone ++ loosed := by
  constructor
  · intro hhas htaken
    have hnodup := h.taken_nodup
    rw [List.map_append, List.nodup_append'] at hnodup
    exact hnodup.2.2 (List.mem_map_of_mem htaken) (has_iff.1 hhas)
  · intro htaken
    have hmem := (h.effect.exchange.mem.2 (.inl hblock)).resolve_left htaken
    exact has_iff.2 (List.mem_map_of_mem hmem)

/-- One questionnaire to an id. -/
theorem same_id (h : Accepted nodes operations after gone loosed added) {left right : Held} {id : String}
    (hleft : left ∈ held nodes) (hright : right ∈ held nodes) (hid : left.node.questionnaire = some id)
    (hid' : right.node.questionnaire = some id) : left = right := by
  have hids := h.ids
  rw [← map_node_held nodes, List.filterMap_map] at hids
  exact List.eq_of_nodup_filterMap hids hleft hright hid hid'

/-- One operation to an index. -/
theorem same_index (h : Accepted nodes operations after gone loosed added) {left right : Operation} {index : Int}
    (hleft : left ∈ operations) (hright : right ∈ operations) (hindex : left.index = some index)
    (hindex' : right.index = some index) : left = right :=
  List.eq_of_nodup_filterMap h.indices hleft hright hindex hindex'

theorem deleted (h : Accepted nodes operations after gone loosed added)
    (hblock : (held nodes)[place]? = some block) (hmem : Operation.delete place ∈ operations) : block ∈ gone := by
  obtain ⟨hheld, -, hat⟩ := getElem?_origin hblock
  exact h.effect.complete block hheld ⟨_, hmem, (hat place).2 rfl⟩

theorem detached (h : Accepted nodes operations after gone loosed added) {id : String}
    (hblock : block ∈ held nodes) (hid : block.node.questionnaire = some id)
    (hmem : Operation.detachQuestion id ∈ operations) : block ∈ loosed := by
  have hids : some id ∈ (operations.filterMap Operation.detachedId).map some :=
    List.mem_map_of_mem (List.mem_filterMap.2 ⟨_, hmem, rfl⟩)
  rw [← h.effect.ids] at hids
  obtain ⟨other, hother, hsame⟩ := List.mem_map.1 hids
  have hbase := h.effect.owned h.root other (List.mem_append_right _ hother)
  exact h.same_id hbase hblock hsame hid ▸ hother

/-- What is gone was not set loose. -/
theorem gone_loosed (h : Accepted nodes operations after gone loosed added) (hgone : block ∈ gone) :
    block ∉ loosed := by
  intro hloosed
  have hnodup := h.taken_nodup
  rw [List.map_append, List.map_append, List.nodup_append', List.nodup_append'] at hnodup
  exact hnodup.1.2.2 (List.mem_map_of_mem hgone) (List.mem_map_of_mem hloosed)

theorem not_has (h : Accepted nodes operations after gone loosed added) (hblock : block ∈ held nodes)
    (htaken : block ∈ gone ++ loosed) : has after block = false := by
  rw [Bool.eq_false_iff]
  exact fun hhas ↦ (h.has_after hblock).1 hhas htaken

/-- What is gone, unless others stand in its place, was deleted or detached. -/
theorem gone_iff (h : Accepted nodes operations after gone loosed added) (hblock : (held nodes)[place]? = some block) :
    ⟨block, place, false⟩ ∈ operations.filterMap (departed (held nodes)) ↔
      has after block = false ∧ supplanted operations block = false := by
  obtain ⟨hheld, -, hat⟩ := getElem?_origin hblock
  constructor
  · intro hmem
    obtain ⟨operation, hoperation, hdeparted⟩ := List.mem_filterMap.1 hmem
    obtain ⟨-, ⟨_, -, -, hmoved⟩ | ⟨rfl, -⟩ | ⟨id, rfl, hid, -⟩⟩ := departed_some hdeparted
    · cases hmoved
    · refine ⟨h.not_has hheld (List.mem_append_left _ (h.deleted hblock hoperation)), ?_⟩
      rw [supplanted, List.any_eq_false]
      rintro other hother hreplaces
      split at hreplaces
      · rename_i index source
        -- two operations of a batch do not name one index
        cases h.same_index hoperation hother rfl (congrArg some ((hat index).1 hreplaces))
      · cases hreplaces
    · have hloosed := h.detached hheld hid hoperation
      refine ⟨h.not_has hheld (List.mem_append_right _ hloosed), ?_⟩
      rw [supplanted, List.any_eq_false]
      rintro other hother hreplaces
      split at hreplaces
      · exact h.gone_loosed (h.effect.complete block hheld ⟨_, hother, hreplaces⟩) hloosed
      · cases hreplaces
  · rintro ⟨hhas, hreplaced⟩
    have htaken : block ∈ gone ++ loosed := by
      by_contra hstays
      rw [(h.has_after hheld).2 hstays] at hhas
      cases hhas
    obtain hgone | hloosed := List.mem_append.1 htaken
    · obtain ⟨operation, hoperation, hremoves⟩ := h.effect.removed block hgone
      cases operation with
      | delete index =>
        obtain rfl := (hat index).1 hremoves
        exact List.mem_filterMap.2 ⟨_, hoperation, blockAt_of false hblock⟩
      | replace index source =>
        rw [supplanted, List.any_eq_false] at hreplaced
        exact (hreplaced _ hoperation hremoves).elim
      | replaceRoot source => cases h.root _ hoperation
      | insert _ _ => cases hremoves
      | insertRoot _ => cases hremoves
      | move _ _ => cases hremoves
      | detachQuestion _ => cases hremoves
    · obtain ⟨operation, hoperation, hdetaches⟩ := h.effect.detaches block hloosed
      cases operation with
      | detachQuestion id =>
        refine List.mem_filterMap.2 ⟨_, hoperation, ?_⟩
        obtain ⟨first, hfirst⟩ : ∃ first, (held nodes).findIdx? (·.node.questionnaire == some id) = some first := by
          rw [← Option.isSome_iff_exists, List.findIdx?_isSome, List.any_eq_true]
          exact ⟨block, hheld, hdetaches⟩
        obtain ⟨hlt, hid, -⟩ := List.findIdx?_eq_some_iff_getElem.1 hfirst
        have hget := List.getElem?_eq_getElem hlt
        -- the first block with the id is this one
        have hsame := h.same_id (List.mem_of_getElem? hget) hheld (beq_iff_eq.1 hid) (beq_iff_eq.1 hdetaches)
        rw [hsame] at hget
        have hplace := (getElem?_origin hget).2.1.symm.trans (getElem?_origin hblock).2.1
        obtain rfl := Origin.base.inj hplace
        rw [departed, hfirst]
        exact blockAt_of false hblock
      | delete _ => cases hdetaches
      | replace _ _ => cases hdetaches
      | replaceRoot _ => cases hdetaches
      | insert _ _ => cases hdetaches
      | insertRoot _ => cases hdetaches
      | move _ _ => cases hdetaches

/-- What a move is taken to have moved. -/
theorem moved_iff (hblock : (held nodes)[place]? = some block) :
    ⟨block, place, true⟩ ∈ operations.filterMap (departed (held nodes)) ↔ shifted operations block = true := by
  obtain ⟨hheld, -, hat⟩ := getElem?_origin hblock
  constructor
  · intro hmem
    obtain ⟨operation, hoperation, hdeparted⟩ := List.mem_filterMap.1 hmem
    obtain ⟨-, ⟨«to», rfl, hto, -⟩ | ⟨-, hmoved⟩ | ⟨_, -, -, hmoved⟩⟩ := departed_some hdeparted
    · refine List.any_eq_true.2 ⟨_, hoperation, ?_⟩
      rw [Bool.and_eq_true, bne_iff_ne]
      exact ⟨hto, (hat place).2 rfl⟩
    · cases hmoved
    · cases hmoved
  · intro hshifted
    obtain ⟨operation, hoperation, hshifts⟩ := List.any_eq_true.1 hshifted
    split at hshifts
    · rename_i index «to»
      rw [Bool.and_eq_true, bne_iff_ne] at hshifts
      obtain rfl := (hat index).1 hshifts.2
      refine List.mem_filterMap.2 ⟨_, hoperation, ?_⟩
      rw [departed, if_neg hshifts.1]
      exact blockAt_of true hblock
    · cases hshifts

/-- A block departs once in a way. -/
theorem left_nodup (h : Accepted nodes operations after gone loosed added) :
    ((operations.filterMap (departed (held nodes))).map fun item ↦ (item.index, item.moved)).Nodup := by
  have hids : (operations.filterMap Operation.detachedId).Nodup := by
    refine List.Nodup.of_map some ?_
    rw [← h.effect.ids, List.nodup_map_iff_inj_on]
    · intro left hleft right hright hsame
      have howned := h.effect.owned h.root
      have hleft' := howned left (List.mem_append_right _ hleft)
      have hright' := howned right (List.mem_append_right _ hright)
      obtain ⟨operation, -, hdetaches⟩ := h.effect.detaches left hleft
      cases operation with
      | detachQuestion id =>
        exact h.same_id hleft' hright' (beq_iff_eq.1 hdetaches) (hsame.symm.trans (beq_iff_eq.1 hdetaches))
      | delete _ => cases hdetaches
      | replace _ _ => cases hdetaches
      | replaceRoot _ => cases hdetaches
      | insert _ _ => cases hdetaches
      | insertRoot _ => cases hdetaches
      | move _ _ => cases hdetaches
    · have hnodup := h.taken_nodup
      rw [List.map_append, List.map_append] at hnodup
      exact (hnodup.of_append_left.of_append_right).of_map
  have hindices := h.indices
  rw [List.Nodup, List.pairwise_filterMap] at hindices hids
  rw [List.Nodup, List.pairwise_map, List.pairwise_filterMap]
  refine (hindices.and hids).imp_of_mem ?_
  rintro first second hfirst hsecond ⟨hindex, hid⟩ left hleft right hright hsame
  obtain ⟨hplace, hmoved⟩ := Prod.mk.inj hsame
  obtain ⟨hget, hleft⟩ := departed_some hleft
  obtain ⟨hget', hright⟩ := departed_some hright
  have hnode : left.node = right.node := by
    rw [hplace, hget'] at hget
    exact (Option.some.inj hget).symm
  -- a block that is deleted is not detached as well
  have hapart : ∀ id, Operation.delete left.index ∈ operations → Operation.detachQuestion id ∈ operations →
      left.node.node.questionnaire = some id → False := fun id hdelete hdetach hquestion ↦
    h.gone_loosed (h.deleted hget hdelete) (h.detached (List.mem_of_getElem? hget) hquestion hdetach)
  obtain ⟨_, rfl, -, hwas⟩ | ⟨rfl, hwas⟩ | ⟨id, rfl, hquestion, hwas⟩ := hleft
  · obtain ⟨_, rfl, -, -⟩ | ⟨-, hwas'⟩ | ⟨_, -, -, hwas'⟩ := hright
    · exact hindex _ rfl _ rfl (congrArg Nat.cast hplace)
    · simp [hwas, hwas'] at hmoved
    · simp [hwas, hwas'] at hmoved
  · obtain ⟨_, -, -, hwas'⟩ | ⟨rfl, -⟩ | ⟨id, rfl, hquestion, -⟩ := hright
    · simp [hwas, hwas'] at hmoved
    · exact hindex _ rfl _ rfl (congrArg Nat.cast hplace)
    · exact hapart id hfirst hsecond (hnode ▸ hquestion)
  · obtain ⟨_, -, -, hwas'⟩ | ⟨rfl, -⟩ | ⟨id', rfl, hquestion', -⟩ := hright
    · simp [hwas, hwas'] at hmoved
    · exact hapart id (hplace ▸ hsecond) hfirst hquestion
    · exact hid _ rfl _ rfl (Option.some.inj (hquestion.symm.trans (hnode ▸ hquestion')))

theorem nodup_moved {left : List Departed} (h : (left.map fun item ↦ (item.index, item.moved)).Nodup) (moved : Bool) :
    ((left.filter (·.moved == moved)).map (·.index)).Nodup := by
  refine List.Nodup.of_map (·, moved) ?_
  have hsame : ((left.filter (·.moved == moved)).map (·.index)).map (·, moved) =
      (left.filter (·.moved == moved)).map fun item ↦ (item.index, item.moved) := by
    rw [List.map_map]
    exact List.map_congr_left fun item hitem ↦ congrArg (Prod.mk item.index)
      (beq_iff_eq.1 (List.mem_filter.1 hitem).2).symm
  rw [hsame]
  exact (List.filter_sublist.map _).nodup h

/-- The departures of one kind are the blocks of the base that this holds of, each once. -/
theorem left_perm (h : Accepted nodes operations after gone loosed added) (moved : Bool) (holds : Held → Bool)
    (hiff : ∀ (place : Nat) (block : Held), (held nodes)[place]? = some block →
      (⟨block, place, moved⟩ ∈ operations.filterMap (departed (held nodes)) ↔ holds block = true)) :
    (((operations.filterMap (departed (held nodes))).filter (·.moved == moved)).map fun item ↦
        (item.node, item.index)) ~ (held nodes).zipIdx.filter fun entry ↦ holds entry.1 := by
  refine (List.perm_ext_iff_of_nodup ?_ ?_).2 ?_
  · refine List.Nodup.of_map Prod.snd ?_
    rw [List.map_map]
    exact nodup_moved h.left_nodup moved
  · refine List.Nodup.filter _ (List.Nodup.of_map Prod.snd ?_)
    rw [List.zipIdx_map_snd]
    exact List.nodup_range'
  · rintro ⟨block, place⟩
    rw [List.mem_map, List.mem_filter, List.mk_mem_zipIdx_iff_getElem?]
    constructor
    · rintro ⟨⟨node, index, was⟩, hitem, hsame⟩
      obtain ⟨rfl, rfl⟩ := Prod.mk.inj hsame
      obtain ⟨hmem, hwas⟩ := List.mem_filter.1 hitem
      obtain rfl := beq_iff_eq.1 hwas
      obtain ⟨operation, -, hdeparted⟩ := List.mem_filterMap.1 hmem
      have hget := (departed_some hdeparted).1
      exact ⟨hget, (hiff _ _ hget).1 hmem⟩
    · rintro ⟨hget, hholds⟩
      exact ⟨⟨block, place, moved⟩, List.mem_filter.2 ⟨(hiff _ _ hget).2 hholds, beq_self_eq_true _⟩, rfl⟩

/-- Of the blocks that are still there, those that moved vacate. -/
theorem vacating (h : Accepted nodes operations after gone loosed added) (hblock : block ∈ held nodes)
    (hhas : has after block = true) :
    has ((operations.filterMap (departed (held nodes))).map (·.node)) block = shifted operations block := by
  obtain ⟨place, hget⟩ := List.getElem?_of_mem hblock
  rw [Bool.eq_iff_iff, ← moved_iff hget]
  constructor
  · intro hvacates
    obtain ⟨node, hnode, hsame⟩ := List.mem_map.1 (has_iff.1 hvacates)
    obtain ⟨⟨node, index, was⟩, hitem, rfl⟩ := List.mem_map.1 hnode
    obtain ⟨operation, -, hdeparted⟩ := List.mem_filterMap.1 hitem
    have hget' := (departed_some hdeparted).1
    obtain rfl := Origin.base.inj ((getElem?_origin hget').2.1.symm.trans (hsame.trans (getElem?_origin hget).2.1))
    obtain rfl := Option.mem_unique hget' hget
    cases was with
    | true => exact hitem
    | false =>
      rw [((h.gone_iff hget).1 hitem).1] at hhas
      cases hhas
  · exact fun hitem ↦ has_iff.2 (List.mem_map_of_mem (List.mem_map_of_mem hitem))

end Accepted

end Chopin.Editing
