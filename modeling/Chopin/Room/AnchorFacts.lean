import Chopin.Lib.Except
import Chopin.Lib.Lists
import Chopin.Room.Passages

/-!
# Anchors are never guessed

An anchor that is brought forward is on the block that it named, if this is still there, or else on the one block
with its digest, or else it is orphaned.  Bringing it forward once more leaves it alone: whichever way it was
found, the position it has now resolves to that block.
-/

set_option autoImplicit false

open Script

namespace Chopin.Room

variable {Shared : Type} [DecidableEq Shared] {yjs : Yjs Shared} {sha256 : String → String} {target : Mirror Shared}

/-- Every block of a live document is bound to a shared type of its own, and a position made for a type resolves
to it. -/
structure Bound (yjs : Yjs Shared) (target : Mirror Shared) : Prop where
  distinct : (target.root.map (·.key)).Nodup
  keys : (target.collabNodeMap.map Prod.fst).Nodup
  types : (target.collabNodeMap.map Prod.snd).Nodup
  bound : ∀ node ∈ target.addressable, node.key ∈ target.collabNodeMap.map Prod.fst
  resolves : ∀ entry ∈ target.collabNodeMap, yjs.absolute (yjs.position entry.2) = some entry.2

/-- The blocks that an anchor may be on, with their digests. -/
def blocksOf (sha256 : String → String) (target : Mirror Shared) : List (String × Nat) :=
  (digests sha256 target).zip (target.addressable.map (·.key))

/-! ## Blocks and their digests -/

theorem keysByDigest_lookup (blocks : List (String × Nat)) (hash : String) :
    ((keysByDigest blocks).lookup hash).getD [] = (blocks.filter (·.1 == hash)).map Prod.snd := by
  have hfold : ∀ (blocks : List (String × Nat)) (found : List (String × List Nat)),
      ((blocks.foldl (fun found block ↦
        Entries.set found block.1 ((found.lookup block.1).getD [] ++ [block.2])) found).lookup hash).getD [] =
          (found.lookup hash).getD [] ++ (blocks.filter (·.1 == hash)).map Prod.snd := by
    intro blocks
    induction blocks with
    | nil => exact fun found ↦ (List.append_nil _).symm
    | cons block rest ih =>
      obtain ⟨other, key⟩ := block
      intro found
      rw [List.foldl_cons, ih, Entries.lookup_set, List.filter_cons]
      by_cases hsame : hash = other
      · subst hsame
        rw [if_pos rfl, if_pos (beq_self_eq_true _), Option.getD_some, List.append_assoc]
        rfl
      · rw [if_neg hsame, if_neg (by simpa using Ne.symm hsame)]
  exact hfold blocks []

theorem digest_ne_empty (source : String) : digest sha256 source ≠ "" := by
  intro h
  have hlength := congrArg String.length h
  rw [digest, String.length_append] at hlength
  exact absurd hlength (by simp)

/-- The digest that is looked up for a key is the one of its block. -/
theorem hash_iff {hashes : List String} {keys : List Nat} (hnodup : keys.Nodup) (hhashes : ∀ hash ∈ hashes, hash ≠ "")
    {key : Nat} {hash : String} : ((keys.idxOf? key).bind fun index ↦ (hashes[index]?).filter (· ≠ "")) = some hash ↔
      (hash, key) ∈ hashes.zip keys := by
  constructor
  · intro h
    obtain ⟨index, hindex, hhash⟩ := Option.bind_eq_some_iff.1 h
    obtain ⟨hlt, hkey, -⟩ := List.idxOf?_eq_some_iff.1 hindex
    obtain ⟨hget, -⟩ := Option.filter_eq_some_iff.1 hhash
    exact List.mem_of_getElem? (List.getElem?_zip_eq_some.2 ⟨hget, List.getElem?_eq_some_iff.2 ⟨hlt, hkey⟩⟩)
  · intro h
    obtain ⟨index, hindex⟩ := List.getElem?_of_mem h
    obtain ⟨hhash, hkey⟩ := List.getElem?_zip_eq_some.1 hindex
    obtain ⟨hlt, hget⟩ := List.getElem?_eq_some_iff.1 hkey
    have hfound : keys.idxOf? key = some index := by
      refine List.idxOf?_eq_some_iff.2 ⟨hlt, hget, fun j hj hsame ↦ ?_⟩
      have := (List.Nodup.getElem_inj_iff hnodup).1 (hsame.trans hget.symm)
      omega
    rw [hfound, Option.bind_some, hhash, Option.filter_some,
      if_pos (by simpa using hhashes hash (List.mem_of_getElem? hhash))]

/-! ## One anchor -/

/-- What becomes of an anchor: it stays orphaned, it stays on its block, it goes to the one block with its
digest, or it is orphaned. -/
inductive Rebased (yjs : Yjs Shared) (target : Mirror Shared) (blocks : List (String × Nat)) (marking : Bool)
    (anchor rebased : Anchor) : Prop
  | orphaned (lost : anchor.orphaned = true) (same : rebased = { anchor with epoch := target.epoch })
  | kept (key : Nat) (hash position : String) (held : anchor.orphaned = false)
      (named : resolveAnchor yjs target anchor = some key) (there : (hash, key) ∈ blocks)
      (same : rebased = ⟨target.epoch, position, hash, false, marking && anchor.byDigest⟩)
      (names : resolveAnchor yjs target rebased = some key)
  | found (key : Nat) (position : String) (held : anchor.orphaned = false)
      (gone : ∀ key hash, resolveAnchor yjs target anchor = some key → (hash, key) ∉ blocks)
      (only : blocks.filter (·.1 == anchor.digest) = [(anchor.digest, key)])
      (same : rebased = ⟨target.epoch, position, anchor.digest, false, marking⟩)
      (names : resolveAnchor yjs target rebased = some key)
  | lost (held : anchor.orphaned = false)
      (gone : ∀ key hash, resolveAnchor yjs target anchor = some key → (hash, key) ∉ blocks)
      (none : (blocks.filter (·.1 == anchor.digest)).length ≠ 1)
      (same : rebased = { anchor with epoch := target.epoch, orphaned := true })

namespace Bound

variable {anchor : Anchor} {key : Nat} {hash : String}

omit [DecidableEq Shared] in
theorem addressable_distinct (h : Bound yjs target) : (target.addressable.map (·.key)).Nodup :=
  (List.filter_sublist.map _).nodup h.distinct

variable {type : Shared}

/-- A new anchor for a key that is bound names it. -/
theorem anchorForKey_ok (h : Bound yjs target) (hentry : (key, type) ∈ target.collabNodeMap) (hash : String) :
    anchorForKey yjs target (some key) hash = .ok ⟨target.epoch, yjs.position type, hash, false, false⟩ ∧
      ∀ byDigest, resolveAnchor yjs target ⟨target.epoch, yjs.position type, hash, false, byDigest⟩ = some key := by
  constructor
  · rw [anchorForKey, Option.bind_some, Entries.lookup_of_mem h.keys hentry]
  · intro byDigest
    have hfind : target.collabNodeMap.find? (·.2 == type) = some (key, type) := List.find?_key h.types hentry
    rw [resolveAnchor, if_neg (not_not_intro rfl), h.resolves _ hentry, Option.bind_some, hfind]
    rfl

omit [DecidableEq Shared] in
theorem block_bound (h : Bound yjs target) (hblock : (hash, key) ∈ blocksOf sha256 target) :
    ∃ type, (key, type) ∈ target.collabNodeMap := by
  obtain ⟨node, hnode, rfl⟩ := List.mem_map.1 (List.of_mem_zip hblock).2
  obtain ⟨⟨key, type⟩, hentry, hkey⟩ := List.mem_map.1 (h.bound node hnode)
  exact ⟨type, hkey ▸ hentry⟩

omit [DecidableEq Shared] in
/-- The block that an anchor is on has one digest, and it is found. -/
theorem digest_iff (h : Bound yjs target) : (((target.addressable.map (·.key)).idxOf? key).bind fun index ↦
        ((digests sha256 target)[index]?).filter (· ≠ "")) = some hash ↔ (hash, key) ∈ blocksOf sha256 target := by
  refine Room.hash_iff h.addressable_distinct fun found hfound ↦ ?_
  obtain ⟨source, -, rfl⟩ := List.mem_map.1 hfound
  exact digest_ne_empty source

/-- An anchor that names a block is made again for it. -/
theorem rebase_kept (h : Bound yjs target) (marking : Bool) (hheld : anchor.orphaned = false)
    (hnamed : resolveAnchor yjs target anchor = some key) (hblock : (hash, key) ∈ blocksOf sha256 target)
    (hentry : (key, type) ∈ target.collabNodeMap) :
    rebaseAnchor yjs target marking (digests sha256 target) (target.addressable.map (·.key)) anchor =
      .ok ⟨target.epoch, yjs.position type, hash, false, marking && anchor.byDigest⟩ := by
  rw [rebaseAnchor, if_neg (by simp [hheld]), hnamed]
  dsimp only
  rw [h.digest_iff.2 hblock]
  dsimp only
  rw [(h.anchorForKey_ok hentry hash).1]
  rfl

/-- An anchor that names no block is looked for by its digest. -/
theorem rebase_gone (h : Bound yjs target) (marking : Bool) (hheld : anchor.orphaned = false)
    (hgone : ∀ key hash, resolveAnchor yjs target anchor = some key → (hash, key) ∉ blocksOf sha256 target) :
    rebaseAnchor yjs target marking (digests sha256 target) (target.addressable.map (·.key)) anchor =
      rebaseByDigest yjs target marking (blocksOf sha256 target) anchor := by
  rw [rebaseAnchor, if_neg (by simp [hheld])]
  split
  · rfl
  · rename_i key hnamed
    split
    · rfl
    · rename_i hash hhash
      exact absurd (h.digest_iff.1 hhash) (hgone key hash hnamed)

/-- A digest of one block finds it. -/
theorem rebase_found (h : Bound yjs target) (marking : Bool)
    (honly : (blocksOf sha256 target).filter (·.1 == anchor.digest) = [(anchor.digest, key)])
    (hentry : (key, type) ∈ target.collabNodeMap) : rebaseByDigest yjs target marking (blocksOf sha256 target) anchor =
      .ok ⟨target.epoch, yjs.position type, anchor.digest, false, marking⟩ := by
  rw [rebaseByDigest, keysByDigest_lookup, honly]
  simp only [List.map_cons, List.map_nil, (h.anchorForKey_ok hentry anchor.digest).1, Except.ok_bind,
    Except.pure_eq_ok]

omit [DecidableEq Shared] in
/-- A digest of several blocks, or of none, loses the anchor. -/
theorem rebase_lost {marking : Bool} {blocks : List (String × Nat)}
    (hnone : (blocks.filter (·.1 == anchor.digest)).length ≠ 1) :
    rebaseByDigest yjs target marking blocks anchor = .ok { anchor with epoch := target.epoch, orphaned := true } := by
  rw [rebaseByDigest, keysByDigest_lookup]
  split
  · rename_i key hkey
    have hlength := congrArg List.length hkey
    rw [List.length_map] at hlength
    exact absurd hlength hnone
  · rfl

/-- **One anchor**, and the same once more. -/
theorem rebaseAnchor_spec (h : Bound yjs target) (sha256 : String → String) (marking : Bool) (anchor : Anchor) :
    ∃ rebased, rebaseAnchor yjs target marking (digests sha256 target) (target.addressable.map (·.key)) anchor =
        .ok rebased ∧ Rebased yjs target (blocksOf sha256 target) marking anchor rebased ∧
      rebaseAnchor yjs target marking (digests sha256 target) (target.addressable.map (·.key)) rebased =
        .ok rebased := by
  cases hheld : anchor.orphaned with
  | true =>
    refine ⟨{ anchor with epoch := target.epoch }, ?_, .orphaned hheld rfl, ?_⟩
    · rw [rebaseAnchor, if_pos hheld]
      rfl
    · rw [rebaseAnchor, if_pos hheld]
      rfl
  | false =>
    by_cases hthere : ∃ key hash, resolveAnchor yjs target anchor = some key ∧ (hash, key) ∈ blocksOf sha256 target
    · obtain ⟨key, hash, hnamed, hblock⟩ := hthere
      obtain ⟨type, hentry⟩ := h.block_bound hblock
      have hnames := (h.anchorForKey_ok hentry hash).2 (marking && anchor.byDigest)
      refine ⟨_, h.rebase_kept marking hheld hnamed hblock hentry, .kept key hash _ hheld hnamed hblock rfl hnames, ?_⟩
      rw [h.rebase_kept marking rfl hnames hblock hentry, ← Bool.and_assoc, Bool.and_self]
    · have hgone : ∀ key hash, resolveAnchor yjs target anchor = some key → (hash, key) ∉ blocksOf sha256 target :=
        fun key hash hnamed hblock ↦ hthere ⟨key, hash, hnamed, hblock⟩
      rw [h.rebase_gone marking hheld hgone]
      by_cases hone : ((blocksOf sha256 target).filter (·.1 == anchor.digest)).length = 1
      · obtain ⟨⟨hash, key⟩, honly⟩ := List.length_eq_one_iff.1 hone
        obtain ⟨hblock, hhash⟩ := List.mem_filter.1 (honly ▸ List.mem_singleton_self (hash, key))
        obtain rfl := beq_iff_eq.1 hhash
        obtain ⟨type, hentry⟩ := h.block_bound hblock
        have hnames := (h.anchorForKey_ok hentry anchor.digest).2 marking
        refine ⟨_, h.rebase_found marking honly hentry, .found key _ hheld hgone honly rfl hnames, ?_⟩
        rw [h.rebase_kept marking rfl hnames hblock hentry, Bool.and_self]
      · refine ⟨_, rebase_lost hone, .lost hheld hgone hone rfl, ?_⟩
        rw [rebaseAnchor, if_pos rfl]
        rfl

end Bound

/-- **Anchors are never guessed**: each is on the block that it named, or else on the one block with its digest, or
else orphaned, and is left alone when it is brought forward once more.  Neither is a quote, which is found where
it stands nearest to where it was. -/
theorem rebase_never_guesses (h : Bound yjs target) (sha256 : String → String) (anchors : List Anchor)
    (marking : Bool) : (∃ rebased, rebase yjs sha256 target anchors marking = .ok rebased ∧
      List.Forall₂ (Rebased yjs target (blocksOf sha256 target) marking) anchors rebased ∧
      rebase yjs sha256 target rebased marking = .ok rebased) ∧
    ∀ (text quote : Units) (offset : Int) («at» : Nat), seek text quote offset = some «at» ↔
      quote ≠ [] ∧ Occurs text quote «at» ∧
        ∀ other, Occurs text quote other → other ≠ «at» → distance offset «at» < distance offset other := by
  obtain ⟨rebased, hrebased, hall⟩ := Except.mapM_ok_forall₂ fun anchor (_ : anchor ∈ anchors) ↦
    h.rebaseAnchor_spec sha256 marking anchor
  refine ⟨⟨rebased, hrebased, hall.imp fun _ _ hone ↦ hone.1, ?_⟩, fun _ _ _ _ ↦ seek_iff⟩
  refine Except.mapM_self fun anchor hanchor ↦ ?_
  obtain ⟨_, -, hone⟩ := hall.exists_of_mem hanchor
  exact hone.2

/-- Types with names, which are their positions. -/
def named : Yjs String := ⟨id, some⟩

/-- Three paragraphs, of which the last two say the same. -/
def threeParagraphs : Mirror String where
  titleKey := none
  titleBodyKeys := none
  epoch := "now"
  root := [⟨1, .paragraph, [⟨"One.", true⟩]⟩, ⟨2, .paragraph, [⟨"Two.", true⟩]⟩, ⟨3, .paragraph, [⟨"Two.", true⟩]⟩]
  nextKey := 4
  sources := ["One.", "Two.", "Two."]
  collabNodeMap := [(1, "first"), (2, "second"), (3, "third")]

theorem rebase_never_guesses_sample :
    (∃ rebased, rebase named id threeParagraphs [⟨"now", "second", "sha256:Was.", false, false⟩,
        ⟨"then", "second", "sha256:One.", false, false⟩, ⟨"then", "second", "sha256:Two.", false, false⟩] true =
          .ok rebased ∧ List.Forall₂ (Rebased named threeParagraphs (blocksOf id threeParagraphs) true)
        [⟨"now", "second", "sha256:Was.", false, false⟩, ⟨"then", "second", "sha256:One.", false, false⟩,
          ⟨"then", "second", "sha256:Two.", false, false⟩] rebased ∧
      rebase named id threeParagraphs rebased true = .ok rebased) ∧
    ∀ (text quote : Units) (offset : Int) («at» : Nat), seek text quote offset = some «at» ↔
      quote ≠ [] ∧ Occurs text quote «at» ∧
        ∀ other, Occurs text quote other → other ≠ «at» → distance offset «at» < distance offset other :=
  rebase_never_guesses ⟨by decide, by decide, by decide, by decide, fun _ _ ↦ rfl⟩ id _ true

end Chopin.Room
