import Chopin.Lib.Except
import Chopin.Room.Carets
import Chopin.Room.Titles

/-!
# What an edit leaves in the live document

The edit's own part leaves the blocks of the sequence and every empty paragraph.  In a document with a title the
room then puts the title back at the top, and that is the only block an edit cannot order, or leave out.
-/

set_option autoImplicit false

open scoped List

namespace Chopin.Room

/-! ## The nodes in their order -/

/-- What an import is relied on for: the nodes it builds have keys of their own, and as parsing never yields an
empty paragraph, none of them is one. -/
structure Imports (create : Create) : Prop where
  distinct : ∀ next blocks, ((create next blocks).1.map (·.key)).Nodup
  fresh : ∀ next blocks, ∀ node ∈ (create next blocks).1, next ≤ node.key ∧ node.key < (create next blocks).2
  counter : ∀ next blocks, next ≤ (create next blocks).2
  authored : ∀ next blocks, ∀ node ∈ (create next blocks).1, node.caret = false

/-- The blocks of a sequence that are not among those that were read. -/
def freshBlocks (before after : List RootContent) : List RootContent :=
  after.filter fun block ↦ !before.any (·.object == block.object)

/-- The node that a block stands for: the one that was there, or the one that was built. -/
inductive Stands (before : List RootContent) (live : List LexicalNode) (fresh : List RootContent)
    (created : List LexicalNode) (block : RootContent) (node : LexicalNode) : Prop
  | kept (i : Nat) (other : RootContent) (found : before[i]? = some other) (same : other.object = block.object)
      (there : live[i]? = some node)
  | built (i : Nat) (other : RootContent) (new : ∀ read ∈ before, read.object ≠ block.object)
      (found : fresh[i]? = some other) (same : other.object = block.object) (there : created[i]? = some node)

theorem assign_cases (pairs : List (RootContent × LexicalNode)) (nodes : List (Nat × LexicalNode)) (object : Nat) :
    (∃ block node, (block, node) ∈ pairs ∧ block.object = object ∧ (assign nodes pairs).lookup object = some node) ∨
      (∀ pair ∈ pairs, pair.1.object ≠ object) ∧ (assign nodes pairs).lookup object = nodes.lookup object := by
  induction pairs generalizing nodes with
  | nil => exact .inr ⟨fun _ h ↦ (List.not_mem_nil h).elim, rfl⟩
  | cons pair rest ih =>
    obtain ⟨block, node, hmem, hobject, hlookup⟩ | ⟨hnone, hlookup⟩ := ih (Entries.set nodes pair.1.object pair.2)
    · exact .inl ⟨block, node, List.mem_cons_of_mem _ hmem, hobject, hlookup⟩
    · by_cases hobject : pair.1.object = object
      · refine .inl ⟨pair.1, pair.2, List.mem_cons_self, hobject, ?_⟩
        rw [assign, List.foldl_cons, ← assign, hlookup, Entries.lookup_set, if_pos hobject.symm]
      · refine .inr ⟨fun other hother ↦ ?_, ?_⟩
        · obtain rfl | hother := List.mem_cons.1 hother
          · exact hobject
          · exact hnone other hother
        · rw [assign, List.foldl_cons, ← assign, hlookup, Entries.lookup_set, if_neg (Ne.symm hobject)]

variable {xs : List RootContent} {ys : List LexicalNode}

theorem getElem?_of_mem_zip {block : RootContent} {node : LexicalNode}
    (h : (block, node) ∈ xs.zip ys) : ∃ i : Nat, xs[i]? = some block ∧ ys[i]? = some node := by
  obtain ⟨i, hi⟩ := List.getElem?_of_mem h
  exact ⟨i, List.getElem?_zip_eq_some.1 hi⟩

theorem zip_none (hlength : ys.length = xs.length) {object : Nat}
    (h : ∀ pair ∈ xs.zip ys, pair.1.object ≠ object) : ∀ block ∈ xs, block.object ≠ object := by
  intro block hblock
  rw [← List.map_fst_zip (Nat.le_of_eq hlength.symm)] at hblock
  obtain ⟨pair, hpair, rfl⟩ := List.mem_map.1 hblock
  exact h pair hpair

section Ordered

variable {create : Create} {live : LiveDocument} {before after : List RootContent} {ordered : List LexicalNode}

theorem freshBlocks_eq (hmatch : live.addressable.length = before.length) :
    (after.filter fun block ↦ ((assign [] (before.zip live.addressable)).lookup block.object).isNone) =
      freshBlocks before after := by
  refine List.filter_congr fun block _ ↦ ?_
  obtain ⟨other, node, hmem, hobject, hlookup⟩ | ⟨hnone, hlookup⟩ :=
    assign_cases (before.zip live.addressable) [] block.object
  · have hread : before.any (·.object == block.object) = true :=
      List.any_eq_true.2 ⟨other, (List.of_mem_zip hmem).1, beq_iff_eq.2 hobject⟩
    rw [hlookup, hread]
    rfl
  · have hread : before.any (·.object == block.object) = false := by
      rw [List.any_eq_false]
      exact fun other hother hsame ↦ zip_none hmatch hnone other hother (beq_iff_eq.1 hsame)
    rw [hlookup, hread]
    rfl

/-- The node of a block, when both lists of nodes are as long as they should be. -/
theorem nodeOf_spec {created : List LexicalNode} (hmatch : live.addressable.length = before.length)
    (hcount : created.length = (freshBlocks before after).length) {block : RootContent} (hblock : block ∈ after) :
    ∃ node, nodeOf (assign (assign [] (before.zip live.addressable)) ((freshBlocks before after).zip created)) block =
        .ok node ∧ Stands before live.addressable (freshBlocks before after) created block node := by
  obtain ⟨other, node, hmem, hobject, hlookup⟩ | ⟨hnone, hlookup⟩ :=
    assign_cases ((freshBlocks before after).zip created) (assign [] (before.zip live.addressable)) block.object
  · obtain ⟨i, hother, hnode⟩ := getElem?_of_mem_zip hmem
    have hnew := (List.mem_filter.1 (List.mem_of_getElem? hother)).2
    rw [Bool.not_eq_true', List.any_eq_false, hobject] at hnew
    exact ⟨node, by rw [nodeOf, hlookup],
      .built i other (fun read hread hsame ↦ hnew read hread (beq_iff_eq.2 hsame)) hother hobject hnode⟩
  · obtain ⟨other, node, hmem, hobject, hfound⟩ | ⟨hnone', -⟩ :=
      assign_cases (before.zip live.addressable) [] block.object
    · obtain ⟨i, hother, hnode⟩ := getElem?_of_mem_zip hmem
      exact ⟨node, by rw [nodeOf, hlookup, hfound], .kept i other hother hobject hnode⟩
    · -- what was not read is among what was built
      have hfresh : block ∈ freshBlocks before after := by
        refine List.mem_filter.2 ⟨hblock, ?_⟩
        rw [Bool.not_eq_true', List.any_eq_false]
        exact fun read hread hsame ↦ zip_none hmatch hnone' read hread (beq_iff_eq.1 hsame)
      exact absurd rfl (zip_none hcount hnone block hfresh)

/-- **Each block stands for one node**, unless the import built another number of them. -/
theorem orderedNodes_spec (create : Create) (after : List RootContent)
    (hmatch : live.addressable.length = before.length) :
    ((create live.nextKey (freshBlocks before after)).1.length ≠ (freshBlocks before after).length ∧
      orderedNodes create live.toDocument before after = .error "a plan block did not import to exactly one node") ∨
    ∃ ordered, orderedNodes create live.toDocument before after =
        .ok (ordered, (create live.nextKey (freshBlocks before after)).2) ∧
      List.Forall₂ (Stands before live.addressable (freshBlocks before after)
        (create live.nextKey (freshBlocks before after)).1) after ordered := by
  rw [orderedNodes]
  dsimp only
  rw [if_neg (not_not_intro hmatch), freshBlocks_eq hmatch]
  by_cases hcount : (create live.nextKey (freshBlocks before after)).1.length = (freshBlocks before after).length
  · right
    rw [if_neg (not_not_intro hcount)]
    obtain ⟨ordered, hordered, hstands⟩ := Except.mapM_ok_forall₂ fun block hblock ↦ nodeOf_spec hmatch hcount hblock
    exact ⟨ordered, by rw [hordered]; rfl, hstands⟩
  · left
    rw [if_pos hcount]
    exact ⟨hcount, rfl⟩

/-! ## The edit -/

section Nodes

variable {fresh : List RootContent} {created : List LexicalNode}

variable {node : LexicalNode}

theorem Stands.mem {block : RootContent}
    (h : Stands before live.addressable fresh created block node) : node ∈ live.addressable ∨ node ∈ created := by
  obtain ⟨i, other, -, -, hthere⟩ | ⟨i, other, -, -, -, hthere⟩ := h
  · exact .inl (List.mem_of_getElem? hthere)
  · exact .inr (List.mem_of_getElem? hthere)

theorem addressable_distinct (live : LiveDocument) : (live.addressable.map (·.key)).Nodup :=
  (List.filter_sublist.map _).nodup live.distinct

/-- One block to a node. -/
theorem Stands.object_eq (hcreated : (created.map (·.key)).Nodup) (hfresh : ∀ node ∈ created, live.nextKey ≤ node.key)
    {left right : RootContent} {other : LexicalNode} (h : Stands before live.addressable fresh created left node)
    (h' : Stands before live.addressable fresh created right other) (hkey : node.key = other.key) :
    left.object = right.object := by
  have hplace : ∀ {nodes : List LexicalNode} {i j : Nat}, (nodes.map (·.key)).Nodup → nodes[i]? = some node →
      nodes[j]? = some other → i = j := by
    intro nodes i j hnodup hi hj
    have hi' : (nodes.map (·.key))[i]? = some node.key := by rw [List.getElem?_map, hi]; rfl
    have hj' : (nodes.map (·.key))[j]? = some node.key := by rw [List.getElem?_map, hj, hkey]; rfl
    obtain ⟨hlt, hget⟩ := List.getElem?_eq_some_iff.1 hi'
    obtain ⟨hlt', hget'⟩ := List.getElem?_eq_some_iff.1 hj'
    exact (List.Nodup.getElem_inj_iff hnodup).1 (hget.trans hget'.symm)
  have hapart : ∀ {node other : LexicalNode}, node ∈ live.addressable → other ∈ created → node.key ≠ other.key := by
    intro node other hnode hother
    have hlt := live.known node (List.mem_filter.1 hnode).1
    have hle := hfresh other hother
    omega
  obtain ⟨i, read, hread, hsame, hthere⟩ | ⟨i, read, -, hread, hsame, hthere⟩ := h
  · obtain ⟨j, read', hread', hsame', hthere'⟩ | ⟨j, read', -, hread', hsame', hthere'⟩ := h'
    · obtain rfl := hplace (addressable_distinct live) hthere hthere'
      obtain rfl := Option.mem_unique hread hread'
      exact hsame.symm.trans hsame'
    · exact absurd hkey (hapart (List.mem_of_getElem? hthere) (List.mem_of_getElem? hthere'))
  · obtain ⟨j, read', hread', hsame', hthere'⟩ | ⟨j, read', -, hread', hsame', hthere'⟩ := h'
    · exact absurd hkey.symm (hapart (List.mem_of_getElem? hthere') (List.mem_of_getElem? hthere))
    · obtain rfl := hplace hcreated hthere hthere'
      obtain rfl := Option.mem_unique hread hread'
      exact hsame.symm.trans hsame'

theorem ordered_distinct (hcreated : (created.map (·.key)).Nodup) (hfresh : ∀ node ∈ created, live.nextKey ≤ node.key)
    (hstands : List.Forall₂ (Stands before live.addressable fresh created) after ordered)
    (hdistinct : (after.map (·.object)).Nodup) : (ordered.map (·.key)).Nodup := by
  induction hstands with
  | nil => exact List.nodup_nil
  | cons hfirst hrest ih =>
    rw [List.map_cons, List.nodup_cons] at hdistinct ⊢
    refine ⟨fun hmem ↦ ?_, ih hdistinct.2⟩
    obtain ⟨other, hother, hkey⟩ := List.mem_map.1 hmem
    obtain ⟨block, hblock, hstands⟩ := hrest.exists_of_mem hother
    exact hdistinct.1 (hfirst.object_eq hcreated hfresh hstands hkey.symm ▸ List.mem_map_of_mem hblock)

end Nodes

/-- What the edit leaves: the blocks, with the title first if the document has one, and the empty paragraphs. -/
structure Reconciled (live : Document) (titleKey : Option Nat) (ordered : List LexicalNode) (result : Document) :
    Prop where
  carets : result.root.filter (·.caret) ~ live.root.filter (·.caret)
  once : (ordered.map (·.key)).Nodup
  untitled : titleKey = none → result.addressable = ordered
  titled : titleKey.isSome → ∃ title, result.titleKey = some title.key ∧ title.type = .heading "h1" ∧
    result.addressable = title :: ordered.filter (·.key != title.key)
  /-- A title that the sequence begins with stays where it is. -/
  led : ∀ first rest, ordered = first :: rest → first.isHeading = true → titleKey = some first.key →
    ∃ title, title.key = first.key ∧ title.type = .heading "h1" ∧ result.addressable = title :: rest

/-- The nodes in their order are blocks, and have other keys than the empty paragraphs. -/
theorem ordered_apart (himports : Imports create)
    (hstands : List.Forall₂ (Stands before live.addressable (freshBlocks before after)
      (create live.nextKey (freshBlocks before after)).1) after ordered) {node : LexicalNode} (hnode : node ∈ ordered) :
    node.caret = false ∧ node.key < (create live.nextKey (freshBlocks before after)).2 ∧
      ∀ other ∈ live.root.filter (·.caret), other.key ≠ node.key := by
  obtain ⟨block, -, hstands⟩ := hstands.exists_of_mem hnode
  obtain hlive | hcreated := hstands.mem
  · obtain ⟨hmem, hcaret⟩ := List.mem_filter.1 hlive
    have hcaret' : node.caret = false := by simpa using hcaret
    refine ⟨hcaret', Nat.lt_of_lt_of_le (live.known node hmem) (himports.counter _ _), fun other hother hkey ↦ ?_⟩
    obtain rfl := List.inj_on_of_nodup_map live.distinct (List.mem_filter.1 hother).1 hmem hkey
    exact absurd (List.mem_filter.1 hother).2 (by simp [hcaret'])
  · obtain ⟨hle, hlt⟩ := himports.fresh _ _ node hcreated
    refine ⟨himports.authored _ _ node hcreated, hlt, fun other hother hkey ↦ ?_⟩
    exact absurd (live.known other (List.mem_filter.1 hother).1) (by omega)

theorem rearrange_distinct (himports : Imports create)
    (hstands : List.Forall₂ (Stands before live.addressable (freshBlocks before after)
      (create live.nextKey (freshBlocks before after)).1) after ordered) (honce : (ordered.map (·.key)).Nodup) :
    ((rearrange live.root ordered).map (·.key)).Nodup := by
  rw [((rearrange_perm honce live.distinct).map _).nodup_iff, List.map_append, List.nodup_append']
  refine ⟨honce, (List.filter_sublist.map _).nodup live.distinct, fun key hkey hcaret ↦ ?_⟩
  obtain ⟨node, hnode, rfl⟩ := List.mem_map.1 hkey
  obtain ⟨other, hother, hsame⟩ := List.mem_map.1 hcaret
  exact (ordered_apart himports hstands hnode).2.2 other hother hsame

theorem rearrange_known (himports : Imports create)
    (hstands : List.Forall₂ (Stands before live.addressable (freshBlocks before after)
      (create live.nextKey (freshBlocks before after)).1) after ordered) (honce : (ordered.map (·.key)).Nodup) :
    ∀ node ∈ rearrange live.root ordered, node.key < (create live.nextKey (freshBlocks before after)).2 := by
  intro node hnode
  obtain hnode | hnode := List.mem_append.1 ((rearrange_perm honce live.distinct).mem_iff.1 hnode)
  · exact (ordered_apart himports hstands hnode).2.1
  · exact Nat.lt_of_lt_of_le (live.known node (List.mem_filter.1 hnode).1) (himports.counter _ _)

/-- The document as the edit itself leaves it. -/
def rearranged (create : Create) (live : Document) (before after : List RootContent) (ordered : List LexicalNode) :
    Document :=
  { live with
    titleKey := titleKeyOf live before after ordered
    root := rearrange live.root ordered
    nextKey := (create live.nextKey (freshBlocks before after)).2 }

variable {target : Document}

theorem mutate_ok (change : Document → Except String (Document × Bool)) (changed : Document)
    (h : change target = .ok (changed, true)) :
    mutate target change =
      .ok (if changed.titleKey.isSome then (normalizeTitle changed "").1 else changed, true) := by
  have hbool : ∀ normalized : Bool, (normalized || true) = true := Bool.or_true
  rw [mutate, h, Except.map]
  dsimp only
  split
  · rw [hbool]
  · rfl

theorem reconcile_ok (h : orderedNodes create target before after =
    .ok (ordered, (create target.nextKey (freshBlocks before after)).2)) :
    reconcile create target before after = .ok
      (if (titleKeyOf target before after ordered).isSome then
        (normalizeTitle (rearranged create target before after ordered) "").1
      else rearranged create target before after ordered, true) := by
  rw [reconcile]
  refine mutate_ok _ (rearranged create target before after ordered) ?_
  rw [h]
  rfl

/-- **An edit keeps every block it is given, and every empty paragraph.**  The nodes are in the order of the
sequence, each once, and the document is these, but for a title, which comes first whatever the sequence says.
An import that builds another number of nodes than it was asked for is refused. -/
theorem reconcile_conserves (himports : Imports create) (live : LiveDocument) (before after : List RootContent)
    (hmatch : live.addressable.length = before.length) (hdistinct : (after.map (·.object)).Nodup) :
    ((create live.nextKey (freshBlocks before after)).1.length ≠ (freshBlocks before after).length ∧
      reconcile create live.toDocument before after = .error "a plan block did not import to exactly one node") ∨
    ∃ (ordered : List LexicalNode) (result : LiveDocument),
      reconcile create live.toDocument before after = .ok (result.toDocument, true) ∧
      List.Forall₂ (Stands before live.addressable (freshBlocks before after)
        (create live.nextKey (freshBlocks before after)).1) after ordered ∧
      Reconciled live.toDocument (titleKeyOf live.toDocument before after ordered) ordered result.toDocument := by
  obtain ⟨hcount, herror⟩ | ⟨ordered, hordered, hstands⟩ := orderedNodes_spec create after hmatch
  · refine .inl ⟨hcount, ?_⟩
    rw [reconcile, mutate, herror]
    rfl
  refine .inr ⟨ordered, ?_⟩
  have honce := ordered_distinct (himports.distinct _ _) (fun node hnode ↦ (himports.fresh _ _ node hnode).1)
    hstands hdistinct
  have hroot := rearrange_distinct himports hstands honce
  have hknown := rearrange_known himports hstands honce
  have hblocks := rearrange_blocks honce live.distinct fun node hnode ↦ (ordered_apart himports hstands hnode).1
  have hcarets : (rearrange live.root ordered).filter (·.caret) ~ live.root.filter (·.caret) := by
    refine ((rearrange_perm honce live.distinct).filter _).trans ?_
    rw [List.filter_append, List.filter_filter, List.filter_eq_nil_iff.2]
    · simp
    · intro node hnode
      rw [(ordered_apart himports hstands hnode).1]
      exact Bool.false_ne_true
  rw [reconcile_ok hordered]
  cases hkey : titleKeyOf live.toDocument before after ordered with
  | none =>
    refine ⟨⟨rearranged create live.toDocument before after ordered, hroot, hknown⟩, rfl, hstands, ?_⟩
    exact ⟨hcarets, honce, fun _ ↦ hblocks, fun h ↦ (nomatch h), fun _ _ _ _ h ↦ (nomatch h)⟩
  | some key =>
    obtain ⟨title, htitled⟩ :
        ∃ title, Titled (rearranged create live.toDocument before after ordered)
          (normalizeTitle (rearranged create live.toDocument before after ordered) "").1 title :=
      normalizeTitle_titled hknown ""
    have haddressable := htitled.addressable
    rw [show (rearranged create live.toDocument before after ordered).addressable = ordered from hblocks]
      at haddressable
    refine ⟨⟨(normalizeTitle (rearranged create live.toDocument before after ordered) "").1, htitled.distinct hroot,
      htitled.root_known hknown⟩, rfl, hstands, ?_, honce, fun h ↦ (nomatch h),
      fun _ ↦ ⟨title, htitled.titleKey, htitled.type, haddressable⟩, ?_⟩
    · rw [htitled.carets hroot hknown]
      exact hcarets
    · rintro first rest rfl hheading hfirst
      have hmem : first ∈ rearrange live.root (first :: rest) := by
        refine (List.mem_filter (p := (!·.caret)).1 ?_).1
        rw [hblocks]
        exact List.mem_cons_self
      have hsame := htitled.kept first (titleHeading_of_key hroot hmem hheading (hkey.trans hfirst))
      rw [List.map_cons, List.nodup_cons] at honce
      refine ⟨title, hsame, htitled.type, haddressable.trans ?_⟩
      rw [hsame, List.filter_cons_of_neg (by simp), List.filter_eq_self.2]
      exact fun other hother ↦ bne_iff_ne.2 fun heq ↦ honce.1 (heq ▸ List.mem_map_of_mem hother)

end Ordered

/-! ## A document to edit -/

/-- One node to a block: a heading of the first level or a paragraph, with the text of the block in it. -/
def written (key : Nat) (block : RootContent) : LexicalNode :=
  ⟨key, if block.isTitle then .heading "h1" else .paragraph, [⟨block.node.content, true⟩]⟩

def write : Create := fun next blocks ↦
  (blocks.zipIdx.map fun entry ↦ written (next + entry.2) entry.1, next + blocks.length)

theorem write_imports : Imports write := by
  have hkeys : ∀ next (blocks : List RootContent), (write next blocks).1.map (·.key) =
      (List.range' 0 blocks.length).map (next + ·) := by
    intro next blocks
    rw [write, ← List.zipIdx_map_snd, List.map_map, List.map_map]
    rfl
  refine ⟨fun next blocks ↦ ?_, fun next blocks node hnode ↦ ?_, fun next blocks ↦ Nat.le_add_right _ _,
    fun next blocks node hnode ↦ ?_⟩
  · rw [hkeys]
    exact List.Nodup.map (fun _ _ h ↦ Nat.add_left_cancel h) List.nodup_range'
  · have hkey := List.mem_map_of_mem (f := (·.key)) hnode
    rw [hkeys] at hkey
    obtain ⟨i, hi, hkey⟩ := List.mem_map.1 hkey
    rw [List.mem_range'_1] at hi
    have hnext : (write next blocks).2 = next + blocks.length := rfl
    omega
  · obtain ⟨entry, -, rfl⟩ := List.mem_map.1 hnode
    rw [LexicalNode.caret, written, List.isEmpty_cons, Bool.and_false]

/-- A block of the sample, with one text in it. -/
def block (object : Nat) (type text : String) (depth : Option Nat) : RootContent :=
  ⟨object, .mk (.markdown type) none [] none (some text) [], depth⟩

/-- Two paragraphs, and an empty one after each. -/
def twoParagraphs : LiveDocument where
  titleKey := none
  titleBodyKeys := none
  epoch := ""
  root := [⟨1, .paragraph, [⟨"One.", true⟩]⟩, ⟨2, .paragraph, []⟩, ⟨3, .paragraph, [⟨"Two.", true⟩]⟩,
    ⟨4, .paragraph, []⟩]
  nextKey := 5
  distinct := by decide
  known := by decide

theorem reconcile_conserves_sample : ∃ (ordered : List LexicalNode) (result : LiveDocument),
    reconcile write twoParagraphs.toDocument [block 1 "paragraph" "One." none, block 2 "paragraph" "Two." none]
      [block 3 "paragraph" "Three." none, block 1 "paragraph" "One." none] = .ok (result.toDocument, true) ∧
    List.Forall₂ (Stands [block 1 "paragraph" "One." none, block 2 "paragraph" "Two." none] twoParagraphs.addressable
      [block 3 "paragraph" "Three." none] (write 5 [block 3 "paragraph" "Three." none]).1)
      [block 3 "paragraph" "Three." none, block 1 "paragraph" "One." none] ordered ∧
    Reconciled twoParagraphs.toDocument none ordered result.toDocument :=
  (reconcile_conserves write_imports twoParagraphs
    [block 1 "paragraph" "One." none, block 2 "paragraph" "Two." none]
    [block 3 "paragraph" "Three." none, block 1 "paragraph" "One." none] rfl (by decide)).resolve_left
      fun h ↦ h.1 rfl

/-- A title that the edit leaves out is in the document all the same, as an empty heading. -/
theorem title_put_back : (reconcile write
        ⟨some 1, none, "", [⟨1, .heading "h1", [⟨"Title", true⟩]⟩, ⟨2, .paragraph, [⟨"One.", true⟩]⟩], 3⟩
        [block 1 "heading" "Title" (some 1), block 2 "paragraph" "One." none]
        [block 2 "paragraph" "One." none]).toOption.map (fun result ↦ result.1.addressable) =
      some [⟨3, .heading "h1", []⟩, ⟨2, .paragraph, [⟨"One.", true⟩]⟩] := by
  decide

end Chopin.Room
