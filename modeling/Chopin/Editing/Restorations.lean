import Chopin.Editing.EditFacts
import Chopin.Editing.Rewrites
import Chopin.Lib.Filing
import Mathlib.Data.List.Induction
import Mathlib.Data.List.Permutation

/-!
# Restoring an earlier version

A restored document has the prose of the earlier version and the projections of the current one: each of
these once, as it is now, after the block it follows or the projection before it.  The guard of a rewrite,
which knows nothing of restoring, lets it through.
-/

set_option autoImplicit false

open Script

open scoped List

namespace Chopin.Editing

variable {dialect : Dialect} {records : List String}

/-! ## Filing projections -/

/-- The name of a node that is a projection of one of these kinds. -/
def Node.recorded (records : List String) (node : Node) : Option String :=
  if node.kind.component then node.name.filter records.contains else none

/-- The id a projection is filed under, or what is wrong with it. -/
def keyed (records : List String) (node : Node) : Option (Except Fault String) :=
  (node.recorded records).map fun name ↦
    match node.componentId.filter (· ≠ "") with
    | none => .error (.failure s!"a {name} projection is missing its id")
    | some id => .ok id

def twice (id : String) : Fault := .failure ("`" ++ id ++ "` appears twice")

theorem isSome_keyed (node : Node) : (keyed records node).isSome = (node.recorded records).isSome := Option.isSome_map

variable {node : Node}

/-- A projection is filed under its id, which is not empty. -/
theorem keyed_eq_ok {id : String} : keyed records node = some (.ok id) ↔
    (node.recorded records).isSome = true ∧ node.componentId = some id ∧ id ≠ "" := by
  rw [keyed]
  cases node.recorded records with
  | none => simp
  | some name =>
    rw [Option.map_some]
    cases hid : node.componentId.filter (· ≠ "") with
    | none =>
      refine iff_of_false nofun ?_
      rintro ⟨-, hown, hnamed⟩
      rw [hown, Option.filter_some_pos (by simpa using hnamed)] at hid
      cases hid
    | some other =>
      obtain ⟨hown, hnamed⟩ := Option.filter_eq_some_iff.1 hid
      rw [hown]
      simp only [Option.some.injEq, Except.ok.injEq, Option.isSome_some, true_and]
      refine ⟨fun heq ↦ ⟨heq, heq ▸ by simpa using hnamed⟩, And.left⟩

theorem collect_eq_file : collect dialect =
    Filing.file (keyed PROTECTED_PROJECTIONS) twice fun node ↦ (dialect.serialize [node]).mapError .thrown := by
  funext found node
  rw [collect, Filing.file, keyed]
  have hsame : node.projection = node.recorded PROTECTED_PROJECTIONS := rfl
  rw [hsame]
  cases node.recorded PROTECTED_PROJECTIONS with
  | none => rfl
  | some name =>
    dsimp only [Option.map_some]
    cases node.componentId.filter (· ≠ "") <;> rfl

/-! ## Collecting projections -/

/-- Whether a block is or holds a projection. -/
def Node.holds (node : Node) : Bool := node.walk.any fun inner ↦ inner.projection.isSome

/-- The projections in these blocks. -/
def cards (nodes : List Node) : List Node := nodes.filter fun node ↦ node.projection.isSome

/-- What a projection is filed as. -/
structure Filed (dialect : Dialect) (node : Node) (entry : String × String) : Prop where
  id : node.componentId = some entry.1
  named : entry.1 ≠ ""
  source : dialect.serialize [node] = .ok entry.2

theorem filed_iff {entry : String × String} :
    Filing.Filed (keyed PROTECTED_PROJECTIONS) (fun node ↦ (dialect.serialize [node]).mapError .thrown) node entry ↔
      node.projection.isSome = true ∧ Filed dialect node entry := by
  constructor
  · rintro ⟨hkey, hvalue⟩
    obtain ⟨hcard, hid, hnamed⟩ := keyed_eq_ok.1 hkey
    exact ⟨hcard, hid, hnamed, Except.mapError_eq_ok.1 hvalue⟩
  · rintro ⟨hcard, hid, hnamed, hsource⟩
    exact ⟨keyed_eq_ok.2 ⟨hcard, hid, hnamed⟩, Except.mapError_eq_ok.2 hsource⟩

variable {nodes : List Node}

/-- What the collection is: each projection filed under an id of its own. -/
theorem collectProjections_ok {out : List (String × String)} : collectProjections dialect nodes = .ok out ↔
      List.Forall₂ (Filed dialect) (cards (Node.walkAll nodes)) out ∧ (out.map Prod.fst).Nodup := by
  have hcards : (Node.walkAll nodes).filter (fun node ↦ (keyed PROTECTED_PROJECTIONS node).isSome) =
      cards (Node.walkAll nodes) := by
    simp only [isSome_keyed]
    rfl
  have hfiled : Filing.Filed (keyed PROTECTED_PROJECTIONS) (fun node ↦ (dialect.serialize [node]).mapError .thrown) =
      fun node entry ↦ node.projection.isSome = true ∧ Filed dialect node entry :=
    funext₂ fun _ _ ↦ propext filed_iff
  rw [collectProjections, collect_eq_file, Filing.foldlM_file_nil, hcards, hfiled, List.forall₂_and_left]
  refine and_congr_left fun _ ↦ and_iff_right fun node hnode ↦ ?_
  exact (List.mem_filter.1 hnode).2

theorem cards_eq_nil : cards node.walk = [] ↔ node.holds = false := by
  rw [cards, List.filter_eq_nil_iff, Node.holds, List.any_eq_false]

variable {found : List (String × String)}

/-- What the serializer writes of every projection, the collection does not fail for. -/
theorem foldlM_collect_thrown {message : String}
    (hwritten : ∀ node ∈ nodes, node.projection.isSome = true → ∃ source, dialect.serialize [node] = .ok source) :
    nodes.foldlM (collect dialect) found ≠ .error (.thrown message) := by
  induction nodes generalizing found with
  | nil => exact fun h ↦ nomatch h
  | cons node rest ih =>
    intro h
    rw [List.foldlM_cons] at h
    cases hfirst : collect dialect found node with
    | ok middle =>
      rw [hfirst] at h
      exact ih (fun other hother ↦ hwritten other (List.mem_cons_of_mem _ hother)) h
    | error fault =>
      rw [hfirst, Except.error_bind] at h
      obtain rfl := Except.error.inj h
      rw [collect] at hfirst
      cases hname : node.projection with
      | none =>
        rw [hname] at hfirst
        cases hfirst
      | some name =>
        obtain ⟨source, hsource⟩ := hwritten node List.mem_cons_self (by rw [hname]; rfl)
        rw [hname] at hfirst
        dsimp only at hfirst
        split at hfirst
        · cases hfirst
        · split at hfirst
          · cases hfirst
          · rw [hsource] at hfirst
            cases hfirst

theorem holdsProjection_ok (hwritten : ∀ inner ∈ node.walk, inner.projection.isSome = true →
    ∃ source, dialect.serialize [inner] = .ok source) : holdsProjection dialect node = .ok node.holds := by
  have hwalk : Node.walkAll [node] = node.walk := by
    rw [walkAll_eq_flatMap, List.flatMap_singleton]
  rw [holdsProjection]
  cases hcollect : collectProjections dialect [node] with
  | ok found =>
    dsimp only
    have hfiled := (collectProjections_ok.1 hcollect).1
    rw [hwalk] at hfiled
    cases hholds : node.holds with
    | true =>
      have hlength : 0 < found.length := by
        rw [← hfiled.length_eq, List.length_pos_iff]
        exact fun hnil ↦ Bool.false_ne_true ((cards_eq_nil.1 hnil).symm.trans hholds)
      rw [decide_eq_true hlength]
    | false =>
      rw [cards_eq_nil.2 hholds] at hfiled
      cases hfiled
      rfl
  | error fault =>
    cases fault with
    | failure message =>
      dsimp only
      cases hholds : node.holds with
      | true => rfl
      | false =>
        have hnone : collectProjections dialect [node] = .ok [] := by
          rw [collectProjections_ok, hwalk, cards_eq_nil.2 hholds]
          exact ⟨.nil, List.nodup_nil⟩
        rw [hnone] at hcollect
        cases hcollect
    | thrown message =>
      rw [collectProjections, hwalk] at hcollect
      exact absurd hcollect (foldlM_collect_thrown hwritten)

/-! ## What follows what -/

/-- What writing a document and reading it again does to its blocks: a projection is written as something, and
blocks that are written one after another are read again. -/
structure Dialect.RoundTrips (dialect : Dialect) (nodes : List Node) : Prop where
  projection : ∀ node ∈ Node.walkAll nodes, node.projection.isSome = true →
    ∃ source, dialect.serialize [node] = .ok source ∧ source ≠ ""
  read : ∀ blocks, blocks <+~ nodes → ∃ source, dialect.serialize blocks = .ok source ∧ dialect.parse source = .ok blocks

section Placing

variable {nodes : List Node}

theorem Dialect.RoundTrips.holds (h : dialect.RoundTrips nodes) (hmem : node ∈ nodes) :
    holdsProjection dialect node = .ok node.holds := by
  refine holdsProjection_ok fun inner hinner hcard ↦ ?_
  obtain ⟨source, hsource, -⟩ := h.projection inner (mem_walkAll hmem hinner) hcard
  exact ⟨source, hsource⟩

theorem Dialect.RoundTrips.fingerprint (h : dialect.RoundTrips nodes) (hmem : node ∈ nodes) :
    ∃ digest, fingerprint dialect node = .ok digest := by
  obtain ⟨source, hsource, -⟩ := h.read [node] (List.singleton_subperm_iff.2 hmem)
  exact ⟨_, by rw [Editing.fingerprint, hsource]; rfl⟩

variable {blocks : List Held}

theorem kept_ok (h : dialect.RoundTrips nodes) (hmem : ∀ block ∈ blocks, block.node ∈ nodes) :
    kept dialect blocks = .ok (blocks.filter (!·.node.holds)) := by
  induction blocks with
  | nil => rfl
  | cons block rest ih =>
    rw [kept, h.holds (hmem block List.mem_cons_self), Except.ok_bind,
      ih fun other hother ↦ hmem other (List.mem_cons_of_mem _ hother), Except.ok_bind, List.filter_cons]
    cases block.node.holds with
    | true => rfl
    | false => rfl

theorem unusedAt_ok (h : dialect.RoundTrips nodes) (used : List Nat) (digest : String)
    (hmem : ∀ block ∈ blocks, block.node ∈ nodes) (first : Nat) :
    ∃ found, unusedAt dialect used digest first blocks = .ok found := by
  induction blocks generalizing first with
  | nil => exact ⟨none, rfl⟩
  | cons block rest ih =>
    obtain ⟨found, hfound⟩ := ih (fun other hother ↦ hmem other (List.mem_cons_of_mem _ hother)) (first + 1)
    rw [unusedAt]
    split
    · exact ⟨found, hfound⟩
    · obtain ⟨own, hown⟩ := h.fingerprint (hmem block List.mem_cons_self)
      rw [hown, Except.ok_bind]
      split
      · exact ⟨some first, rfl⟩
      · exact ⟨found, hfound⟩

/-- Where the projections go, once these blocks are read. -/
structure Placed (restored read : List Held) (state : Placing) : Prop where
  attached : Attach.Attached restored state.placed
  all : state.placed.map Prod.fst = read.filter (·.node.holds)
  previous : ∀ block ∈ state.previous, block ∈ read
  last : ∀ block ∈ state.lastPlaced, block ∈ state.placed.map Prod.fst

variable {restored : List Held}

theorem Placed.step (h : dialect.RoundTrips nodes) {read : List Held} {state : Placing} {block : Held}
    (hrestored : ∀ other ∈ restored, other.node ∈ nodes) (hread : ∀ other ∈ read ++ [block], other.node ∈ nodes)
    (hstate : Placed restored read state) :
    ∃ after, place dialect restored state block = .ok after ∧ Placed restored (read ++ [block]) after := by
  have hblock : block.node ∈ nodes := hread block List.mem_concat_self
  rw [place, h.holds hblock, Except.ok_bind]
  have hprevious : ∀ other ∈ state.previous, other ∈ read ++ [block] :=
    fun other hother ↦ List.mem_append_left _ (hstate.previous other hother)
  cases hholds : block.node.holds with
  | false =>
    refine ⟨_, rfl, hstate.attached, ?_, fun other hother ↦ ?_, hstate.last⟩
    · rw [hstate.all, List.filter_append, List.filter_singleton, hholds]
      exact (List.append_nil _).symm
    · cases hother
      exact List.mem_concat_self
  | true =>
    have hall : read.filter (·.node.holds) ++ [block] = (read ++ [block]).filter (·.node.holds) := by
      rw [List.filter_append, List.filter_singleton, hholds]
      rfl
    have hplaced (anchor : Option Held) : (state.placed ++ [(block, anchor)]).map Prod.fst =
        (read ++ [block]).filter (·.node.holds) := by
      rw [List.map_append, hstate.all, ← hall]
      rfl
    have hlast (anchor : Option Held) : ∀ other ∈ some block, other ∈ (state.placed ++ [(block, anchor)]).map Prod.fst := by
      intro other hother
      cases hother
      rw [List.map_append]
      exact List.mem_concat_self
    -- the anchor is one of the blocks that stay, or the projection before
    obtain ⟨index, hindex⟩ : ∃ index, indexAfter dialect restored state = .ok index := by
      rw [indexAfter]
      cases hprev : state.previous with
      | none => exact ⟨none, rfl⟩
      | some previous =>
        obtain ⟨digest, hdigest⟩ := h.fingerprint (hread previous (hprevious previous hprev))
        obtain ⟨index, hfound⟩ := unusedAt_ok h state.used digest hrestored 0
        exact ⟨index, by dsimp only; rw [hdigest, Except.ok_bind, hfound]⟩
    rw [if_pos rfl, hindex, Except.ok_bind]
    cases index with
    | none =>
      exact ⟨_, rfl, .snoc _ _ _ hstate.attached fun b hb ↦ .inr (hstate.last b hb), hplaced _, hprevious, hlast _⟩
    | some i =>
      refine ⟨_, rfl, .snoc _ _ _ hstate.attached fun b hb ↦ .inl (List.mem_of_getElem? hb), hplaced _, hprevious,
        hlast _⟩

theorem place_attached (h : dialect.RoundTrips nodes)
    (hrestored : ∀ other ∈ restored, other.node ∈ nodes) (hblocks : ∀ other ∈ blocks, other.node ∈ nodes) :
    ∃ state, blocks.foldlM (place dialect restored) ⟨[], [], none, none⟩ = .ok state ∧
      Placed restored blocks state := by
  induction blocks using List.reverseRecOn with
  | nil => exact ⟨_, rfl, .nil, rfl, fun _ hnone ↦ (nomatch hnone), fun _ hnone ↦ (nomatch hnone)⟩
  | append_singleton read block ih =>
    obtain ⟨state, hstate, hplaced⟩ := ih fun other hother ↦ hblocks other (List.mem_append_left _ hother)
    obtain ⟨after, hafter, hplaced'⟩ := hplaced.step h hrestored hblocks
    refine ⟨after, ?_, hplaced'⟩
    rw [List.foldlM_append, hstate, Except.ok_bind, List.foldlM_cons, hafter]
    rfl

end Placing

/-! ## The restored document -/

variable {now : List Node}

variable {earlier : List Node}

/-- The blocks of a restored document: the current projections, and the earlier version's other blocks in order. -/
theorem restoredBlocks_ok (h : dialect.RoundTrips (now ++ earlier)) :
    ∃ children, restoredBlocks dialect now earlier = .ok children ∧
      children ~ (held now).filter (·.node.holds) ++ (supplied 0 earlier).filter (!·.node.holds) ∧
        children.filter (!·.node.holds) = (supplied 0 earlier).filter (!·.node.holds) := by
  have hearlier : ∀ block ∈ supplied 0 earlier, block.node ∈ now ++ earlier := by
    intro block hmem
    obtain ⟨index, hnode, -⟩ := mem_supplied.1 hmem
    exact List.mem_append_right _ (List.mem_of_getElem? hnode)
  have hnow : ∀ block ∈ held now, block.node ∈ now ++ earlier := by
    intro block hmem
    obtain ⟨index, hnode, -⟩ := mem_held.1 hmem
    exact List.mem_append_left _ (List.mem_of_getElem? hnode)
  obtain ⟨state, hstate, hplaced⟩ := place_attached h
    (fun block hmem ↦ hearlier block (List.mem_of_mem_filter hmem)) hnow
  have hnodup : ((state.placed.map Prod.fst ++ (supplied 0 earlier).filter (!·.node.holds)).map (·.origin)).Nodup := by
    rw [hplaced.all, List.map_append, List.nodup_append']
    refine ⟨(nodup_held now).sublist (List.filter_sublist.map _),
      (nodup_supplied 0 earlier).sublist (List.filter_sublist.map _), fun origin hleft hright ↦ ?_⟩
    obtain ⟨block, hblock, rfl⟩ := List.mem_map.1 hleft
    obtain ⟨other, hother, horigin⟩ := List.mem_map.1 hright
    obtain ⟨index, -, hbase⟩ := mem_held.1 (List.mem_of_mem_filter hblock)
    obtain ⟨place, -, hsupplied⟩ := mem_supplied.1 (List.mem_of_mem_filter hother)
    rw [hbase, hsupplied] at horigin
    cases horigin
  obtain ⟨children, hchildren, hperm, hkeeps⟩ := hplaced.attached.gather hnodup
  refine ⟨children, ?_, hplaced.all ▸ hperm, ?_⟩
  · rw [restoredBlocks, kept_ok h hearlier, Except.ok_bind, hstate, Except.ok_bind, hchildren]
    rfl
  · rw [hkeeps (fun block ↦ !block.node.holds), List.filter_filter]
    · simp only [Bool.and_self]
    · intro block hmem
      rw [hplaced.all] at hmem
      rw [(List.mem_filter.1 hmem).2]
      rfl

theorem map_node_supplied (position : Nat) (nodes : List Node) : (supplied position nodes).map (·.node) = nodes := by
  rw [supplied, List.map_map]
  exact List.zipIdx_map_fst 0 nodes

theorem map_node_filter (keep : Node → Bool) (blocks : List Held) :
    (blocks.filter fun block ↦ keep block.node).map (·.node) = (blocks.map (·.node)).filter keep := by
  rw [List.filter_map]
  rfl

/-- The blocks without projections have nothing to file. -/
theorem cards_walkAll_filter (nodes : List Node) :
    cards (Node.walkAll (nodes.filter (·.holds))) = cards (Node.walkAll nodes) := by
  induction nodes with
  | nil => rfl
  | cons node rest ih =>
    rw [List.filter_cons]
    rw [cards, cards] at ih
    split
    · rw [cards, cards, Node.walkAll, Node.walkAll, List.filter_append, List.filter_append, ih]
    · rename_i hholds
      have hnone := cards_eq_nil.2 (Bool.not_eq_true _ ▸ hholds)
      rw [cards] at hnone
      rw [cards, cards, Node.walkAll, List.filter_append, hnone, List.nil_append, ih]

theorem cards_walkAll_none (nodes : List Node) : cards (Node.walkAll (nodes.filter (!·.holds))) = [] := by
  rw [cards, List.filter_eq_nil_iff]
  intro card hcard
  rw [walkAll_eq_flatMap] at hcard
  obtain ⟨node, hnode, hmem⟩ := List.mem_flatMap.1 hcard
  obtain ⟨-, hholds⟩ := List.mem_filter.1 hnode
  rw [Bool.not_eq_true', Node.holds, List.any_eq_false] at hholds
  exact hholds card hmem

/-- The projections of a restored document are those of the current one. -/
theorem cards_perm {children : List Node} (h : children ~ now.filter (·.holds) ++ earlier.filter (!·.holds)) :
    cards (Node.walkAll children) ~ cards (Node.walkAll now) := by
  have hwalk : Node.walkAll children ~
      Node.walkAll (now.filter (·.holds)) ++ Node.walkAll (earlier.filter (!·.holds)) := by
    simp only [walkAll_eq_flatMap, ← List.flatMap_append]
    exact h.flatMap_right _
  have hcards := hwalk.filter fun node ↦ node.projection.isSome
  rw [List.filter_append] at hcards
  have hnone := cards_walkAll_none earlier
  have hsame := cards_walkAll_filter now
  rw [cards] at hnone hsame
  rwa [hnone, hsame, List.append_nil] at hcards

/-- The guard lets every document through that has the same projections. -/
theorem protectProjections_perm {next : List Node}
    (hfound : collectProjections dialect now = .ok found) (hperm : cards (Node.walkAll next) ~ cards (Node.walkAll now))
    (hwritten : ∀ node ∈ Node.walkAll now, node.projection.isSome = true →
      ∃ source, dialect.serialize [node] = .ok source ∧ source ≠ "") :
    protectProjections dialect now next = .ok none := by
  obtain ⟨hfiled, hnodup⟩ := collectProjections_ok.1 hfound
  obtain ⟨proposed, hproposed, hsame⟩ := List.perm_comp_forall₂ hperm hfiled
  have hnodup' : (proposed.map Prod.fst).Nodup := (hsame.map Prod.fst).nodup_iff.2 hnodup
  rw [protectProjections, hfound, collectProjections_ok.2 ⟨hproposed, hnodup'⟩]
  dsimp only
  have hkept : found.findSome? (mishandled proposed) = none := by
    rw [List.findSome?_eq_none_iff]
    rintro ⟨id, source⟩ hentry
    obtain ⟨node, hnode, hown⟩ := hfiled.exists_of_mem hentry
    obtain ⟨hmem, hcard⟩ := List.mem_filter.1 hnode
    obtain ⟨written, hserialize, hnonempty⟩ := hwritten node hmem hcard
    obtain rfl : written = source := Except.ok.inj (hserialize.symm.trans hown.source)
    have hlookup : proposed.lookup id = some written := Entries.lookup_of_mem hnodup' (hsame.mem_iff.2 hentry)
    rw [mishandled, hlookup, Option.filter_some_pos (by simpa using hnonempty)]
    exact if_neg (not_not_intro rfl)
  rw [hkept, Option.none_or, if_neg]
  rw [List.any_eq_true]
  rintro ⟨⟨id, source⟩, hentry, hnone⟩
  dsimp only at hnone
  rw [Entries.lookup_of_mem hnodup (hsame.mem_iff.1 hentry)] at hnone
  cases hnone

/-- **A restored document has the current projections and the earlier prose**: each block of the current document
that holds projections once and unchanged, the earlier version's other blocks once and in their order, and nothing
else; and where the current projections have ids of their own, the guard of a rewrite accepts it. -/
theorem restoration_keeps (dialect : Dialect) (current earlier : String) (now before : List Node)
    (hnow : dialect.parse current = .ok now) (hbefore : dialect.parse earlier = .ok before)
    (hround : dialect.RoundTrips (now ++ before)) :
    ∃ source children, restoration dialect current earlier = .ok source ∧ dialect.parse source = .ok children ∧
      children.filter (·.holds) ~ now.filter (·.holds) ∧ children.filter (!·.holds) = before.filter (!·.holds) ∧
      ((∃ found, collectProjections dialect now = .ok found) → protectProjections dialect now children = .ok none) := by
  obtain ⟨blocks, hblocks, hperm, hkeeps⟩ := restoredBlocks_ok hround
  have hnodes : blocks.map (·.node) ~ now.filter (·.holds) ++ before.filter (!·.holds) := by
    have hmap := hperm.map (·.node)
    rw [List.map_append] at hmap
    rw [map_node_filter (·.holds), map_node_filter (!·.holds), map_node_held, map_node_supplied] at hmap
    exact hmap
  have hsub : blocks.map (·.node) <+~ now ++ before :=
    hnodes.subperm.trans (List.filter_sublist.append List.filter_sublist).subperm
  obtain ⟨source, hsource, hparse⟩ := hround.read _ hsub
  refine ⟨source, blocks.map (·.node), ?_, hparse, ?_, ?_, ?_⟩
  · rw [restoration, hnow, Except.ok_bind, hbefore, Except.ok_bind, hblocks, Except.ok_bind, hsource]
  · have hfilter := hnodes.filter (·.holds)
    rw [List.filter_append, List.filter_filter, List.filter_filter] at hfilter
    simpa using hfilter
  · have hfilter := congrArg (List.map (·.node)) hkeeps
    rw [map_node_filter (!·.holds), map_node_filter (!·.holds), map_node_supplied] at hfilter
    exact hfilter
  · rintro ⟨found, hfound⟩
    refine protectProjections_perm hfound (cards_perm hnodes) fun node hmem hcard ↦ ?_
    refine hround.projection node ?_ hcard
    rw [walkAll_eq_flatMap, List.flatMap_append]
    exact List.mem_append_left _ (walkAll_eq_flatMap now ▸ hmem)

/-! ## A document with a decision -/

/-- A decision that is written on a line of its own. -/
def sampleDialect : Dialect := simple [("<Decision id=A />", card "Decision" "A")]

theorem simple_written (node : Node) : ∃ source, sampleDialect.serialize [node] = .ok source ∧ source ≠ "" := by
  refine ⟨_, rfl, fun hempty ↦ ?_⟩
  have hlist := congrArg String.toList hempty
  rw [String.toList_append] at hlist
  exact absurd (List.append_eq_nil_iff.1 hlist).2 (by decide)

theorem sampleDialect_roundTrips : sampleDialect.RoundTrips ([card "Decision" "A"] ++ [paragraph "Two."]) := by
  refine ⟨fun node _ _ ↦ simple_written node, fun blocks hblocks ↦ ?_⟩
  obtain ⟨l, hperm, hsub⟩ := hblocks
  cases hsub with
  | cons _ hsub =>
    cases hsub with
    | cons _ hsub =>
      obtain rfl := List.sublist_nil.1 hsub
      obtain rfl := hperm.symm.eq_nil
      exact ⟨"\n", rfl, rfl⟩
    | cons_cons _ hsub =>
      obtain rfl := List.sublist_nil.1 hsub
      obtain rfl := List.perm_singleton.1 hperm.symm
      exact ⟨"Two.\n", rfl, rfl⟩
  | cons_cons _ hsub =>
    cases hsub with
    | cons _ hsub =>
      obtain rfl := List.sublist_nil.1 hsub
      obtain rfl := List.perm_singleton.1 hperm.symm
      exact ⟨"<Decision id=A />\n", rfl, rfl⟩
    | cons_cons _ hsub =>
      obtain rfl := List.sublist_nil.1 hsub
      obtain rfl | rfl := List.perm_pair.1 hperm.symm
      · exact ⟨"<Decision id=A />\n\nTwo.\n", rfl, rfl⟩
      · exact ⟨"Two.\n\n<Decision id=A />\n", rfl, rfl⟩

theorem restoration_keeps_sample : ∃ source children,
    restoration sampleDialect "<Decision id=A />\n" "Two.\n" = .ok source ∧ sampleDialect.parse source = .ok children ∧
      children.filter (·.holds) ~ [card "Decision" "A"] ∧ children.filter (!·.holds) = [paragraph "Two."] := by
  obtain ⟨source, children, hsource, hparse, hprojections, hprose, -⟩ :=
    restoration_keeps sampleDialect "<Decision id=A />\n" "Two.\n" [card "Decision" "A"] [paragraph "Two."] rfl rfl
      sampleDialect_roundTrips
  exact ⟨source, children, hsource, hparse, hprojections, hprose⟩

end Chopin.Editing
