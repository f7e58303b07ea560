import Chopin.Editing.EditFacts
import Chopin.Editing.Rewrites

/-!
# Blocks of a rewritten plan that were there before

`align` puts a block of the base wherever the next document has one of the same content, so that the live
document keeps it.  Blocks of one content are handed out in their order, and only if there are as many of
them as before, so that no two places get the same one.
-/

set_option autoImplicit false

open Script

namespace Chopin.Editing

variable {dialect : Dialect} {base next : List Held} {digest : String}

/-! ## The candidates -/

/-- The blocks of the base with this fingerprint. -/
def sameContent (dialect : Dialect) (base : List Held) (digest : String) : List Held :=
  base.filter fun block ↦ fingerprint dialect block.node = .ok digest

/-- The bucket of a fingerprint; where there is none it is as good as empty. -/
def bucketOf (buckets : List (String × Bucket)) (digest : String) : Bucket := (buckets.lookup digest).getD ⟨[], 0⟩

theorem bucketOf_set (buckets : List (String × Bucket)) (digest other : String) (bucket : Bucket) :
    bucketOf (Entries.set buckets digest bucket) other = if other = digest then bucket else bucketOf buckets other := by
  rw [bucketOf, Entries.lookup_set]
  split
  · rfl
  · rfl

variable {block : Held}

theorem sameContent_cons {own : String} (h : fingerprint dialect block.node = .ok own) :
    sameContent dialect (block :: base) digest =
      if digest = own then block :: sameContent dialect base digest else sameContent dialect base digest := by
  rw [sameContent, List.filter_cons, h]
  by_cases hsame : digest = own
  · rw [if_pos hsame, if_pos (by simp [hsame])]
    rfl
  · rw [if_neg hsame, if_neg (by simpa using Ne.symm hsame)]
    rfl

variable {buckets : List (String × Bucket)}

theorem candidates_bucketOf {out : List (String × Bucket)} (h : candidates dialect buckets base = .ok out)
    (digest : String) :
    (bucketOf out digest).nodes = (bucketOf buckets digest).nodes ++ sameContent dialect base digest ∧
      (bucketOf out digest).used = (bucketOf buckets digest).used := by
  induction base generalizing buckets with
  | nil =>
    cases h
    exact ⟨(List.append_nil _).symm, rfl⟩
  | cons block rest ih =>
    rw [candidates] at h
    obtain ⟨own, hown, h⟩ := Except.bind_eq_ok.1 h
    obtain ⟨hnodes, hused⟩ := ih h
    rw [hnodes, hused, bucketOf_set, sameContent_cons hown]
    by_cases hsame : digest = own
    · subst hsame
      rw [if_pos rfl, if_pos rfl]
      exact ⟨by rw [List.append_assoc]; rfl, rfl⟩
    · rw [if_neg hsame, if_neg hsame]
      exact ⟨rfl, rfl⟩

theorem candidates_isOk (buckets : List (String × Bucket))
    (h : ∀ block ∈ base, ∃ digest, fingerprint dialect block.node = .ok digest) :
    ∃ out, candidates dialect buckets base = .ok out := by
  induction base generalizing buckets with
  | nil => exact ⟨buckets, rfl⟩
  | cons block rest ih =>
    obtain ⟨digest, hdigest⟩ := h block List.mem_cons_self
    rw [candidates, hdigest, Except.ok_bind]
    exact ih _ fun other hother ↦ h other (List.mem_cons_of_mem _ hother)

/-! ## One place after another -/

/-- The block that a place gets, with the fingerprints of those before it. -/
def chosen (dialect : Dialect) (base : List Held) (digests before : List String) : Held × String → Held
  | (node, digest) =>
    if (sameContent dialect base digest).length = digests.count digest then
      ((sameContent dialect base digest)[before.count digest]?).getD node
    else node

/-- How far the buckets are used up. -/
structure Used (dialect : Dialect) (base : List Held) (digests before : List String)
    (buckets : List (String × Bucket)) : Prop where
  nodes : ∀ digest, (bucketOf buckets digest).nodes = sameContent dialect base digest
  used : ∀ digest, (sameContent dialect base digest).length = digests.count digest →
    (bucketOf buckets digest).used = before.count digest

variable {digests : List String}

/-- There is always a block left, since there are as many as are asked for. -/
theorem Used.one {before rest : List String}
    (h : Used dialect base digests before buckets) (node : Held) (hdigests : digests = before ++ digest :: rest) :
    (alignOne digests buckets (node, digest)).1 = chosen dialect base digests before (node, digest) ∧
      Used dialect base digests (before ++ [digest]) (alignOne digests buckets (node, digest)).2 := by
  have hcount : before.count digest < digests.count digest := by
    rw [hdigests, List.count_append, List.count_cons_self]
    omega
  have hlater : ∀ other, other ≠ digest → (before ++ [digest]).count other = before.count other := by
    intro other hother
    rw [List.count_append, List.count_singleton, if_neg (by simpa using Ne.symm hother), Nat.add_zero]
  have hnodes := h.nodes digest
  rw [chosen]
  by_cases hlength : (sameContent dialect base digest).length = digests.count digest
  · have hused := h.used digest hlength
    obtain ⟨bucket, hbucket, hsame⟩ :
        ∃ bucket, buckets.lookup digest = some bucket ∧ bucketOf buckets digest = bucket := by
      cases hlookup : buckets.lookup digest with
      | none =>
        rw [bucketOf, hlookup, Option.getD_none] at hnodes
        rw [← hnodes, List.length_nil] at hlength
        omega
      | some bucket => exact ⟨bucket, rfl, by rw [bucketOf, hlookup]; rfl⟩
    rw [hsame] at hnodes hused
    have hlt : bucket.used < bucket.nodes.length := by
      rw [hnodes, hused]
      omega
    rw [alignOne, hbucket]
    simp only [hnodes, hlength, ne_eq, not_true_eq_false, if_false, if_true]
    rw [← hused, ← hnodes, List.getElem?_eq_getElem hlt]
    refine ⟨rfl, fun other ↦ ?_, fun other hother ↦ ?_⟩
    · rw [bucketOf_set]
      split
      · rename_i heq
        rw [heq]
        exact hnodes
      · exact h.nodes other
    · rw [bucketOf_set]
      split
      · rename_i heq
        rw [heq, List.count_append, List.count_singleton_self, ← hused]
      · rename_i hne
        rw [hlater other hne]
        exact h.used other hother
  · have hsame : alignOne digests buckets (node, digest) = (node, buckets) := by
      rw [alignOne]
      cases hlookup : buckets.lookup digest with
      | none => rfl
      | some bucket =>
        rw [bucketOf, hlookup, Option.getD_some] at hnodes
        dsimp only
        rw [if_pos (by rw [hnodes]; exact hlength)]
    rw [if_neg hlength, hsame]
    refine ⟨rfl, h.nodes, fun other hother ↦ ?_⟩
    rw [hlater other fun heq ↦ hlength (heq ▸ hother)]
    exact h.used other hother

variable {pairs : List (Held × String)}

/-- By induction over the places, with the fingerprints that came before. -/
theorem alignFrom_getElem? {before : List String}
    (h : Used dialect base digests before buckets) (hdigests : digests = before ++ pairs.map Prod.snd) (i : Nat) :
    (alignFrom digests buckets pairs)[i]? =
      (pairs[i]?).map (chosen dialect base digests (digests.take (before.length + i))) := by
  induction pairs generalizing before buckets i with
  | nil => rfl
  | cons pair rest ih =>
    obtain ⟨node, digest⟩ := pair
    obtain ⟨hfirst, hused⟩ := h.one node hdigests
    rw [alignFrom]
    cases i with
    | zero =>
      have htake : digests.take before.length = before := by
        rw [hdigests, List.take_left]
      rw [List.getElem?_cons_zero, List.getElem?_cons_zero, hfirst, Option.map_some, Nat.add_zero, htake]
    | succ i =>
      rw [List.getElem?_cons_succ, List.getElem?_cons_succ, ih hused (by rw [hdigests]; simp) i]
      rw [List.length_append, List.length_singleton, Nat.add_assoc, Nat.add_comm 1 i]

theorem length_alignFrom : (alignFrom digests buckets pairs).length = pairs.length := by
  induction pairs generalizing buckets with
  | nil => rfl
  | cons pair rest ih => rw [alignFrom, List.length_cons, List.length_cons, ih]

/-- What `align` makes of each place. -/
theorem align_getElem? {aligned : List Held} (h : align dialect base next = .ok aligned) :
    ∃ digests, next.mapM (fun node ↦ fingerprint dialect node.node) = .ok digests ∧ digests.length = next.length ∧
      aligned.length = next.length ∧ ∀ i, aligned[i]? =
        ((next.zip digests)[i]?).map (chosen dialect base digests (digests.take i)) := by
  rw [align] at h
  obtain ⟨buckets, hbuckets, h⟩ := Except.bind_eq_ok.1 h
  obtain ⟨digests, hdigests, h⟩ := Except.bind_eq_ok.1 h
  cases h
  have hlength : digests.length = next.length := (Except.mapM_eq_ok.1 hdigests).length_eq.symm
  refine ⟨digests, hdigests, hlength, ?_, fun i ↦ ?_⟩
  · rw [length_alignFrom, List.length_zip, hlength, Nat.min_self]
  · have hused : Used dialect base digests [] buckets := by
      refine ⟨fun digest ↦ ?_, fun digest _ ↦ ?_⟩
      · exact (candidates_bucketOf hbuckets digest).1
      · exact (candidates_bucketOf hbuckets digest).2
    have hpairs : digests = [] ++ (next.zip digests).map Prod.snd := by
      rw [List.map_snd_zip (by rw [hlength]), List.nil_append]
    have hall := alignFrom_getElem? hused hpairs i
    rwa [List.length_nil, Nat.zero_add] at hall

/-- A place keeps its own block, or gets the one of its content that is next in turn. -/
theorem chosen_cases (base : List Held) (digests before : List String) (node : Held) (digest : String) :
    chosen dialect base digests before (node, digest) = node ∨ (sameContent dialect base digest)[before.count digest]? =
        some (chosen dialect base digests before (node, digest)) := by
  rw [chosen]
  split
  · cases hfound : (sameContent dialect base digest)[before.count digest]? with
    | none => exact .inl rfl
    | some block => exact .inr rfl
  · exact .inl rfl

theorem mem_sameContent :
    block ∈ sameContent dialect base digest ↔ block ∈ base ∧ fingerprint dialect block.node = .ok digest := by
  rw [sameContent, List.mem_filter, decide_eq_true_eq]

variable {nodes : List Node}

theorem getElem?_supplied {position i : Nat} (h : (supplied position nodes)[i]? = some block) :
    nodes[i]? = some block.node ∧ block.origin = .supplied position i := by
  rw [supplied, List.getElem?_map, List.getElem?_zipIdx, Option.map_map, Option.map_eq_some_iff] at h
  obtain ⟨node, hnode, rfl⟩ := h
  exact ⟨hnode, by simp⟩

/-- The blocks of a content are handed out one after another, so that no two places get the same. -/
theorem turn_unique {i j : Nat} {first second : String} {other : Held}
    (hij : i < j) (hfirst : digests[i]? = some first) (hsecond : digests[j]? = some second)
    (hblock : (sameContent dialect (held nodes) first)[(digests.take i).count first]? = some block)
    (hother : (sameContent dialect (held nodes) second)[(digests.take j).count second]? = some other) :
    block.origin ≠ other.origin := by
  intro horigin
  have hmem := mem_sameContent.1 (List.mem_of_getElem? hblock)
  have hmem' := mem_sameContent.1 (List.mem_of_getElem? hother)
  obtain rfl : block = other := List.inj_on_of_nodup_map (nodup_held nodes) hmem.1 hmem'.1 horigin
  obtain rfl : first = second := Except.ok.inj (hmem.2.symm.trans hmem'.2)
  have hnodup : (sameContent dialect (held nodes) first).Nodup :=
    ((nodup_held nodes).of_map).sublist List.filter_sublist
  -- the place `i` itself is one more of this content before `j`
  have hmore : (digests.take i).count first < (digests.take j).count first := by
    have hsplit : (digests.take (i + 1)).count first ≤ (digests.take j).count first :=
      (List.take_sublist_take_left hij).count_le first
    rw [List.take_add_one, hfirst, List.count_append] at hsplit
    simp only [Option.toList_some, List.count_singleton_self] at hsplit
    omega
  obtain ⟨hlt, hget⟩ := List.getElem?_eq_some_iff.1 hblock
  obtain ⟨hlt', hget'⟩ := List.getElem?_eq_some_iff.1 hother
  have heq := (hnodup.getElem_inj_iff).1 (hget.trans hget'.symm)
  omega

/-- **`align` reuses blocks faithfully and each at most once.** -/
theorem align_faithful (dialect : Dialect) (base next : List Node) :
    (∀ aligned, align dialect (held base) (supplied 0 next) = .ok aligned → aligned.length = next.length ∧
      (∀ (i : Nat) block, aligned[i]? = some block → ∃ node, next[i]? = some node ∧
        fingerprint dialect block.node = fingerprint dialect node) ∧
      (∀ block ∈ aligned, block ∈ held base ∨ block ∈ supplied 0 next) ∧ (aligned.map (·.origin)).Nodup) ∧
    ((∀ node ∈ base ++ next, ∃ digest, fingerprint dialect node = .ok digest) →
      ∃ aligned, align dialect (held base) (supplied 0 next) = .ok aligned) := by
  constructor
  · intro aligned h
    obtain ⟨digests, hdigests, hlength, hsame, hget⟩ := align_getElem? h
    rw [Except.mapM_eq_ok] at hdigests
    -- what a place gets, with the block that is there and its fingerprint
    have hplace : ∀ (i : Nat) block, aligned[i]? = some block → ∃ node digest,
        (supplied 0 next)[i]? = some node ∧ digests[i]? = some digest ∧ fingerprint dialect node.node = .ok digest ∧
          block = chosen dialect (held base) digests (digests.take i) (node, digest) := by
      intro i block hblock
      rw [hget, Option.map_eq_some_iff] at hblock
      obtain ⟨⟨node, digest⟩, hpair, rfl⟩ := hblock
      obtain ⟨hnode, hdigest⟩ := List.getElem?_zip_eq_some.1 hpair
      obtain ⟨found, hfound, hfingerprint⟩ := hdigests.getElem?_left hnode
      exact ⟨node, digest, hnode, hdigest, by rw [hfingerprint, Option.mem_unique hfound hdigest], rfl⟩
    refine ⟨by rw [hsame]; simp [supplied], ?_, ?_, ?_⟩
    · intro i block hblock
      obtain ⟨node, digest, hnode, -, hfingerprint, rfl⟩ := hplace i block hblock
      refine ⟨node.node, ?_, ?_⟩
      · exact (getElem?_supplied hnode).1
      · obtain hown | hreused := chosen_cases (held base) digests (digests.take i) node digest
        · rw [hown]
        · rw [hfingerprint, (mem_sameContent.1 (List.mem_of_getElem? hreused)).2]
    · intro block hmem
      obtain ⟨i, hblock⟩ := List.mem_iff_getElem?.1 hmem
      obtain ⟨node, digest, hnode, -, -, rfl⟩ := hplace i block hblock
      obtain hown | hreused := chosen_cases (held base) digests (digests.take i) node digest
      · rw [hown]
        exact .inr (List.mem_of_getElem? hnode)
      · exact .inl (mem_sameContent.1 (List.mem_of_getElem? hreused)).1
    · rw [List.nodup_iff_getElem?_ne_getElem?]
      intro i j hij hj heq
      rw [List.length_map] at hj
      obtain ⟨block, hblock⟩ : ∃ block, aligned[i]? = some block := ⟨_, List.getElem?_eq_getElem (Nat.lt_trans hij hj)⟩
      obtain ⟨other, hother⟩ : ∃ other, aligned[j]? = some other := ⟨_, List.getElem?_eq_getElem hj⟩
      rw [List.getElem?_map, List.getElem?_map, hblock, hother, Option.map_some, Option.map_some] at heq
      have horigin := Option.some.inj heq
      obtain ⟨node, first, hnode, hfirst, -, rfl⟩ := hplace i block hblock
      obtain ⟨node', second, hnode', hsecond, -, rfl⟩ := hplace j other hother
      obtain hown | hreused := chosen_cases (held base) digests (digests.take i) node first
      · obtain hown' | hreused' := chosen_cases (held base) digests (digests.take j) node' second
        · rw [hown, hown', (getElem?_supplied hnode).2, (getElem?_supplied hnode').2] at horigin
          exact Nat.ne_of_lt hij (Origin.supplied.inj horigin).2
        · obtain ⟨place, -, hbase⟩ := mem_held.1 (mem_sameContent.1 (List.mem_of_getElem? hreused')).1
          rw [hown, (getElem?_supplied hnode).2, hbase] at horigin
          cases horigin
      · obtain hown' | hreused' := chosen_cases (held base) digests (digests.take j) node' second
        · obtain ⟨place, -, hbase⟩ := mem_held.1 (mem_sameContent.1 (List.mem_of_getElem? hreused)).1
          rw [hown', (getElem?_supplied hnode').2, hbase] at horigin
          cases horigin
        · exact turn_unique hij hfirst hsecond hreused hreused' horigin
  · intro hwrites
    have hbase : ∀ block ∈ held base, ∃ digest, fingerprint dialect block.node = .ok digest := by
      intro block hmem
      obtain ⟨place, hnode, -⟩ := mem_held.1 hmem
      exact hwrites block.node (List.mem_append_left _ (List.mem_of_getElem? hnode))
    have hnext : ∀ block ∈ supplied 0 next, ∃ digest, fingerprint dialect block.node = .ok digest := by
      intro block hmem
      obtain ⟨place, hnode, -⟩ := mem_supplied.1 hmem
      exact hwrites block.node (List.mem_append_right _ (List.mem_of_getElem? hnode))
    obtain ⟨buckets, hbuckets⟩ := candidates_isOk [] hbase
    obtain ⟨digests, hdigests⟩ := Except.mapM_isOk hnext
    exact ⟨_, by rw [align, hbuckets, Except.ok_bind, hdigests, Except.ok_bind]; rfl⟩

end Chopin.Editing
