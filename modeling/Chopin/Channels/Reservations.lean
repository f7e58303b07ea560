import Mathlib.Data.List.Nodup
import Chopin.Lib.Entries
import Chopin.Channels.Slugs

/-!
# Reserving a slug

A repository keeps every slug a channel ever had as an alias of it.  `#reserveSlug` tries the candidates of a title one
after another and takes the first that no other channel has.

Two candidates can be one, and there are only as many as there are safe integers; but all except the first differ from
each other, so a repository has to hold about as many aliases before none is left.
-/

set_option autoImplicit false

open Script Entries

namespace Chopin.Channels

/-- The id of a channel, which is never empty. -/
structure ChannelId where
  value : String
  filled : value ≠ ""
  deriving DecidableEq

/-- The slugs of one repository, with the channel each is an alias of. -/
abbrev Aliases := List (Units × ChannelId)

/-- `#channelSlugs`: the aliases of each repository. -/
abbrev ChannelSlugs := List (String × Aliases)

/-- `owner && owner !== channelId` -/
def taken (aliases : Aliases) (channelId : ChannelId) (candidate : Units) : Bool :=
  match get aliases candidate with
  | some owner => owner.value != "" && owner != channelId
  | none => false

/-- The loop, from this index on, and nothing if it has not ended after so many steps. -/
def reserveFrom (base : Units) (channelId : ChannelId) (aliases : Aliases) :
    Nat → Nat → Option (Except Fault (Units × Aliases))
  | 0, _ => none
  | steps + 1, index =>
    match documentSlugCandidate base index with
    | .error fault => some (.error fault)
    | .ok candidate =>
      if taken aliases channelId candidate then reserveFrom base channelId aliases steps (index + 1)
      else some (.ok (candidate, set aliases candidate channelId))

/-- `#reserveSlug`, if its loop ends within so many steps, with the aliases it leaves. -/
def reserveSlug (chars : Characters) (steps : Nat) (channelSlugs : ChannelSlugs) (repositoryId : String)
    (channelId : ChannelId) (title : Units) : Option (Except Fault Units × ChannelSlugs) :=
  let aliases := (channelSlugs.lookup repositoryId).getD []
  let begun := if (channelSlugs.lookup repositoryId).isSome then channelSlugs else set channelSlugs repositoryId []
  (reserveFrom (documentSlug chars title) channelId aliases steps 1).map fun
    | .error fault => (.error fault, begun)
    | .ok (slug, aliases) => (.ok slug, set begun repositoryId aliases)

/-- The channel that a slug is an alias of. -/
def ownerOf (channelSlugs : ChannelSlugs) (repositoryId : String) (slug : Units) : Option ChannelId :=
  get ((channelSlugs.lookup repositoryId).getD []) slug

variable {base : Units} {channelId : ChannelId} {aliases : Aliases} {channelSlugs : ChannelSlugs}
  {repositoryId : String}

variable {candidate : Units}

theorem taken_iff : taken aliases channelId candidate = true ↔
    ∃ owner, get aliases candidate = some owner ∧ owner ≠ channelId := by
  rw [taken]
  cases get aliases candidate with
  | none => exact ⟨fun h ↦ (nomatch h), fun ⟨_, h, _⟩ ↦ (nomatch h)⟩
  | some owner =>
    have hfilled : (owner.value != "") = true := bne_iff_ne.2 owner.filled
    simp [hfilled]

/-! ## The loop -/

variable {index : Nat}

theorem reserveFrom_more {steps more : Nat} {answer : Except Fault (Units × Aliases)} (hle : steps ≤ more)
    (h : reserveFrom base channelId aliases steps index = some answer) :
    reserveFrom base channelId aliases more index = some answer := by
  induction steps generalizing more index with
  | zero => cases h
  | succ steps ih =>
    obtain ⟨more, rfl⟩ : ∃ fewer, more = fewer + 1 := ⟨more - 1, by omega⟩
    rw [reserveFrom] at h ⊢
    cases hcandidate : documentSlugCandidate base index with
    | error fault => rwa [hcandidate] at h
    | ok candidate =>
      simp only [hcandidate] at h ⊢
      split
      · rename_i htaken
        rw [if_pos htaken] at h
        exact ih (by omega) h
      · rename_i htaken
        rwa [if_neg htaken] at h

/-- How the loop ends: at the first candidate that nobody else has, or past the last one. -/
inductive Ending (base : Units) (channelId : ChannelId) (aliases : Aliases) (index : Nat) :
    Except Fault (Units × Aliases) → Prop where
  | reserved (found : Nat) (candidate : Units) (later : index ≤ found)
      (made : documentSlugCandidate base found = .ok candidate) (free : taken aliases channelId candidate = false) :
      Ending base channelId aliases index (.ok (candidate, set aliases candidate channelId))
  | exhausted (fault : Fault)
      (all : ∀ later, index ≤ later → later ≤ maxSafeInteger →
        ∃ candidate, documentSlugCandidate base later = .ok candidate ∧ taken aliases channelId candidate = true) :
      Ending base channelId aliases index (.error fault)

theorem Ending.earlier {answer : Except Fault (Units × Aliases)}
    (hmade : documentSlugCandidate base index = .ok candidate) (htaken : taken aliases channelId candidate = true)
    (h : Ending base channelId aliases (index + 1) answer) : Ending base channelId aliases index answer := by
  cases h with
  | reserved found slug later made free => exact .reserved found slug (by omega) made free
  | exhausted fault all =>
    refine .exhausted fault fun later hle hsafe ↦ ?_
    obtain rfl | hlt := Nat.eq_or_lt_of_le hle
    · exact ⟨candidate, hmade, htaken⟩
    · exact all later hlt hsafe

theorem candidate_made (base : Units) (hindex : 1 ≤ index) (hsafe : index ≤ maxSafeInteger) :
    ∃ candidate, documentSlugCandidate base index = .ok candidate := by
  obtain rfl | htwo := Nat.eq_or_lt_of_le hindex
  · exact ⟨base, candidate_one base⟩
  · exact ⟨_, candidate_suffixed htwo hsafe⟩

/-- **The loop ends** once it has tried every safe integer, if not before. -/
theorem reserveFrom_spec (base : Units) (channelId : ChannelId) (aliases : Aliases) {steps : Nat}
    (hindex : 1 ≤ index) (hle : index ≤ maxSafeInteger + 1) (hsteps : maxSafeInteger + 1 < index + steps) :
    ∃ answer, reserveFrom base channelId aliases steps index = some answer ∧
      Ending base channelId aliases index answer := by
  induction steps generalizing index with
  | zero => omega
  | succ steps ih =>
    rw [reserveFrom]
    obtain hsafe | hunsafe := Nat.lt_or_ge maxSafeInteger index
    · obtain ⟨fault, hfault⟩ := candidate_unsafe base hsafe
      rw [hfault]
      exact ⟨_, rfl, .exhausted fault fun later hle hsafe ↦ by omega⟩
    · obtain ⟨candidate, hmade⟩ := candidate_made base hindex hunsafe
      simp only [hmade]
      cases htaken : taken aliases channelId candidate with
      | false => exact ⟨_, if_neg Bool.false_ne_true, .reserved index candidate (Nat.le_refl _) hmade htaken⟩
      | true =>
        obtain ⟨answer, hanswer, hending⟩ := ih (Nat.le_succ_of_le hindex) (by omega) (by omega)
        exact ⟨answer, (if_pos rfl).trans hanswer, hending.earlier hmade htaken⟩

/-- **Few aliases leave a candidate free**: all but the first candidate differ. -/
theorem length_of_exhausted (h : ∀ index, 1 ≤ index → index ≤ maxSafeInteger →
    ∃ candidate, documentSlugCandidate base index = .ok candidate ∧ taken aliases channelId candidate = true) :
    maxSafeInteger - 1 ≤ aliases.length := by
  have hmem : (List.range' 2 (maxSafeInteger - 1)).map (fun index ↦ stem base index ++ suffix index) ⊆
      aliases.map (·.1) := by
    intro candidate hcandidate
    obtain ⟨index, hindex, rfl⟩ := List.mem_map.1 hcandidate
    obtain ⟨hlow, hhigh⟩ := List.mem_range'_1.1 hindex
    have hsafe : index ≤ maxSafeInteger := by omega
    obtain ⟨candidate, hmade, htaken⟩ := h index (by omega) hsafe
    rw [candidate_suffixed hlow hsafe] at hmade
    obtain ⟨owner, howner, -⟩ := taken_iff.1 htaken
    rw [Except.ok.inj hmade]
    exact List.mem_map.2 ⟨_, mem_of_lookup howner, rfl⟩
  have hnodup : ((List.range' 2 (maxSafeInteger - 1)).map fun index ↦ stem base index ++ suffix index).Nodup :=
    List.Nodup.map (fun index other hsame ↦ suffixed_injective hsame) List.nodup_range'
  have := (hnodup.subperm hmem).length_le
  rwa [List.length_map, List.length_range', List.length_map] at this

/-! ## The aliases of every repository -/

theorem ownerOf_set (slug : Units) (aliases : Aliases) (repository : String) :
    ownerOf (set channelSlugs repositoryId aliases) repository slug =
      if repository = repositoryId then get aliases slug else ownerOf channelSlugs repository slug := by
  rw [ownerOf, lookup_set]
  split <;> rfl

/-- Where the code begins with no aliases yet. -/
theorem ownerOf_begun (repository : String) (slug : Units) :
    ownerOf (if (channelSlugs.lookup repositoryId).isSome then channelSlugs else set channelSlugs repositoryId [])
      repository slug = ownerOf channelSlugs repository slug := by
  split
  · rfl
  · rename_i hnone
    rw [ownerOf_set]
    split
    · rename_i hsame
      rw [hsame, ownerOf, Option.not_isSome_iff_eq_none.1 hnone]
      rfl
    · rfl

variable (chars : Characters)

/-- The title has a slug that no other channel has, and it is the channel's now. -/
structure Reserved (channelSlugs after : ChannelSlugs) (repositoryId : String) (channelId : ChannelId)
    (slug : Units) : Prop where
  bounded : IsSlug slug
  free : ∀ owner, ownerOf channelSlugs repositoryId slug = some owner → owner = channelId
  kept : ownerOf after repositoryId slug = some channelId

/-- Every candidate of the base is the slug of another channel. -/
def Exhausted (base : Units) (channelSlugs : ChannelSlugs) (repositoryId : String) (channelId : ChannelId) : Prop :=
  ∀ index, 1 ≤ index → index ≤ maxSafeInteger → ∃ candidate owner, documentSlugCandidate base index = .ok candidate ∧
    ownerOf channelSlugs repositoryId candidate = some owner ∧ owner ≠ channelId

theorem reserveSlug_spec (channelSlugs : ChannelSlugs) (repositoryId : String) (channelId : ChannelId)
    (title : Units) : ∃ answer after, (∃ steps, ∀ more, steps ≤ more →
        reserveSlug chars more channelSlugs repositoryId channelId title = some (answer, after)) ∧
      (∀ repository slug owner, ownerOf channelSlugs repository slug = some owner →
        ownerOf after repository slug = some owner) ∧
      ((∃ slug, answer = .ok slug ∧ Reserved channelSlugs after repositoryId channelId slug) ∨
        ∃ fault, answer = .error fault ∧ Exhausted (documentSlug chars title) channelSlugs repositoryId channelId ∧
          maxSafeInteger - 1 ≤ ((channelSlugs.lookup repositoryId).getD []).length) := by
  have hbase := documentSlug_isSlug chars title
  obtain ⟨answer, hanswer, hending⟩ := reserveFrom_spec (documentSlug chars title) channelId
    ((channelSlugs.lookup repositoryId).getD []) (Nat.le_refl 1) (Nat.le_add_left 1 maxSafeInteger)
    (show maxSafeInteger + 1 < 1 + (maxSafeInteger + 1) by omega)
  have hends : ∀ more, maxSafeInteger + 1 ≤ more →
      reserveFrom (documentSlug chars title) channelId ((channelSlugs.lookup repositoryId).getD []) more 1 =
        some answer := fun more hmore ↦ reserveFrom_more hmore hanswer
  let held := (channelSlugs.lookup repositoryId).getD []
  let begun := if (channelSlugs.lookup repositoryId).isSome then channelSlugs else set channelSlugs repositoryId []
  cases hending with
  | reserved found slug later made free =>
    have hfree : ∀ owner, ownerOf channelSlugs repositoryId slug = some owner → owner = channelId := by
      intro owner howner
      by_contra hne
      rw [taken_iff.2 ⟨owner, howner, hne⟩] at free
      cases free
    refine ⟨.ok slug, set begun repositoryId (set held slug channelId), ⟨maxSafeInteger + 1, fun more hmore ↦ ?_⟩, ?_,
      .inl ⟨slug, rfl, candidate_isSlug hbase made, hfree, ?_⟩⟩
    · rw [reserveSlug, hends more hmore]
      rfl
    · intro repository key owner howner
      rw [ownerOf_set]
      split
      · rename_i hsame
        rw [get_set]
        split
        · rename_i hkey
          rw [hsame, hkey] at howner
          rw [hfree owner howner]
        · rw [← howner, hsame, ownerOf]
      · rw [ownerOf_begun, howner]
    · rw [ownerOf_set, if_pos rfl, get_set, if_pos rfl]
  | exhausted fault all =>
    refine ⟨.error fault, begun, ⟨maxSafeInteger + 1, fun more hmore ↦ ?_⟩, ?_,
      .inr ⟨fault, rfl, ?_, length_of_exhausted all⟩⟩
    · rw [reserveSlug, hends more hmore]
      rfl
    · intro repository key owner howner
      rw [ownerOf_begun, howner]
    · intro index hindex hsafe
      obtain ⟨candidate, hmade, htaken⟩ := all index hindex hsafe
      obtain ⟨owner, howner, hne⟩ := taken_iff.1 htaken
      exact ⟨candidate, owner, hmade, howner, hne⟩

/-! ## A slug for every title -/

/-- **A reservation ends**: with a slug that is bounded and that no other channel has, or by throwing where every
candidate is another channel's, for which the repository needs as many aliases as there are safe integers, less one.
No alias changes its owner, and the candidates of two indexes are one only where the base is at the limit and ends in
the number of the other. -/
theorem reserveSlug_ends (channelSlugs : ChannelSlugs) (repositoryId : String) (channelId : ChannelId) (title : Units) :
    (∃ answer after, (∃ steps, ∀ more, steps ≤ more →
        reserveSlug chars more channelSlugs repositoryId channelId title = some (answer, after)) ∧
      (∀ repository slug owner, ownerOf channelSlugs repository slug = some owner →
        ownerOf after repository slug = some owner) ∧
      ((∃ slug, answer = .ok slug ∧ Reserved channelSlugs after repositoryId channelId slug) ∨
        ∃ fault, answer = .error fault ∧ Exhausted (documentSlug chars title) channelSlugs repositoryId channelId ∧
          maxSafeInteger - 1 ≤ ((channelSlugs.lookup repositoryId).getD []).length)) ∧
    ∀ index other, 1 ≤ index → index < other → other ≤ maxSafeInteger →
      (documentSlugCandidate (documentSlug chars title) index = documentSlugCandidate (documentSlug chars title) other ↔
        index = 1 ∧
          ((spread (documentSlug chars title)).length = 99 ∨ (spread (documentSlug chars title)).length = 100) ∧
          ∃ front, documentSlug chars title = front ++ suffix other ∧ ∀ unit ∈ front.getLast?, unit ≠ dash) :=
  ⟨reserveSlug_spec chars channelSlugs repositoryId channelId title,
    fun _ _ hone hlt hsafe ↦ candidate_eq_iff hone hlt hsafe⟩

theorem never_reserved (hall : ∀ index, 1 ≤ index → index ≤ maxSafeInteger →
      ∃ candidate, documentSlugCandidate base index = .ok candidate ∧ taken aliases channelId candidate = true)
    (steps : Nat) (hindex : 1 ≤ index) (answer : Units × Aliases) :
    reserveFrom base channelId aliases steps index ≠ some (.ok answer) := by
  induction steps generalizing index with
  | zero => exact fun h ↦ (nomatch h)
  | succ steps ih =>
    rw [reserveFrom]
    obtain hsafe | hunsafe := Nat.lt_or_ge maxSafeInteger index
    · obtain ⟨fault, hfault⟩ := candidate_unsafe base hsafe
      rw [hfault]
      exact fun h ↦ (nomatch h)
    · obtain ⟨candidate, hmade, htaken⟩ := hall index hindex hunsafe
      simp only [hmade, if_pos htaken]
      exact ih (by omega)

/-- Characters of titles in the letters a to z, digits and spaces. -/
def latin : Characters where
  normalize := id
  toLowerCase := id
  isWord point := point.all fun unit ↦ (0x30 ≤ unit && unit < 0x3a) || (0x61 ≤ unit && unit < 0x7b)

/-- The second candidate of a title at the limit that ends in a two is the first, and where another channel has every
candidate none is left. -/
theorem candidates_meet : (¬∀ (chars : Characters) (title candidate : Units) (index other : Nat),
      documentSlugCandidate (documentSlug chars title) index = .ok candidate →
      documentSlugCandidate (documentSlug chars title) other = .ok candidate → index = other) ∧
    ¬∀ (chars : Characters) (channelSlugs : ChannelSlugs) (repositoryId : String) (channelId : ChannelId)
      (title : Units), ∃ steps slug after,
        reserveSlug chars steps channelSlugs repositoryId channelId title = some (.ok slug, after) := by
  constructor
  · intro h
    have := h latin (List.replicate 98 0x61 ++ [0x20, 0x32]) (List.replicate 98 0x61 ++ [0x2d, 0x32]) 1 2
      (by decide +kernel) (by decide +kernel)
    cases this
  · intro h
    let base := documentSlug latin (utf16 "a")
    let held : Aliases := (List.range' 1 maxSafeInteger).map fun index ↦
      ((documentSlugCandidate base index).toOption.getD [], ⟨"other", by decide⟩)
    have hall : ∀ index, 1 ≤ index → index ≤ maxSafeInteger →
        ∃ candidate, documentSlugCandidate base index = .ok candidate ∧
          taken held ⟨"channel", by decide⟩ candidate = true := by
      intro index hindex hsafe
      obtain ⟨candidate, hmade⟩ := candidate_made base hindex hsafe
      have hmem : (candidate, ⟨"other", by decide⟩) ∈ held :=
        List.mem_map.2 ⟨index, List.mem_range'_1.2 ⟨hindex, by omega⟩, by rw [hmade]; rfl⟩
      obtain ⟨owner, howner, hentry⟩ := exists_get_of_mem hmem
      obtain ⟨_, _, hfound⟩ := List.mem_map.1 hentry
      refine ⟨candidate, hmade, taken_iff.2 ⟨owner, howner, ?_⟩⟩
      rw [← (Prod.mk.inj hfound).2]
      exact fun hsame ↦ absurd (congrArg ChannelId.value hsame) (by decide)
    obtain ⟨steps, slug, after, hreserved⟩ :=
      h latin [("repository", held)] "repository" ⟨"channel", by decide⟩ (utf16 "a")
    rw [reserveSlug, Option.map_eq_some_iff] at hreserved
    obtain ⟨answer, hanswer, hsame⟩ := hreserved
    cases answer with
    | error fault => cases hsame
    | ok answer => exact never_reserved hall steps (Nat.le_refl 1) answer hanswer

end Chopin.Channels
