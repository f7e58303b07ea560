import Chopin.Lib.Entries
import Chopin.Lib.Except

/-!
# Filing under keys

A loop files the elements of a list under keys of their own: it passes over those that have none, and fails for
one whose key cannot be read or is taken.
-/

set_option autoImplicit false

namespace Filing

variable {α κ β ε : Type} [DecidableEq κ] {key : α → Option (Except ε κ)} {twice : κ → ε} {value : α → Except ε β}

/-- One element. -/
def file (key : α → Option (Except ε κ)) (twice : κ → ε) (value : α → Except ε β) (found : List (κ × β)) (a : α) :
    Except ε (List (κ × β)) :=
  match key a with
  | none => .ok found
  | some (.error fault) => .error fault
  | some (.ok name) =>
    if found.any (·.1 == name) then .error (twice name)
    else do
      let content ← value a
      pure (found ++ [(name, content)])

/-- What an element is filed as. -/
structure Filed (key : α → Option (Except ε κ)) (value : α → Except ε β) (a : α) (entry : κ × β) : Prop where
  key : key a = some (.ok entry.1)
  value : value a = .ok entry.2

omit [DecidableEq κ] in
theorem exists_filed {values : List α} (h : ∀ a ∈ values, ∃ entry, Filed key value a entry) :
    ∃ entries, List.Forall₂ (Filed key value) values entries := by
  induction values with
  | nil => exact ⟨[], .nil⟩
  | cons a rest ih =>
    obtain ⟨⟨entry, hentry⟩, hrest⟩ := List.forall_mem_cons.1 h
    obtain ⟨entries, hentries⟩ := ih hrest
    exact ⟨entry :: entries, .cons hentry hentries⟩

theorem file_plain {found : List (κ × β)} {a : α} (h : (key a).isSome = false) :
    file key twice value found a = .ok found := by
  rw [file, Option.isSome_eq_false_iff, Option.isNone_iff_eq_none] at *
  rw [h]

theorem file_keyed {found out : List (κ × β)} {a : α} (h : (key a).isSome = true) :
    file key twice value found a = .ok out ↔
      ∃ entry, Filed key value a entry ∧ entry.1 ∉ found.map Prod.fst ∧ out = found ++ [entry] := by
  obtain ⟨read, hread⟩ := Option.isSome_iff_exists.1 h
  rw [file, hread]
  cases read with
  | error fault =>
    refine iff_of_false nofun ?_
    rintro ⟨entry, ⟨hkey, -⟩, -⟩
    rw [hread] at hkey
    cases hkey
  | ok name =>
    dsimp only
    constructor
    · intro h
      split at h
      · cases h
      · rename_i hnew
        obtain ⟨content, hcontent, h⟩ := Except.bind_eq_ok.1 h
        cases h
        refine ⟨(name, content), ⟨hread, hcontent⟩, fun hmem ↦ hnew ?_, rfl⟩
        obtain ⟨entry, hentry, heq⟩ := List.mem_map.1 hmem
        exact List.any_eq_true.2 ⟨entry, hentry, beq_iff_eq.2 heq⟩
    · rintro ⟨⟨other, content⟩, ⟨hkey, hcontent⟩, hnew, rfl⟩
      obtain rfl : name = other := Except.ok.inj (Option.mem_unique hread hkey)
      rw [if_neg, hcontent]
      · rfl
      · rw [List.any_eq_true]
        rintro ⟨entry, hentry, heq⟩
        obtain rfl : entry.1 = name := beq_iff_eq.1 heq
        exact hnew (List.mem_map.2 ⟨entry, hentry, rfl⟩)

/-- **What the loop gives: each element that has a key, filed under one of its own.** -/
theorem foldlM_file {values : List α} {found out : List (κ × β)} :
    values.foldlM (file key twice value) found = .ok out ↔ ∃ entries, out = found ++ entries ∧
      List.Forall₂ (Filed key value) (values.filter fun a ↦ (key a).isSome) entries ∧
        (entries.map Prod.fst).Nodup ∧ ∀ entry ∈ entries, entry.1 ∉ found.map Prod.fst := by
  induction values generalizing found with
  | nil =>
    rw [List.foldlM_nil, List.filter_nil]
    constructor
    · intro h
      cases h
      exact ⟨[], (List.append_nil _).symm, .nil, List.nodup_nil, fun entry hentry ↦ (List.not_mem_nil hentry).elim⟩
    · rintro ⟨entries, rfl, hfiled, -⟩
      cases hfiled
      rw [List.append_nil]
      rfl
  | cons a rest ih =>
    rw [List.foldlM_cons, List.filter_cons]
    by_cases hkeyed : (key a).isSome = true
    · rw [if_pos hkeyed, Except.bind_eq_ok]
      constructor
      · rintro ⟨middle, hmiddle, hrest⟩
        obtain ⟨entry, hfiled, hnew, rfl⟩ := (file_keyed hkeyed).1 hmiddle
        obtain ⟨entries, rfl, hothers, hnodup, hfresh⟩ := ih.1 hrest
        refine ⟨entry :: entries, by simp, .cons hfiled hothers, ?_, ?_⟩
        · rw [List.map_cons, List.nodup_cons]
          refine ⟨fun hmem ↦ ?_, hnodup⟩
          obtain ⟨other, hother, heq⟩ := List.mem_map.1 hmem
          exact hfresh other hother (heq ▸ by simp)
        · intro other hother hmem
          obtain rfl | hother := List.mem_cons.1 hother
          · exact hnew hmem
          · refine hfresh other hother ?_
            rw [List.map_append]
            exact List.mem_append_left _ hmem
      · rintro ⟨entries, rfl, hfiled, hnodup, hfresh⟩
        cases hfiled with
        | @cons _ entry _ entries hfirst hothers =>
          rw [List.map_cons, List.nodup_cons] at hnodup
          refine ⟨found ++ [entry], (file_keyed hkeyed).2 ⟨entry, hfirst, hfresh entry List.mem_cons_self, rfl⟩, ?_⟩
          refine ih.2 ⟨entries, by simp, hothers, hnodup.2, fun other hother hmem ↦ ?_⟩
          rw [List.map_append] at hmem
          obtain hmem | hmem := List.mem_append.1 hmem
          · exact hfresh other (List.mem_cons_of_mem _ hother) hmem
          · exact hnodup.1 (List.mem_singleton.1 hmem ▸ List.mem_map_of_mem hother)
    · rw [if_neg hkeyed, file_plain (Bool.not_eq_true _ ▸ hkeyed), Except.ok_bind]
      exact ih

theorem foldlM_file_nil {values : List α} {out : List (κ × β)} : values.foldlM (file key twice value) [] = .ok out ↔
      List.Forall₂ (Filed key value) (values.filter fun a ↦ (key a).isSome) out ∧ (out.map Prod.fst).Nodup := by
  rw [foldlM_file]
  constructor
  · rintro ⟨entries, rfl, hfiled, hnodup, -⟩
    exact ⟨hfiled, hnodup⟩
  · rintro ⟨hfiled, hnodup⟩
    exact ⟨out, rfl, hfiled, hnodup, fun _ _ ↦ List.not_mem_nil⟩

/-- **Two collections compared key by key are compared as sets.** -/
theorem same_iff {current proposed : List (κ × β)} (hcurrent : (current.map Prod.fst).Nodup)
    (hproposed : (proposed.map Prod.fst).Nodup) : ((∀ entry ∈ current, proposed.lookup entry.1 = some entry.2) ∧
        ∀ entry ∈ proposed, (current.lookup entry.1).isSome = true) ↔ ∀ entry, entry ∈ current ↔ entry ∈ proposed := by
  constructor
  · rintro ⟨hkept, hknown⟩ ⟨name, content⟩
    refine ⟨fun hentry ↦ Entries.mem_of_lookup (hkept _ hentry), fun hentry ↦ ?_⟩
    obtain ⟨old, hold⟩ := Option.isSome_iff_exists.1 (hknown _ hentry)
    have hmem := Entries.mem_of_lookup hold
    have hsame : some old = some content := (hkept _ hmem).symm.trans (Entries.lookup_of_mem hproposed hentry)
    cases hsame
    exact hmem
  · intro h
    refine ⟨fun entry hentry ↦ Entries.lookup_of_mem hproposed ((h entry).1 hentry), fun entry hentry ↦ ?_⟩
    rw [Entries.lookup_of_mem hcurrent ((h entry).2 hentry)]
    rfl

end Filing
