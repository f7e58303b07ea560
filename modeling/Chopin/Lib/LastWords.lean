import Chopin.Lib.Entries
import Chopin.Lib.Lists
import Mathlib.Data.List.Induction

/-!
# Last words

A history in which each item may be the word of a speaker, for something or against it.  Who is for it is kept in an
insertion-ordered map: a word for it puts the speaker at the end, a word against it takes the speaker out.

`mem_hear` is what the map holds after any history: the speakers whose last word was for it, each with that word.  The
words stand in the order of the history (`hear_sublist`).
-/

set_option autoImplicit false

namespace LastWords

variable {κ α : Type} [DecidableEq κ] (word : α → Option (κ × Bool))

/-- The speakers who are for it, after an item. -/
def hear (active : List (κ × α)) (item : α) : List (κ × α) :=
  match word item with
  | some (key, true) => Entries.set (Entries.delete active key) key item
  | some (key, false) => Entries.delete active key
  | none => active

/-- The item is the last word of the speaker; `favour` tells whether it is for it. -/
def Last (items : List α) (key : κ) (item : α) (favour : Bool) : Prop :=
  ∃ before after, items = before ++ item :: after ∧ word item = some (key, favour) ∧
    ∀ later ∈ after, ∀ either, word later ≠ some (key, either)

variable {word}

omit [DecidableEq κ] in
/-- The last item is a speaker's last word, or leaves the speaker's last word what it was. -/
theorem last_concat {items : List α} {last : α} {key : κ} {item : α} {favour : Bool} :
    Last word (items ++ [last]) key item favour ↔ (item = last ∧ word last = some (key, favour)) ∨
        (Last word items key item favour ∧ ∀ either, word last ≠ some (key, either)) := by
  constructor
  · rintro ⟨before, after, hitems, hword, hlater⟩
    obtain ⟨-, rfl⟩ | ⟨rest, rfl⟩ := List.concat_eq_append_cons hitems
    · exact .inl ⟨rfl, hword⟩
    · rw [List.append_assoc, List.cons_append] at hitems
      obtain rfl := List.cons_inj_right _ |>.1 (List.append_cancel_left hitems)
      exact .inr ⟨⟨before, rest, rfl, hword, fun later h ↦ hlater later (List.mem_append_left _ h)⟩,
        hlater last List.mem_concat_self⟩
  · rintro (⟨rfl, hword⟩ | ⟨⟨before, after, rfl, hword, hlater⟩, hlast⟩)
    · exact ⟨items, [], rfl, hword, fun later h ↦ nomatch h⟩
    · refine ⟨before, after ++ [last], by rw [List.append_assoc, List.cons_append], hword, fun later h ↦ ?_⟩
      rcases List.mem_append.1 h with h | h
      · exact hlater later h
      · exact List.mem_singleton.1 h ▸ hlast

/-- A speaker who is put at the end. -/
theorem set_delete (active : List (κ × α)) (key : κ) (item : α) :
    Entries.set (Entries.delete active key) key item = Entries.delete active key ++ [(key, item)] := by
  refine Entries.set_new (fun hkey ↦ ?_) item
  obtain ⟨entry, hmem, hown⟩ := List.mem_map.1 hkey
  exact (Entries.mem_delete.1 hmem).2 hown

/-- **Who is for it are those whose last word was.** -/
theorem mem_hear {items : List α} {key : κ} {item : α} :
    (key, item) ∈ items.foldl (hear word) [] ↔ Last word items key item true := by
  induction items using List.reverseRecOn with
  | nil => simp [Last]
  | append_singleton items last ih =>
    rw [List.foldl_append, List.foldl_cons, List.foldl_nil, last_concat, hear]
    split
    · rename_i speaker hword
      rw [set_delete, List.mem_append, List.mem_singleton, Entries.mem_delete, ih, hword, or_comm]
      simp only [Prod.mk.injEq, Option.some.injEq, and_true, ne_eq, not_and]
      refine or_congr ⟨fun h ↦ ⟨h.2, h.1.symm⟩, fun h ↦ ⟨h.2.symm, h.1⟩⟩ (and_congr_right' ?_)
      exact ⟨fun h _ heq ↦ absurd heq.symm h, fun h heq ↦ h true heq.symm rfl⟩
    · rename_i speaker hword
      rw [Entries.mem_delete, ih, hword]
      simp only [Prod.mk.injEq, Option.some.injEq, Bool.false_eq_true, and_false, false_or, ne_eq, not_and]
      exact and_congr_right' ⟨fun h _ heq ↦ absurd heq.symm h, fun h heq ↦ h false heq.symm rfl⟩
    · rename_i hword
      rw [ih, hword]
      simp

/-- No speaker is counted twice. -/
theorem nodup_hear (items : List α) : ((items.foldl (hear word) []).map Prod.fst).Nodup := by
  induction items using List.reverseRecOn with
  | nil => exact .nil
  | append_singleton items last ih =>
    rw [List.foldl_append, List.foldl_cons, List.foldl_nil, hear]
    have hdelete : ∀ key, ((Entries.delete (items.foldl (hear word) []) key).map Prod.fst).Nodup :=
      fun key ↦ ih.sublist (List.filter_sublist.map _)
    split
    · exact Entries.nodup_set (hdelete _) _ _
    · exact hdelete _
    · exact ih

/-- The words that count stand in the order of the history. -/
theorem hear_sublist (items : List α) : ((items.foldl (hear word) []).map Prod.snd).Sublist items := by
  induction items using List.reverseRecOn with
  | nil => exact .slnil
  | append_singleton items last ih =>
    rw [List.foldl_append, List.foldl_cons, List.foldl_nil, hear]
    have hdelete : ∀ key, ((Entries.delete (items.foldl (hear word) []) key).map Prod.snd).Sublist items :=
      fun key ↦ (List.filter_sublist.map _).trans ih
    split
    · rw [set_delete, List.map_append]
      exact (hdelete _).append (List.Sublist.refl _)
    · exact (hdelete _).trans (List.sublist_append_left _ _)
    · exact ih.trans (List.sublist_append_left _ _)

end LastWords
