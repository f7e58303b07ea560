import Chopin.Experiments.Connections
import Chopin.Lib.Runs
import Mathlib.Data.List.Nodup

/-!
# Handing a connection over

A queue of documents waits on the release of the connection's current one, so a queue needs a
document that holds the connection.  Every call keeps that but `rebind`, which takes the assignment
away from a connection and leaves the queue behind it where it was.
-/

set_option autoImplicit false

namespace Chopin.Experiments

open Connections

/-! ## What the maps say after a call -/

theorem assigned_setQueue (s : Connections) (c : String) (rest : List String) :
    (s.setQueue c rest).assigned = s.assigned := by
  rw [setQueue]; split <;> rfl

theorem has_setQueue (s : Connections) (c : String) (rest : List String) : (s.setQueue c rest).has = s.has := by
  rw [setQueue]; split <;> rfl

theorem runTokens_setQueue (s : Connections) (c : String) (rest : List String) :
    (s.setQueue c rest).runTokens = s.runTokens := by
  rw [setQueue]; split <;> rfl

theorem tokens_setQueue (s : Connections) (c : String) (rest : List String) :
    (s.setQueue c rest).tokens = s.tokens := by
  rw [setQueue]; split <;> rfl

theorem queuedOn_setQueue (s : Connections) (c other : String) (rest : List String) :
    (s.setQueue c rest).queuedOn other = if other = c then rest else s.queuedOn other := by
  rw [setQueue]
  split
  · rename_i hempty
    rw [queuedOn, Entries.lookup_delete]
    split
    · exact (List.isEmpty_iff.1 hempty).symm
    · rfl
  · rw [queuedOn, Entries.lookup_set]
    split <;> rfl

/-! ## The invariant -/

structure Handed (s : Connections) : Prop where
  /-- Only an open connection holds a build. -/
  «open» : ∀ c d, s.assigned c = some d → s.has c = true
  /-- A queue stands behind an assigned document. -/
  holder : ∀ c, s.queuedOn c ≠ [] → ∃ d, s.assigned c = some d
  /-- No document is both assigned and queued, or queued twice. -/
  apart : ∀ c d, s.assigned c = some d → d ∉ s.queuedOn c
  nodup : ∀ c, (s.queuedOn c).Nodup
  /-- Tokens name open connections. -/
  runTokens : ∀ entry ∈ s.runTokens, s.has entry.1.connectionId = true
  tokens : ∀ entry ∈ s.tokens, s.has entry.2.connectionId = true

theorem Handed.empty : Handed Connections.empty := by
  refine ⟨?_, ?_, ?_, ?_, ?_, ?_⟩ <;> simp [Connections.empty, assigned, queuedOn]

variable {s : Connections} {c : String}

theorem Handed.queue_empty (h : Handed s) (hnone : s.assigned c = none) : s.queuedOn c = [] := by
  by_contra hne
  obtain ⟨d, hd⟩ := h.holder c hne
  rw [hnone] at hd
  cases hd

/-- Nothing names a connection that is not open. -/
theorem Handed.assigned_closed (h : Handed s) (hclosed : s.has c = false) : s.assigned c = none := by
  by_contra hne
  obtain ⟨d, hd⟩ := Option.ne_none_iff_exists'.1 hne
  rw [h.open c d hd] at hclosed
  cases hclosed

theorem Handed.queue_closed (h : Handed s) (hclosed : s.has c = false) :
    s.queuedOn c = [] := h.queue_empty (h.assigned_closed hclosed)

/-! ## Builds -/

variable {d : String}

theorem Handed.assign (h : Handed s) (hfree : s.assigned c = none ∨ s.assigned c = some d) : Handed (s.assign c d) := by
  rw [Connections.assign]
  split
  · rename_i hhas
    have hassigned (other : String) :
        Connections.assigned { s with builds := Entries.set s.builds c d } other =
          if other = c then some d else s.assigned other := Entries.lookup_set _ _ _ _
    refine ⟨fun other holder hholder ↦ ?_, fun other hqueue ↦ ?_, fun other holder hholder ↦ ?_, h.nodup,
      h.runTokens, h.tokens⟩
    · rw [hassigned] at hholder
      split at hholder
      · rename_i hsame; rw [hsame]; exact hhas
      · exact h.open other holder hholder
    · rw [hassigned]
      split
      · exact ⟨d, rfl⟩
      · exact h.holder other hqueue
    · rw [hassigned] at hholder
      split at hholder
      · rename_i hsame
        cases hholder
        show d ∉ s.queuedOn other
        rw [hsame]
        rcases hfree with hnone | hsome
        · rw [h.queue_empty hnone]; exact List.not_mem_nil
        · exact h.apart c d hsome
      · exact h.apart other holder hholder
  · exact h

theorem Handed.enqueue (h : Handed s)
    (hheld : s.assigned c ≠ none) (hne : s.assigned c ≠ some d) : Handed (s.enqueue c d) := by
  obtain ⟨holder, hholder⟩ := Option.ne_none_iff_exists'.1 hheld
  rw [Connections.enqueue]
  split
  · exact h
  · simp only
    split
    · exact h
    · rename_i hnew
      have hqueued (other : String) :
          Connections.queuedOn { s with queued := Entries.set s.queued c (s.queuedOn c ++ [d]) } other =
            if other = c then s.queuedOn c ++ [d] else s.queuedOn other := by
        rw [queuedOn, Entries.lookup_set]
        split <;> rfl
      refine ⟨h.open, fun other hqueue ↦ ?_, fun other before hbefore ↦ ?_, fun other ↦ ?_, h.runTokens,
        h.tokens⟩
      · by_cases hsame : other = c
        · exact ⟨holder, hsame ▸ hholder⟩
        · rw [hqueued, if_neg hsame] at hqueue
          exact h.holder other hqueue
      · rw [hqueued]
        split
        · rename_i hsame
          subst hsame
          obtain rfl := Option.mem_unique hholder hbefore
          rw [List.mem_append, List.mem_singleton]
          exact fun hor ↦ hor.elim (h.apart other holder hholder) fun heq ↦ hne (heq ▸ hholder)
        · exact h.apart other before hbefore
      · rw [hqueued]
        split
        · rw [List.nodup_append]
          refine ⟨h.nodup c, List.nodup_singleton _, ?_⟩
          rintro a ha b hb rfl
          rw [List.mem_singleton] at hb
          exact hnew (List.contains_iff_mem.2 (hb ▸ ha))
        · exact h.nodup other

/-- A queue that is replaced by a part of itself. -/
theorem Handed.setQueue (h : Handed s) {rest : List String}
    (hsub : rest.Sublist (s.queuedOn c)) : Handed (s.setQueue c rest) := by
  refine ⟨?_, fun other hqueue ↦ ?_, fun other d hd ↦ ?_, fun other ↦ ?_, ?_, ?_⟩
  · rw [assigned_setQueue, has_setQueue]; exact h.open
  · rw [queuedOn_setQueue] at hqueue
    rw [assigned_setQueue]
    refine h.holder other fun hnone ↦ hqueue ?_
    split
    · rename_i hsame
      rw [hsame] at hnone
      rw [hnone] at hsub
      exact List.sublist_nil.1 hsub
    · exact hnone
  · rw [assigned_setQueue] at hd
    rw [queuedOn_setQueue]
    have hout := h.apart other d hd
    split
    · rename_i hsame
      rw [hsame] at hout
      exact fun hmem ↦ hout (hsub.subset hmem)
    · exact hout
  · rw [queuedOn_setQueue]
    split
    · exact (h.nodup c).sublist hsub
    · exact h.nodup other
  · rw [runTokens_setQueue, has_setQueue]; exact h.runTokens
  · rw [tokens_setQueue, has_setQueue]; exact h.tokens

/-- What a release leaves of the connection whose build it was: the next document holds it, and the
others wait. -/
theorem release_holder (h : s.assigned c = some d) :
    (s.release c d).assigned c = (s.queuedOn c).head? ∧ (s.release c d).queuedOn c = (s.queuedOn c).tail := by
  rw [Connections.release, if_pos (by rw [h]; exact beq_self_eq_true _)]
  cases hqueue : s.queuedOn c with
  | nil =>
    refine ⟨?_, hqueue⟩
    show (Entries.delete s.builds c).lookup c = none
    rw [Entries.lookup_delete, if_pos rfl]
  | cons next rest =>
    simp only
    rw [assigned_setQueue, queuedOn_setQueue, if_pos rfl]
    refine ⟨?_, rfl⟩
    show (Entries.set s.builds c next).lookup c = some next
    rw [Entries.lookup_set, if_pos rfl]

theorem release_others {other : String} (hne : other ≠ c) :
    (s.release c d).assigned other = s.assigned other ∧ (s.release c d).queuedOn other = s.queuedOn other := by
  rw [Connections.release]
  split
  · split
    · refine ⟨?_, rfl⟩
      show (Entries.delete s.builds c).lookup other = _
      rw [Entries.lookup_delete, if_neg hne]
      rfl
    · rw [assigned_setQueue, queuedOn_setQueue, if_neg hne]
      refine ⟨?_, rfl⟩
      show (Entries.set s.builds c _).lookup other = _
      rw [Entries.lookup_set, if_neg hne]
      rfl
  · rw [assigned_setQueue, queuedOn_setQueue, if_neg hne]
    exact ⟨rfl, rfl⟩

theorem release_kept (s : Connections) (c d : String) : (s.release c d).has = s.has ∧
    (s.release c d).runTokens = s.runTokens ∧ (s.release c d).tokens = s.tokens := by
  rw [Connections.release]
  split
  · split
    · exact ⟨rfl, rfl, rfl⟩
    · rw [has_setQueue, runTokens_setQueue, tokens_setQueue]
      exact ⟨rfl, rfl, rfl⟩
  · rw [has_setQueue, runTokens_setQueue, tokens_setQueue]
    exact ⟨rfl, rfl, rfl⟩

theorem Handed.release (h : Handed s) (c d : String) : Handed (s.release c d) := by
  by_cases hheld : s.assigned c = some d
  · obtain ⟨hassigned, hqueue⟩ := release_holder hheld
    obtain ⟨hhas, hrunTokens, htokens⟩ := release_kept s c d
    refine ⟨fun other holder hholder ↦ ?_, fun other hnonempty ↦ ?_, fun other holder hholder ↦ ?_,
      fun other ↦ ?_, by rw [hrunTokens, hhas]; exact h.runTokens, by rw [htokens, hhas]; exact h.tokens⟩
    all_goals by_cases hsame : other = c
    · rw [hhas, hsame]
      exact h.open c d hheld
    · rw [(release_others hsame).1] at hholder
      rw [hhas]
      exact h.open other holder hholder
    · rw [hsame, hqueue] at hnonempty
      rw [hsame, hassigned]
      cases hbefore : s.queuedOn c with
      | nil => rw [hbefore] at hnonempty; exact absurd rfl hnonempty
      | cons next rest => exact ⟨next, rfl⟩
    · rw [(release_others hsame).2] at hnonempty
      rw [(release_others hsame).1]
      exact h.holder other hnonempty
    · rw [hsame, hassigned] at hholder
      rw [hsame, hqueue]
      have hnodup := h.nodup c
      cases hbefore : s.queuedOn c with
      | nil => exact List.not_mem_nil
      | cons next rest =>
        rw [hbefore] at hholder hnodup
        cases hholder
        exact (List.nodup_cons.1 hnodup).1
    · rw [(release_others hsame).1] at hholder
      rw [(release_others hsame).2]
      exact h.apart other holder hholder
    · rw [hsame, hqueue]
      exact (h.nodup c).sublist (List.tail_sublist _)
    · rw [(release_others hsame).2]
      exact h.nodup other
  · rw [Connections.release]
    rw [if_neg (by simpa using hheld)]
    exact h.setQueue List.filter_sublist

/-- **Releases hand the connection on, first in first out**, until nothing waits any more. -/
theorem drained {waiting : List String} (hheld : s.assigned c = some d)
    (hqueue : s.queuedOn c = waiting) : ∀ count, count ≤ waiting.length + 1 →
      let after := ((d :: waiting).take count).foldl (fun s document ↦ s.release c document) s
      after.assigned c = (d :: waiting)[count]? ∧ after.queuedOn c = waiting.drop count := by
  induction waiting generalizing s d with
  | nil =>
    intro count hcount
    match count, hcount with
    | 0, _ => exact ⟨hheld, hqueue⟩
    | 1, _ =>
      obtain ⟨hassigned, hrest⟩ := release_holder hheld
      rw [hqueue] at hassigned hrest
      exact ⟨hassigned, hrest⟩
  | cons next rest ih =>
    intro count hcount
    match count, hcount with
    | 0, _ => exact ⟨hheld, hqueue⟩
    | count + 1, hcount =>
      obtain ⟨hassigned, hrest⟩ := release_holder hheld
      rw [hqueue] at hassigned hrest
      have hnext := ih hassigned hrest count (by rw [List.length_cons] at hcount; omega)
      rw [List.take_succ_cons, List.foldl_cons, List.getElem?_cons_succ, List.drop_succ_cons]
      exact hnext

/-! ## Moving a run -/

variable {fromId toId : String}

theorem mem_moveRunTokens {runTokens : List (RunTokenKey × String)} {runId : String}
    {entry : RunTokenKey × String} (h : entry ∈ moveRunTokens runTokens fromId toId runId) :
    entry ∈ runTokens ∨ entry.1.connectionId = toId := by
  rw [moveRunTokens] at h
  generalize runTokens.filter _ = moving at h
  suffices hfold : ∀ moved : List (RunTokenKey × String),
      (∀ entry ∈ moved, entry ∈ runTokens ∨ entry.1.connectionId = toId) →
      ∀ entry ∈ moving.foldl (fun moved entry ↦ Entries.set (Entries.delete moved entry.1)
          { entry.1 with connectionId := toId } entry.2) moved,
        entry ∈ runTokens ∨ entry.1.connectionId = toId from
    hfold runTokens (fun _ hmem ↦ .inl hmem) entry h
  clear h
  induction moving with
  | nil => exact fun _ hmoved ↦ hmoved
  | cons first rest ih =>
    refine fun moved hmoved ↦ ih _ fun entry hentry ↦ ?_
    rcases Entries.mem_set hentry with hold | rfl
    · exact hmoved _ (Entries.mem_delete.1 hold).1
    · exact .inr rfl

/-- A connection nothing waits on may lose its build. -/
theorem Handed.vacate (h : Handed s) (hempty : s.queuedOn c = []) :
    Handed { s with builds := Entries.delete s.builds c } := by
  have hassigned (other : String) :
      Connections.assigned { s with builds := Entries.delete s.builds c } other =
        if other = c then none else s.assigned other := Entries.lookup_delete _ _ _
  refine ⟨fun other holder hholder ↦ ?_, fun other hqueue ↦ ?_, fun other holder hholder ↦ ?_, h.nodup,
    h.runTokens, h.tokens⟩
  · rw [hassigned] at hholder
    split at hholder
    · cases hholder
    · exact h.open other holder hholder
  · rw [hassigned]
    split
    · rename_i hsame
      exact absurd (hsame ▸ hempty) hqueue
    · exact h.holder other hqueue
  · rw [hassigned] at hholder
    split at hholder
    · cases hholder
    · exact h.apart other holder hholder

theorem has_assign (s : Connections) (c d : String) : (s.assign c d).has = s.has := by
  rw [Connections.assign]; split <;> rfl

theorem queuedOn_assign (s : Connections) (c d : String) : (s.assign c d).queuedOn = s.queuedOn := by
  rw [Connections.assign]; split <;> rfl

theorem assigned_assign (hopen : s.has c = true) (d other : String) :
    (s.assign c d).assigned other = if other = c then some d else s.assigned other := by
  rw [Connections.assign, if_pos hopen]
  exact Entries.lookup_set _ _ _ _

theorem assigned_vacated (s : Connections) (fromId d other : String) :
    (if s.assigned fromId == some d then { s with builds := Entries.delete s.builds fromId }
      else s : Connections).assigned other =
      if other = fromId then if s.assigned fromId = some d then none else s.assigned fromId
      else s.assigned other := by
  by_cases hheld : s.assigned fromId = some d
  · rw [if_pos (beq_iff_eq.2 hheld), if_pos hheld]
    exact Entries.lookup_delete _ _ _
  · rw [if_neg (by simpa using hheld), if_neg hheld]
    split
    · rename_i hfrom
      rw [hfrom]
    · rfl

/-- Where the assignments are after a build moved. -/
theorem assigned_moveBuild (hne : fromId ≠ toId)
    (hopen : s.has toId = true) (d other : String) : (s.moveBuild fromId toId d).assigned other =
      if other = fromId then if s.assigned fromId = some d then none else s.assigned fromId
      else if other = toId then (s.assigned toId).or (some d) else s.assigned other := by
  have hassigned := assigned_vacated s fromId d
  have hhas : (if s.assigned fromId == some d then { s with builds := Entries.delete s.builds fromId }
      else s : Connections).has toId = true := by split <;> exact hopen
  rw [Connections.moveBuild]
  generalize (if s.assigned fromId == some d then _ else s : Connections) = vacated at hassigned hhas
  have hto : vacated.assigned toId = s.assigned toId := by rw [hassigned, if_neg (Ne.symm hne)]
  by_cases hfree : s.assigned toId = none
  · rw [if_pos (beq_iff_eq.2 (hto.trans hfree)), assigned_assign hhas, hassigned, hfree]
    by_cases hother : other = toId
    · rw [if_pos hother, if_neg (hother ▸ Ne.symm hne), if_pos hother]
      rfl
    · rw [if_neg hother, if_neg hother]
  · rw [if_neg (by simpa [hto] using hfree), hassigned,
      Option.or_of_isSome (Option.isSome_iff_ne_none.2 hfree)]
    by_cases hother : other = toId
    · rw [if_pos hother, hother]
    · rw [if_neg hother]

theorem moveBuild_kept (s : Connections) (fromId toId d : String) :
    (s.moveBuild fromId toId d).has = s.has ∧ (s.moveBuild fromId toId d).queuedOn = s.queuedOn := by
  rw [Connections.moveBuild]
  split
  all_goals
    split
    · rw [has_assign, queuedOn_assign]
      exact ⟨rfl, rfl⟩
    · exact ⟨rfl, rfl⟩

/-- A build may move to an open connection when nothing waits behind it. -/
theorem Handed.moveBuild (h : Handed s) (hqueue : s.assigned fromId = some d → s.queuedOn fromId = []) (toId : String) :
    Handed (s.moveBuild fromId toId d) := by
  have hvacated : Handed (if s.assigned fromId == some d then
      { s with builds := Entries.delete s.builds fromId } else s) := by
    split
    · rename_i hheld
      exact h.vacate (hqueue (beq_iff_eq.1 hheld))
    · exact h
  rw [Connections.moveBuild]
  generalize (if s.assigned fromId == some d then _ else s : Connections) = vacated at hvacated
  split
  · rename_i hfree
    exact hvacated.assign (.inl (beq_iff_eq.1 hfree))
  · exact hvacated

theorem Handed.rebind (h : Handed s) {runId : String}
    (hopen : s.has toId = true) (hqueue : s.assigned fromId = some d → s.queuedOn fromId = []) :
    Handed (s.rebind fromId toId d runId) := by
  have hmoved := h.moveBuild hqueue toId
  have hto : (s.moveBuild fromId toId d).has toId = true := by rw [(moveBuild_kept s fromId toId d).1]; exact hopen
  refine ⟨hmoved.open, hmoved.holder, hmoved.apart, hmoved.nodup, fun entry hmem ↦ ?_, fun entry hmem ↦ ?_⟩
  · rcases mem_moveRunTokens hmem with hold | hnew
    · exact hmoved.runTokens entry hold
    · exact hnew ▸ hto
  · obtain ⟨old, hold, rfl⟩ := List.mem_map.1 hmem
    split
    · exact hto
    · exact hmoved.tokens old hold

/-- **A build that moves with a queue behind it leaves the queue without a holder.** -/
theorem rebind_strands (h : Handed s) (hne : fromId ≠ toId) (hopen : s.has toId = true) (runId : String) :
    Handed (s.rebind fromId toId d runId) ↔ (s.assigned fromId = some d → s.queuedOn fromId = []) := by
  refine ⟨fun hafter hheld ↦ ?_, h.rebind hopen⟩
  have hassigned : (s.rebind fromId toId d runId).assigned fromId = none := by
    show (s.moveBuild fromId toId d).assigned fromId = none
    rw [assigned_moveBuild hne hopen, if_pos rfl, if_pos hheld]
  have hqueue : (s.rebind fromId toId d runId).queuedOn fromId = s.queuedOn fromId :=
    congrFun (moveBuild_kept s fromId toId d).2 fromId
  exact hqueue ▸ hafter.queue_empty hassigned

/-! ## Tokens -/

theorem Handed.runToken (h : Handed s) (fingerprint : String → String)
    (hopen : s.has c = true) (documentId id : String) (generation : Nat) (kind : RunKind) (token : String) :
    Handed (s.runToken fingerprint c documentId id generation kind token) := by
  rw [Connections.runToken]
  split
  · exact h
  · refine ⟨h.open, h.holder, h.apart, h.nodup, fun entry hmem ↦ ?_, fun entry hmem ↦ ?_⟩
    · rcases Entries.mem_set hmem with hold | rfl
      · exact h.runTokens entry hold
      · exact hopen
    · rcases Entries.mem_set hmem with hold | rfl
      · exact h.tokens entry hold
      · exact hopen

theorem Handed.adopt (h : Handed s) (fingerprint : String → String) (token c : String)
    (run : Run) : Handed (s.adopt fingerprint token c run) := by
  rw [Connections.adopt]
  split
  · exact h
  · rename_i hclosed
    have hopen : s.has c = true := by simpa using hclosed
    refine ⟨h.open, h.holder, h.apart, h.nodup, fun entry hmem ↦ ?_, fun entry hmem ↦ ?_⟩
    · rcases Entries.mem_set hmem with hold | rfl
      · exact h.runTokens entry hold
      · exact hopen
    · rcases Entries.mem_set hmem with hold | rfl
      · exact h.tokens entry hold
      · exact hopen

/-! ## Ends and beginnings -/

/-- What the maps say of a connection that was revoked, and of the others. -/
theorem revoke_maps (s : Connections) (now : Int) (id other : String) :
    (s.revoke now id).assigned other = (if other = id then none else s.assigned other) ∧
      (s.revoke now id).queuedOn other = (if other = id then [] else s.queuedOn other) ∧
      (s.revoke now id).connections.lookup other =
        (if other = id then none else s.connections.lookup other) := by
  refine ⟨Entries.lookup_delete _ _ _, ?_, Entries.lookup_delete _ _ _⟩
  rw [queuedOn]
  show ((Entries.delete s.queued id).lookup other).getD [] = _
  rw [Entries.lookup_delete]
  split <;> rfl

theorem has_revoke {now : Int} {id other : String} :
    (s.revoke now id).has other = true ↔ other ≠ id ∧ s.has other = true := by
  rw [has, (revoke_maps s now id other).2.2, has]
  split <;> simp_all

theorem Handed.revoke (h : Handed s) (now : Int) (id : String) : Handed (s.revoke now id) := by
  refine ⟨fun c d hheld ↦ ?_, fun c hqueue ↦ ?_, fun c d hheld ↦ ?_, fun c ↦ ?_, fun entry hmem ↦ ?_,
    fun entry hmem ↦ ?_⟩
  · rw [(revoke_maps s now id c).1] at hheld
    split at hheld
    · cases hheld
    · rename_i hne
      exact has_revoke.2 ⟨hne, h.open c d hheld⟩
  · rw [(revoke_maps s now id c).2.1] at hqueue
    split at hqueue
    · exact absurd rfl hqueue
    · rename_i hne
      rw [(revoke_maps s now id c).1, if_neg hne]
      exact h.holder c hqueue
  · rw [(revoke_maps s now id c).1] at hheld
    rw [(revoke_maps s now id c).2.1]
    split at hheld
    · cases hheld
    · rename_i hne
      rw [if_neg hne]
      exact h.apart c d hheld
  · rw [(revoke_maps s now id c).2.1]
    split
    · exact .nil
    · exact h.nodup c
  · obtain ⟨hold, hne⟩ := List.mem_filter.1 hmem
    exact has_revoke.2 ⟨bne_iff_ne.1 hne, h.runTokens entry hold⟩
  · obtain ⟨hold, hne⟩ := List.mem_filter.1 hmem
    exact has_revoke.2 ⟨bne_iff_ne.1 hne, h.tokens entry hold⟩

end Chopin.Experiments
