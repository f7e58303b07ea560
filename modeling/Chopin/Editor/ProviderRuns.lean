import Chopin.Editor.Merges
import Chopin.Lib.Runs

/-!
# No local edit is dropped by the outbox

Whatever comes in between (flushes, merges, acknowledgements of entries that were merged away, resends,
refusals, disconnects and openings of the same document), an update that was made while the provider was
attached is in an outbox entry until an acknowledgement covers it.  And an entry is waiting for a flush that
is scheduled, was sent with a resend armed, or is left for the next open.

The provider listens to its document only while it is connected: what is made of the document before
`connect` or after `disconnect` is nobody's to send.
-/

set_option autoImplicit false

namespace Chopin.Editor

open Provider

variable {U E : Type} {yjs : Yjs U E} {provider next last : Provider U}

/-! ## A session -/

/-- A local update of the document, and whether the provider was connected then. -/
structure Made (U : Type) where
  update : U
  heard : Bool

structure Session (U : Type) where
  provider : Provider U
  /-- The generation of the open that is in flight. -/
  asked : Option Nat
  made : List (Made U)
  /-- The updates of the frames the server acknowledged to the provider. -/
  acked : List U

def Session.start : Session U := { provider := .new, asked := none, made := [], acked := [] }

inductive Act (U : Type)
  | connect (wire : Bool)
  | disconnect
  /-- The transport can carry a request again. -/
  | resume (wire : Bool)
  /-- The reply to the open arrives; applying it to the document may throw. -/
  | reply (applies : Bool)
  | unreplied
  | edit (time : Nat) (update : U)
  | paced
  | resent
  /-- The server acknowledges a frame, perhaps not for the first time. -/
  | ack (id : Id)
  /-- The server says that it takes no updates now, or not this one. -/
  | refused

/-- What happens next, with a server whose document is of one epoch. -/
def step (yjs : Yjs U E) (epoch : String) (session : Session U) : Act U → Option (Session U)
  | .connect wire =>
    let out := session.provider.connect wire
    some { session with provider := out.1, asked := out.2.or session.asked }
  | .disconnect => some { session with provider := session.provider.disconnect }
  | .resume wire =>
    let out := session.provider.resume wire
    some { session with provider := out.1, asked := out.2.or session.asked }
  | .reply applies => session.asked.map fun generation ↦
    { session with
      provider := { opened yjs session.provider generation epoch applies with opening := false }
      asked := none }
  | .unreplied => session.asked.map fun _ ↦
    { session with provider := { session.provider with opening := false }, asked := none }
  | .edit time update => some
    { session with
      provider := note yjs session.provider time update
      made := session.made ++ [{ update, heard := session.provider.connected }] }
  | .paced => if session.provider.pacing then some { session with provider := paced yjs session.provider } else none
  | .resent =>
    if session.provider.resending then some { session with provider := resend yjs session.provider } else none
  | .ack id => (session.provider.sent.lookup id).map fun copy ↦
    if session.provider.connected then
      { session with provider := settle yjs session.provider id, acked := session.acked ++ [copy] }
    else session
  | .refused => some
    { session with provider := if session.provider.connected then session.provider.park else session.provider }

/-! ## The invariant -/

/-- While the document is open, every entry is on its way. -/
structure Live (provider : Provider U) : Prop where
  begun : provider.synced = true → provider.Begun
  due : provider.synced = true → provider.Due (provider.resending = true)
  opened : provider.synced = true → provider.epoch.isSome = true ∧ provider.connected = true

/-- What waits has a flush scheduled while the document is open. -/
def Scheduled (provider : Provider U) : Prop :=
  provider.unsent ≠ [] → provider.synced = true → provider.pacing = true

/-- Nothing that was held is lost. -/
def Covers (yjs : Yjs U E) (provider next : Provider U) : Prop :=
  ∀ entry ∈ provider.outbox, ∃ held ∈ next.outbox, yjs.edits entry.2 ⊆ yjs.edits held.2

theorem Covers.refl (yjs : Yjs U E) (provider : Provider U) : Covers yjs provider provider :=
  fun entry hmem ↦ ⟨entry, hmem, fun _ hedit ↦ hedit⟩

theorem Covers.trans (first : Covers yjs provider next) (second : Covers yjs next last) : Covers yjs provider last := by
  intro entry hmem
  obtain ⟨held, hheld, hsub⟩ := first entry hmem
  obtain ⟨kept, hkept, hsub'⟩ := second held hheld
  exact ⟨kept, hkept, fun _ hedit ↦ hsub' (hsub hedit)⟩

/-- What one operation keeps. -/
structure Keeps (yjs : Yjs U E) (provider next : Provider U) : Prop where
  sound : Sound yjs next
  covers : Covers yjs provider next
  live : Live next
  scheduled : Scheduled next
  epoch : next.epoch = provider.epoch

/-! ## Sending -/

/-- The entries under some ids were sent. -/
structure Sends (yjs : Yjs U E) (provider next : Provider U) (ids : List Id) : Prop where
  sound : Sound yjs next
  outbox : next.outbox = provider.outbox
  unsent : next.unsent = provider.unsent
  more : ∀ id, provider.sendsOf id ≤ next.sendsOf id
  sent : ∀ id ∈ ids, 1 ≤ next.sendsOf id
  armed : provider.resending = true ∨ ids ≠ [] → next.resending = true
  pacing : next.pacing = provider.pacing
  epoch : next.epoch = provider.epoch
  synced : next.synced = provider.synced
  connected : next.connected = provider.connected

variable {id : Id}

theorem send_sends (h : Sound yjs provider) (hepoch : provider.epoch.isSome = true)
    (hmem : id ∈ provider.ids) : Sends yjs provider (send provider id) [id] := by
  obtain ⟨epoch, hepoch⟩ := Option.isSome_iff_exists.1 hepoch
  obtain ⟨update, hlookup⟩ := Option.isSome_iff_exists.1 (lookup_isSome_iff.2 hmem)
  have hsends : ∀ other, (send provider id).sendsOf other =
      if other = id then provider.sendsOf id + 1 else provider.sendsOf other := by
    intro other
    rw [sendsOf.eq_def (send provider id), send, hepoch, hlookup]
    dsimp only [armResend]
    rw [Entries.lookup_set]
    by_cases hother : other = id
    · rw [if_pos hother, if_pos hother, Option.getD_some]
    · rw [if_neg hother, if_neg hother, sendsOf]
  have hsend : send provider id = armResend { provider with
      sent := provider.sent ++ [(id, update)]
      sends := Entries.set provider.sends id (provider.sendsOf id + 1) } := by
    rw [send, hepoch, hlookup]
  refine ⟨?_, by rw [hsend]; rfl, by rw [hsend]; rfl, fun other ↦ ?_, fun other hother ↦ ?_, fun _ ↦ by rw [hsend]; rfl,
    by rw [hsend]; rfl, by rw [hsend]; rfl, by rw [hsend]; rfl, by rw [hsend]; rfl⟩
  · rw [hsend]
    have hcounter := h.old id (.inl hmem)
    refine ⟨h.apart, h.waiting, h.total, fun other hother ↦ ?_, fun frame hframe found hfound ↦ ?_⟩
    · obtain hother | hother | hother | hother := hother
      · exact h.old other (.inl hother)
      · exact h.old other (.inr (.inl hother))
      · obtain ⟨frame, hframe, rfl⟩ := List.mem_map.1 hother
        obtain hframe | hframe := List.mem_append.1 hframe
        · exact h.old _ (.inr (.inr (.inl (List.mem_map_of_mem hframe))))
        · rw [List.mem_singleton.1 hframe]
          exact hcounter
      · obtain ⟨entry, hentry, rfl⟩ := List.mem_map.1 hother
        obtain hentry | rfl := Entries.mem_set hentry
        · exact h.old _ (.inr (.inr (.inr (List.mem_map_of_mem hentry))))
        · exact hcounter
    · obtain hframe | hframe := List.mem_append.1 hframe
      · exact h.same frame hframe found hfound
      · rw [List.mem_singleton.1 hframe] at hfound ⊢
        exact Option.mem_unique hfound hlookup
  · rw [hsends]
    by_cases hother : other = id
    · rw [if_pos hother, hother]
      exact Nat.le_succ _
    · exact Nat.le_of_eq (if_neg hother).symm
  · have hmore := hsends other
    rw [if_pos (List.mem_singleton.1 hother)] at hmore
    omega

theorem sendAll_sends : ∀ {ids : List Id} {provider : Provider U}, Sound yjs provider →
    provider.epoch.isSome = true → (∀ id ∈ ids, id ∈ provider.ids) →
    Sends yjs provider (ids.foldl send provider) ids := by
  intro ids
  induction ids with
  | nil =>
    intro provider h _ _
    refine ⟨h, rfl, rfl, fun _ ↦ Nat.le_refl _, fun id hid ↦ (nomatch hid), fun harmed ↦ ?_,
      rfl, rfl, rfl, rfl⟩
    exact harmed.elim id fun hne ↦ absurd rfl hne
  | cons id rest ih =>
    intro provider h hepoch hmem
    have first := send_sends h hepoch (hmem id List.mem_cons_self)
    have hrest : ∀ other ∈ rest, other ∈ (send provider id).ids := by
      intro other hother
      rw [Provider.ids, first.outbox]
      exact hmem other (List.mem_cons_of_mem _ hother)
    have second := ih first.sound (first.epoch ▸ hepoch) hrest
    rw [List.foldl_cons]
    refine ⟨second.sound, second.outbox.trans first.outbox, second.unsent.trans first.unsent,
      fun other ↦ Nat.le_trans (first.more other) (second.more other), fun other hother ↦ ?_,
      fun _ ↦ second.armed (.inl (first.armed (.inr (List.cons_ne_nil _ _)))), second.pacing.trans first.pacing,
      second.epoch.trans first.epoch, second.synced.trans first.synced, second.connected.trans first.connected⟩
    obtain rfl | hother := List.mem_cons.1 hother
    · exact Nat.le_trans (first.sent _ (List.mem_singleton_self _)) (second.more _)
    · exact second.sent other hother

/-- Soundness is about the outbox, not about when what is sent. -/
theorem Provider.Sound.of_same (h : Sound yjs provider) (houtbox : next.outbox = provider.outbox)
    (hbytes : next.outboxBytes = provider.outboxBytes) (hcounter : next.counter = provider.counter)
    (hsent : next.sent = provider.sent) (hunsent : next.unsent.Sublist provider.unsent)
    (hsends : next.sends.map (·.1) ⊆ provider.ids ++ provider.sends.map (·.1)) : Sound yjs next where
  apart := by rw [Provider.ids, houtbox]; exact h.apart
  waiting := h.waiting.sublist hunsent
  total := by rw [hbytes, houtbox]; exact h.total
  old id hid := by
    rw [hcounter]
    rw [Provider.ids, houtbox, hsent] at hid
    obtain hid | hid | hid | hid := hid
    · exact h.old id (.inl hid)
    · exact h.old id (.inr (.inl (hunsent.subset hid)))
    · exact h.old id (.inr (.inr (.inl hid)))
    · obtain hid | hid := List.mem_append.1 (hsends hid)
      · exact h.old id (.inl hid)
      · exact h.old id (.inr (.inr (.inr hid)))
  same frame hframe update hlookup := by
    rw [hsent] at hframe
    rw [houtbox] at hlookup
    exact h.same frame hframe update hlookup

/-- What a flush leaves: nothing waits, and what waited was sent. -/
theorem flush_keeps (hunion : Union yjs) (h : Sound yjs provider) (hlive : Live provider) :
    Keeps yjs provider (flush yjs provider) := by
  rw [flush]
  by_cases hidle : (provider.epoch.isNone || provider.unsent.isEmpty) = true
  · rw [if_pos hidle]
    refine ⟨h, .refl yjs provider, hlive, fun hwaits hopen ↦ ?_, rfl⟩
    simp only [Bool.or_eq_true, Option.isNone_iff_eq_none, List.isEmpty_iff] at hidle
    obtain hnone | hempty := hidle
    · have hepoch := (hlive.opened hopen).1
      rw [hnone] at hepoch
      cases hepoch
    · exact absurd hempty hwaits
  rw [if_neg hidle]
  simp only [Bool.or_eq_true, Option.isNone_iff_eq_none, not_or] at hidle
  have hepoch : provider.epoch.isSome = true := Option.isSome_iff_ne_none.2 hidle.1
  have hmerges := merge_merges hunion h h.waiting
  generalize hmerged : merge yjs provider provider.unsent = merged at hmerges
  have hclear : Sound yjs { merged.1 with unsent := [] } :=
    hmerges.sound.of_same rfl rfl rfl rfl (List.nil_sublist _) (List.subset_append_right _ _)
  have hsends : Sends yjs { merged.1 with unsent := [] } _ merged.2 := sendAll_sends hclear
    (hmerges.aside.epoch ▸ hepoch) fun id hid ↦ (hmerges.out id hid).1
  have hnow : ∀ id ∈ (merged.2.foldl send { merged.1 with unsent := [] }).ids, id ∈ merged.2 ∨
      id ∈ provider.ids ∧ id ∉ provider.unsent ∧
        provider.sendsOf id ≤ (merged.2.foldl send { merged.1 with unsent := [] }).sendsOf id := by
    intro id hid
    rw [Provider.ids, hsends.outbox] at hid
    obtain hout | ⟨hold, hnot⟩ := hmerges.found id hid
    · exact .inl hout
    · refine .inr ⟨hold, fun hwaits ↦ hnot (List.mem_filter.2 ⟨hwaits, lookup_isSome_iff.2 hold⟩), ?_⟩
      exact Nat.le_trans (Nat.le_of_eq (hmerges.kept id hold hnot).2.2.symm) (hsends.more id)
  have hsynced : (merged.2.foldl send { merged.1 with unsent := [] }).synced = provider.synced :=
    hsends.synced.trans hmerges.aside.synced
  refine ⟨hsends.sound.of_same rfl rfl rfl rfl (List.Sublist.refl _) (List.subset_append_right _ _), ?_,
    ⟨fun hopen id hid ↦ .inr ?_, fun hopen id hid _ hcount ↦ ?_, fun hopen ↦ ⟨?_, ?_⟩⟩, fun _ _ ↦ rfl,
    hsends.epoch.trans hmerges.aside.epoch⟩
  · intro entry hmem
    obtain ⟨held, hheld, hsub⟩ := hmerges.covers entry hmem
    exact ⟨held, hsends.outbox ▸ hheld, hsub⟩
  · obtain hout | ⟨hold, hnot, hmore⟩ := hnow id hid
    · exact hsends.sent id hout
    · exact Nat.le_trans ((hlive.begun (hsynced.symm.trans hopen) id hold).resolve_left hnot) hmore
  · obtain hout | ⟨hold, hnot, hmore⟩ := hnow id hid
    · exact hsends.armed (.inr (List.ne_nil_of_mem hout))
    · refine hsends.armed (.inl (hmerges.aside.resending.trans ?_))
      exact hlive.due (hsynced.symm.trans hopen) id hold hnot (Nat.lt_of_le_of_lt hmore hcount)
  · exact (congrArg _ (hsends.epoch.trans hmerges.aside.epoch)).trans hepoch
  · exact (hsends.connected.trans hmerges.aside.connected).trans (hlive.opened (hsynced.symm.trans hopen)).2

theorem paced_keeps (hunion : Union yjs) (h : Sound yjs provider) (hlive : Live provider) :
    Keeps yjs provider (paced yjs provider) := by
  have hsound : Sound yjs { provider with pacing := false } :=
    h.of_same rfl rfl rfl rfl (List.Sublist.refl _) (List.subset_append_right _ _)
  obtain ⟨hsound, hcovers, hlive, hscheduled, hepoch⟩ :=
    flush_keeps hunion hsound ⟨hlive.begun, hlive.due, hlive.opened⟩
  exact ⟨hsound, hcovers, hlive, hscheduled, hepoch⟩

theorem coalesce_keeps (hunion : Union yjs) (h : Sound yjs provider) (hlive : Live provider) :
    Sound yjs (coalesce yjs provider) ∧ Covers yjs provider (coalesce yjs provider) ∧ Live (coalesce yjs provider) ∧
      Aside provider (coalesce yjs provider) := by
  have hmerges := merge_merges hunion h h.apart
  rw [coalesce]
  refine ⟨hmerges.sound, hmerges.covers, ⟨fun hopen ↦ ?_, fun hopen ↦ ?_, fun hopen ↦ ?_⟩, hmerges.aside⟩
  all_goals rw [hmerges.aside.synced] at hopen
  · exact hmerges.begun (hlive.begun hopen)
  · rw [hmerges.aside.resending]
    exact hmerges.due _ (hlive.due hopen)
  · rw [hmerges.aside.epoch, hmerges.aside.connected]
    exact hlive.opened hopen

theorem outbox_add (h : Sound yjs provider) (time : Nat) (update : U) : (add yjs provider time update).outbox =
    provider.outbox ++ [(Id.made time provider.counter, update)] :=
  Entries.set_new (fresh_not_mem h rfl).1 update

theorem sound_add (h : Sound yjs provider) (time : Nat) (update : U) : Sound yjs (add yjs provider time update) := by
  have hfresh : (Id.made time provider.counter).counter = provider.counter := rfl
  obtain ⟨hids, hunsent, hsent, -⟩ := fresh_not_mem h hfresh
  have hcounter : (add yjs provider time update).counter = provider.counter + 1 := rfl
  refine ⟨?_, ?_, ?_, fun id hid ↦ ?_, fun frame hframe found hlookup ↦ ?_⟩
  · rw [Provider.ids, outbox_add h, List.map_append, List.map_singleton, ← List.concat_eq_append]
    exact List.Nodup.concat hids h.apart
  · rw [add, ← List.concat_eq_append]
    exact List.Nodup.concat hunsent h.waiting
  · rw [outbox_add h, bytes, List.map_append, List.sum_append, ← bytes, List.map_singleton, List.sum_singleton, add]
    dsimp only
    rw [h.total]
    omega
  · rw [hcounter]
    obtain hid | hid | hid | hid := hid
    · rw [Provider.ids, outbox_add h, List.map_append] at hid
      obtain hid | hid := List.mem_append.1 hid
      · exact Nat.lt_succ_of_lt (h.old id (.inl hid))
      · rw [List.mem_singleton.1 hid]
        exact Nat.lt_succ_self _
    · obtain hid | hid := List.mem_append.1 hid
      · exact Nat.lt_succ_of_lt (h.old id (.inr (.inl hid)))
      · rw [List.mem_singleton.1 hid]
        exact Nat.lt_succ_self _
    · exact Nat.lt_succ_of_lt (h.old id (.inr (.inr (.inl hid))))
    · exact Nat.lt_succ_of_lt (h.old id (.inr (.inr (.inr hid))))
  · have hne : frame.1 ≠ .made time provider.counter := fun heq ↦ hsent (heq ▸ List.mem_map_of_mem hframe)
    rw [add, Entries.lookup_set, if_neg hne] at hlookup
    exact h.same frame hframe found hlookup

/-- What is in the outbox after a new entry: the new one, which waits, and the others as they were. -/
theorem mem_ids_add (h : Sound yjs provider) {time : Nat} {update : U} (hid : id ∈ (add yjs provider time update).ids) :
    id ∈ (add yjs provider time update).unsent ∨ id ∈ provider.ids := by
  rw [Provider.ids, outbox_add h, List.map_append] at hid
  exact (List.mem_append.1 hid).symm.imp_left (List.mem_append_right _)

theorem live_add (h : Sound yjs provider) (hlive : Live provider) (time : Nat) (update : U) :
    Live (add yjs provider time update) where
  begun hopen id hid := by
    obtain hwaits | hold := mem_ids_add h hid
    · exact .inl hwaits
    · exact (hlive.begun hopen id hold).imp_left (List.mem_append_left _)
  due hopen id hid hwaits hcount := by
    obtain hwaits' | hold := mem_ids_add h hid
    · exact absurd hwaits' hwaits
    · exact hlive.due hopen id hold (fun hmem ↦ hwaits (List.mem_append_left _ hmem)) hcount
  opened := hlive.opened

theorem note_keeps (hunion : Union yjs) (h : Sound yjs provider) (hlive : Live provider)
    (hscheduled : Scheduled provider) (time : Nat) (update : U) :
    Keeps yjs provider (note yjs provider time update) ∧ (provider.connected = true →
      ∃ held ∈ (note yjs provider time update).outbox, yjs.edits update ⊆ yjs.edits held.2) := by
  rw [note]
  by_cases hconnected : provider.connected = true
  · rw [hconnected]
    have hadd := sound_add h time update
    have hlive' := live_add h hlive time update
    have hcovers : Covers yjs provider (add yjs provider time update) := fun entry hmem ↦
      ⟨entry, outbox_add h time update ▸ List.mem_append_left _ hmem, fun _ hedit ↦ hedit⟩
    have hnew : (.made time provider.counter, update) ∈ (add yjs provider time update).outbox :=
      outbox_add h time update ▸ List.mem_concat_self
    obtain ⟨full, hfull, hsound, hall, hgoes, haside⟩ : ∃ full,
        (if (add yjs provider time update).saturated then coalesce yjs (add yjs provider time update)
          else add yjs provider time update) = full ∧ Sound yjs full ∧
          Covers yjs (add yjs provider time update) full ∧ Live full ∧ Aside (add yjs provider time update) full := by
      by_cases hsaturated : (add yjs provider time update).saturated = true
      · rw [if_pos hsaturated]
        exact ⟨_, rfl, coalesce_keeps hunion hadd hlive'⟩
      · rw [if_neg hsaturated]
        exact ⟨_, rfl, hadd, .refl yjs _, hlive', .refl _⟩
    simp only [Bool.not_true, Bool.false_eq_true, if_false, hfull]
    have hkeeps : Keeps yjs full (if full.pacing then full else flush yjs full) := by
      by_cases hpacing : full.pacing = true
      · rw [if_pos hpacing]
        exact ⟨hsound, .refl yjs full, hgoes, fun _ _ ↦ hpacing, rfl⟩
      · rw [if_neg hpacing]
        exact flush_keeps hunion hsound hgoes
    refine ⟨⟨hkeeps.sound, hcovers.trans (hall.trans hkeeps.covers), hkeeps.live, hkeeps.scheduled,
      hkeeps.epoch.trans haside.epoch⟩, fun _ ↦ hall.trans hkeeps.covers _ hnew⟩
  · rw [Bool.not_eq_true] at hconnected
    rw [hconnected]
    exact ⟨⟨h, .refl yjs provider, hlive, hscheduled, rfl⟩, fun hopen ↦ nomatch hopen⟩

/-- What sending some entries, merged, leaves. -/
structure Resent (yjs : Yjs U E) (provider next : Provider U) (ids : List Id) : Prop where
  sound : Sound yjs next
  covers : Covers yjs provider next
  begun : provider.Begun → next.Begun
  idle : provider.unsent = [] → next.unsent = []
  found : ∀ id ∈ next.ids, 1 ≤ next.sendsOf id ∧ next.resending = true ∨ id ∈ provider.ids ∧ id ∉ ids
  pacing : next.pacing = provider.pacing
  epoch : next.epoch = provider.epoch
  synced : next.synced = provider.synced
  connected : next.connected = provider.connected

theorem sendMerged_resent (hunion : Union yjs) (h : Sound yjs provider) (hepoch : provider.epoch.isSome = true)
    {ids : List Id} (hids : ids.Nodup) : Resent yjs provider (sendMerged yjs provider ids) ids := by
  rw [sendMerged]
  have hmerges := merge_merges hunion h hids
  generalize merge yjs provider ids = merged at hmerges ⊢
  have hsends := sendAll_sends hmerges.sound (hmerges.aside.epoch ▸ hepoch) fun id hid ↦ (hmerges.out id hid).1
  refine ⟨hsends.sound, fun entry hmem ↦ ?_, fun hbegun id hid ↦ ?_, fun hidle ↦ hsends.unsent.trans (hmerges.idle hidle),
    fun id hid ↦ ?_, hsends.pacing.trans hmerges.aside.pacing, hsends.epoch.trans hmerges.aside.epoch,
    hsends.synced.trans hmerges.aside.synced, hsends.connected.trans hmerges.aside.connected⟩
  · obtain ⟨held, hheld, hsub⟩ := hmerges.covers entry hmem
    exact ⟨held, hsends.outbox ▸ hheld, hsub⟩
  · rw [Provider.ids, hsends.outbox] at hid
    rw [hsends.unsent]
    exact (hmerges.begun hbegun id hid).imp_right fun hsent ↦ Nat.le_trans hsent (hsends.more id)
  · rw [Provider.ids, hsends.outbox] at hid
    obtain hout | ⟨hold, hnot⟩ := hmerges.found id hid
    · exact .inl ⟨hsends.sent id hout, hsends.armed (.inr (List.ne_nil_of_mem hout))⟩
    · exact .inr ⟨hold, fun hmem ↦ hnot (List.mem_filter.2 ⟨hmem, lookup_isSome_iff.2 hold⟩)⟩

theorem again_resent (hunion : Union yjs) (h : Sound yjs provider) (hepoch : provider.epoch.isSome = true) :
    ∃ ids, Resent yjs provider (again yjs provider) ids := by
  rw [again]
  split
  · exact ⟨[], h, .refl yjs provider, fun hbegun ↦ hbegun, fun hidle ↦ hidle,
      fun id hid ↦ .inr ⟨hid, List.not_mem_nil⟩, rfl, rfl, rfl, rfl⟩
  · have hslow : Sound yjs { provider with resendDelay := min (provider.resendDelay * 2) MAX_RESEND_MS } :=
      h.of_same rfl rfl rfl rfl (List.Sublist.refl _) (List.subset_append_right _ _)
    obtain ⟨hsound, hcovers, hbegun, hidle, hfound, hpacing, hepoch, hsynced, hconnected⟩ :=
      sendMerged_resent hunion hslow hepoch (h.apart.sublist List.filter_sublist)
    exact ⟨_, hsound, hcovers, hbegun, hidle, hfound, hpacing, hepoch, hsynced, hconnected⟩

/-- The timer is set again while an entry is to be sent again. -/
theorem rearm_due (next : Provider U) :
    Due ((if next.ids.any fun id ↦ decide (next.sendsOf id < MAX_SENDS) then armResend next else next).resending = true)
      next := by
  intro id hid _ hcount
  rw [if_pos]
  · rfl
  · exact List.any_eq_true.2 ⟨id, hid, decide_eq_true hcount⟩

theorem resend_keeps (hunion : Union yjs) (h : Sound yjs provider) (hlive : Live provider)
    (hscheduled : Scheduled provider) : Keeps yjs provider (resend yjs provider) := by
  have hstopped : Sound yjs { provider with resending := false } :=
    h.of_same rfl rfl rfl rfl (List.Sublist.refl _) (List.subset_append_right _ _)
  rw [resend]
  dsimp only
  by_cases hclosed : (!provider.connected || !provider.synced || provider.epoch.isNone) = true
  · rw [if_pos hclosed]
    have hnot : ¬provider.synced = true := fun hopen ↦ by
      obtain ⟨hepoch, hconnected⟩ := hlive.opened hopen
      rw [hopen, hconnected, Option.isNone_eq_false_iff.2 hepoch] at hclosed
      cases hclosed
    exact ⟨hstopped.of_same rfl rfl rfl rfl (List.Sublist.refl _) (List.subset_append_right _ _), .refl yjs _,
      ⟨fun hopen ↦ absurd hopen hnot, fun hopen ↦ absurd hopen hnot, hlive.opened⟩, hscheduled, rfl⟩
  rw [if_neg hclosed]
  simp only [Bool.or_eq_true, Option.isNone_iff_eq_none, not_or, Bool.not_eq_true, Bool.not_eq_false'] at hclosed
  obtain ⟨⟨hconnected, hsynced⟩, hepoch⟩ := hclosed
  have hepoch : provider.epoch.isSome = true := Option.isSome_iff_ne_none.2 hepoch
  obtain ⟨ids, hresent⟩ : ∃ ids, Resent yjs { provider with resending := false } _ ids :=
    again_resent hunion hstopped hepoch
  have hepoch' : (again yjs { provider with resending := false }).epoch.isSome = true :=
    (congrArg _ hresent.epoch).trans hepoch
  generalize again yjs { provider with resending := false } = next at hresent hepoch' ⊢
  have hsound : Sound yjs { next with overdue := next.ids } :=
    hresent.sound.of_same rfl rfl rfl rfl (List.Sublist.refl _) (List.subset_append_right _ _)
  have hdue := rearm_due { next with overdue := next.ids }
  have hwaits : next.unsent ≠ [] → provider.unsent ≠ [] := fun hwaits hidle ↦ hwaits (hresent.idle hidle)
  have hscheduled' : next.unsent ≠ [] → next.pacing = true := fun hwaiting ↦
    hresent.pacing.trans (hscheduled (hwaits hwaiting) hsynced)
  have hbegun : next.Begun := hresent.begun (hlive.begun hsynced)
  have hopened : next.epoch.isSome = true ∧ next.connected = true :=
    ⟨hepoch', hresent.connected.trans hconnected⟩
  split at hdue
  · rename_i hagain
    rw [if_pos hagain]
    exact ⟨hsound.of_same rfl rfl rfl rfl (List.Sublist.refl _) (List.subset_append_right _ _), hresent.covers,
      ⟨fun _ ↦ hbegun, fun _ ↦ hdue, fun _ ↦ hopened⟩, fun hwaiting _ ↦ hscheduled' hwaiting, hresent.epoch⟩
  · rename_i hagain
    rw [if_neg hagain]
    exact ⟨hsound, hresent.covers, ⟨fun _ ↦ hbegun, fun _ ↦ hdue, fun _ ↦ hopened⟩,
      fun hwaiting _ ↦ hscheduled' hwaiting, hresent.epoch⟩

/-- The counts of a parked outbox. -/
theorem park_counts (ids unsent : List Id) (sends : List (Id × Nat)) (id : Id) :
    (ids.foldl (fun sends id ↦ if unsent.contains id then sends else Entries.set sends id MAX_SENDS) sends).lookup id =
      if id ∈ ids ∧ id ∉ unsent then some MAX_SENDS else sends.lookup id := by
  induction ids generalizing sends with
  | nil => simp
  | cons head rest ih =>
    rw [List.foldl_cons, ih]
    by_cases hwaits : id ∈ unsent
    · simp only [hwaits, not_true, and_false, if_false]
      split
      · rfl
      · rename_i hhead
        have hne : id ≠ head := by
          rintro rfl
          exact hhead (by simpa using hwaits)
        rw [Entries.lookup_set, if_neg hne]
    · by_cases hrest : id ∈ rest
      · rw [if_pos ⟨hrest, hwaits⟩, if_pos ⟨List.mem_cons_of_mem _ hrest, hwaits⟩]
      · rw [if_neg fun hboth ↦ hrest hboth.1]
        by_cases hhead : id = head
        · subst hhead
          rw [if_neg (by simpa using hwaits), Entries.lookup_set, if_pos rfl, if_pos ⟨List.mem_cons_self, hwaits⟩]
        · have hnot : ¬(id ∈ head :: rest ∧ id ∉ unsent) := fun hboth ↦ (List.mem_cons.1 hboth.1).elim hhead hrest
          rw [if_neg hnot]
          split
          · rfl
          · rw [Entries.lookup_set, if_neg hhead]

theorem park_keys (ids unsent : List Id) (sends : List (Id × Nat)) :
    (ids.foldl (fun sends id ↦ if unsent.contains id then sends else Entries.set sends id MAX_SENDS) sends).map (·.1) ⊆
      ids ++ sends.map (·.1) := by
  induction ids generalizing sends with
  | nil => exact List.Subset.refl _
  | cons head rest ih =>
    rw [List.foldl_cons]
    intro id hid
    obtain hrest | hsends := List.mem_append.1 (ih _ hid)
    · exact List.mem_append_left _ (List.mem_cons_of_mem _ hrest)
    · split at hsends
      · exact List.mem_append_right _ hsends
      · obtain ⟨entry, hentry, rfl⟩ := List.mem_map.1 hsends
        obtain hold | rfl := Entries.mem_set hentry
        · exact List.mem_append_right _ (List.mem_map_of_mem hold)
        · exact List.mem_append_left _ List.mem_cons_self

theorem park_keeps (h : Sound yjs provider) (hlive : Live provider) (hscheduled : Scheduled provider) :
    Keeps yjs provider (park provider) := by
  have hcount : ∀ id ∈ provider.ids, id ∉ provider.unsent → (park provider).sendsOf id = MAX_SENDS := by
    intro id hid hwaits
    rw [sendsOf, park, park_counts, if_pos ⟨hid, hwaits⟩, Option.getD_some]
  refine ⟨h.of_same rfl rfl rfl rfl (List.Sublist.refl _) (park_keys _ _ _), .refl yjs _,
    ⟨fun _ id hid ↦ ?_, fun _ id hid hwaits hless ↦ ?_, hlive.opened⟩, hscheduled, rfl⟩
  · by_cases hwaits : id ∈ provider.unsent
    · exact .inl hwaits
    · refine .inr ?_
      rw [hcount id hid hwaits]
      decide
  · rw [hcount id hid hwaits] at hless
    exact absurd hless (Nat.lt_irrefl _)

/-- Every entry is sent when the document opens. -/
theorem replay_keeps (hunion : Union yjs) (h : Sound yjs provider) (hepoch : provider.epoch.isSome = true)
    (hconnected : provider.connected = true) : Keeps yjs provider { replay yjs provider with synced := true } := by
  rw [replay]
  dsimp only
  have hclear : Sound yjs { provider with unsent := [], sends := [], resendDelay := RESEND_MS } :=
    h.of_same rfl rfl rfl rfl (List.nil_sublist _) (List.nil_subset _)
  have hresent := sendMerged_resent hunion hclear hepoch h.apart
  have hidle := hresent.idle rfl
  have hall := fun id hid ↦ (hresent.found id hid).resolve_right fun hkept ↦ hkept.2 hkept.1
  exact ⟨hresent.sound.of_same rfl rfl rfl rfl (List.Sublist.refl _) (List.subset_append_right _ _), hresent.covers,
    ⟨fun _ id hid ↦ .inr (hall id hid).1, fun _ id hid _ _ ↦ (hall id hid).2,
      fun _ ↦ ⟨(congrArg _ hresent.epoch).trans hepoch, hresent.connected.trans hconnected⟩⟩,
    fun hwaits ↦ absurd hidle hwaits, hresent.epoch⟩

/-! ## Every session -/

/-- An update is in the outbox, or in a frame the server acknowledged. -/
def Safe (yjs : Yjs U E) (session : Session U) (update : U) : Prop :=
  (∃ held ∈ session.provider.outbox, yjs.edits update ⊆ yjs.edits held.2) ∨
    ∃ copy ∈ session.acked, yjs.edits update ⊆ yjs.edits copy

structure Session.Good (yjs : Yjs U E) (epoch : String) (session : Session U) : Prop where
  sound : Sound yjs session.provider
  live : Live session.provider
  scheduled : Scheduled session.provider
  epoch : ∀ found, session.provider.epoch = some found → found = epoch
  safe : ∀ made ∈ session.made, made.heard = true → Safe yjs session made.update

variable {epoch : String} {session : Session U}

theorem Session.Good.keeps (h : session.Good yjs epoch) (asked : Option Nat)
    (hkeeps : Keeps yjs session.provider next) :
    Session.Good yjs epoch { session with provider := next, asked } where
  sound := hkeeps.sound
  live := hkeeps.live
  scheduled := hkeeps.scheduled
  epoch found hfound := h.epoch found (hkeeps.epoch.symm.trans hfound)
  safe made hmem hheard := by
    obtain ⟨held, hheld, hsub⟩ | hacked := h.safe made hmem hheard
    · obtain ⟨kept, hkept, hsub'⟩ := hkeeps.covers held hheld
      exact .inl ⟨kept, hkept, fun _ hedit ↦ hsub' (hsub hedit)⟩
    · exact .inr hacked

theorem resume_keeps (h : Sound yjs provider) (hlive : Live provider) (hscheduled : Scheduled provider) (wire : Bool) :
    Keeps yjs provider (resume provider wire).1 := by
  rw [resume]
  split
  · exact ⟨h, .refl yjs _, hlive, hscheduled, rfl⟩
  · exact ⟨h.of_same rfl rfl rfl rfl (List.Sublist.refl _) (List.subset_append_right _ _), .refl yjs _,
      ⟨hlive.begun, hlive.due, hlive.opened⟩, hscheduled, rfl⟩

theorem connect_keeps (h : Sound yjs provider) (hlive : Live provider) (hscheduled : Scheduled provider) (wire : Bool) :
    Keeps yjs provider (connect provider wire).1 := by
  rw [connect]
  split
  · exact ⟨h, .refl yjs _, hlive, hscheduled, rfl⟩
  · have hsound : Sound yjs { provider with connected := true, generation := provider.generation + 1 } :=
      h.of_same rfl rfl rfl rfl (List.Sublist.refl _) (List.subset_append_right _ _)
    obtain ⟨hsound, hcovers, hlive, hscheduled, hepoch⟩ := resume_keeps hsound
      ⟨hlive.begun, hlive.due, fun hopen ↦ ⟨(hlive.opened hopen).1, rfl⟩⟩ hscheduled wire
    exact ⟨hsound, hcovers, hlive, hscheduled, hepoch⟩

theorem disconnect_keeps (h : Sound yjs provider) : Keeps yjs provider (disconnect provider) where
  sound := h.of_same rfl rfl rfl rfl (List.nil_sublist _) (List.nil_subset _)
  covers := .refl yjs _
  live := ⟨nofun, nofun, nofun⟩
  scheduled hwaits := absurd rfl hwaits
  epoch := rfl

/-- The open of a document of the same epoch. -/
theorem opened_good (hunion : Union yjs) (h : session.Good yjs epoch)
    (generation : Nat) (applies : Bool) : Session.Good yjs epoch { session with
      provider := { opened yjs session.provider generation epoch applies with opening := false }, asked := none } := by
  have hkept : Keeps yjs session.provider { session.provider with opening := false } :=
    ⟨h.sound.of_same rfl rfl rfl rfl (List.Sublist.refl _) (List.subset_append_right _ _), .refl yjs _,
      ⟨h.live.begun, h.live.due, h.live.opened⟩, h.scheduled, rfl⟩
  rw [opened]
  split
  · exact h.keeps _ hkept
  rename_i hcurrent
  simp only [Bool.or_eq_true, not_or, Bool.not_eq_true, Bool.not_eq_false'] at hcurrent
  split
  · rename_i hother
    obtain ⟨found, hfound, hne⟩ := Option.any_eq_true_iff_get _ _ |>.1 hother |>.elim fun hsome hne ↦
      (⟨_, (Option.some_get hsome).symm, hne⟩ : ∃ found, session.provider.epoch = some found ∧ (found != epoch) = true)
    exact absurd (h.epoch found hfound) (bne_iff_ne.1 hne)
  have hsound : Sound yjs { session.provider with epoch := some epoch } :=
    h.sound.of_same rfl rfl rfl rfl (List.Sublist.refl _) (List.subset_append_right _ _)
  have hthen : Session.Good yjs epoch
      { session with provider := { session.provider with epoch := some epoch }, asked := none } :=
    ⟨hsound, ⟨h.live.begun, h.live.due, fun _ ↦ ⟨rfl, hcurrent.1⟩⟩, h.scheduled,
      fun found hfound ↦ (Option.some.inj hfound).symm, h.safe⟩
  dsimp only
  split
  · obtain ⟨hsound, hcovers, hlive, hscheduled, hepoch⟩ := replay_keeps hunion hsound rfl hcurrent.1
    refine hthen.keeps none ⟨hsound.of_same rfl rfl rfl rfl (List.Sublist.refl _)
      (List.subset_append_right _ _), hcovers, ⟨hlive.begun, hlive.due, hlive.opened⟩, hscheduled, hepoch⟩
  · exact hthen.keeps _ ⟨hsound.of_same rfl rfl rfl rfl (List.Sublist.refl _) (List.subset_append_right _ _),
      .refl yjs _, ⟨hthen.live.begun, hthen.live.due, hthen.live.opened⟩, hthen.scheduled, rfl⟩

theorem sound_settle (h : Sound yjs provider) (id : Id) : Sound yjs (settle yjs provider id) := by
  rw [settle]
  split
  · exact h
  rename_i update hlookup
  have hids : (Entries.delete provider.outbox id).map (·.1) ⊆ provider.ids := (List.filter_sublist.map _).subset
  refine ⟨h.apart.sublist (List.filter_sublist.map _), h.waiting, ?_, fun other hother ↦ ?_,
    fun frame hframe found hfound ↦ ?_⟩
  · have hbytes : bytes yjs provider.outbox = _ := bytes_delete h.apart hlookup
    have htotal := h.total
    dsimp only
    omega
  · obtain hother | hother | hother | hother := hother
    · exact h.old other (.inl (hids hother))
    · exact h.old other (.inr (.inl hother))
    · exact h.old other (.inr (.inr (.inl hother)))
    · exact h.old other (.inr (.inr (.inr ((List.filter_sublist.map _).subset hother))))
  · rw [Entries.lookup_delete] at hfound
    split at hfound
    · cases hfound
    · exact h.same frame hframe found hfound

/-- An acknowledgement takes an entry whose update it has. -/
theorem settle_good (h : session.Good yjs epoch) {copy : U}
    (hsent : session.provider.sent.lookup id = some copy) : Session.Good yjs epoch
      { session with provider := settle yjs session.provider id, acked := session.acked ++ [copy] } := by
  have hsound := sound_settle h.sound id
  rw [settle] at hsound ⊢
  split at hsound
  · exact ⟨h.sound, h.live, h.scheduled, h.epoch, fun made hmem hheard ↦ (h.safe made hmem hheard).imp_right
      fun ⟨held, hheld, hsub⟩ ↦ ⟨held, List.mem_append_left _ hheld, hsub⟩⟩
  rename_i update hlookup
  have hmem : ∀ other ∈ (Entries.delete session.provider.outbox id).map (·.1),
      other ∈ session.provider.ids ∧ other ≠ id := by
    intro other hother
    obtain ⟨entry, hentry, rfl⟩ := List.mem_map.1 hother
    obtain ⟨hentry, hne⟩ := Entries.mem_delete.1 hentry
    exact ⟨mem_ids hentry, hne⟩
  have hcount : ∀ other, other ≠ id →
      ((Entries.delete session.provider.sends id).lookup other).getD 0 = session.provider.sendsOf other := by
    intro other hne
    rw [Entries.lookup_delete, if_neg hne, sendsOf]
  refine ⟨hsound, ⟨fun hopen other hother ↦ ?_, fun hopen other hother hwaits hless ↦ ?_, h.live.opened⟩,
    h.scheduled, h.epoch, fun made hmade hheard ↦ ?_⟩
  · obtain ⟨hold, hne⟩ := hmem other hother
    exact (h.live.begun hopen other hold).imp_right fun hsent ↦ Nat.le_trans hsent (Nat.le_of_eq (hcount other hne).symm)
  · obtain ⟨hold, hne⟩ := hmem other hother
    exact h.live.due hopen other hold hwaits (Nat.lt_of_le_of_lt (Nat.le_of_eq (hcount other hne).symm) hless)
  · obtain ⟨held, hheld, hsub⟩ | ⟨acked, hacked, hsub⟩ := h.safe made hmade hheard
    · by_cases hid : held.1 = id
      · have hframe := Entries.mem_of_lookup hsent
        have hheld' := Entries.lookup_of_mem h.sound.apart hheld
        rw [hid] at hheld'
        have hsame : held.2 = copy := h.sound.same (id, copy) hframe held.2 hheld'
        exact .inr ⟨copy, List.mem_concat_self, hsame ▸ hsub⟩
      · exact .inl ⟨held, Entries.mem_delete.2 ⟨hheld, hid⟩, hsub⟩
    · exact .inr ⟨acked, List.mem_append_left _ hacked, hsub⟩

theorem step_good (hunion : Union yjs) {next : Session U} {act : Act U}
    (h : session.Good yjs epoch) (hstep : step yjs epoch session act = some next) : next.Good yjs epoch := by
  cases act <;> simp only [step, Option.some.injEq] at hstep
  case connect wire => exact hstep ▸ h.keeps _ (connect_keeps h.sound h.live h.scheduled wire)
  case disconnect => exact hstep ▸ h.keeps _ (disconnect_keeps h.sound)
  case resume wire => exact hstep ▸ h.keeps _ (resume_keeps h.sound h.live h.scheduled wire)
  case reply applies =>
    obtain ⟨generation, -, rfl⟩ := Option.map_eq_some_iff.1 hstep
    exact opened_good hunion h generation applies
  case unreplied =>
    obtain ⟨generation, -, rfl⟩ := Option.map_eq_some_iff.1 hstep
    exact h.keeps _ ⟨h.sound.of_same rfl rfl rfl rfl (List.Sublist.refl _) (List.subset_append_right _ _),
      .refl yjs _, ⟨h.live.begun, h.live.due, h.live.opened⟩, h.scheduled, rfl⟩
  case edit time update =>
    subst hstep
    obtain ⟨hkeeps, hnew⟩ := note_keeps hunion h.sound h.live h.scheduled time update
    have hgood := h.keeps session.asked hkeeps
    refine ⟨hgood.sound, hgood.live, hgood.scheduled, hgood.epoch, fun made hmem hheard ↦ ?_⟩
    obtain hmem | hmem := List.mem_append.1 hmem
    · exact hgood.safe made hmem hheard
    · obtain rfl := List.mem_singleton.1 hmem
      exact .inl (hnew hheard)
  case paced =>
    split at hstep
    · cases hstep
      exact h.keeps _ (paced_keeps hunion h.sound h.live)
    · cases hstep
  case resent =>
    split at hstep
    · cases hstep
      exact h.keeps _ (resend_keeps hunion h.sound h.live h.scheduled)
    · cases hstep
  case ack id =>
    obtain ⟨copy, hcopy, rfl⟩ := Option.map_eq_some_iff.1 hstep
    split
    · exact settle_good h hcopy
    · exact h
  case refused =>
    subst hstep
    split
    · exact h.keeps _ (park_keeps h.sound h.live h.scheduled)
    · exact h

theorem start_good (yjs : Yjs U E) (epoch : String) : (Session.start : Session U).Good yjs epoch where
  sound := ⟨List.nodup_nil, List.nodup_nil, rfl, fun id hid ↦ by simp [Session.start, Provider.new, Provider.ids] at hid,
    fun frame hframe ↦ nomatch hframe⟩
  live := ⟨nofun, nofun, nofun⟩
  scheduled hwaits := absurd rfl hwaits
  epoch _ hfound := nomatch hfound
  safe _ hmem := nomatch hmem

/-! ## The outbox -/

/-- A flush is scheduled for the entry. -/
def Waiting (provider : Provider U) (id : Id) : Prop := id ∈ provider.unsent ∧ provider.pacing = true

/-- The entry was sent, and is sent again when it is not acknowledged. -/
def Sent (provider : Provider U) (id : Id) : Prop := 1 ≤ provider.sendsOf id ∧ provider.resending = true

/-- The entry is left for the next open: the document is not open, or it was sent often enough. -/
def Parked (provider : Provider U) (id : Id) : Prop := provider.synced = false ∨ MAX_SENDS ≤ provider.sendsOf id

/-- What was made while the provider was connected is held until it is acknowledged, the bytes add up, and
every entry is waiting, sent or parked. -/
theorem outbox_keeps (hunion : Union yjs) (epoch : String) {acts : List (Act U)} {session : Session U}
    (run : Runs (step yjs epoch) .start acts session) :
    (∀ made ∈ session.made, made.heard = true → Safe yjs session made.update) ∧
      session.provider.outboxBytes = bytes yjs session.provider.outbox ∧
      ∀ entry ∈ session.provider.outbox, Waiting session.provider entry.1 ∨ Sent session.provider entry.1 ∨
        Parked session.provider entry.1 := by
  have hgood : session.Good yjs epoch := run.invariant (start_good yjs epoch) fun _ _ _ ↦ step_good hunion
  refine ⟨hgood.safe, hgood.sound.total, fun entry hentry ↦ ?_⟩
  by_cases hopen : session.provider.synced = true
  · by_cases hwaits : entry.1 ∈ session.provider.unsent
    · exact .inl ⟨hwaits, hgood.scheduled (List.ne_nil_of_mem hwaits) hopen⟩
    by_cases hless : session.provider.sendsOf entry.1 < MAX_SENDS
    · exact .inr (.inl ⟨(hgood.live.begun hopen entry.1 (mem_ids hentry)).resolve_left hwaits,
        hgood.live.due hopen entry.1 (mem_ids hentry) hwaits hless⟩)
    · exact .inr (.inr (.inr (Nat.le_of_not_lt hless)))
  · exact .inr (.inr (.inl (Bool.eq_false_iff.2 hopen)))

namespace Sample

/-- Updates that are lists of edits. -/
def lists : Yjs (List Nat) Nat where
  mergeUpdates := List.flatten
  byteLength := List.length
  edits update := { edit | edit ∈ update }

theorem lists_union : Union lists := fun _ update hmem _ hedit ↦ List.mem_flatten.2 ⟨update, hmem, hedit⟩

/-- The document is opened, two edits are made within one interval and a third later, and the first frame is
acknowledged. -/
def acts : List (Act (List Nat)) :=
  [.connect true, .reply true, .edit 0 [1], .edit 0 [2], .edit 0 [3], .paced, .ack (.made 0 0)]

/-- The document is opened, the provider disconnects, and an edit is made. -/
def alone : List (Act (List Nat)) := [.connect true, .reply true, .disconnect, .edit 0 [1]]

end Sample

theorem outbox_keeps_sample : ∃ session, Runs (step Sample.lists "e") .start Sample.acts session ∧
    session.provider.outbox = [(.merged 3, [2, 3])] ∧
    session.provider.outboxBytes = bytes Sample.lists session.provider.outbox := by
  have run : Runs (step Sample.lists "e") .start Sample.acts _ := runs_iff_foldlM.2 rfl
  exact ⟨_, run, rfl, (outbox_keeps Sample.lists_union "e" run).2.1⟩

/-- An edit that is made after the provider disconnected is in no entry, and nobody acknowledged it. -/
theorem unheard_edit : ∃ session, Runs (step Sample.lists "e") .start Sample.alone session ∧
    ∃ made ∈ session.made, ¬Safe Sample.lists session made.update := by
  have run : Runs (step Sample.lists "e") .start Sample.alone _ := runs_iff_foldlM.2 rfl
  refine ⟨_, run, _, List.mem_cons_self, ?_⟩
  rintro (⟨held, hheld, -⟩ | ⟨copy, hcopy, -⟩)
  · exact nomatch hheld
  · exact nomatch hcopy

end Chopin.Editor
