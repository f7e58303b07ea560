import Chopin.Conversation.JobShape
import Mathlib.Data.List.Pairwise

/-!
# Runs of the job queue

Whatever is asked of the queue, in whatever order, it keeps its shape, and what is stored of it is
read back.  No job that still matters is forgotten.  A request that was taken is stood for by a job
of the queue, and `KeepsThread` says exactly when that job also has the request's conversation
thread: `{ ...job, id, kind: "refine", trigger, at }` leaves it out.
-/

set_option autoImplicit false

open Script (Platform)

namespace Chopin.Conversation

/-! ## Requests to a queue -/

inductive Act
  | enqueue (intent : JobIntent) («at» : String)
  | start (id «at» : String) (eligible : Job → Bool)
  | settle (id : String) (outcome : JobOutcome) («at» : String)
  | retry (id «at» : String)
  | restart

/-- One request, when its arguments are valid; a restart reads what was stored. -/
def step (platform : Platform) (jobs : List Job) : Act → Option (List Job)
  | .enqueue intent «at» => (enqueue jobs intent «at»).toOption
  | .start id «at» eligible => (start jobs id «at» eligible).toOption
  | .settle id outcome «at» => (settle platform jobs id outcome «at»).toOption
  | .retry id «at» => (retry jobs id «at»).toOption
  | .restart => restore platform (stored jobs)

/-! ## What the queue promises -/

/-- A pending job on the same target does the requested work too; a refine also covers a suggest. -/
def Job.covers (job : Job) (intent : JobIntent) : Bool :=
  job.status == .pending && job.target == intent.target && match intent.kind with
    | .heading => job.kind == .heading
    | .refine => job.kind == .refine
    | .suggest => job.kind.card
    | .prose | .decisionFollowup => false

/-- While it waits, the job has the request's conversation thread. -/
def Job.hasThread (job : Job) (intent : JobIntent) : Bool :=
  job.status != .pending || intent.threadId.all (job.threadId == some ·)

/-- A job of the queue stands for the request. -/
def Represented (jobs : List Job) (intent : JobIntent) : Prop :=
  ∃ job ∈ jobs, ((jobId intent).toOption = some job.id ∨ job.covers intent = true) ∧
    job.hasThread intent = true

instance (jobs : List Job) (intent : JobIntent) : Decidable (Represented jobs intent) :=
  inferInstanceAs (Decidable (∃ job ∈ jobs, _))

/-- No thread is lost: the pending work on the card has the request's own thread already, or the
requested job itself is past waiting. -/
def KeepsThread (jobs : List Job) (intent : JobIntent) : Prop :=
  ∀ thread ∈ intent.threadId,
    (∀ job ∈ jobs, job.coalesces intent = true → job.threadId = some thread) ∨
      ∃ job ∈ jobs, (jobId intent).toOption = some job.id ∧ job.status ≠ .pending

/-- What becomes of a job: it is still there, or its place in line is a newer request's for the same
work. -/
def Job.succeeds (job next : Job) : Prop :=
  next.id = job.id ∨ (job.status = .pending ∧ next.status = .pending ∧ next.target = job.target ∧
    (job.kind = .heading ∧ next.kind = .heading ∨ job.kind.card = true ∧ next.kind = .refine))

/-! ## Identifiers -/

/-- What stands before the first of a separator is decided by the whole. -/
theorem before_separator {c : Char} : ∀ {left right rest more : List Char}, c ∉ left → c ∉ right →
    left ++ c :: rest = right ++ c :: more → left = right ∧ rest = more
  | [], [], _, _, _, _, h => ⟨rfl, (List.cons.inj h).2⟩
  | [], d :: right, _, _, _, hright, h => by
    rw [(List.cons.inj h).1] at hright
    exact absurd List.mem_cons_self hright
  | d :: left, [], _, _, hleft, _, h => by
    rw [(List.cons.inj h).1] at hleft
    exact absurd List.mem_cons_self hleft
  | d :: left, e :: right, _, _, hleft, hright, h => by
    obtain ⟨hfirst, htail⟩ := List.cons.inj h
    obtain ⟨hbefore, hrest⟩ := before_separator (List.not_mem_of_not_mem_cons hleft)
      (List.not_mem_of_not_mem_cons hright) htail
    exact ⟨by rw [hfirst, hbefore], hrest⟩

theorem JobKind.name_injective {left right : JobKind} (h : left.name = right.name) : left = right := by
  have hleft := JobKind.ofName_name left
  rw [h, JobKind.ofName_name] at hleft
  exact (Option.some.inj hleft).symm

/-- An identifier tells its kind and target, because no target has the separator. -/
theorem idOf_inj {kind other : JobKind} {target trigger target' trigger' : String}
    (htarget : target.toList.contains ':' = false) (htarget' : target'.toList.contains ':' = false)
    (h : idOf kind target trigger = idOf other target' trigger') : kind = other ∧ target = target' := by
  have hname (kind : JobKind) : ':' ∉ kind.name.toList := by cases kind <;> decide
  have hcolon : ":".toList = [':'] := rfl
  simp only [idOf, ← String.toList_inj, String.toList_append, hcolon, List.append_assoc,
    List.singleton_append] at h
  obtain ⟨hkind, hrest⟩ := before_separator (hname kind) (hname other) h
  obtain ⟨htargets, -⟩ := before_separator (by simpa using htarget) (by simpa using htarget') hrest
  exact ⟨JobKind.name_injective (String.toList_inj.1 hkind), String.toList_inj.1 htargets⟩

variable {platform : Platform} {jobs : List Job} {intent : JobIntent} {id : String}

variable {job : Job}

/-- A queued job with a request's id is of its kind and target. -/
theorem Shape.requested
    (h : Shape platform jobs) (hmem : job ∈ jobs) (hid : jobId intent = .ok id) (hjob : job.id = id) :
    job.kind = intent.kind ∧ job.target = intent.target := by
  have hvalid := h.valid job hmem
  simp only [Job.valid, Bool.and_eq_true, beq_iff_eq, Bool.not_eq_true'] at hvalid
  obtain ⟨hcolon, rfl⟩ := jobId_ok hid
  exact idOf_inj hvalid.1.1.1.1.1.1.1.1.2 hcolon (hvalid.1.1.1.1.1.2.symm.trans hjob)

/-! ## What stands for a request -/

instance : Std.Symm Apart := ⟨fun _ _ ↦ Apart.symm⟩

theorem Shape.eq_of_waiting {left right : Job} (h : Shape platform jobs) (hleft : left ∈ jobs) (hright : right ∈ jobs)
    (hsame : ¬Apart left right) : left = right := by
  by_contra hne
  exact hsame (h.apart.forall hleft hright hne)

/-- A pending job that covers a refine is the pending work on its card. -/
theorem Job.covers_coalesces (hrefine : intent.kind = .refine)
    (h : job.covers intent = true) : job.coalesces intent = true := by
  simp only [Job.covers, hrefine, Bool.and_eq_true, beq_iff_eq] at h
  exact Job.coalesces_iff.2 ⟨h.1.1, .inr ⟨by rw [hrefine]; rfl, by rw [h.2]; rfl, h.1.2⟩⟩

/-- Two jobs that one request falls together with exclude each other. -/
theorem Job.coalesces_same {left right : Job} (hleft : left.coalesces intent = true)
    (hright : right.coalesces intent = true) : ¬Apart left right := by
  intro happart
  obtain ⟨hlp, hl⟩ := Job.coalesces_iff.1 hleft
  obtain ⟨hrp, hr⟩ := Job.coalesces_iff.1 hright
  rcases hl with ⟨hkind, hlk⟩ | ⟨hkind, hlk, hlt⟩ <;> rcases hr with ⟨hkind', hrk⟩ | ⟨hkind', hrk, hrt⟩
  · exact happart.heading ⟨⟨hlp, hlk⟩, hrp, hrk⟩
  · rw [hkind] at hkind'; cases hkind'
  · rw [hkind'] at hkind; cases hkind
  · exact happart.card ⟨⟨hlp, hlk⟩, ⟨hrp, hrk⟩, hlt.trans hrt.symm⟩

variable {«at» : String}

/-- Only a refine brings a conversation's thread. -/
theorem JobIntent.refine_of_thread {thread : String}
    (h : intent.valid «at» = true) (hthread : intent.threadId = some thread) : intent.kind = .refine := by
  simp only [JobIntent.valid, Bool.and_eq_true, hthread, threadValid, Option.all_some, beq_iff_eq] at h
  exact h.2.1.1

theorem Job.hasThread_of (h : ∀ thread ∈ intent.threadId, job.status = .pending → job.threadId = some thread) :
    job.hasThread intent = true := by
  rw [Job.hasThread, Bool.or_eq_true, Option.all_eq_true]
  by_cases hpending : job.status = .pending
  · exact .inr fun thread hmem ↦ by simpa using h thread hmem hpending
  · exact .inl (by simpa using hpending)

theorem Job.thread_of_has {thread : String}
    (h : job.hasThread intent = true) (hthread : thread ∈ intent.threadId) (hpending : job.status = .pending) :
    job.threadId = some thread := by
  rw [Job.hasThread, hpending, Bool.or_eq_true] at h
  simpa using (Option.all_eq_true _ _).1 (h.resolve_left (by simp)) thread hthread

/-- The request's job is known already. -/
theorem Shape.represented_known
    (h : Shape platform jobs) (hvalid : intent.valid «at» = true) (hid : jobId intent = .ok id)
    (hknown : ∃ job ∈ jobs, job.id = id) : Represented jobs intent ↔ KeepsThread jobs intent := by
  have hsome : (jobId intent).toOption = some id := by rw [hid]; rfl
  -- on a refine, its own job is pending work on the card
  have hwaits {job : Job} {thread : String} (hmem : job ∈ jobs) (hthread : thread ∈ intent.threadId)
      (hown : job.id = id) (hpending : job.status = .pending) : job.coalesces intent = true := by
    obtain ⟨hkind, htarget⟩ := h.requested hmem hid hown
    have hrefine := JobIntent.refine_of_thread hvalid hthread
    exact Job.coalesces_iff.2 ⟨hpending, .inr ⟨by rw [hrefine]; rfl, by rw [hkind, hrefine]; rfl, htarget⟩⟩
  constructor
  · rintro ⟨job, hmem, hstands, hhas⟩ thread hthread
    by_cases hpending : job.status = .pending
    · refine .inl fun other hother hcoalesces ↦ ?_
      have hjob : job.coalesces intent = true := by
        rcases hstands with hown | hcovers
        · exact hwaits hmem hthread (Option.mem_unique hown hsome) hpending
        · exact Job.covers_coalesces (JobIntent.refine_of_thread hvalid hthread) hcovers
      rw [h.eq_of_waiting hother hmem (Job.coalesces_same hcoalesces hjob)]
      exact Job.thread_of_has hhas hthread hpending
    · refine .inr ⟨job, hmem, hstands.resolve_right fun hcovers ↦ hpending ?_, hpending⟩
      exact (Job.coalesces_iff.1
        (Job.covers_coalesces (JobIntent.refine_of_thread hvalid hthread) hcovers)).1
  · intro hkeeps
    obtain ⟨own, hmem, hown⟩ := hknown
    refine ⟨own, hmem, .inl (by rw [hsome, hown]), Job.hasThread_of fun thread hthread hpending ↦ ?_⟩
    rcases hkeeps thread hthread with hall | ⟨other, hother, hsame, hleft⟩
    · exact hall own hmem (hwaits hmem hthread hown hpending)
    · have hids : other.id = own.id := by rw [hown]; exact Option.mem_unique hsame hsome
      rw [h.eq_of_waiting hother hmem fun happart ↦ happart.id hids] at hleft
      exact absurd hpending hleft

/-- The request falls together with a pending job. -/
theorem Shape.represented_coalesced {front back : List Job} (h : Shape platform (front ++ job :: back))
    (hvalid : intent.valid «at» = true) (hid : jobId intent = .ok id)
    (hnew : ∀ other ∈ front ++ job :: back, other.id ≠ id) (hcoalesces : job.coalesces intent = true) :
    Represented (front ++ job.coalesced intent id «at» :: back) intent ↔ KeepsThread (front ++ job :: back) intent := by
  have hsome : (jobId intent).toOption = some id := by rw [hid]; rfl
  have hmem : job ∈ front ++ job :: back := by simp
  obtain ⟨hpending, hwork⟩ := Job.coalesces_iff.1 hcoalesces
  constructor
  · rintro ⟨other, hother, hstands, hhas⟩ thread hthread
    have hrefine := JobIntent.refine_of_thread hvalid hthread
    refine .inl fun waiting hwaiting hwaits ↦ ?_
    rw [h.eq_of_waiting hwaiting hmem (Job.coalesces_same hwaits hcoalesces)]
    have hthreads : (job.coalesced intent id «at»).threadId = job.threadId := by
      simp only [Job.coalesced, hrefine]; split <;> rfl
    have hstill : (job.coalesced intent id «at»).status = .pending := by
      simp only [Job.coalesced, hrefine]; split <;> exact hpending
    by_cases hsame : other = job.coalesced intent id «at»
    · rw [← hthreads, ← hsame]
      exact Job.thread_of_has hhas hthread (hsame ▸ hstill)
    · -- another job has neither the request's id nor its card
      have hrest : other ∈ front ++ job :: back := by
        rcases List.mem_append.1 hother with hother | hother
        · exact List.mem_append_left _ hother
        · exact List.mem_append_right _
            (List.mem_cons_of_mem _ ((List.mem_cons.1 hother).resolve_left hsame))
      have hcovers := hstands.resolve_left fun hown ↦
        hnew other hrest (Option.mem_unique hown hsome)
      have hwaits := Job.covers_coalesces hrefine hcovers
      rw [← h.eq_of_waiting hrest hmem (Job.coalesces_same hwaits hcoalesces)]
      exact Job.thread_of_has hhas hthread (Job.coalesces_iff.1 hwaits).1
  · intro hkeeps
    refine ⟨job.coalesced intent id «at», by simp, ?_, Job.hasThread_of fun thread hthread _ ↦ ?_⟩
    · rw [hsome, Job.coalesced]
      split
      · exact .inl rfl
      · rename_i hkind
        refine .inr ?_
        rw [hkind] at hwork
        simp only [Job.covers, hkind, hpending, Bool.and_eq_true, beq_iff_eq]
        simp_all [JobKind.card]
      · rename_i hheading hsuggest
        obtain ⟨hcard, -, htarget⟩ := hwork.resolve_left fun hboth ↦ hheading hboth.1
        split
        · rename_i hjob
          have hrefine : intent.kind = .refine := by
            cases hkind : intent.kind <;> simp_all [JobKind.card]
          refine .inr ?_
          simp only [Job.covers, hrefine, hpending, htarget, hjob, beq_self_eq_true, Bool.and_self]
        · exact .inl rfl
    · have hrefine := JobIntent.refine_of_thread hvalid hthread
      have hkept := (hkeeps thread hthread).resolve_right fun hknown ↦ by
        obtain ⟨other, hother, hown, -⟩ := hknown
        exact hnew other hother (Option.mem_unique hown hsome)
      simp only [Job.coalesced, hrefine]
      split <;> exact hkept job hmem hcoalesces

variable {next : List Job}

/-- **A request that is taken is represented, with its thread, exactly under `KeepsThread`.** -/
theorem Represented.iff_keepsThread (h : Shape platform jobs) (hok : enqueue jobs intent «at» = .ok next) :
    Represented next intent ↔ KeepsThread jobs intent := by
  obtain ⟨hvalid, id, hid, hsame | ⟨hnew, hcoalesced | ⟨hnone, kept, hkept, rfl⟩⟩⟩ := enqueue_ok hok
  · rw [hsame.2]
    exact h.represented_known hvalid hid hsame.1
  · obtain ⟨front, job, back, rfl, hcoalesces, rfl⟩ := hcoalesced
    exact h.represented_coalesced hvalid hid hnew hcoalesces
  · refine iff_of_true ⟨intent.job id «at», by simp, .inl (by rw [hid]; rfl), ?_⟩ fun thread _ ↦
      .inl fun job hmem hcoalesces ↦ absurd hcoalesces (by simp [hnone job hmem])
    exact Job.hasThread_of fun thread hthread _ ↦ hthread

/-! ## What becomes of a job -/

/-- A job that an outcome has not settled well still matters. -/
def Job.matters (job : Job) : Bool := job.status != .done && job.status != .skipped

theorem change_succeeds (id : String) (f : Job → Job) (hf : ∀ job, (f job).id = job.id) (h : job ∈ jobs) :
    ∃ next ∈ change jobs id f, job.succeeds next := by
  refine ⟨_, List.mem_map_of_mem h, .inl ?_⟩
  split
  · exact hf job
  · rfl

/-- A heading is about the document. -/
theorem Shape.heading_target (h : Shape platform jobs)
    (hmem : job ∈ jobs) (hkind : job.kind = .heading) : job.target = "document" := by
  have hvalid := h.valid job hmem
  simp only [Job.valid, Bool.and_eq_true, hkind] at hvalid
  simpa using hvalid.1.2

theorem Shape.enqueue_succeeds (hshape : Shape platform jobs)
    (h : Conversation.enqueue jobs intent «at» = .ok next) (hmem : job ∈ jobs) (hmatters : job.matters = true) :
    ∃ new ∈ next, job.succeeds new := by
  obtain ⟨hvalid, id, -, hsame | ⟨-, hcoalesced | ⟨-, kept, hkept, rfl⟩⟩⟩ := enqueue_ok h
  · exact ⟨job, hsame.2 ▸ hmem, .inl rfl⟩
  · obtain ⟨front, old, back, rfl, hcoalesces, rfl⟩ := hcoalesced
    by_cases hold : job = old
    · subst hold
      refine ⟨job.coalesced intent id «at», by simp, ?_⟩
      obtain ⟨hpending, hwork⟩ := Job.coalesces_iff.1 hcoalesces
      rw [Job.coalesced]
      split
      · rename_i hkind
        rw [hkind] at hwork
        obtain ⟨-, hjob⟩ := hwork.resolve_right fun hboth ↦ by cases hboth.1
        have htarget : intent.target = "document" := by
          simp only [JobIntent.valid, Bool.and_eq_true, hkind] at hvalid
          simpa using hvalid.1.1.2
        exact .inr ⟨hpending, rfl, htarget.trans (hshape.heading_target hmem hjob).symm,
          .inl ⟨hjob, hkind⟩⟩
      · exact .inl rfl
      · rename_i hheading hsuggest
        obtain ⟨-, hjob, -⟩ := hwork.resolve_left fun hboth ↦ hheading hboth.1
        split
        · exact .inl rfl
        · exact .inr ⟨hpending, hpending, rfl, .inr ⟨hjob, rfl⟩⟩
    · refine ⟨job, ?_, .inl rfl⟩
      rcases List.mem_append.1 hmem with hmem | hmem
      · exact List.mem_append_left _ hmem
      · exact List.mem_append_right _ (List.mem_cons_of_mem _ ((List.mem_cons.1 hmem).resolve_left hold))
  · simp only [Job.matters, Bool.and_eq_true, bne_iff_ne] at hmatters
    exact ⟨job, List.mem_append_left _ ((available_ok hkept).2.2 job hmem hmatters.1 hmatters.2), .inl rfl⟩

/-! ## Every run -/

theorem Shape.step {act : Act} (h : Shape platform jobs)
    (hstep : step platform jobs act = some next) : Shape platform next := by
  cases act with
  | enqueue intent «at» =>
    rw [Conversation.step] at hstep
    exact h.enqueue (Except.toOption_eq_some.1 hstep)
  | start id «at» eligible => exact h.start (Except.toOption_eq_some.1 hstep)
  | settle id outcome «at» => exact h.settle (Except.toOption_eq_some.1 hstep)
  | retry id «at» => exact h.retry (Except.toOption_eq_some.1 hstep)
  | restart => exact Shape.restored hstep

/-- No job that still matters is forgotten by any request. -/
theorem Shape.step_succeeds {act : Act}
    (h : Shape platform jobs) (hstep : Conversation.step platform jobs act = some next)
    (hmem : job ∈ jobs) (hmatters : job.matters = true) : ∃ new ∈ next, job.succeeds new := by
  cases act with
  | enqueue intent «at» =>
    rw [Conversation.step] at hstep
    exact h.enqueue_succeeds (Except.toOption_eq_some.1 hstep) hmem hmatters
  | start id «at» eligible =>
    obtain rfl | ⟨-, -, other, -, rfl, -, rfl⟩ := start_ok (Except.toOption_eq_some.1 hstep)
    · exact ⟨job, hmem, .inl rfl⟩
    · refine change_succeeds other.id _ ?_ hmem
      exact fun _ ↦ rfl
  | settle id outcome «at» =>
    obtain rfl | ⟨-, other, -, rfl, -, -, -, rfl⟩ := settle_ok (Except.toOption_eq_some.1 hstep)
    · exact ⟨job, hmem, .inl rfl⟩
    · exact change_succeeds _ _ (fun _ ↦ Job.settled_same.id) hmem
  | retry id «at» =>
    obtain rfl | ⟨-, other, -, rfl, -, -, rfl⟩ := retry_ok (Except.toOption_eq_some.1 hstep)
    · exact ⟨job, hmem, .inl rfl⟩
    · refine change_succeeds other.id _ ?_ hmem
      exact fun _ ↦ rfl
  | restart =>
    obtain rfl := Option.mem_unique h.restore_stored hstep
    exact ⟨job.interrupted, List.mem_map_of_mem hmem, .inl Job.interrupted_same.id⟩

/-- **The queue keeps its shape and loses no request.**  From any queue that was read, in every run:
the jobs exclude each other and fit, reading back what is stored gives the queue with its running
job interrupted, and no accepted request forgets a job that still matters.  An accepted `enqueue` is
represented exactly when no thread is lost. -/
theorem queue_keeps {platform : Platform} {value : Option Json} {opened jobs : List Job} {acts : List Act}
    (hopened : restore platform value = some opened) (run : Runs (step platform) opened acts jobs) :
    Shape platform jobs ∧ restore platform (stored jobs) = some (jobs.map Job.interrupted) ∧
      (∀ act next, step platform jobs act = some next →
        ∀ job ∈ jobs, job.matters = true → ∃ new ∈ next, job.succeeds new) ∧
      ∀ intent «at» next, enqueue jobs intent «at» = .ok next →
        (Represented next intent ↔ KeepsThread jobs intent) := by
  have hshape : Shape platform jobs :=
    run.invariant (Shape.restored hopened) fun _ _ _ h hstep ↦ h.step hstep
  exact ⟨hshape, hshape.restore_stored, fun act next hstep job ↦ hshape.step_succeeds hstep,
    fun intent «at» next hok ↦ Represented.iff_keepsThread hshape hok⟩

/-! ## A thread that is lost -/

/-- A suggestion for a card that no conversation's work was started on. -/
def suggestion : JobIntent :=
  { kind := .suggest, target := "01ARZ3NDEKTSV4RRFFQ69G5FAV", trigger := "message-1", threadId := none }

/-- The first work on that card, in a conversation. -/
def refinement : JobIntent :=
  { kind := .refine, target := "01ARZ3NDEKTSV4RRFFQ69G5FAV", trigger := "message-2"
    threadId := some "thread-1" }

/-- The refinement falls together with the suggestion. -/
def refined : List Act :=
  [.enqueue suggestion "2025-01-01T00:00:00.000Z", .enqueue refinement "2025-01-01T00:00:01.000Z"]

/-- **The refine that takes a suggestion's place is left without its thread.** -/
theorem thread_lost : ∃ jobs, Runs (step .ascii) [] refined jobs ∧ ¬Represented jobs refinement := by
  have hrun : ∃ jobs, refined.foldlM (step .ascii) [] = some jobs ∧ ¬Represented jobs refinement := by
    decide +kernel
  obtain ⟨jobs, hjobs, hlost⟩ := hrun
  exact ⟨jobs, runs_iff_foldlM.2 hjobs, hlost⟩

theorem queue_keeps_sample : ∃ jobs next,
    Runs (step .ascii) [] [.enqueue suggestion "2025-01-01T00:00:00.000Z", .restart] jobs ∧
      Shape .ascii jobs ∧ restore .ascii (stored jobs) = some (jobs.map Job.interrupted) ∧
      enqueue jobs refinement "2025-01-01T00:00:01.000Z" = .ok next ∧
      (Represented next refinement ↔ KeepsThread jobs refinement) := by
  have hrun : (([Act.enqueue suggestion "2025-01-01T00:00:00.000Z", .restart].foldlM
      (step .ascii) []).bind fun jobs ↦
        (enqueue jobs refinement "2025-01-01T00:00:01.000Z").toOption).isSome = true := by
    decide +kernel
  obtain ⟨next, hnext⟩ := Option.isSome_iff_exists.1 hrun
  obtain ⟨jobs, hjobs, hnext⟩ := Option.bind_eq_some_iff.1 hnext
  have run := runs_iff_foldlM.2 hjobs
  have hok := Except.toOption_eq_some.1 hnext
  obtain ⟨hshape, hrestore, -, hrepresented⟩ :=
    queue_keeps (show restore .ascii none = some [] from rfl) run
  exact ⟨jobs, next, run, hshape, hrestore, hok, hrepresented _ _ _ hok⟩

end Chopin.Conversation
