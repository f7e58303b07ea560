import Chopin.Conversation.Jobs
import Chopin.Lib.Except
import Chopin.Lib.Lists
import Chopin.Lib.Runs

/-!
# The shape of the job queue

No two jobs of the queue exclude each other, each of them is one that the reader takes, and there
are no more than fit.  Each transition is taken apart by an inversion lemma, and keeps the shape.
-/

set_option autoImplicit false

open Script (Platform text units text_append units_append isoTime)

namespace Chopin.Conversation

/-! ## The shape of a queue -/

theorem Apart.symm {left right : Job} (h : Apart left right) : Apart right left :=
  ⟨h.id.symm, fun ⟨hr, hl⟩ ↦ h.running ⟨hl, hr⟩, fun ⟨hr, hl⟩ ↦ h.heading ⟨hl, hr⟩,
    fun ⟨hr, hl, hsame⟩ ↦ h.card ⟨hl, hr, hsame.symm⟩⟩

structure Shape (platform : Platform) (jobs : List Job) : Prop where
  apart : jobs.Pairwise Apart
  valid : ∀ job ∈ jobs, job.valid platform = true
  length : jobs.length ≤ MAX_JOBS

variable {platform : Platform}

variable {new : Job}

variable {job : Job}

/-- Another job takes the place of one. -/
theorem Shape.replace {front back : List Job} (h : Shape platform (front ++ job :: back))
    (hvalid : new.valid platform = true) (hapart : ∀ other ∈ front ++ back, Apart job other → Apart new other) :
    Shape platform (front ++ new :: back) := by
  obtain ⟨hrest, hjob⟩ := (List.pairwise_middle_iff fun _ _ ↦ Apart.symm).1 h.apart
  refine ⟨(List.pairwise_middle_iff fun _ _ ↦ Apart.symm).2
    ⟨hrest, fun other hmem ↦ hapart other hmem (hjob other hmem)⟩, fun other hmem ↦ ?_,
    by simpa using h.length⟩
  rcases List.mem_append.1 hmem with hmem | hmem
  · exact h.valid other (List.mem_append_left _ hmem)
  · rcases List.mem_cons.1 hmem with rfl | hmem
    · exact hvalid
    · exact h.valid other (List.mem_append_right _ (List.mem_cons_of_mem _ hmem))

variable {jobs : List Job}

/-- The queue around a job: the one place where its id stands. -/
theorem Shape.split (h : Shape platform jobs) (hmem : job ∈ jobs)
    (f : Job → Job) : ∃ front back, jobs = front ++ job :: back ∧ change jobs job.id f = front ++ f job :: back := by
  obtain ⟨front, back, rfl⟩ := List.append_of_mem hmem
  refine ⟨front, back, rfl, ?_⟩
  obtain ⟨-, hjob⟩ := (List.pairwise_middle_iff fun _ _ ↦ Apart.symm).1 h.apart
  have hother : ∀ other ∈ front ++ back, (if other.id == job.id then f other else other) = other :=
    fun other hmem ↦ if_neg (by simpa using (hjob other hmem).id.symm)
  have hfront := List.map_congr_left fun other hmem ↦ hother other (List.mem_append_left back hmem)
  have hback := List.map_congr_left fun other hmem ↦ hother other (List.mem_append_right front hmem)
  rw [change, List.map_append, List.map_cons, if_pos (beq_self_eq_true _), hfront, hback, List.map_id',
    List.map_id']

/-- The job with an id changes. -/
theorem Shape.change (h : Shape platform jobs) (hmem : job ∈ jobs) (f : Job → Job)
    (hvalid : (f job).valid platform = true) (hapart : ∀ other ∈ jobs, Apart job other → Apart (f job) other) :
    Shape platform (change jobs job.id f) := by
  obtain ⟨front, back, rfl, hchange⟩ := h.split hmem f
  rw [hchange]
  refine h.replace hvalid fun other hother ↦ hapart other ?_
  rcases List.mem_append.1 hother with hother | hother
  · exact List.mem_append_left _ hother
  · exact List.mem_append_right _ (List.mem_cons_of_mem _ hother)

/-! ## Requests -/

/-- An identifier that fits its kind, target and trigger is one that the reader takes. -/
theorem idOf_bounded {kind : JobKind} {target trigger : String} (htarget : bounded target MAX_TARGET = true)
    (htrigger : bounded trigger MAX_TRIGGER = true) : bounded (idOf kind target trigger) 420 = true := by
  simp only [bounded, MAX_TARGET, MAX_TRIGGER, Bool.and_eq_true, decide_eq_true_eq] at htarget htrigger ⊢
  have hname : text kind.name = true ∧ units kind.name ≤ 17 := by cases kind <;> decide
  have hcolon : units ":" = 1 := by decide
  have htarget := of_decide_eq_true htarget.2
  have htrigger := of_decide_eq_true htrigger.2
  refine ⟨?_, ?_⟩
  · rw [idOf, String.append_assoc, String.append_assoc, String.append_assoc]
    exact text_append _ hname.1
  · rw [idOf, units_append, units_append, units_append, units_append, hcolon]
    have hlength := hname.2
    omega

variable {intent : JobIntent} {id : String}

theorem jobId_ok (h : jobId intent = .ok id) :
    intent.target.toList.contains ':' = false ∧ id = idOf intent.kind intent.target intent.trigger := by
  rw [jobId] at h
  split at h <;> cases h
  rename_i hcolon
  exact ⟨by rwa [Bool.not_eq_true] at hcolon, rfl⟩

variable {«at» : String}

theorem JobIntent.valid_job (h : intent.valid «at» = true)
    (hid : jobId intent = .ok id) : (intent.job id «at»).valid platform = true := by
  obtain ⟨hcolon, rfl⟩ := jobId_ok hid
  simp only [JobIntent.valid, Bool.and_eq_true] at h
  obtain ⟨⟨⟨⟨htarget, htrigger⟩, hheading⟩, hat⟩, hthread⟩ := h
  simp only [Job.valid, JobIntent.job, Job.outcomeValid, htarget, hcolon, htrigger,
    idOf_bounded htarget htrigger, beq_self_eq_true, hthread, hat, hheading, Nat.zero_le, decide_true,
    Option.isNone_none, Bool.not_false, Bool.and_self]

/-- A queue with room for one more has lost at most one finished job. -/
theorem available_ok {kept : List Job} (h : available jobs = .ok kept) :
    kept.Sublist jobs ∧ (jobs.length ≤ MAX_JOBS → kept.length < MAX_JOBS) ∧
      ∀ job ∈ jobs, job.status ≠ .done → job.status ≠ .skipped → job ∈ kept := by
  rw [available] at h
  split at h
  · simp only at h
    split at h <;> cases h
    rename_i hfull hfound
    rw [List.eraseIdx_findIdx]
    obtain ⟨oldest, holdest, hterminal⟩ := List.findIdx_lt_length.1 hfound
    refine ⟨List.eraseP_sublist, fun hlength ↦ ?_, fun job hmem hdone hskipped ↦ ?_⟩
    · rw [List.length_eraseP_of_mem holdest hterminal]
      have hpos := List.length_pos_of_mem holdest
      omega
    · refine (List.mem_eraseP_of_neg ?_).2 hmem
      simp [hdone, hskipped]
  · cases h
    rename_i hroom
    exact ⟨List.Sublist.refl _, fun _ ↦ by omega, fun job hmem _ _ ↦ hmem⟩

/-- What an accepted request leaves: the queue, the job it falls together with changed, or one job
more. -/
theorem enqueue_ok {next : List Job}
    (h : enqueue jobs intent «at» = .ok next) : intent.valid «at» = true ∧ ∃ id, jobId intent = .ok id ∧
      ((∃ job ∈ jobs, job.id = id) ∧ next = jobs ∨ (∀ job ∈ jobs, job.id ≠ id) ∧
        ((∃ front, ∃ job : Job, ∃ back, jobs = front ++ job :: back ∧ job.coalesces intent = true ∧
          next = front ++ job.coalesced intent id «at» :: back) ∨
        (∀ job ∈ jobs, job.coalesces intent = false) ∧ ∃ kept, available jobs = .ok kept ∧
          next = kept ++ [intent.job id «at»])) := by
  rw [enqueue] at h
  split at h; · cases h
  rename_i hvalid
  obtain ⟨id, hid, h⟩ := Except.bind_eq_ok.1 h
  refine ⟨by simpa using hvalid, id, hid, ?_⟩
  split at h
  · rename_i hknown
    cases h
    exact .inl ⟨by simpa using hknown, rfl⟩
  · rename_i hnew
    refine .inr ⟨by simpa using hnew, ?_⟩
    simp only at h
    split at h
    · rename_i job hjob
      cases h
      obtain ⟨front, back, hsplit, hcoalesces, -, hset⟩ := List.findIdx_split hjob
      exact .inl ⟨front, job, back, hsplit, hcoalesces, hset _⟩
    · rename_i hnone
      obtain ⟨kept, hkept, rfl⟩ := Except.map_eq_ok.1 h
      exact .inr ⟨List.findIdx_none hnone, kept, hkept, rfl⟩

/-- A request falls together with the pending heading job, or with the pending work on its card. -/
theorem Job.coalesces_iff : job.coalesces intent = true ↔
    job.status = .pending ∧ (intent.kind = .heading ∧ job.kind = .heading ∨
      intent.kind.card = true ∧ job.kind.card = true ∧ job.target = intent.target) := by
  obtain ⟨kind, target, trigger, threadId⟩ := intent
  cases kind <;> simp [Job.coalesces, JobKind.card]

/-- The job that a request falls together with takes it over as a valid one. -/
theorem Job.valid_coalesced
    (h : job.valid platform = true) (hintent : intent.valid «at» = true) (hid : jobId intent = .ok id)
    (hcoalesces : job.coalesces intent = true) : (job.coalesced intent id «at»).valid platform = true := by
  obtain ⟨hpending, hwork⟩ := Job.coalesces_iff.1 hcoalesces
  rw [Job.coalesced]
  split
  · exact JobIntent.valid_job hintent hid
  · exact h
  · rename_i hheading hsuggest
    obtain ⟨hcard, hjob, htarget⟩ := hwork.resolve_left fun ⟨hkind, _⟩ ↦ hheading hkind
    split
    · exact h
    · rename_i hkind
      -- a suggestion, which belongs to no conversation's thread
      obtain ⟨hcolon, rfl⟩ := jobId_ok hid
      have hrefine : intent.kind = .refine := by
        cases hkind : intent.kind <;> simp_all [JobKind.card]
      simp only [JobIntent.valid, Bool.and_eq_true] at hintent
      obtain ⟨⟨⟨⟨hbounded, htrigger⟩, -⟩, hat⟩, -⟩ := hintent
      simp only [Job.valid, Bool.and_eq_true] at h ⊢
      obtain ⟨⟨⟨⟨⟨hplace, hthread⟩, hattempts⟩, -⟩, hheading⟩, hout⟩ := h
      have hnone : job.threadId = none := by
        cases hfound : job.threadId with
        | none => rfl
        | some thread => simp [threadValid, hfound, hkind] at hthread
      have hdocument : (job.target == "document") = false := by
        have hnot : (job.kind == .heading) = false := by
          cases hkind : job.kind <;> simp_all [JobKind.card]
        rw [hnot] at hheading
        simpa using hheading
      refine ⟨⟨⟨⟨⟨⟨⟨⟨⟨hplace.1.1.1.1, hplace.1.1.1.2⟩, htrigger⟩, ?_⟩, ?_⟩, ?_⟩, hattempts⟩, hat⟩, ?_⟩, ?_⟩
      · exact hrefine ▸ idOf_bounded hbounded htrigger
      · simp [htarget, hrefine]
      · simp [hnone, threadValid]
      · simp [hdocument]
      · simpa [Job.outcomeValid, hpending] using hout

variable {other : Job}

/-- What a job leaves room for, it leaves room for when a request takes it over. -/
theorem Job.coalesced_apart (hcoalesces : job.coalesces intent = true) (hnew : other.id ≠ id) (h : Apart job other) :
    Apart (job.coalesced intent id «at») other := by
  obtain ⟨hpending, hwork⟩ := Job.coalesces_iff.1 hcoalesces
  rw [Job.coalesced]
  split
  · rename_i hkind
    have hjob : job.kind = .heading := by
      rcases hwork with ⟨-, hjob⟩ | ⟨hcard, -⟩
      · exact hjob
      · rw [hkind] at hcard; cases hcard
    refine ⟨hnew.symm, fun ⟨hrunning, _⟩ ↦ (by cases hrunning), fun ⟨_, hother⟩ ↦
      h.heading ⟨⟨hpending, hjob⟩, hother⟩, fun ⟨⟨_, hcard⟩, _⟩ ↦ ?_⟩
    rw [JobIntent.job, hkind] at hcard
    cases hcard
  · exact h
  · rename_i hheading hsuggest
    obtain ⟨-, hjob, -⟩ := hwork.resolve_left fun ⟨hkind, _⟩ ↦ hheading hkind
    split
    · exact h
    · refine ⟨hnew.symm, h.running, fun ⟨⟨_, hkind⟩, _⟩ ↦ (by cases hkind), fun ⟨_, hother, hsame⟩ ↦
        h.card ⟨⟨hpending, hjob⟩, hother, hsame⟩⟩

/-- A new job stands apart from those that the request does not fall together with. -/
theorem JobIntent.job_apart (hcoalesces : other.coalesces intent = false) (hnew : other.id ≠ id) :
    Apart other (intent.job id «at») := by
  have hnot := mt Job.coalesces_iff.2 (Bool.eq_false_iff.1 hcoalesces)
  refine ⟨hnew, fun ⟨_, hrunning⟩ ↦ (by cases hrunning), fun ⟨⟨hpending, hother⟩, _, hkind⟩ ↦
    hnot ⟨hpending, .inl ⟨hkind, hother⟩⟩, fun ⟨⟨hpending, hother⟩, ⟨_, hkind⟩, hsame⟩ ↦
    hnot ⟨hpending, .inr ⟨hkind, hother, hsame⟩⟩⟩

theorem Shape.enqueue {next : List Job}
    (h : Shape platform jobs) (hok : enqueue jobs intent «at» = .ok next) : Shape platform next := by
  obtain ⟨hvalid, id, hid, hsame | ⟨hnew, hcoalesced | ⟨hnone, kept, hkept, rfl⟩⟩⟩ := enqueue_ok hok
  · rw [hsame.2]; exact h
  · obtain ⟨front, job, back, rfl, hcoalesces, rfl⟩ := hcoalesced
    refine h.replace ?_ fun other hmem happart ↦ Job.coalesced_apart hcoalesces (hnew other ?_) happart
    · exact Job.valid_coalesced (h.valid job (by simp)) hvalid hid hcoalesces
    · rcases List.mem_append.1 hmem with hmem | hmem
      · exact List.mem_append_left _ hmem
      · exact List.mem_append_right _ (List.mem_cons_of_mem _ hmem)
  · obtain ⟨hsub, hroom, -⟩ := available_ok hkept
    have hlength := hroom h.length
    refine ⟨List.pairwise_append.2 ⟨h.apart.sublist hsub, List.pairwise_singleton _ _, ?_⟩, ?_, ?_⟩
    · intro job hmem added hadded
      rw [List.mem_singleton.1 hadded]
      have hmem := hsub.subset hmem
      exact JobIntent.job_apart (hnone job hmem) (hnew job hmem)
    · intro job hmem
      rcases List.mem_append.1 hmem with hmem | hmem
      · exact h.valid job (hsub.subset hmem)
      · rw [List.mem_singleton.1 hmem]
        exact JobIntent.valid_job hvalid hid
    · rw [List.length_append, List.length_singleton]
      omega

/-! ## Changes of status -/

/-- Two jobs are for the same work. -/
structure SameWork (job new : Job) : Prop where
  id : new.id = job.id
  kind : new.kind = job.kind
  target : new.target = job.target
  trigger : new.trigger = job.trigger
  threadId : new.threadId = job.threadId

/-- A job stays one that the reader takes while what its new status goes with is there. -/
theorem SameWork.valid (hsame : SameWork job new) (h : job.valid platform = true)
    (hattempts : new.attempts ≤ Json.maxSafe) (hat : isoTime new.«at» = true)
    (houtcome : new.outcomeValid platform = true) : new.valid platform = true := by
  simp only [Job.valid, Bool.and_eq_true] at h ⊢
  rw [hsame.id, hsame.kind, hsame.target, hsame.trigger, hsame.threadId]
  obtain ⟨⟨⟨⟨hplace, -⟩, -⟩, hheading⟩, -⟩ := h
  exact ⟨⟨⟨⟨hplace, decide_eq_true hattempts⟩, hat⟩, hheading⟩, houtcome⟩

/-- It stays apart from another where its new status leaves room for it. -/
theorem SameWork.apart (hsame : SameWork job new) (h : Apart job other)
    (hrunning : new.status = .running → other.status ≠ .running)
    (hheading : new.status = .pending → job.kind = .heading →
      ¬(other.status = .pending ∧ other.kind = .heading)) (hcard : new.status = .pending → job.kind.card = true →
      ¬((other.status = .pending ∧ other.kind.card = true) ∧ job.target = other.target)) :
    Apart new other where
  id := by rw [hsame.id]; exact h.id
  running := fun ⟨hnew, hother⟩ ↦ hrunning hnew hother
  heading := fun ⟨⟨hnew, hkind⟩, hother⟩ ↦ hheading hnew (hsame.kind ▸ hkind) hother
  card := fun ⟨⟨hnew, hkind⟩, hother, htarget⟩ ↦
    hcard hnew (hsame.kind ▸ hkind) ⟨hother, hsame.target ▸ htarget⟩

variable {eligible : Job → Bool}

theorem next_eq_some (h : next jobs eligible = some job) :
    (∀ other ∈ jobs, other.status ≠ .running) ∧ job ∈ jobs ∧ job.status = .pending := by
  rw [next] at h
  split at h
  · cases h
  · rename_i hnone
    have hfound := List.find?_some h
    simp only [Bool.and_eq_true, beq_iff_eq] at hfound
    exact ⟨by simpa using hnone, List.mem_of_find?_eq_some h, hfound.1⟩

/-- What a start leaves: the queue as it was, or its first eligible job at work. -/
theorem start_ok {next : List Job} (h : start jobs id «at» eligible = .ok next) : next = jobs ∨ isoTime «at» = true ∧
      (∀ other ∈ jobs, other.status ≠ .running) ∧ ∃ job ∈ jobs, job.id = id ∧ job.status = .pending ∧
        next = change jobs id fun job ↦ { job with status := .running, «at» } := by
  rw [start] at h
  split at h
  · cases h; exact .inl rfl
  · rename_i hnext
    split at h <;> cases h
    rename_i hat
    obtain ⟨job, hjob, hid⟩ := Option.map_eq_some_iff.1 (by simpa using hnext)
    obtain ⟨hidle, hmem, hpending⟩ := next_eq_some hjob
    exact .inr ⟨by simpa using hat, hidle, job, hmem, hid, hpending, rfl⟩

variable {outcome : JobOutcome}

/-- What an outcome leaves: the queue as it was, or the running job settled. -/
theorem settle_ok {next : List Job}
    (h : settle platform jobs id outcome «at» = .ok next) : next = jobs ∨ isoTime «at» = true ∧
      ∃ job ∈ jobs, job.id = id ∧ job.status = .running ∧ job.attempts < Json.maxSafe ∧
        outcome.valid platform job.kind = true ∧ next = change jobs id (·.settled outcome «at») := by
  rw [settle] at h
  split at h
  · cases h; exact .inl rfl
  · rename_i job hjob
    split at h <;> cases h
    rename_i hvalid
    have hfound := List.find?_some hjob
    simp only [Bool.and_eq_true, beq_iff_eq] at hfound
    simp only [Bool.or_eq_true, Bool.not_eq_true', not_or, Bool.not_eq_false, decide_eq_true_eq,
      Nat.not_le] at hvalid
    exact .inr ⟨hvalid.1.1, job, List.mem_of_find?_eq_some hjob, hfound.1, hfound.2, hvalid.1.2,
      hvalid.2, rfl⟩

/-- What a retry leaves: the queue as it was, or the failed job pending again. -/
theorem retry_ok {next : List Job} (h : retry jobs id «at» = .ok next) :
    next = jobs ∨ isoTime «at» = true ∧ ∃ job ∈ jobs, job.id = id ∧ job.status = .failed ∧ superseded jobs job = false ∧
        next = change jobs id fun job ↦ { job with status := .pending, reason := none, «at» } := by
  rw [retry] at h
  split at h
  · cases h; exact .inl rfl
  · rename_i job hjob
    split at h
    · cases h; exact .inl rfl
    · rename_i hnew
      split at h <;> cases h
      rename_i hat
      have hfound := List.find?_some hjob
      simp only [Bool.and_eq_true, beq_iff_eq] at hfound
      exact .inr ⟨by simpa using hat, job, List.mem_of_find?_eq_some hjob, hfound.1, hfound.2,
        by simpa using hnew, rfl⟩

/-- A job's outcome is one that the reader takes. -/
theorem Job.settled_outcome (h : outcome.valid platform job.kind = true) :
    (job.settled outcome «at»).outcomeValid platform = true := by
  cases outcome <;> simp_all [Job.settled, Job.outcomeValid, JobOutcome.valid]

theorem Job.settled_same : SameWork job (job.settled outcome «at») := by
  cases outcome <;> exact ⟨rfl, rfl, rfl, rfl, rfl⟩

theorem Shape.start {next : List Job}
    (h : Shape platform jobs) (hok : start jobs id «at» eligible = .ok next) : Shape platform next := by
  obtain rfl | ⟨hat, hidle, job, hmem, rfl, hpending, rfl⟩ := start_ok hok
  · exact h
  · have hsame : SameWork job { job with status := .running, «at» } := ⟨rfl, rfl, rfl, rfl, rfl⟩
    have hvalid := h.valid job hmem
    refine h.change hmem _ (hsame.valid hvalid ?_ hat ?_) fun other hother happart ↦
      hsame.apart happart (fun _ ↦ hidle other hother) (fun hnew ↦ by cases hnew)
        fun hnew ↦ by cases hnew
    all_goals simp_all [Job.valid, Job.outcomeValid]

theorem Shape.settle {next : List Job}
    (h : Shape platform jobs) (hok : settle platform jobs id outcome «at» = .ok next) : Shape platform next := by
  obtain rfl | ⟨hat, job, hmem, rfl, hrunning, hattempts, houtcome, rfl⟩ := settle_ok hok
  · exact h
  · have hvalid := h.valid job hmem
    -- only a decision follow-up goes back to waiting, and it excludes no other job
    have hwaits : (job.settled outcome «at»).status = .pending → job.kind = .decisionFollowup := by
      cases outcome <;> simp_all [Job.settled, JobOutcome.valid]
    have hstops : (job.settled outcome «at»).status ≠ .running := by
      cases outcome <;> simp [Job.settled]
    refine h.change hmem (·.settled outcome «at») (Job.settled_same.valid hvalid ?_ ?_
      (Job.settled_outcome houtcome)) fun other hother happart ↦
        Job.settled_same.apart happart (fun hnew ↦ absurd hnew hstops) (fun hnew hkind ↦ ?_)
        fun hnew hkind ↦ ?_
    · cases outcome <;> simp only [Job.settled] <;> omega
    · cases outcome <;> exact hat
    · rw [hwaits hnew] at hkind; cases hkind
    · rw [hwaits hnew] at hkind; cases hkind

theorem Shape.retry {next : List Job} (h : Shape platform jobs)
    (hok : retry jobs id «at» = .ok next) : Shape platform next := by
  obtain rfl | ⟨hat, job, hmem, rfl, hfailed, hnew, rfl⟩ := retry_ok hok
  · exact h
  · have hsame : SameWork job { job with status := .pending, reason := none, «at» } :=
      ⟨rfl, rfl, rfl, rfl, rfl⟩
    have hvalid := h.valid job hmem
    simp only [superseded, Bool.or_eq_false_iff, Bool.and_eq_false_iff, List.any_eq_false,
      Bool.and_eq_true, beq_iff_eq, beq_eq_false_iff_ne] at hnew
    refine h.change hmem _ (hsame.valid hvalid ?_ hat ?_) fun other hother happart ↦
      hsame.apart happart (fun hrunning ↦ by cases hrunning) (fun _ hkind ⟨hpending, hother'⟩ ↦ ?_)
        fun _ hkind ⟨⟨hpending, hcard⟩, htarget⟩ ↦ ?_
    · simp_all [Job.valid]
    · simp_all [Job.valid, Job.outcomeValid]
    · exact (hnew.1.resolve_left (· hkind)) other hother ⟨hother', hpending⟩
    · exact (hnew.2.resolve_left (by simp [hkind])) other hother ⟨⟨hpending, hcard⟩, htarget.symm⟩

/-! ## Reading back -/

theorem JobKind.ofName_name (kind : JobKind) : JobKind.ofName kind.name = some kind := by
  cases kind <;> decide

theorem JobStatus.ofName_name (status : JobStatus) : JobStatus.ofName status.name = some status := by
  cases status <;> decide

/-- **A job that fits is read back as it was written.** -/
theorem restoreJob_toJson (h : job.valid platform = true) : restoreJob platform job.toJson = some job := by
  obtain ⟨item, hitem, hlookup⟩ := Json.object_read job.fields (by simp [Job.fields])
  have hread : Json.strict job.toJson ["id", "kind", "target", "trigger", "status", "attempts", "at",
      "reason", "output", "threadId"] = some item := hitem
  have hid : item.lookup "id" = some (.str job.id) := hlookup _
  have hkind : item.lookup "kind" = some (.str job.kind.name) := hlookup _
  have htarget : item.lookup "target" = some (.str job.target) := hlookup _
  have htrigger : item.lookup "trigger" = some (.str job.trigger) := hlookup _
  have hstatus : item.lookup "status" = some (.str job.status.name) := hlookup _
  have hattempts : item.lookup "attempts" = some (.num job.attempts) := hlookup _
  have hat : item.lookup "at" = some (.str job.«at») := hlookup _
  have hreason : item.lookup "reason" = job.reason.map .str := hlookup _
  have houtput : item.lookup "output" = job.output.map .str := hlookup _
  have hthread : item.lookup "threadId" = job.threadId.map .str := hlookup _
  have hsafe : job.attempts ≤ Json.maxSafe := by
    simp only [Job.valid, Bool.and_eq_true, decide_eq_true_eq] at h
    exact h.1.1.1.2
  have htext (value : Option String) : Json.optional Json.string (value.map .str) = some value :=
    Json.optional_map fun _ _ ↦ rfl
  rw [restoreJob, hread, Option.some_then, hid, hkind, htarget, htrigger, hstatus,
    hattempts, hat, hreason, houtput, hthread]
  simp only [Option.some_then, Json.string_str, JobKind.ofName_name,
    JobStatus.ofName_name, Json.safe_num hsafe, htext, h, if_true, Option.pure_def]

/-- Whatever is read fits. -/
theorem restoreJob_valid {value : Json} (h : restoreJob platform value = some job) : job.valid platform = true := by
  rw [restoreJob] at h
  iterate 18 obtain ⟨_, -, h⟩ := Option.bind_eq_some_iff.1 h
  simp only at h
  split at h
  · rename_i hvalid
    cases h
    exact hvalid
  · cases h

theorem Job.interrupted_same : SameWork job job.interrupted := by
  rw [Job.interrupted]
  split
  · split <;> exact ⟨rfl, rfl, rfl, rfl, rfl⟩
  · exact ⟨rfl, rfl, rfl, rfl, rfl⟩

/-- An interrupted job is as it was, but not at work; only a decision follow-up waits again. -/
theorem Job.interrupted_status (job : Job) : job.interrupted.status ≠ .running ∧
    (job.interrupted.status = .pending → job.status = .pending ∨ job.kind = .decisionFollowup) := by
  rw [Job.interrupted]
  split
  · split <;> simp_all
  · simp_all

theorem Job.interrupted_valid (h : job.valid platform = true) : job.interrupted.valid platform = true := by
  refine Job.interrupted_same.valid h ?_ ?_ ?_
  all_goals
    rw [Job.interrupted]
    split
    · split <;> simp_all [Job.valid, Job.outcomeValid]
      try decide
    · simp_all [Job.valid]

theorem Job.interrupted_apart {left right : Job} (h : Apart left right) : Apart left.interrupted right.interrupted := by
  have hleft : Apart left.interrupted right := by
    refine Job.interrupted_same.apart h (fun hrunning ↦ absurd hrunning left.interrupted_status.1) ?_ ?_
    all_goals
      intro hpending hkind
      rcases left.interrupted_status.2 hpending with hold | hfollowup
    · exact fun hright ↦ h.heading ⟨⟨hold, hkind⟩, hright⟩
    · rw [hfollowup] at hkind; cases hkind
    · exact fun hright ↦ h.card ⟨⟨hold, hkind⟩, hright⟩
    · rw [hfollowup] at hkind; cases hkind
  refine (Job.interrupted_same.apart hleft.symm
    (fun hrunning ↦ absurd hrunning right.interrupted_status.1) ?_ ?_).symm
  all_goals
    intro hpending hkind
    rcases right.interrupted_status.2 hpending with hold | hfollowup
  · exact fun hright ↦ hleft.heading ⟨hright, hold, hkind⟩
  · rw [hfollowup] at hkind; cases hkind
  · exact fun ⟨hright, htarget⟩ ↦ hleft.card ⟨hright, ⟨hold, hkind⟩, htarget.symm⟩
  · rw [hfollowup] at hkind; cases hkind

theorem Shape.interrupted (h : Shape platform jobs) :
    Shape platform (jobs.map Job.interrupted) where
  apart := List.pairwise_map.2 (h.apart.imp Job.interrupted_apart)
  valid := by
    intro job hmem
    obtain ⟨old, hold, rfl⟩ := List.mem_map.1 hmem
    exact Job.interrupted_valid (h.valid old hold)
  length := by simpa using h.length

/-- **The stored queue is read back**, with its running job interrupted. -/
theorem Shape.restore_stored (h : Shape platform jobs) :
    restore platform (stored jobs) = some (jobs.map Job.interrupted) := by
  rw [stored]
  split
  · rename_i hempty
    rw [List.isEmpty_iff.1 hempty]
    rfl
  · have hlength : ¬MAX_JOBS < (jobs.map Job.toJson).length := by
      rw [List.length_map]
      exact Nat.not_lt.2 h.length
    simp only [restore, Json.array_arr, Option.some_then, if_neg hlength,
      Json.mapM_map fun job hmem ↦ restoreJob_toJson (h.valid job hmem), if_pos h.apart,
      Option.pure_def]

/-- What any reading gives has the shape. -/
theorem Shape.restored {value : Option Json} (h : restore platform value = some jobs) : Shape platform jobs := by
  cases value with
  | none =>
    cases h
    exact ⟨.nil, by simp, by simp⟩
  | some value =>
    simp only [restore, Option.then_eq_some] at h
    obtain ⟨items, -, h⟩ := h
    split at h; · cases h
    rename_i hlength
    obtain ⟨read, hread, h⟩ := Option.bind_eq_some_iff.1 h
    split at h <;> cases h
    rename_i hapart
    have hshape : Shape platform read := by
      refine ⟨hapart, fun job hmem ↦ ?_, ?_⟩
      · obtain ⟨value, -, hvalue⟩ := Option.mem_of_mapM hread job hmem
        exact restoreJob_valid hvalue
      · rw [← (Option.mapM_eq_some.1 hread).length_eq]
        exact Nat.not_lt.1 hlength
    exact hshape.interrupted

end Chopin.Conversation
