import Chopin.Chat.ReplyPolicy

/-!
# What the check lets through

`Recorded done stopped log` is how a log comes about: messages end one after the other, each is judged at
most once, is published right behind a judgement that allows it, and nothing follows an abort or a failure.
-/

set_option autoImplicit false

open Script

namespace Chopin.Chat

/-! ## The messages of a stream -/

/-- The texts that are being written, after a part. -/
def opened (texts : List (String × Units)) : Part → List (String × Units)
  | .textStart id => Entries.set texts id []
  | .textDelta id text => Entries.set texts id ((texts.lookup id).getD [] ++ text)
  | .textEnd id => Entries.delete texts id
  | _ => texts

/-- The message that a part ends, if it does. -/
def ended (texts : List (String × Units)) : Part → List (String × Units)
  | .textEnd id => (texts.lookup id).toList.map (id, ·)
  | _ => []

/-- The messages that end with a part of their own. -/
def endedBy (texts : List (String × Units)) : List Part → List (String × Units)
  | [] => []
  | part :: rest => ended texts part ++ endedBy (opened texts part) rest

/-- The messages of a stream, in the order in which they are complete; what is open at its end ends there. -/
def messages (parts : List Part) : List (String × Units) := endedBy [] parts ++ parts.foldl opened []

/-! ## Logs -/

def Effect.halts : Effect → Bool
  | .stop => true
  | .fail _ => true
  | _ => false

def reply (id : String) (text : Units) : List Effect :=
  [.publish (.textStart id), .publish (.textDelta id text), .publish (.textEnd id)]

/-- How a log comes about, with the messages that ended so far. -/
inductive Recorded : List (String × Units) → Bool → List Effect → Prop
  | nil : Recorded [] false []
  | ended {done : List (String × Units)} {stopped : Bool} {log : List Effect} (message : String × Units)
      (h : Recorded done stopped log) : Recorded (done ++ [message]) stopped log
  | passed {done : List (String × Units)} {log : List Effect} {part : Part} (h : Recorded done false log)
      (hpart : ∀ id text, part ≠ .textDelta id text) : Recorded done false (log ++ [Effect.publish part])
  | judged {done : List (String × Units)} {log : List Effect} (id : String) (text : Units) (answer : Answer)
      (h : Recorded done false log) : Recorded (done ++ [(id, text)]) false (log ++ [Effect.judge id text answer])
  | replied {done : List (String × Units)} {log : List Effect} {id : String} {text : Units} {answer : Answer}
      (h : Recorded done false log) (hallows : answer.allows = true) :
      Recorded (done ++ [(id, text)]) false (log ++ (Effect.judge id text answer :: reply id text))
  | halted {done : List (String × Units)} {stopped : Bool} {log : List Effect} {tail : List Effect}
      (h : Recorded done stopped log) (htail : ∀ effect ∈ tail, effect.halts = true) :
      Recorded done true (log ++ tail)

/-- The state's log, with its signal. -/
def Recording (done : List (String × Units)) (s : State) : Prop := Recorded done s.stopped s.log

variable {options : Options} {done texts : List (String × Units)} {s : State}

variable {stopped : Bool} {log : List Effect}

theorem Recorded.more (h : Recorded done stopped log)
    (more : List (String × Units)) : Recorded (done ++ more) stopped log := by
  induction more generalizing done with
  | nil => rw [List.append_nil]; exact h
  | cons message rest ih => rw [List.append_cons]; exact ih (h.ended message)

theorem Recording.more (h : Recording done s) (more : List (String × Units)) : Recording (done ++ more) s :=
  Recorded.more h more

theorem Recording.stop (h : Recording done s) : Recording done s.stop := by
  rw [State.stop]
  split
  · exact h
  · exact Recorded.halted h (by simp [Effect.halts])

@[simp] theorem stopped_stop (s : State) : s.stop.stopped = true := by
  rw [State.stop]
  split
  · assumption
  · rfl

@[simp] theorem messages_stop (s : State) : s.stop.messages = s.messages := by
  rw [State.stop]
  split <;> rfl

theorem Recording.fail (h : Recording done s) (failure : Failure) : Recording done (s.fail failure) := by
  have hfail : Recorded done true (s.log ++ [Effect.fail failure]) := Recorded.halted h (by simp [Effect.halts])
  rw [Recording, State.fail]
  show Recorded done (s.emit [.fail failure]).stop.stopped (s.emit [.fail failure]).stop.log
  rw [stopped_stop, State.stop]
  split
  · exact hfail
  · exact hfail.halted (by simp [Effect.halts])

@[simp] theorem stopped_fail (s : State) (failure : Failure) : (s.fail failure).stopped = true :=
  stopped_stop (s.emit [.fail failure])

theorem Recording.wait (h : Recording done s) : Recording done (wait options s) := by
  rw [Chat.wait]
  split
  · exact Recording.stop (s := s.tick) h
  · exact h

@[simp] theorem messages_wait (s : State) : (wait options s).messages = s.messages := by
  rw [wait]
  split
  · exact messages_stop s.tick
  · rfl

/-! ## Judging -/

/-- A wait during which nothing was aborted leaves the log. -/
theorem wait_running (h : (wait options s).stopped = false) : s.stopped = false ∧ (wait options s).log = s.log := by
  rw [wait] at h ⊢
  split at h
  · rw [stopped_stop] at h; exact nomatch h
  · rename_i hawait
    rw [if_neg hawait]
    exact ⟨h, rfl⟩

variable {id : String}

variable {text : Units}

/-- What a check leaves: the state as it was, or one more judgement in the log. -/
theorem checkPlannerReply_cases {verdict : Except Failure Bool} {after : State}
    (h : checkPlannerReply options id text s = (verdict, after)) (hrunning : s.stopped = false) :
    (after = s ∧ ∃ failure, verdict = .error failure) ∨
      ∃ answer, after = wait options (s.emit [.judge id text answer]) ∧
        ∀ allowed, verdict = .ok allowed → after.stopped = true ∨ allowed = answer.allows := by
  rw [checkPlannerReply, hrunning, if_neg Bool.false_ne_true] at h
  split at h
  · obtain ⟨rfl, rfl⟩ := Prod.mk.inj h
    exact .inl ⟨rfl, _, rfl⟩
  · refine .inr ⟨(options.await s.clock).answer, ?_⟩
    dsimp only at h
    split at h
    · rename_i hstopped
      obtain ⟨rfl, rfl⟩ := Prod.mk.inj h
      exact ⟨rfl, fun _ _ ↦ .inl hstopped⟩
    · split at h
      · obtain ⟨rfl, rfl⟩ := Prod.mk.inj h
        exact ⟨rfl, fun allowed hallowed ↦ .inr (Except.ok.inj hallowed).symm⟩
      · obtain ⟨rfl, rfl⟩ := Prod.mk.inj h
        exact ⟨rfl, nofun⟩

/-- **A message that has ended is judged once, and published whole behind an answer that allows it.** -/
theorem flush_recorded (options : Options) (h : Recording done s) (id : String) :
    Recording (done ++ (s.messages.lookup id).toList.map (id, ·)) (flush options id s).2 ∧
      (flush options id s).2.messages = Entries.delete s.messages id := by
  cases htext : s.messages.lookup id with
  | none =>
    rw [flush]
    simp only [htext, Option.getD_none]
    rw [if_pos (.inl rfl), Option.toList_none, List.map_nil, List.append_nil]
    exact ⟨h, rfl⟩
  | some text =>
    have hended : Recording (done ++ [(id, text)]) s := h.more _
    rw [flush, Option.toList_some, List.map_singleton]
    simp only [htext, Option.getD_some]
    split
    · exact ⟨hended, rfl⟩
    · rename_i hopen
      have hrunning : s.stopped = false := Bool.eq_false_iff.2 (not_or.1 hopen).2
      rcases hcheck : checkPlannerReply options id text (s.forget id) with
        ⟨verdict, after⟩
      dsimp only
      rcases checkPlannerReply_cases hcheck hrunning with ⟨rfl, failure, rfl⟩ | ⟨answer, rfl, hverdict⟩
      · exact ⟨Recording.wait (s := s.forget id) hended,
          messages_wait _⟩
      · have hlog : Recorded done false s.log := hrunning ▸ h
        have hjudged : Recording (done ++ [(id, text)]) (wait options (wait options
            ((s.forget id).emit [.judge id text answer]))) := by
          refine Recording.wait (Recording.wait ?_)
          show Recorded _ s.stopped _
          rw [hrunning]
          exact hlog.judged id text answer
        have hmessages : (wait options (wait options ((s.forget id).emit
            [.judge id text answer]))).messages = Entries.delete s.messages id := by
          rw [messages_wait, messages_wait]
          rfl
        cases verdict with
        | error failure => exact ⟨hjudged, hmessages⟩
        | ok allowed =>
          dsimp only
          split
          · exact ⟨hjudged, hmessages⟩
          · rename_i hafter
            obtain ⟨hfirst, hsecondLog⟩ := wait_running (Bool.eq_false_iff.2 hafter)
            obtain ⟨-, hfirstLog⟩ := wait_running hfirst
            split
            · -- The check was not aborted, so what it answered is the judge's answer.
              rename_i hallowed
              have hallows : answer.allows = true := by
                rcases hverdict allowed rfl with hstopped | rfl
                · rw [hfirst] at hstopped; exact nomatch hstopped
                · exact hallowed
              refine ⟨?_, hmessages⟩
              show Recorded _ (wait options _).stopped ((wait options _).log ++ reply id text)
              rw [Bool.eq_false_iff.2 hafter, hsecondLog, hfirstLog]
              have hreplied : Recorded (done ++ [(id, text)]) false
                  (s.log ++ (.judge id text answer :: reply id text)) := hlog.replied hallows
              rwa [List.append_cons s.log] at hreplied
            · exact ⟨hjudged, hmessages⟩

/-! ## The stream -/

/-- The transcript of the tools is apart from what is published. -/
theorem transcribe_fields (s : State) (detail : Units) : (s.transcribe detail).log = s.log ∧
    (s.transcribe detail).stopped = s.stopped ∧ (s.transcribe detail).messages = s.messages := by
  rw [State.transcribe]
  split <;> split <;> exact ⟨rfl, rfl, rfl⟩

theorem take_recorded (options : Options) (h : Recording done s) (hopen : s.stopped = false → s.messages = texts)
    (part : Part) : Recording (done ++ ended texts part) (take options s part) ∧
      ((take options s part).stopped = false → (take options s part).messages = opened texts part) := by
  have hwait : Recording done (wait options s) := h.wait
  rw [take.eq_def]
  dsimp only
  split
  · rename_i hstopped
    exact ⟨hwait.more _, fun hrunning ↦ by rw [hstopped] at hrunning; exact nomatch hrunning⟩
  · rename_i hstopped
    have hrunning : (wait options s).stopped = false := Bool.eq_false_iff.2 hstopped
    have hmessages : (wait options s).messages = texts := by
      rw [messages_wait]
      exact hopen (wait_running hrunning).1
    have hpassed (part : Part) (hpart : ∀ id text, part ≠ .textDelta id text) :
        Recording done ((wait options s).emit [.publish part]) := by
      show Recorded _ (wait options s).stopped _
      rw [hrunning]
      exact Recorded.passed (hrunning ▸ hwait) hpart
    cases part with
    | textStart id => exact ⟨hwait.more _, fun _ ↦ by rw [← hmessages]; rfl⟩
    | textDelta id text =>
      dsimp only
      split
      · exact ⟨(hwait.fail _).more _, fun hrunning ↦ by rw [stopped_fail] at hrunning; exact nomatch hrunning⟩
      · exact ⟨hwait.more _, fun _ ↦ by rw [← hmessages]; rfl⟩
    | textEnd id =>
      obtain ⟨hflush, hdeleted⟩ := flush_recorded options hwait id
      rw [hmessages] at hflush hdeleted
      dsimp only
      rcases hresult : flush options id (wait options s) with ⟨outcome, after⟩
      rw [hresult] at hflush hdeleted
      cases outcome with
      | error failure =>
        exact ⟨hflush.fail failure, fun hrunning ↦ by rw [stopped_fail] at hrunning; exact nomatch hrunning⟩
      | ok _ => exact ⟨hflush, fun _ ↦ hdeleted⟩
    | error => exact ⟨(hwait.fail _).more _, fun hrunning ↦ by rw [stopped_fail] at hrunning; exact nomatch hrunning⟩
    | abort => exact ⟨(hwait.fail _).more _, fun hrunning ↦ by rw [stopped_fail] at hrunning; exact nomatch hrunning⟩
    | tool detail =>
      obtain ⟨hlog, hsame, htexts⟩ := transcribe_fields (wait options s) detail
      refine ⟨?_, fun _ ↦ htexts.trans hmessages⟩
      show Recorded _ ((wait options s).transcribe detail).stopped (((wait options s).transcribe detail).log ++ _)
      rw [hlog, hsame]
      exact Recording.more (hpassed (.tool detail) nofun) _
    | other type => exact ⟨(hpassed (.other type) nofun).more _, fun _ ↦ hmessages⟩

theorem stream_recorded (options : Options) (parts : List Part) : ∀ {done texts : List (String × Units)} {s : State},
    Recording done s → (s.stopped = false → s.messages = texts) →
    Recording (done ++ endedBy texts parts) (parts.foldl (take options) s) ∧
      ((parts.foldl (take options) s).stopped = false →
        (parts.foldl (take options) s).messages = parts.foldl opened texts) := by
  induction parts with
  | nil => exact fun h hopen ↦ ⟨h.more _, hopen⟩
  | cons part rest ih =>
    intro done texts s h hopen
    obtain ⟨htake, hmessages⟩ := take_recorded options h hopen part
    rw [endedBy, ← List.append_assoc]
    exact ih htake hmessages

/-- What is still open is flushed in the order of the map. -/
theorem flushAll_recorded (options : Options) : ∀ {texts done : List (String × Units)} {s : State}, Recording done s →
    (∀ text ∈ texts, text ∈ s.messages) → (texts.map (·.1)).Nodup → (s.messages.map (·.1)).Nodup →
    Recording (done ++ texts) (flushAll options (texts.map (·.1)) s).2 := by
  intro texts
  induction texts with
  | nil => exact fun h _ _ _ ↦ h.more _
  | cons text rest ih =>
    intro done s h hall hrest hnodup
    obtain ⟨hnew, hrest⟩ := List.nodup_cons.1 hrest
    have hlookup : s.messages.lookup text.1 = some text.2 :=
      Entries.lookup_of_mem hnodup (hall text List.mem_cons_self)
    obtain ⟨hflush, hmessages⟩ := flush_recorded options h text.1
    rw [hlookup, Option.toList_some, List.map_singleton] at hflush
    rw [List.map_cons, flushAll, List.append_cons]
    rcases hresult : flush options text.1 s with ⟨outcome, after⟩
    rw [hresult] at hflush hmessages
    cases outcome with
    | error failure => exact (hflush.fail failure).more _
    | ok _ =>
      refine ih hflush.wait (fun other hother ↦ ?_) hrest ?_
      · rw [messages_wait, hmessages, Entries.mem_delete]
        exact ⟨hall other (List.mem_cons_of_mem _ hother), fun heq ↦ hnew (List.mem_map.2 ⟨other, hother, heq⟩)⟩
      · rw [messages_wait, hmessages]
        exact hnodup.sublist (List.filter_sublist.map _)

theorem nodup_opened (parts : List Part) (h : (texts.map (·.1)).Nodup) :
    ((parts.foldl opened texts).map (·.1)).Nodup := by
  induction parts generalizing texts with
  | nil => exact h
  | cons part rest ih =>
    refine ih ?_
    cases part with
    | textStart id => exact Entries.nodup_set h _ _
    | textDelta id text => exact Entries.nodup_set h _ _
    | textEnd id => exact h.sublist (List.filter_sublist.map _)
    | _ => exact h

/-- **One turn records the messages of its stream.** -/
theorem attempt_recorded (options : Options) (h : Recording done s) (prompt : Prompt) :
    Recording (done ++ messages (options.session prompt).parts) (attempt options prompt s).2 := by
  have hstart : Recording done { s with rejected := false, messages := [], failure := none } := h
  obtain ⟨hstream, hmessages⟩ := stream_recorded options (options.session prompt).parts hstart fun _ ↦ rfl
  rw [attempt, messages, ← List.append_assoc]
  generalize (options.session prompt).parts.foldl (take options) { s with
    rejected := false, messages := [], failure := none } = after at hstream hmessages
  have hended : Recording (done ++ endedBy [] (options.session prompt).parts)
      (if (options.session prompt).fails = true then (wait options after).fail .session else wait options after) := by
    split
    · exact hstream.wait.fail _
    · exact hstream.wait
  have hopen : (if (options.session prompt).fails = true then (wait options after).fail .session
      else wait options after).stopped = false →
      (if (options.session prompt).fails = true then (wait options after).fail .session
        else wait options after).messages = (options.session prompt).parts.foldl opened [] := by
    split
    · rw [stopped_fail]; exact nofun
    · rw [messages_wait]; exact fun hrunning ↦ hmessages (wait_running hrunning).1
  generalize (if (options.session prompt).fails = true then (wait options after).fail .session
    else wait options after) = last at hended hopen
  split
  · exact hended.more _
  · split
    · exact hended.more _
    · rename_i hrunning
      have htexts := hopen (Bool.eq_false_iff.2 hrunning)
      have hnodup : (((options.session prompt).parts.foldl opened []).map (·.1)).Nodup :=
        nodup_opened _ List.nodup_nil
      rw [← htexts] at hnodup ⊢
      exact flushAll_recorded options hended (fun _ ↦ id) hnodup hnodup

theorem initial_recorded (options : Options) : Recording [] (initial options) := by
  rw [Recording, initial]
  cases options.aborted with
  | false => exact .nil
  | true =>
    have hstop : ∀ effect ∈ [Effect.stop], effect.halts = true := by simp [Effect.halts]
    exact Recorded.nil.halted hstop

/-- What a run adds behind its turns: nothing, a failure, or the summary. -/
inductive Closing (options : Options) : Bool → List Effect → Prop
  | none (stopped : Bool) : Closing options stopped []
  | failed (stopped : Bool) : Closing options stopped [.fail .unmoved]
  | summary {text : Units} (h : summary options = some text) : Closing options false (reply options.uuid text)

/-- A log and what closes it. -/
def Closed (options : Options) (done : List (String × Units)) (log : List Effect) : Prop :=
  ∃ stopped front back, log = front ++ back ∧ Recorded done stopped front ∧ Closing options stopped back

theorem Recording.closed (h : Recording done s) : Closed options done s.log :=
  ⟨s.stopped, s.log, [], (List.append_nil _).symm, h, .none _⟩

theorem summarize_closed (h : Recording done s) : Closed options done (summarize options s).2.log := by
  rw [summarize]
  split
  · exact h.closed
  · rename_i hrunning
    cases hsummary : summary options with
    | none => exact ⟨s.stopped, s.log, _, rfl, h, .failed _⟩
    | some text => exact ⟨false, s.log, _, rfl, Bool.eq_false_iff.2 hrunning ▸ h, .summary hsummary⟩

/-- A pass of the loop returns at once, returns after its turn, or goes on from there. -/
theorem attempted_cases (options : Options) (prompt : Prompt) (next : State → Except Failure Unit × State) (s : State) :
    (attempted options prompt next s).2 = s ∨ (attempted options prompt next s).2 = (attempt options prompt s).2 ∨
    (attempted options prompt next s).2 = (next (attempt options prompt s).2).2 := by
  rw [attempted]
  split
  · exact .inl rfl
  · rcases attempt options prompt s with ⟨outcome, after⟩
    cases outcome with
    | error failure => exact .inr (.inl rfl)
    | ok _ =>
      dsimp only
      split
      · exact .inr (.inr rfl)
      · exact .inr (.inl rfl)

theorem publish_closed (options : Options) : ∃ prompt,
    Closed options (messages (options.session (.original options.prompt)).parts ++
      messages (options.session prompt).parts) (publishPlannerReplies options).2.log := by
  have hinitial := initial_recorded options
  have hfirst := attempt_recorded options hinitial (.original options.prompt)
  rw [List.nil_append] at hfirst
  rw [publishPlannerReplies]
  rcases attempted_cases options (.original options.prompt) _ (initial options) with h | h | h
  · exact ⟨.original options.prompt, by rw [h]; exact (hinitial.more _).closed⟩
  · exact ⟨.original options.prompt, by rw [h]; exact (hfirst.more _).closed⟩
  · rw [h]
    generalize (attempt options (.original options.prompt) (initial options)).2 = s at hfirst
    have hsecond := attempt_recorded options hfirst
      (.repair options.prompt s.withheld s.tools s.toolsTruncated)
    refine ⟨.repair options.prompt s.withheld s.tools s.toolsTruncated, ?_⟩
    rcases attempted_cases options (.repair options.prompt s.withheld s.tools s.toolsTruncated)
      (summarize options) s with h | h | h
    · rw [h]; exact (hfirst.more _).closed
    · rw [h]; exact hsecond.closed
    · rw [h]; exact summarize_closed hsecond

/-! ## What a log shows -/

/-- The messages the judge was asked about. -/
def judgedTexts (log : List Effect) : List (String × Units) :=
  log.filterMap fun
    | .judge id text _ => some (id, text)
    | _ => none

/-- The texts that were published. -/
def publishedTexts (log : List Effect) : List (String × Units) :=
  log.filterMap fun
    | .publish (.textDelta id text) => some (id, text)
    | _ => none

theorem judgedTexts_append (front back : List Effect) :
    judgedTexts (front ++ back) = judgedTexts front ++ judgedTexts back :=
  List.filterMap_append

theorem publishedTexts_append (front back : List Effect) :
    publishedTexts (front ++ back) = publishedTexts front ++ publishedTexts back :=
  List.filterMap_append

variable {tail : List Effect}

theorem judgedTexts_of_halts (h : ∀ effect ∈ tail, effect.halts = true) : judgedTexts tail = [] := by
  rw [judgedTexts, List.filterMap_eq_nil_iff]
  intro effect heffect
  have := h effect heffect
  cases effect <;> first | rfl | exact nomatch this

theorem publishedTexts_of_halts (h : ∀ effect ∈ tail, effect.halts = true) : publishedTexts tail = [] := by
  rw [publishedTexts, List.filterMap_eq_nil_iff]
  intro effect heffect
  have := h effect heffect
  cases effect <;> first | rfl | exact nomatch this

theorem Recorded.judged_sublist (h : Recorded done stopped log) : (judgedTexts log).Sublist done := by
  induction h with
  | nil => exact List.Sublist.refl _
  | ended message _ ih => exact ih.trans (List.sublist_append_left _ _)
  | passed _ _ ih => rw [judgedTexts_append]; simpa [judgedTexts] using ih
  | judged id text answer _ ih => rw [judgedTexts_append]; exact ih.append (List.Sublist.refl _)
  | replied _ _ ih => rw [judgedTexts_append]; exact ih.append (List.Sublist.refl _)
  | halted _ htail ih => rw [judgedTexts_append, judgedTexts_of_halts htail, List.append_nil]; exact ih

theorem Recorded.published_sublist (h : Recorded done stopped log) : (publishedTexts log).Sublist done := by
  induction h with
  | nil => exact List.Sublist.refl _
  | ended message _ ih => exact ih.trans (List.sublist_append_left _ _)
  | @passed _ _ part _ hpart ih =>
    have hnone : publishedTexts [.publish part] = [] := by
      cases part <;> first | rfl | exact absurd rfl (hpart _ _)
    rw [publishedTexts_append, hnone, List.append_nil]
    exact ih
  | judged id text answer _ ih =>
    rw [publishedTexts_append]
    exact ih.append (List.nil_sublist _)
  | replied _ _ ih => rw [publishedTexts_append]; exact ih.append (List.Sublist.refl _)
  | halted _ htail ih => rw [publishedTexts_append, publishedTexts_of_halts htail, List.append_nil]; exact ih

/-- What is added to a log while it runs has no halt in it, and what is added then halts it. -/
theorem Recorded.running (h : Recorded done stopped log) : stopped = false → ∀ effect ∈ log, effect.halts = false := by
  induction h with
  | nil => simp
  | ended message _ ih => exact ih
  | passed _ _ ih => simpa [or_imp, forall_and, Effect.halts] using ih
  | judged id text answer _ ih => simpa [or_imp, forall_and, Effect.halts] using ih
  | replied _ _ ih => simpa [or_imp, forall_and, Effect.halts, reply] using ih
  | halted => exact nofun

/-- Nothing is published behind a halt. -/
def Silent (log : List Effect) : Prop :=
  log.Pairwise fun effect later ↦ effect.halts = true → ∀ part, later ≠ .publish part

theorem silent_append {front back : List Effect} (hfront : Silent front) (hback : Silent back)
    (h : ∀ effect ∈ front, effect.halts = true → ∀ later ∈ back, ∀ part, later ≠ .publish part) :
    Silent (front ++ back) :=
  List.pairwise_append.2 ⟨hfront, hback, fun effect heffect later hlater hhalts part ↦
    h effect heffect hhalts later hlater part⟩

/-- Nothing that halts is in a log: it goes on in any way. -/
theorem silent_of_running (h : ∀ effect ∈ log, effect.halts = false) : Silent log :=
  List.pairwise_of_forall_mem_list fun effect heffect _ _ hhalts ↦ by
    rw [h effect heffect] at hhalts
    cases hhalts

theorem silent_of_halts (h : ∀ effect ∈ tail, effect.halts = true) : Silent tail :=
  List.pairwise_of_forall_mem_list fun _ _ later hlater _ part hpublish ↦ by
    have := h later hlater
    rw [hpublish] at this
    cases this

theorem Recorded.silent (h : Recorded done stopped log) : Silent log := by
  induction h with
  | nil => exact .nil
  | ended message _ ih => exact ih
  | passed h hpart => exact silent_of_running ((Recorded.passed h hpart).running rfl)
  | judged id text answer h => exact silent_of_running ((Recorded.judged id text answer h).running rfl)
  | replied h hallows => exact silent_of_running ((Recorded.replied h hallows).running rfl)
  | halted _ htail ih =>
    refine silent_append ih (silent_of_halts htail) fun _ _ _ later hlater part hpublish ↦ ?_
    have := htail later hlater
    rw [hpublish] at this
    cases this

/-- The text at this place of the log is the whole of a message that the judge allowed. -/
def Allowed (all : List (String × Units)) (log : List Effect) (place : Nat) (id : String) (text : Units) : Prop :=
  ∃ start answer, place = start + 2 ∧ log[start]? = some (.judge id text answer) ∧ answer.allows = true ∧
    log[start + 1]? = some (.publish (.textStart id)) ∧ log[start + 3]? = some (.publish (.textEnd id)) ∧
    (id, text) ∈ all

variable {place : Nat}

theorem getElem?_append_of {effect : Effect} (h : log[place]? = some effect)
    (tail : List Effect) : (log ++ tail)[place]? = some effect := by
  rw [List.getElem?_append_left (List.getElem?_eq_some_iff.1 h).1, h]

/-- A place of a longer log is one of the log, or one of what was added. -/
theorem getElem?_append_cases {effect : Effect} (h : (log ++ tail)[place]? = some effect) :
    log[place]? = some effect ∨ ∃ index, place = log.length + index ∧ tail[index]? = some effect := by
  rw [List.getElem?_append] at h
  split at h
  · exact .inl h
  · exact .inr ⟨place - log.length, by omega, h⟩

theorem Allowed.append {all : List (String × Units)} (h : Allowed all log place id text)
    (more : List (String × Units)) (tail : List Effect) : Allowed (all ++ more) (log ++ tail) place id text := by
  obtain ⟨start, answer, hplace, hjudge, hallows, hstart, hend, hmem⟩ := h
  exact ⟨start, answer, hplace, getElem?_append_of hjudge tail, hallows, getElem?_append_of hstart tail,
    getElem?_append_of hend tail, List.mem_append_left _ hmem⟩

/-- The text of a reply stands at its second place. -/
theorem reply_delta {index : Nat} {name : String} {value : Units}
    (h : (reply name value)[index]? = some (.publish (.textDelta id text))) : index = 1 ∧ id = name ∧ text = value := by
  rcases index with _ | _ | _ | index
  · exact nomatch Option.some.inj h
  · have heq := Effect.publish.inj (Option.some.inj h)
    obtain ⟨rfl, rfl⟩ := Part.textDelta.inj heq
    exact ⟨rfl, rfl, rfl⟩
  · exact nomatch Option.some.inj h
  · cases h

/-- **Every text in the log of a turn was allowed.** -/
theorem Recorded.allowed (h : Recorded done stopped log) :
    ∀ place id text, log[place]? = some (.publish (.textDelta id text)) → Allowed done log place id text := by
  induction h with
  | nil => exact fun _ _ _ h ↦ nomatch h
  | @ended done stopped log message _ ih =>
    intro place id text hplace
    have := (ih place id text hplace).append [message] []
    rwa [List.append_nil] at this
  | @passed done log part _ hpart ih =>
    intro place id text hplace
    rcases getElem?_append_cases hplace with hold | ⟨index, -, hnew⟩
    · have := (ih place id text hold).append [] [.publish part]
      rwa [List.append_nil done] at this
    · have heq := Effect.publish.inj (List.mem_singleton.1 (List.mem_of_getElem? hnew))
      exact absurd heq.symm (hpart id text)
  | @judged done log name value answer _ ih =>
    intro place id text hplace
    rcases getElem?_append_cases hplace with hold | ⟨index, -, hnew⟩
    · exact (ih place id text hold).append _ _
    · exact nomatch List.mem_singleton.1 (List.mem_of_getElem? hnew)
  | @replied done log name value answer _ hallows ih =>
    intro place id text hplace
    rcases getElem?_append_cases hplace with hold | ⟨index, rfl, hnew⟩
    · exact (ih place id text hold).append _ _
    · cases index with
      | zero => exact nomatch Option.some.inj hnew
      | succ index =>
        obtain ⟨rfl, rfl, rfl⟩ := reply_delta hnew
        have hchunk (offset : Nat) : (log ++ (.judge id text answer :: reply id text))[log.length + offset]? =
            (Effect.judge id text answer :: reply id text)[offset]? := by
          rw [List.getElem?_append_right (Nat.le_add_right _ _), Nat.add_sub_cancel_left]
        exact ⟨log.length, answer, rfl, hchunk 0, hallows, hchunk 1, hchunk 3, by simp⟩
  | @halted done stopped log tail _ htail ih =>
    intro place id text hplace
    rcases getElem?_append_cases hplace with hold | ⟨index, -, hnew⟩
    · have := (ih place id text hold).append [] tail
      rwa [List.append_nil done] at this
    · exact nomatch htail _ (List.mem_of_getElem? hnew)

/-! ## The main result -/

/-- The text at this place of the log is the whole of the fixed summary. -/
def Summarized (options : Options) (log : List Effect) (place : Nat) (id : String) (text : Units) : Prop :=
  ∃ start, place = start + 1 ∧ summary options = some text ∧ log[start]? = some (.publish (.textStart id)) ∧
    log[start + 2]? = some (.publish (.textEnd id))

/-- What a log shows, of turns with these messages. -/
structure Shown (options : Options) (all : List (String × Units)) (log : List Effect) : Prop where
  /-- Every text is a whole message that was allowed just before, or the whole summary. -/
  whole : ∀ place id text, log[place]? = some (.publish (.textDelta id text)) →
    Allowed all log place id text ∨ Summarized options log place id text
  /-- No message is judged twice. -/
  once : (judgedTexts log).Sublist all
  /-- The texts are published in the order of their messages, and the summary at the end. -/
  inOrder : (publishedTexts log).Sublist (all ++ (summary options).toList.map (options.uuid, ·))
  /-- Nothing is published behind an abort or a failure. -/
  silent : Silent log

theorem Closed.shown (h : Closed options done log) : Shown options done log := by
  obtain ⟨stopped, front, back, rfl, hfront, hback⟩ := h
  have hold (tail : List Effect) : ∀ place id text, front[place]? = some (.publish (.textDelta id text)) →
      Allowed done (front ++ tail) place id text := by
    intro place id text hplace
    have := (hfront.allowed place id text hplace).append [] tail
    rwa [List.append_nil done] at this
  have hpublished := hfront.published_sublist.trans
    (List.sublist_append_left done ((summary options).toList.map (options.uuid, ·)))
  cases hback with
  | none => exact ⟨fun place id text hplace ↦ .inl (hold [] place id text (List.append_nil front ▸ hplace)),
      by rw [List.append_nil]; exact hfront.judged_sublist, by rw [List.append_nil]; exact hpublished,
      by rw [List.append_nil]; exact hfront.silent⟩
  | failed =>
    have hfailed : ∀ effect ∈ [Effect.fail .unmoved], effect.halts = true := by simp [Effect.halts]
    refine ⟨fun place id text hplace ↦ ?_, ?_, ?_, ?_⟩
    · rcases getElem?_append_cases hplace with hplace | ⟨index, -, hnew⟩
      · exact .inl (hold _ place id text hplace)
      · exact nomatch List.mem_singleton.1 (List.mem_of_getElem? hnew)
    · rw [judgedTexts_append, judgedTexts_of_halts hfailed, List.append_nil]
      exact hfront.judged_sublist
    · rw [publishedTexts_append, publishedTexts_of_halts hfailed, List.append_nil]
      exact hpublished
    · refine silent_append hfront.silent (silent_of_halts hfailed) fun _ _ _ later hlater part ↦ ?_
      rw [List.mem_singleton.1 hlater]
      exact nofun
  | @summary text hsummary =>
    refine ⟨fun place id value hplace ↦ ?_, ?_, ?_, ?_⟩
    · rcases getElem?_append_cases hplace with hplace | ⟨index, rfl, hnew⟩
      · exact .inl (hold _ place id value hplace)
      · obtain ⟨rfl, rfl, rfl⟩ := reply_delta hnew
        have hchunk (offset : Nat) : (front ++ reply options.uuid value)[front.length + offset]? =
            (reply options.uuid value)[offset]? := by
          rw [List.getElem?_append_right (Nat.le_add_right _ _), Nat.add_sub_cancel_left]
        exact .inr ⟨front.length, rfl, hsummary, hchunk 0, hchunk 2⟩
    · rw [judgedTexts_append]
      exact (List.append_nil (judgedTexts front)).symm ▸ hfront.judged_sublist
    · rw [publishedTexts_append, hsummary]
      exact hfront.published_sublist.append (List.Sublist.refl _)
    · refine silent_of_running fun effect heffect ↦ ?_
      rcases List.mem_append.1 heffect with hfrontEffect | hreply
      · exact hfront.running rfl effect hfrontEffect
      · simp only [reply, List.mem_cons, List.not_mem_nil, or_false] at hreply
        rcases hreply with rfl | rfl | rfl <;> rfl

/-- **Published replies are whole and judged.**  Whatever the streams hold, whatever the judge answers and whenever
the signal is aborted: every text that is published is the complete text of a message of one of the turns, which
the judge has just allowed, or the fixed summary; no message is judged twice; the texts come in the order of
their messages; and behind an abort or a failure nothing is published. -/
theorem replies_whole_and_judged (options : Options) : ∃ prompt,
    Shown options (messages (options.session (.original options.prompt)).parts ++
      messages (options.session prompt).parts) (publishPlannerReplies options).2.log := by
  obtain ⟨prompt, hclosed⟩ := publish_closed options
  exact ⟨prompt, hclosed.shown⟩

end Chopin.Chat
