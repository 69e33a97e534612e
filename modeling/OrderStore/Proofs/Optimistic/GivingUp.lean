import OrderStore.Proofs.Optimistic.Allocation

/-!
# What a call that gives up leaves behind

An overwriting call that finds the buffer full makes two compare-and-swaps in one
attempt: it moves the position back to zero, and then claims the room there. If
another thread claims that room in between, the call loses the attempt, and
perhaps its last one, but the position has been moved. A call that gives up has
changed nothing else.
-/

namespace OrderStore

/-- What happened in a call before and since some moment in it. -/
theorem since_append {t : Nat} {between : History}
    (hbetween : ∀ request, (t, .start request) ∉ between) (history : History) :
    since t (between ++ history) = between ++ since t history := by
  induction between with
  | nil => rfl
  | cons entry between ih =>
    obtain ⟨u, event⟩ := entry
    have hrest := ih fun request hmem => hbetween request (List.mem_cons_of_mem _ hmem)
    rw [List.cons_append, List.cons_append, ← hrest]
    by_cases hu : u = t
    · subst hu
      apply since_cons_of_not_start
      cases event with
      | start request => exact absurd List.mem_cons_self (hbetween request)
      | _ => rfl
    · exact since_cons_of_ne hu _ _

/-! ## Attempts that moved the position back -/

/-- Each time that thread `t` moved the position back to zero, another thread has
claimed the room there since, unless `pending` holds. -/
def Overtaken (t : Nat) (pending : Prop) (call : History) : Prop :=
  ∀ between earlier, call = between ++ (t, .rewind) :: earlier →
    pending ∨ ∃ u orders, u ≠ t ∧ (u, .reserve 0 orders) ∈ between

namespace Overtaken

variable {t u : Nat} {pending pending' : Prop} {call : History} {event : Event}

theorem nil : Overtaken t pending [] := by
  intro between earlier hcall
  cases between <;> cases hcall

theorem cons (h : Overtaken t pending call)
    (hpending : pending → pending' ∨ ∃ orders, u ≠ t ∧ event = .reserve 0 orders)
    (hrewind : (u, event) = (t, .rewind) → pending') :
    Overtaken t pending' ((u, event) :: call) := by
  intro between earlier hcall
  cases between with
  | nil => exact Or.inl (hrewind (List.cons.inj hcall).1)
  | cons entry between =>
    obtain ⟨rfl, hrest⟩ := List.cons.inj hcall
    rcases h between earlier hrest with hholds | ⟨v, orders, hv, hmem⟩
    · rcases hpending hholds with hholds' | ⟨orders, hu, rfl⟩
      · exact Or.inl hholds'
      · exact Or.inr ⟨u, orders, hu, List.mem_cons_self⟩
    · exact Or.inr ⟨v, orders, hv, List.mem_cons_of_mem _ hmem⟩

/-- If no attempt is pending, none becomes so unless the thread moves the position
back. -/
theorem cons_settled (h : Overtaken t False call) (hentry : (u, event) ≠ (t, .rewind)) :
    Overtaken t pending ((u, event) :: call) :=
  h.cons False.elim fun heq => absurd heq hentry

end Overtaken

/-- What the attempts of thread `t` so far have come to when its call is at a phase,
the position being where it is. -/
def WritePhase.Accounted (c : Setup) (t position : Nat) (call : History) : WritePhase → Prop
  | rewind _ found => c.capacity < found + recordSize ∧ Overtaken t False call
  | reserve _ found _ => Overtaken t (found = 0 ∧ position = 0) call
  | copy .. => True
  | finish count => count = 0 → Overtaken t False call
  | done count => count = 0 → Overtaken t False call
  | _ => Overtaken t False call

namespace WritePhase

variable {c : Setup} {t u position position' : Nat} {call : History} {event : Event}

theorem accounted_attempt (retries : Nat) (h : Overtaken t False call) :
    (attempt retries).Accounted c t position call := by
  cases retries with
  | zero => exact fun _ => h
  | succ retries => exact h

/-- A step of another thread leaves the position at zero or claims the room there. -/
theorem Accounted.cons {phase : WritePhase} (h : phase.Accounted c t position call) (hu : u ≠ t)
    (hmoved : position = 0 → position' = 0 ∨ ∃ orders, event = .reserve 0 orders) :
    phase.Accounted c t position' ((u, event) :: call) := by
  have hentry : (u, event) ≠ (t, .rewind) := fun heq => hu (Prod.mk.inj heq).1
  cases phase with
  | begin => exact Overtaken.cons_settled h hentry
  | load retries => exact Overtaken.cons_settled h hentry
  | rewind retries found => exact ⟨h.1, h.2.cons_settled hentry⟩
  | reserve retries found count =>
    refine Overtaken.cons h ?_ fun heq => absurd heq hentry
    rintro ⟨hfound, hposition⟩
    rcases hmoved hposition with hposition' | ⟨orders, hevent⟩
    · exact Or.inl ⟨hfound, hposition'⟩
    · exact Or.inr ⟨orders, hu, hevent⟩
  | copy found count => trivial
  | finish count => exact fun hzero => (h hzero).cons_settled hentry
  | done count => exact fun hzero => (h hzero).cons_settled hentry

end WritePhase

/-- What the write call of thread `t`, if it is in one, has come to; only an
overwriting one moves the position back. -/
def Thread.Accounted (c : Setup) (t position : Nat) (call : History) : Thread → Prop
  | writing request w =>
    ((t, .rewind) ∈ call → request.wraps = true) ∧ w.phase.Accounted c t position call
  | _ => True

theorem Thread.Accounted.cons {c : Setup} {t u position position' : Nat} {call : History}
    {thread : Thread} {event : Event} (h : thread.Accounted c t position call) (hu : u ≠ t)
    (hmoved : position = 0 → position' = 0 ∨ ∃ orders, event = .reserve 0 orders) :
    thread.Accounted c t position' ((u, event) :: call) := by
  cases thread with
  | writing request w =>
    refine ⟨fun hmem => ?_, h.2.cons hu hmoved⟩
    rcases List.mem_cons.mp hmem with heq | hmem
    · exact absurd (Prod.mk.inj heq).1.symm hu
    · exact h.1 hmem
  | _ => trivial

namespace Thread

variable {c : Setup} {b b' : OptimisticBuffer} {t : Nat} {event : Event}

/-- Only an overwriting call moves the position back. -/
theorem WriteMove.wraps_of_rewind {capacity : Nat} {request : Request} {w : WriteCall}
    {thread : Thread} (hfits : w.Fits capacity request)
    (h : WriteMove b request w event b' thread) (hevent : event = .rewind) :
    request.wraps = true := by
  cases h with
  | rewind => exact hfits.wraps_eq.symm.trans hfits.phase_fits
  | _ => cases hevent

/-- A step of a write call accounts for the attempts so far. -/
theorem WriteMove.accounted {request : Request} {w : WriteCall} {thread : Thread} {call : History}
    (hb : b.Sound c) (hfits : w.Fits c.capacity request) (h : WriteMove b request w event b' thread)
    (hw : (writing request w).Accounted c t b.tracker.position call) :
    thread.Accounted c t b'.tracker.position ((t, event) :: call) := by
  obtain ⟨hbefore, hw⟩ := hw
  have hwraps : (t, .rewind) ∈ (t, event) :: call → request.wraps = true := by
    intro hmem
    rcases List.mem_cons.mp hmem with heq | hmem
    · exact h.wraps_of_rewind hfits (Prod.mk.inj heq).2.symm
    · exact hbefore hmem
  cases h with
  | begin => exact ⟨hwraps, WritePhase.accounted_attempt _ (Overtaken.cons_settled hw (by simp))⟩
  | room hcount hne => exact ⟨hwraps, Overtaken.cons_settled hw (by simp)⟩
  | full hcount => exact ⟨hwraps, fun _ => Overtaken.cons_settled hw (by simp)⟩
  | @wrap blocks retries hcount =>
    have hlength := List.length_pos_iff.mpr (hfits.usable nofun).1
    dsimp only at hlength
    have hfull : b.tracker.capacity < b.tracker.position + recordSize :=
      Tracker.lt_of_recordsAfter_eq_zero (by omega)
    exact ⟨hwraps, hb.tracker_capacity ▸ hfull, Overtaken.cons_settled hw (by simp)⟩
  | rewind =>
    -- the position has just been moved back, and no other thread has taken a step since
    exact ⟨hwraps, hw.2.cons False.elim fun _ => ⟨rfl, rfl⟩⟩
  | rewind_lose hmoved =>
    exact ⟨hwraps, WritePhase.accounted_attempt _ (hw.2.cons_settled (by simp))⟩
  | reserve => exact ⟨hwraps, trivial⟩
  | reserve_lose hmoved =>
    -- had the position still been zero, the claim of the room there would have succeeded
    have hlost : Overtaken t False ((t, .lose) :: call) := by
      refine Overtaken.cons hw ?_ (by simp)
      rintro ⟨rfl, hzero⟩
      exact absurd hzero hmoved
    exact ⟨hwraps, WritePhase.accounted_attempt _ hlost⟩
  | copyIn =>
    have hroom : Room _ _ _ _ := hfits.phase_fits
    exact ⟨hwraps, fun hzero => absurd hzero (Nat.ne_of_gt hroom.pos)⟩
  | finish => exact ⟨hwraps, fun hzero => (hw hzero).cons_settled (by simp)⟩
  | wrote => trivial

/-- A call that begins has made no attempt yet. -/
theorem accounted_call (c : Setup) (b : OptimisticBuffer) (t position : Nat) (request : Request) :
    (request.call b).Accounted c t position [] := by
  cases request with
  | append order => exact ⟨by simp, .nil⟩
  | appendAll orders =>
    refine ⟨by simp, ?_⟩
    unfold WriteCall.batch
    dsimp only
    split
    · exact fun _ => .nil
    · exact .nil
  | appendRing order =>
    refine ⟨by simp, ?_⟩
    unfold WriteCall.ring
    dsimp only
    split
    · exact .nil
    · exact fun _ => .nil
  | read offset => trivial

/-- A step of any thread accounts for the attempts of its call so far. -/
theorem Move.accounted {thread thread' : Thread} {history : History} (hb : b.Sound c)
    (hfits : thread.Fits c.capacity) (h : Move b thread event b' thread')
    (hthread : thread.Accounted c t b.tracker.position (since t history)) :
    thread'.Accounted c t b'.tracker.position (since t ((t, event) :: history)) := by
  cases h with
  | start request =>
    rw [since_cons_start]
    exact accounted_call c b t _ request
  | @write request w event b' thread' hmove =>
    have hstart : event.isStart = false := by cases hmove <;> rfl
    rw [since_cons_of_not_start hstart]
    exact hmove.accounted hb hfits hthread
  | read hmove => cases hmove <;> trivial

end Thread

namespace Setup

variable (c : Setup)

/-- The attempts of every call are accounted for after every schedule. -/
theorem accounted (schedule : Schedule) : ∀ u,
    ((c.system schedule).threads u).Accounted c u (c.system schedule).buffer.tracker.position
      (since u (c.history schedule)) := by
  apply c.invariant (motive := fun history s => ∀ u,
    (s.threads u).Accounted c u s.buffer.tracker.position (since u history))
  · exact fun _ => trivial
  · intro earlier t event s' haccounted hmoves u
    obtain ⟨hsound, hfits⟩ := c.sound earlier
    by_cases hu : u = t
    · subst hu
      exact hmoves.move.accounted hsound (hfits u) (haccounted u)
    · rw [hmoves.others u hu, since_cons_of_ne (Ne.symm hu)]
      apply (haccounted u).cons (Ne.symm hu)
      intro hzero
      rcases hmoves.move.position_cases (hfits t) with
        ⟨hsame, -⟩ | ⟨hrewound, -⟩ | ⟨orders, hevent, -⟩
      · exact Or.inl (hsame.trans hzero)
      · exact Or.inl hrewound
      · rw [hzero] at hevent
        exact Or.inr ⟨orders, hevent⟩

end Setup

/-! ## Calls that write nothing -/

theorem Event.not_start_of_commits {event : Event} (h : event.commits = true) :
    event.isStart = false := by
  cases event with
  | start request => cases h
  | _ => rfl

/-- Without claiming room or copying into it a step keeps the bytes, and the position
too unless it moves that back from where its call has found it. -/
theorem Thread.Move.buffer_cases {b b' : OptimisticBuffer} {thread thread' : Thread}
    {event : Event} (h : Move b thread event b' thread') :
    event.commits = true ∨ b'.arena = b.arena ∧ (b'.tracker = b.tracker ∨
      event = .rewind ∧ b'.tracker = b.tracker.reset ∧ ∃ request blocks wraps retries,
        thread = writing request ⟨blocks, wraps, .rewind retries b.tracker.position⟩) := by
  cases h with
  | start request => exact Or.inr ⟨rfl, Or.inl rfl⟩
  | write hmove =>
    cases hmove with
    | reserve => exact Or.inl rfl
    | copyIn => exact Or.inl rfl
    | rewind => exact Or.inr ⟨rfl, Or.inr ⟨rfl, rfl, _, _, _, _, rfl⟩⟩
    | _ => exact Or.inr ⟨rfl, Or.inl rfl⟩
  | read hmove => exact Or.inr ⟨rfl, Or.inl rfl⟩

/-- The step that thread `t` takes after `earlier` belongs to the call that it is in
after `schedule`, and `between` is what happened since. -/
structure StepOfCall (c : Setup) (t : Nat) (asked : Request) (earlier schedule : Schedule)
    (between : History) : Prop where
  /-- The step is one of the schedule's. -/
  suffix : (t, asked) :: earlier <:+ schedule
  /-- It is followed by what happened in between. -/
  history_eq : c.history schedule = between ++ c.history ((t, asked) :: earlier)
  /-- The thread has not begun another call. -/
  not_start : ∀ request, (t, .start request) ∉ between

namespace StepOfCall

variable {c : Setup} {t : Nat} {asked : Request} {earlier schedule : Schedule} {between : History}

/-- What happened in the call up to the step and after it. -/
theorem since_eq (h : StepOfCall c t asked earlier schedule between)
    (hstart : ((c.system earlier).step t asked).1.isStart = false) :
    since t (c.history schedule) =
      between ++ (t, ((c.system earlier).step t asked).1) :: since t (c.history earlier) := by
  rw [h.history_eq, since_append h.not_start]
  congr 1
  exact since_cons_of_not_start hstart t t _

end StepOfCall

/-- A call that writes nothing changes no byte, whatever the capacity, the policy, the
number of threads and the order of their steps. The one thing that its steps may
change is the position, if it is an overwriting call: such a step found the buffer
full and moved the position back to zero, and another thread claimed the room there
before the call could. -/
theorem giving_up_keeps_bytes (c : Setup) (schedule earlier : Schedule) (t : Nat)
    (asked other request : Request) (between : History)
    (hwrote : ((c.system schedule).step t asked).1 = .wrote request 0)
    (hstep : StepOfCall c t other earlier schedule between) :
    (c.system ((t, other) :: earlier)).buffer.arena = (c.system earlier).buffer.arena ∧
      ((c.system ((t, other) :: earlier)).buffer.tracker = (c.system earlier).buffer.tracker ∨
        request.wraps = true ∧
          c.capacity < (c.system earlier).buffer.tracker.position + recordSize ∧
          (c.system ((t, other) :: earlier)).buffer.tracker =
            (c.system earlier).buffer.tracker.reset ∧
          ∃ u orders, u ≠ t ∧ (u, .reserve 0 orders) ∈ between) := by
  obtain ⟨blocks, wraps, hthread⟩ := System.writing_of_wrote hwrote
  have hend := c.accounted schedule t
  rw [hthread] at hend
  obtain ⟨hwraps, hsettled⟩ := hend
  have hsince := hstep.since_eq
  have hmove := ((c.system earlier).moves_step t other).move
  generalize ((c.system earlier).step t other).1 = event at hsince hmove
  rcases hmove.buffer_cases with hcommits | ⟨harena, hsame | ⟨rfl, hreset, hrewinding⟩⟩
  · have hmem : (t, event) ∈ since t (c.history schedule) := by
      simp [hsince (Event.not_start_of_commits hcommits)]
    have hnone := c.not_commits_of_wrote_zero hwrote hmem
    rw [hcommits] at hnone
    cases hnone
  · exact ⟨harena, Or.inl hsame⟩
  · obtain ⟨request', blocks', wraps', retries, hrewinding⟩ := hrewinding
    have hbefore := c.accounted earlier t
    rw [hrewinding] at hbefore
    refine ⟨harena, Or.inr ⟨hwraps ?_, hbefore.2.1, hreset, ?_⟩⟩
    · simp [hsince rfl]
    · exact (hsettled rfl _ _ (hsince rfl)).resolve_left id

/-- Two orders of thread 0 fill the buffer. Thread 1 moves the position back to zero,
thread 2 claims the room there, and thread 1, which has only one attempt, gives up. -/
theorem giving_up_keeps_bytes_overtaken :
    let c : Setup := ⟨128, { maxAttempts := 1 }⟩
    let ring : Request := .appendRing { id := 3 }
    let earlier : Schedule := .replicate 3 (1, ring) ++ .replicate 7 (0, .append { id := 2 }) ++
      .replicate 7 (0, .append { id := 1 })
    let schedule : Schedule := .replicate 2 (1, ring) ++ .replicate 7 (2, .append { id := 4 }) ++
      (1, ring) :: earlier
    let between := (c.history schedule).take 9
    (((c.system schedule).step 1 ring).1 = .wrote ring 0 ∧
      StepOfCall c 1 ring earlier schedule between) ∧
      (c.system ((1, ring) :: earlier)).buffer.arena = (c.system earlier).buffer.arena ∧
      (c.system ((1, ring) :: earlier)).buffer.tracker =
        (c.system earlier).buffer.tracker.reset ∧
      ∃ u orders, u ≠ 1 ∧ (u, .reserve 0 orders) ∈ between := by
  intro c ring earlier schedule between
  have hwrote : ((c.system schedule).step 1 ring).1 = .wrote ring 0 := by decide +kernel
  have hstep : StepOfCall c 1 ring earlier schedule between := by
    refine ⟨⟨_, rfl⟩, by decide +kernel, fun request hmem => ?_⟩
    have hstart : ∀ entry ∈ between, entry.1 = 1 → entry.2.isStart = false := by decide +kernel
    cases hstart _ hmem rfl
  have hmoved : (c.system ((1, ring) :: earlier)).buffer.tracker ≠
      (c.system earlier).buffer.tracker := by
    decide +kernel
  obtain ⟨harena, hsame | ⟨-, -, hreset, hclaimed⟩⟩ :=
    giving_up_keeps_bytes c schedule earlier 1 _ _ _ _ hwrote hstep
  · exact absurd hsame hmoved
  · exact ⟨⟨hwrote, hstep⟩, harena, hreset, hclaimed⟩

/-- A call that writes nothing can make a record of another call unreadable. When thread 1
moves the position back, the second record that thread 0 has written can be read no more,
and so it stays when the call of thread 1 has reported that nothing was written. -/
theorem giving_up_loses_record :
    let c : Setup := ⟨128, { maxAttempts := 1 }⟩
    let ring : Request := .appendRing { id := 3 }
    let earlier : Schedule := .replicate 3 (1, ring) ++ .replicate 7 (0, .append { id := 2 }) ++
      .replicate 7 (0, .append { id := 1 })
    let schedule : Schedule := .replicate 2 (1, ring) ++ .replicate 7 (2, .append { id := 4 }) ++
      (1, ring) :: earlier
    ((c.system schedule).step 1 ring).1 = .wrote ring 0 ∧
      (c.system earlier).buffer.region.read 64 = some (Order.stored { id := 2 }) ∧
      (c.system earlier).buffer.tracker.position = 128 ∧
      (c.system ((1, ring) :: earlier)).buffer.tracker.position = 0 ∧
      (c.system schedule).buffer.region.read 64 = none := by
  decide +kernel

end OrderStore
