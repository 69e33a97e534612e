import OrderStore.Proofs.Optimistic.Claims

/-!
# Why an append gives up

A compare-and-swap fails only if the position has moved since it was loaded, and
without overwriting requests the position moves only when another thread claims
room. So an append that writes nothing has found no room, or in each of its
attempts another thread has claimed room before it.
-/

namespace OrderStore

/-- In `n` attempts thread `t` lost its compare-and-swap, each time after a claim
that another thread made since the attempt before. -/
inductive Defeats (t : Nat) : Nat → History → Prop
  /-- No attempt is lost to begin with. -/
  | zero (history : History) : Defeats t 0 history
  /-- Whatever else happens does not matter. -/
  | skip {n : Nat} {history : History} (entry : Nat × Event) (earlier : Defeats t n history) :
    Defeats t n (entry :: history)
  /-- Another thread claimed room, and then the compare-and-swap failed. -/
  | lose {n : Nat} {between history : History}
    (claimed : ∃ u position orders, u ≠ t ∧ (u, .reserve position orders) ∈ between)
    (earlier : Defeats t n history) : Defeats t (n + 1) ((t, .lose) :: (between ++ history))

/-- Thread `t` found no room in a call, or lost all the attempts that it had. -/
def GaveUp (c : Setup) (t : Nat) (call : History) : Prop :=
  (∃ position, (t, .load position) ∈ call ∧ c.capacity < position + recordSize) ∨
    Defeats t c.policy.maxAttempts.toNat call

theorem GaveUp.cons {c : Setup} {t : Nat} {call : History} (h : GaveUp c t call)
    (entry : Nat × Event) : GaveUp c t (entry :: call) := by
  rcases h with ⟨position, hload, hfull⟩ | hdefeats
  · exact Or.inl ⟨position, List.mem_cons_of_mem _ hload, hfull⟩
  · exact Or.inr (hdefeats.skip entry)

/-- What has happened in a call of thread `t` when it comes to a phase, the
position being where it is. -/
def WritePhase.Explained (c : Setup) (t position : Nat) (call : History) : WritePhase → Prop
  | load retries => ∃ n, n + retries + 1 = c.policy.maxAttempts.toNat ∧ Defeats t n call
  | reserve retries found _ => ∃ n between earlier,
      n + retries + 1 = c.policy.maxAttempts.toNat ∧ call = between ++ earlier ∧
        Defeats t n earlier ∧ (position = found ∨
          ∃ u claimed orders, u ≠ t ∧ (u, .reserve claimed orders) ∈ between)
  | finish count => count = 0 → GaveUp c t call
  | done count => count = 0 → GaveUp c t call
  | _ => True

namespace WritePhase

variable {c : Setup} {t position : Nat} {call : History}

/-- After so many lost attempts the rest of them are left. -/
theorem explained_attempt {n retries : Nat} (hattempts : n + retries = c.policy.maxAttempts.toNat)
    (h : Defeats t n call) : (attempt retries).Explained c t position call := by
  cases retries with
  | zero =>
    intro _
    rw [Nat.add_zero] at hattempts
    exact Or.inr (hattempts ▸ h)
  | succ retries => exact ⟨n, by omega, h⟩

/-- A step of another thread that moves the position is a claim. -/
theorem Explained.cons {phase : WritePhase} {u position' : Nat} {event : Event}
    (h : phase.Explained c t position call) (hu : u ≠ t)
    (hmoved : position' = position ∨ ∃ claimed orders, event = .reserve claimed orders) :
    phase.Explained c t position' ((u, event) :: call) := by
  cases phase with
  | load retries =>
    obtain ⟨n, hattempts, hdefeats⟩ := h
    exact ⟨n, hattempts, hdefeats.skip _⟩
  | reserve retries found count =>
    obtain ⟨n, between, earlier, hattempts, rfl, hdefeats, hcases⟩ := h
    refine ⟨n, (u, event) :: between, earlier, hattempts, rfl, hdefeats, ?_⟩
    rcases hcases with rfl | ⟨v, claimed, orders, hv, hmem⟩
    · rcases hmoved with rfl | ⟨claimed, orders, rfl⟩
      · exact Or.inl rfl
      · exact Or.inr ⟨u, claimed, orders, hu, List.mem_cons_self⟩
    · exact Or.inr ⟨v, claimed, orders, hv, List.mem_cons_of_mem _ hmem⟩
  | finish count => exact fun hzero => (h hzero).cons _
  | done count => exact fun hzero => (h hzero).cons _
  | begin => trivial
  | rewind retries found => trivial
  | copy found count => trivial

end WritePhase

/-- What has happened in the call of thread `t` if it appends an order. -/
def Thread.Explained (c : Setup) (t position : Nat) (call : History) : Thread → Prop
  | writing (.append _) w => w.phase.Explained c t position call
  | _ => True

theorem Thread.Explained.cons {c : Setup} {t u position position' : Nat} {call : History}
    {thread : Thread} {event : Event} (h : thread.Explained c t position call) (hu : u ≠ t)
    (hmoved : position' = position ∨ ∃ claimed orders, event = .reserve claimed orders) :
    thread.Explained c t position' ((u, event) :: call) := by
  cases thread with
  | writing request w =>
    cases request with
    | append order => exact WritePhase.Explained.cons h hu hmoved
    | _ => trivial
  | _ => trivial

/-- A step of an appending call explains the phase it comes to. -/
theorem Thread.WriteMove.explained {c : Setup} {b b' : OptimisticBuffer} {order : Order}
    {w : WriteCall} {thread : Thread} {event : Event} {t : Nat} {call : History} (hb : b.Sound c)
    (hfits : w.Fits c.capacity (.append order))
    (h : WriteMove b (.append order) w event b' thread)
    (hw : w.phase.Explained c t b.tracker.position call) :
    thread.Explained c t b'.tracker.position ((t, event) :: call) := by
  cases h with
  | begin =>
    change (WritePhase.attempt _).Explained _ _ _ _
    rw [hb.policy_eq]
    exact WritePhase.explained_attempt (Nat.zero_add _) (.zero _)
  | @room blocks wraps retries count hcount hne =>
    obtain ⟨n, hattempts, hdefeats⟩ := hw
    exact ⟨n, [], _, hattempts, rfl, hdefeats.skip _, Or.inl rfl⟩
  | @full blocks retries hcount =>
    intro _
    refine Or.inl ⟨b.tracker.position, List.mem_cons_self, ?_⟩
    have hlength := List.length_pos_iff.mpr (hfits.usable nofun).1
    dsimp only at hlength
    rw [← hb.tracker_capacity]
    exact Tracker.lt_of_recordsAfter_eq_zero (by omega)
  | wrap hcount => cases hfits.wraps_eq
  | rewind => exact absurd rfl (hfits.ne_rewind rfl)
  | rewind_lose hmoved => exact absurd rfl (hfits.ne_rewind rfl)
  | reserve => trivial
  | reserve_lose hmoved =>
    obtain ⟨n, between, earlier, hattempts, rfl, hdefeats, hcases⟩ := hw
    rcases hcases with hsame | hclaimed
    · exact absurd hsame hmoved
    · exact WritePhase.explained_attempt (by omega) (hdefeats.lose hclaimed)
  | @copyIn blocks wraps position count =>
    have hroom : Room _ _ _ _ := hfits.phase_fits
    exact fun hzero => absurd hzero (Nat.ne_of_gt hroom.pos)
  | finish => exact fun hzero => (hw hzero).cons _
  | wrote => trivial

/-- A step of any thread explains the phase it comes to. -/
theorem Thread.Move.explained {c : Setup} {b b' : OptimisticBuffer} {thread thread' : Thread}
    {event : Event} {t : Nat} {history : History} (hb : b.Sound c)
    (hfits : thread.Fits c.capacity) (h : Move b thread event b' thread')
    (hthread : thread.Explained c t b.tracker.position (since t history)) :
    thread'.Explained c t b'.tracker.position (since t ((t, event) :: history)) := by
  cases h with
  | start asked => cases asked <;> trivial
  | @write request w event b' thread' hmove =>
    have hstart : event.isStart = false := by cases hmove <;> rfl
    rw [since_cons_of_not_start hstart]
    cases request with
    | append order => exact hmove.explained hb hfits hthread
    | _ => cases hmove <;> trivial
  | read hmove => cases hmove <;> trivial

/-- Without overwriting requests, every append that is under way is explained. -/
theorem Setup.explained (c : Setup) (schedule : Schedule) (hring : NoRing (c.history schedule)) :
    ∀ u, ((c.system schedule).threads u).Explained c u
      (c.system schedule).buffer.tracker.position (since u (c.history schedule)) := by
  revert hring
  apply c.invariant (motive := fun history s => NoRing history → ∀ u,
    (s.threads u).Explained c u s.buffer.tracker.position (since u history))
  · exact fun _ _ => trivial
  · intro earlier t event s' hexplained hmoves hring u
    have hbefore := hexplained hring.of_cons u
    obtain ⟨hsound, hfits⟩ := c.sound earlier
    by_cases hu : u = t
    · subst hu
      exact hmoves.move.explained hsound (hfits u) hbefore
    · rw [hmoves.others u hu, since_cons_of_ne (Ne.symm hu)]
      apply hbefore.cons (Ne.symm hu)
      rcases c.position_cases hring.of_cons hmoves with ⟨hsame, -⟩ | ⟨orders, hevent, -⟩
      · exact Or.inl hsame
      · exact Or.inr ⟨_, orders, hevent⟩

/-- A thread that reports a write has come to the end of its call. -/
theorem System.writing_of_wrote {s : System} {t count : Nat} {asked request : Request}
    (h : (s.step t asked).1 = .wrote request count) :
    ∃ blocks wraps, s.threads t = .writing request ⟨blocks, wraps, .done count⟩ := by
  have hmove := (s.moves_step t asked).move
  rw [h] at hmove
  generalize (s.step t asked).2.threads t = after at hmove
  generalize (s.step t asked).2.buffer = b' at hmove
  generalize s.threads t = before at hmove ⊢
  cases hmove with
  | write hmove =>
    cases hmove
    exact ⟨_, _, rfl⟩
  | read hmove => cases hmove

/-- Without overwriting requests, an append that writes nothing has found no room
or lost all its attempts to other threads. -/
theorem Setup.gaveUp (c : Setup) {schedule : Schedule} (hring : NoRing (c.history schedule))
    {t : Nat} {asked : Request} {order : Order}
    (h : ((c.system schedule).step t asked).1 = .wrote (.append order) 0) :
    GaveUp c t (since t (c.history schedule)) := by
  obtain ⟨blocks, wraps, hthread⟩ := System.writing_of_wrote h
  have hexplained := c.explained schedule hring t
  rw [hthread] at hexplained
  exact hexplained rfl

end OrderStore
