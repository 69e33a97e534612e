import OrderStore.Proofs.Optimistic.Sound
import Mathlib.Data.List.Perm.Subperm

/-!
# The two stamps

Each stamp counts the bumps in the history. A thread has begun one write more
than it has finished exactly while it is in flight, so as long as the stamps have
not wrapped, the second never exceeds the first, and they agree exactly when
no write is in flight.
-/

namespace OrderStore

/-- Whether a write call is between its bumps of the two stamps. -/
def WritePhase.inFlight : WritePhase → Bool
  | begin => false
  | done _ => false
  | _ => true

/-- Whether a thread's write is between its bumps of the two stamps. -/
def Thread.inFlight : Thread → Bool
  | writing _ w => w.phase.inFlight
  | _ => false

/-- No write is in flight. -/
def System.Quiescent (s : System) : Prop := ∀ u, (s.threads u).inFlight = false

/-- The threads that an event happened to, one entry for each time. -/
def threadsOf (event : Event) (history : History) : List Nat :=
  (history.filter (·.2 = event)).map (·.1)

theorem threadsOf_cons_self (event : Event) (t : Nat) (history : History) :
    threadsOf event ((t, event) :: history) = t :: threadsOf event history := by
  simp [threadsOf]

theorem threadsOf_cons_of_ne {event other : Event} (hne : other ≠ event) (t : Nat)
    (history : History) : threadsOf event ((t, other) :: history) = threadsOf event history := by
  simp [threadsOf, hne]

theorem count_threadsOf_cons (event other : Event) (t u : Nat) (history : History) :
    (threadsOf event ((t, other) :: history)).count u =
      (threadsOf event history).count u + if other = event ∧ t = u then 1 else 0 := by
  by_cases hevent : other = event
  · subst hevent
    rw [threadsOf_cons_self, List.count_cons]
    simp
  · rw [threadsOf_cons_of_ne hevent, if_neg fun h => hevent h.1, Nat.add_zero]

/-- How many writes have begun. -/
def begun (history : History) : Nat := (threadsOf .begin history).length

/-- How many writes have finished. -/
def finished (history : History) : Nat := (threadsOf .finish history).length

theorem begun_cons_begin (t : Nat) (history : History) :
    begun ((t, .begin) :: history) = begun history + 1 := by
  rw [begun, threadsOf_cons_self, List.length_cons, begun]

theorem begun_cons_of_ne {event : Event} (hne : event ≠ .begin) (t : Nat) (history : History) :
    begun ((t, event) :: history) = begun history := by
  rw [begun, threadsOf_cons_of_ne hne, begun]

theorem finished_cons_finish (t : Nat) (history : History) :
    finished ((t, .finish) :: history) = finished history + 1 := by
  rw [finished, threadsOf_cons_self, List.length_cons, finished]

theorem finished_cons_of_ne {event : Event} (hne : event ≠ .finish) (t : Nat)
    (history : History) : finished ((t, event) :: history) = finished history := by
  rw [finished, threadsOf_cons_of_ne hne, finished]

theorem begun_le_cons (entry : Nat × Event) (history : History) :
    begun history ≤ begun (entry :: history) := by
  obtain ⟨t, event⟩ := entry
  by_cases hbegin : event = .begin
  · subst hbegin
    rw [begun_cons_begin]
    exact Nat.le_succ _
  · exact Nat.le_of_eq (begun_cons_of_ne hbegin t history).symm

theorem finished_le_cons (entry : Nat × Event) (history : History) :
    finished history ≤ finished (entry :: history) := by
  obtain ⟨t, event⟩ := entry
  by_cases hfinish : event = .finish
  · subst hfinish
    rw [finished_cons_finish]
    exact Nat.le_succ _
  · exact Nat.le_of_eq (finished_cons_of_ne hfinish t history).symm

@[simp] theorem WritePhase.inFlight_attempt (retries : Nat) :
    (attempt retries).inFlight = true := by
  cases retries <;> rfl

@[simp] theorem Request.inFlight_call (b : OptimisticBuffer) (request : Request) :
    (request.call b).inFlight = false := by
  cases request with
  | appendAll orders =>
    change (WriteCall.batch _ _).phase.inFlight = false
    unfold WriteCall.batch
    dsimp only
    split <;> rfl
  | appendRing order =>
    change (WriteCall.ring _ _).phase.inFlight = false
    unfold WriteCall.ring
    dsimp only
    split <;> rfl
  | _ => rfl

namespace Thread

variable {b b' : OptimisticBuffer} {thread thread' : Thread} {event : Event}

/-- A move bumps the first stamp and opens a write, or bumps the second one and
closes it, or does neither. -/
theorem Move.stamps (h : Move b thread event b' thread') :
    (event = .begin ∧ b'.begun = b.begun + 1 ∧ b'.finished = b.finished ∧
        thread.inFlight = false ∧ thread'.inFlight = true) ∨
      (event = .finish ∧ b'.begun = b.begun ∧ b'.finished = b.finished + 1 ∧
        thread.inFlight = true ∧ thread'.inFlight = false) ∨
      (event ≠ .begin ∧ event ≠ .finish ∧ b'.begun = b.begun ∧ b'.finished = b.finished ∧
        thread'.inFlight = thread.inFlight) := by
  cases h with
  | start request =>
    exact Or.inr (Or.inr ⟨nofun, nofun, rfl, rfl, request.inFlight_call b⟩)
  | write hmove =>
    cases hmove with
    | begin => exact Or.inl ⟨rfl, rfl, rfl, rfl, WritePhase.inFlight_attempt _⟩
    | finish => exact Or.inr (Or.inl ⟨rfl, rfl, rfl, rfl, rfl⟩)
    | rewind_lose hmoved | reserve_lose hmoved =>
      exact Or.inr (Or.inr ⟨nofun, nofun, rfl, rfl, WritePhase.inFlight_attempt _⟩)
    | _ => exact Or.inr (Or.inr ⟨nofun, nofun, rfl, rfl, rfl⟩)
  | read hmove =>
    cases hmove <;> exact Or.inr (Or.inr ⟨nofun, nofun, rfl, rfl, rfl⟩)

/-- Only a write in flight touches the position and the bytes. -/
theorem Move.frame (h : Move b thread event b' thread') (hflight : thread.inFlight = false) :
    b'.tracker = b.tracker ∧ b'.arena = b.arena := by
  cases h with
  | start request => exact ⟨rfl, rfl⟩
  | write hmove => cases hmove <;> first | exact ⟨rfl, rfl⟩ | cases hflight
  | read hmove => exact ⟨rfl, rfl⟩

end Thread

/-- The stamps count the bumps, and each thread's bumps say whether its write is
in flight. -/
structure Stamped (history : History) (s : System) : Prop where
  /-- The first stamp counts the writes that have begun. -/
  begun_eq : s.buffer.begun = UInt64.ofNat (begun history)
  /-- The second stamp counts the writes that have finished. -/
  finished_eq : s.buffer.finished = UInt64.ofNat (finished history)
  /-- A thread in flight has begun one write more than it has finished. -/
  count_eq : ∀ t, (threadsOf .begin history).count t =
    (threadsOf .finish history).count t + if (s.threads t).inFlight then 1 else 0

/-- After every schedule the stamps count the bumps. -/
theorem Setup.stamped (c : Setup) (schedule : Schedule) :
    Stamped (c.history schedule) (c.system schedule) := by
  apply c.invariant (motive := Stamped)
  · exact ⟨rfl, rfl, fun _ => rfl⟩
  · intro earlier t event s' ⟨hbegun, hfinished, hcount⟩ hmoves
    have hstamps := hmoves.move.stamps
    have hne : Event.begin ≠ .finish := nofun
    refine ⟨?_, ?_, fun u => ?_⟩
    · rcases hstamps with ⟨rfl, hbegun', -⟩ | ⟨rfl, hbegun', -⟩ | ⟨hbegin, -, hbegun', -⟩
      · rw [hbegun', hbegun, begun_cons_begin, UInt64.ofNat_add]
        rfl
      · rw [hbegun', hbegun, begun_cons_of_ne hne.symm]
      · rw [hbegun', hbegun, begun_cons_of_ne hbegin]
    · rcases hstamps with
        ⟨rfl, -, hfinished', -⟩ | ⟨rfl, -, hfinished', -⟩ | ⟨-, hfinish, -, hfinished', -⟩
      · rw [hfinished', hfinished, finished_cons_of_ne hne]
      · rw [hfinished', hfinished, finished_cons_finish, UInt64.ofNat_add]
        rfl
      · rw [hfinished', hfinished, finished_cons_of_ne hfinish]
    · rw [count_threadsOf_cons, count_threadsOf_cons, hcount]
      by_cases hu : t = u
      · subst hu
        rcases hstamps with
          ⟨rfl, -, -, hclosed, hopen⟩ | ⟨rfl, -, -, hopen, hclosed⟩ |
          ⟨hbegin, hfinish, -, -, hsame⟩
        · simp [hclosed, hopen]
        · simp [hclosed, hopen]
        · simp [hbegin, hfinish, hsame]
      · simp [hu, hmoves.others u (Ne.symm hu)]

/-- Idle threads have no write in flight. -/
theorem System.quiescent_of_idle {s : System} (h : ∀ u, s.threads u = .idle) : s.Quiescent := by
  intro u
  rw [h u]
  rfl

namespace Stamped

variable {history : History} {s : System}

/-- No more writes have finished than have begun. -/
theorem subperm (h : Stamped history s) :
    (threadsOf .finish history).Subperm (threadsOf .begin history) := by
  rw [List.subperm_ext_iff]
  intro t _
  have hcount := h.count_eq t
  omega

theorem finished_le_begun (h : Stamped history s) : finished history ≤ begun history :=
  h.subperm.length_le

/-- If as many writes have finished as have begun, none is in flight. -/
theorem quiescent_of_le (h : Stamped history s) (hle : begun history ≤ finished history) :
    s.Quiescent := by
  intro t
  have hperm := h.subperm.perm_of_length_le hle
  have hcount := h.count_eq t
  rw [hperm.count_eq t] at hcount
  cases hflight : (s.threads t).inFlight with
  | false => rfl
  | true =>
    rw [hflight, if_pos rfl] at hcount
    omega

/-- If no write is in flight, as many have finished as have begun. -/
theorem begun_eq_finished (h : Stamped history s) (hquiescent : s.Quiescent) :
    begun history = finished history := by
  apply List.Perm.length_eq
  rw [List.perm_iff_count]
  intro t
  rw [h.count_eq t, hquiescent t]
  rfl

/-- If no write is in flight, the stamps agree. -/
theorem stamps_eq (h : Stamped history s) (hquiescent : s.Quiescent) :
    s.buffer.begun = s.buffer.finished := by
  rw [h.begun_eq, h.finished_eq, h.begun_eq_finished hquiescent]

end Stamped

end OrderStore
