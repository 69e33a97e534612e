import OrderStore.Proofs.Segmented.Alone

/-!
# Threads on one segmented buffer

Any number of threads append to the same buffer, each making one call after
another. A step is one access of one thread to the shared state: to the write
counter, to a position, to a lock, or, under a lock, to the segment itself. What
one step can do is stated once, as a relation, from which everything about runs
is derived.
-/

namespace OrderStore

/-- Where the next append to segment `index` lands, if there is room. -/
def SegmentedBuffer.landing? (b : SegmentedBuffer) (index : Nat) : Option Nat :=
  match b.segments[index]? with
  | none => none
  | some segment =>
    if segment.region.hasRoom then some (segment.start + segment.region.tracker.position) else none

theorem SegmentedBuffer.landing?_of_room {b : SegmentedBuffer} {index : Nat} {segment : Segment}
    (hsegment : b.segments[index]? = some segment) (hroom : segment.region.hasRoom = true) :
    b.landing? index = some (segment.start + segment.region.tracker.position) := by
  simp only [landing?, hsegment, hroom, if_true]

theorem SegmentedBuffer.landing?_of_full {b : SegmentedBuffer} {index : Nat}
    (hfull : b.hasRoom index = false) : b.landing? index = none := by
  unfold landing?
  cases hsegment : b.segments[index]? with
  | none => rfl
  | some segment =>
    have hregion : segment.region.hasRoom = false := by rwa [hasRoom, hsegment] at hfull
    simp only [hregion, Bool.false_eq_true, if_false]

namespace Placing

/-- What a thread is about. -/
inductive Thread where
  /-- No call is under way. -/
  | idle
  /-- A call appends an order. The offset that it has landed on, if it has, is
  noted for the history only. -/
  | placing (order : Order) (landed? : Option Nat) (phase : PlacePhase)
deriving DecidableEq

/-- What one step did. -/
inductive Event where
  /-- A call began; the shared state was not touched. -/
  | start (order : Order)
  /-- A call took a number from the write counter. -/
  | number
  /-- A call saw whether a segment has room. -/
  | peek
  /-- A call took the lock of segment `index`, or did not get it. -/
  | lock (index : Nat) (taken : Bool)
  /-- An order was written at `offset`. -/
  | land (offset : Nat) (order : Order)
  /-- There was no room for an order. -/
  | refuse
  /-- A call released the lock of segment `index`. -/
  | unlock (index : Nat)
  /-- A call returned, having written its order or not. -/
  | returned (order : Order) (landed? : Option Nat) (written : Bool)
deriving DecidableEq

/-- What the next step of a call does. -/
def event (s : LockedSegments) (order : Order) (landed? : Option Nat) : PlacePhase → Event
  | .number => .number
  | .peek .. => .peek
  | .acquire _ index _ => .lock index (if index ∈ s.held then false else true)
  | .append _ index _ =>
    match s.buffer.landing? index with
    | some offset => .land offset order
    | none => .refuse
  | .release _ index _ _ => .unlock index
  | .done written => .returned order landed? written

namespace Thread

/-- One step of a thread. An idle one begins a call to append `asked`, and a call
that has come to its end returns. -/
def step (s : LockedSegments) (asked : Order) : Thread → Event × LockedSegments × Thread
  | idle => (.start asked, s, placing asked none .number)
  | placing order landed? phase =>
    let (s', call) := PlaceCall.step s ⟨encode order, phase⟩
    (event s order landed? phase, s', match phase with
      | .done _ => idle
      | .append _ index _ => placing order (s.buffer.landing? index) call.phase
      | _ => placing order landed? call.phase)

/-- What a step of a thread can do. -/
inductive Move (s : LockedSegments) : Thread → Event → LockedSegments → Thread → Prop
  /-- An idle thread begins a call. -/
  | start (order : Order) : Move s .idle (.start order) s (.placing order none .number)
  /-- The call takes a number, which says where it begins to look for room. -/
  | number {order : Order} {landed? : Option Nat} :
    Move s (.placing order landed? .number) .number { s with buffer := s.buffer.counted }
      (.placing order landed?
        (.peek false (s.buffer.wrapIndex s.buffer.writeCounter.toNat)
          (s.buffer.segments.size - 1)))
  /-- The call sees that a segment has room. -/
  | room {order : Order} {landed? : Option Nat} {contended : Bool} {index left : Nat}
    (hroom : s.buffer.hasRoom index = true) :
    Move s (.placing order landed? (.peek contended index left)) .peek s
      (.placing order landed? (.acquire (.probing contended) index left))
  /-- The call sees that a segment is full. -/
  | full {order : Order} {landed? : Option Nat} {contended : Bool} {index left : Nat}
    (hfull : s.buffer.hasRoom index = false) :
    Move s (.placing order landed? (.peek contended index left)) .peek s
      (.placing order landed?
        (PlaceCall.afterRefusal s.buffer.segments.size (.probing contended) index left))
  /-- The first time round the call passes over a segment whose lock is held. -/
  | pass {order : Order} {landed? : Option Nat} {contended : Bool} {index left : Nat}
    (hheld : index ∈ s.held) :
    Move s (.placing order landed? (.acquire (.probing contended) index left)) (.lock index false)
      s (.placing order landed?
        (PlaceCall.afterRefusal s.buffer.segments.size (.probing true) index left))
  /-- The second time round the call waits for a lock that is held. -/
  | wait {order : Order} {landed? : Option Nat} {index left : Nat} (hheld : index ∈ s.held) :
    Move s (.placing order landed? (.acquire .waiting index left)) (.lock index false) s
      (.placing order landed? (.acquire .waiting index left))
  /-- The call takes a lock that nobody holds. -/
  | lock {order : Order} {landed? : Option Nat} {pass : PlacePass} {index left : Nat}
    (hfree : index ∉ s.held) :
    Move s (.placing order landed? (.acquire pass index left)) (.lock index true)
      { s with held := index :: s.held } (.placing order landed? (.append pass index left))
  /-- The call writes its order under the lock. -/
  | land {order : Order} {landed? : Option Nat} {pass : PlacePass} {index left : Nat}
    {segment : Segment} (hsegment : s.buffer.segments[index]? = some segment)
    (hroom : segment.region.hasRoom = true) :
    Move s (.placing order landed? (.append pass index left))
      (.land (segment.start + segment.region.tracker.position) order)
      { s with buffer := s.buffer.modifyRegion index (·.push (encode order)) }
      (.placing order (some (segment.start + segment.region.tracker.position))
        (.release pass index left true))
  /-- The call finds no room under the lock. -/
  | refuse {order : Order} {landed? : Option Nat} {pass : PlacePass} {index left : Nat}
    (hfull : s.buffer.hasRoom index = false) :
    Move s (.placing order landed? (.append pass index left)) .refuse s
      (.placing order none (.release pass index left false))
  /-- The call releases the lock after it has written. -/
  | unlock {order : Order} {landed? : Option Nat} {pass : PlacePass} {index left : Nat} :
    Move s (.placing order landed? (.release pass index left true)) (.unlock index)
      { s with held := s.held.erase index } (.placing order landed? (.done true))
  /-- The call releases the lock and looks further. -/
  | unlock_full {order : Order} {landed? : Option Nat} {pass : PlacePass} {index left : Nat} :
    Move s (.placing order landed? (.release pass index left false)) (.unlock index)
      { s with held := s.held.erase index }
      (.placing order landed? (PlaceCall.afterRefusal s.buffer.segments.size pass index left))
  /-- The call returns. -/
  | returned {order : Order} {landed? : Option Nat} {written : Bool} :
    Move s (.placing order landed? (.done written)) (.returned order landed? written) s .idle

/-- The relation covers every step. -/
theorem move_step (s : LockedSegments) (asked : Order) (thread : Thread) :
    Move s thread (thread.step s asked).1 (thread.step s asked).2.1
      (thread.step s asked).2.2 := by
  cases thread with
  | idle => exact .start asked
  | placing order landed? phase =>
    cases phase with
    | number => exact .number
    | peek contended index left =>
      cases hroom : s.buffer.hasRoom index with
      | true =>
        simp only [step, event, PlaceCall.step, hroom, if_true]
        exact .room hroom
      | false =>
        simp only [step, event, PlaceCall.step, hroom, Bool.false_eq_true, if_false]
        exact .full hroom
    | acquire pass index left =>
      by_cases hheld : index ∈ s.held
      · cases pass with
        | probing contended =>
          simp only [step, event, PlaceCall.step, if_pos hheld]
          exact .pass hheld
        | waiting =>
          simp only [step, event, PlaceCall.step, if_pos hheld]
          exact .wait hheld
      · simp only [step, event, PlaceCall.step, if_neg hheld]
        exact .lock hheld
    | append pass index left =>
      cases hroom : s.buffer.hasRoom index with
      | true =>
        obtain ⟨segment, hsegment, hregion⟩ := SegmentedBuffer.hasRoom_eq_true_iff.mp hroom
        simp only [step, event, PlaceCall.step, hroom,
          SegmentedBuffer.landing?_of_room hsegment hregion]
        exact .land hsegment hregion
      | false =>
        simp only [step, event, PlaceCall.step, hroom, SegmentedBuffer.landing?_of_full hroom,
          SegmentedBuffer.modifyRegion_push_of_full _ hroom]
        exact .refuse hroom
    | release pass index left written =>
      cases written with
      | true => exact .unlock
      | false => exact .unlock_full
    | done written => exact .returned

end Thread

/-- A buffer and the threads that append to it. -/
structure System where
  /-- What the threads share. -/
  shared : LockedSegments
  /-- What each thread is about. -/
  threads : Nat → Thread

namespace System

/-- One step of thread `t`, and what it did. -/
def step (s : System) (t : Nat) (asked : Order) : Event × System :=
  let (event, shared, thread) := (s.threads t).step s.shared asked
  (event, ⟨shared, fun u => if u = t then thread else s.threads u⟩)

/-- What a step of thread `t` can do; the other threads stay where they are. -/
structure Moves (s : System) (t : Nat) (event : Event) (s' : System) : Prop where
  /-- The thread makes a move. -/
  move : (s.threads t).Move s.shared event s'.shared (s'.threads t)
  /-- No other thread does. -/
  others : ∀ u, u ≠ t → s'.threads u = s.threads u

theorem moves_step (s : System) (t : Nat) (asked : Order) :
    s.Moves t (s.step t asked).1 (s.step t asked).2 where
  move := by
    have hmove := (s.threads t).move_step s.shared asked
    simpa only [step, if_true] using hmove
  others := by
    intro u hne
    simp only [step, if_neg hne]

end System

/-- Which thread takes each step, the latest first, and what it asks to append if
it is idle. -/
abbrev Schedule := List (Nat × Order)

/-- What each step did, the latest first. -/
abbrev History := List (Nat × Event)

/-- What a segmented buffer is made with. -/
structure Setup where
  /-- Size of the buffer in bytes. -/
  capacity : Nat
  /-- Number of segments. -/
  count : Nat
  /-- There is at least one segment. -/
  count_pos : 1 ≤ count
deriving DecidableEq

namespace Setup

/-- An empty buffer that nobody has called yet. -/
def new (c : Setup) : System := ⟨⟨.new c.capacity c.count, []⟩, fun _ => .idle⟩

/-- The system after a schedule. -/
def system (c : Setup) : Schedule → System
  | [] => c.new
  | (t, asked) :: earlier => ((c.system earlier).step t asked).2

/-- What happened during a schedule. -/
def history (c : Setup) : Schedule → History
  | [] => []
  | (t, asked) :: earlier => (t, ((c.system earlier).step t asked).1) :: c.history earlier

/-- What holds of a new system and is kept by every step of any thread holds after
every schedule. -/
theorem invariant {motive : History → System → Prop} (c : Setup) (hnew : motive [] c.new)
    (hstep : ∀ (earlier : Schedule) {t : Nat} {event : Event} {s' : System},
      motive (c.history earlier) (c.system earlier) → (c.system earlier).Moves t event s' →
        motive ((t, event) :: c.history earlier) s') (schedule : Schedule) :
    motive (c.history schedule) (c.system schedule) := by
  induction schedule with
  | nil => exact hnew
  | cons entry earlier ih =>
    exact hstep earlier ih ((c.system earlier).moves_step entry.1 entry.2)

/-- A thread that has taken no step is idle. -/
theorem idle_of_forall_ne (c : Setup) (schedule : Schedule) : ∀ u,
    (∀ entry ∈ c.history schedule, entry.1 ≠ u) → (c.system schedule).threads u = .idle := by
  apply c.invariant (motive := fun history s => ∀ u,
    (∀ entry ∈ history, entry.1 ≠ u) → s.threads u = .idle)
  · intro u _
    rfl
  · intro earlier t event s' hidle hmoves u hne
    have hu : t ≠ u := hne _ List.mem_cons_self
    rw [hmoves.others u hu.symm]
    exact hidle u fun entry hentry => hne entry (List.mem_cons_of_mem _ hentry)

end Setup

end Placing

end OrderStore
