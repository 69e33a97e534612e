import OrderStore.Optimistic.Read
import OrderStore.Optimistic.Write

/-!
# Threads on one lock-free buffer

Any number of threads call the same buffer, each making one call after another.
A step is one access of one thread to the shared state. A schedule says which
thread takes each step, and the history of a schedule lists what happened. What
one step can do is stated once, as a relation, from which everything about runs
is derived.
-/

namespace OrderStore

/-- What a thread asks of the buffer. -/
inductive Request where
  /-- Append an order. -/
  | append (order : Order)
  /-- Append as many of the orders as fit. -/
  | appendAll (orders : List Order)
  /-- Append an order, overwriting old ones in a full buffer. -/
  | appendRing (order : Order)
  /-- Read the order at a byte offset. -/
  | read (offset : Nat)
deriving DecidableEq

/-- What a thread is about. -/
inductive Thread where
  /-- No call is under way. -/
  | idle
  /-- A call writes what was asked for. -/
  | writing (request : Request) (call : WriteCall)
  /-- A call reads. -/
  | reading (call : ReadCall)
deriving DecidableEq

/-- What one step did. -/
inductive Event where
  /-- A call began; the shared state was not touched. -/
  | start (request : Request)
  /-- The stamp of begun writes was bumped. -/
  | begin
  /-- A writer loaded the position. -/
  | load (position : Nat)
  /-- A writer moved the position back to zero. -/
  | rewind
  /-- A writer claimed the room behind `position` for `orders`. -/
  | reserve (position : Nat) (orders : List Order)
  /-- A writer's compare-and-swap failed. -/
  | lose
  /-- A writer copied `orders` into the room behind `position`. -/
  | copyIn (position : Nat) (orders : List Order)
  /-- The stamp of finished writes was bumped. -/
  | finish
  /-- A write call returned, `count` of its orders being written. -/
  | wrote (request : Request) (count : Nat)
  /-- A reader loaded a stamp or the position. -/
  | look
  /-- A reader copied the bytes at `offset`. -/
  | copyOut (offset : Nat)
  /-- A read call returned. -/
  | got (offset : Nat) (order : Option Order)
deriving DecidableEq

/-- Whether a call began. -/
def Event.isStart : Event → Bool
  | start _ => true
  | _ => false

/-- A buffer and the threads that call it. -/
structure System where
  /-- What the threads share. -/
  buffer : OptimisticBuffer
  /-- What each thread is about. -/
  threads : Nat → Thread

namespace Request

/-- The orders that a request hands over to be written. -/
def orders : Request → List Order
  | append order => [order]
  | appendAll orders => orders
  | appendRing order => [order]
  | read _ => []

/-- Whether a request may overwrite old records. -/
def wraps : Request → Bool
  | appendRing _ => true
  | _ => false

/-- The call that serves a request. -/
def call (b : OptimisticBuffer) : Request → Thread
  | append order => .writing (append order) (.append (encode order))
  | appendAll orders => .writing (appendAll orders) (.batch b.tracker.capacity (orders.map encode))
  | appendRing order => .writing (appendRing order) (.ring b.tracker.capacity (encode order))
  | read offset => .reading (.start b.policy offset)

end Request

/-- What the next step of a write call does. -/
def WriteCall.event (b : OptimisticBuffer) (request : Request) (w : WriteCall) : Event :=
  match w.phase with
  | .begin => .begin
  | .load _ => .load b.tracker.position
  | .rewind _ position =>
    match b.tracker.compareExchange position 0 with
    | .ok _ => .rewind
    | .error _ => .lose
  | .reserve _ position count =>
    match b.tracker.compareExchange position (position + count * recordSize) with
    | .ok _ => .reserve position (request.orders.take count)
    | .error _ => .lose
  | .copy position count => .copyIn position (request.orders.take count)
  | .finish _ => .finish
  | .done count => .wrote request count

/-- What the next step of a read call does. -/
def ReadCall.event (r : ReadCall) : Event :=
  match r.phase with
  | .copy .. => .copyOut r.offset
  | .done order => .got r.offset order
  | _ => .look

namespace Thread

/-- One step of a thread. An idle one begins a call for `request`, and a call
that has come to its end returns. -/
def step (b : OptimisticBuffer) (request : Request) : Thread → Event × OptimisticBuffer × Thread
  | idle => (.start request, b, request.call b)
  | writing request w =>
    let (b', w') := w.step b
    (w.event b request, b', match w.phase with
      | .done _ => idle
      | _ => writing request w')
  | reading r =>
    (r.event, b, match r.phase with
      | .done _ => idle
      | _ => reading (r.step b))

/-- What a step of a write call can do. -/
inductive WriteMove (b : OptimisticBuffer) (request : Request) :
    WriteCall → Event → OptimisticBuffer → Thread → Prop
  /-- The call bumps the first stamp. -/
  | begin {blocks : List Block} {wraps : Bool} :
    WriteMove b request ⟨blocks, wraps, .begin⟩ .begin { b with begun := b.begun + 1 }
      (.writing request ⟨blocks, wraps, .attempt b.policy.maxAttempts.toNat⟩)
  /-- The call finds room. -/
  | room {blocks : List Block} {wraps : Bool} {retries count : Nat}
    (hcount : min blocks.length (b.tracker.recordsAfter b.tracker.position) = count)
    (hne : count ≠ 0) :
    WriteMove b request ⟨blocks, wraps, .load retries⟩ (.load b.tracker.position) b
      (.writing request ⟨blocks, wraps, .reserve retries b.tracker.position count⟩)
  /-- The call finds no room and gives up. -/
  | full {blocks : List Block} {retries : Nat}
    (hcount : min blocks.length (b.tracker.recordsAfter b.tracker.position) = 0) :
    WriteMove b request ⟨blocks, false, .load retries⟩ (.load b.tracker.position) b
      (.writing request ⟨blocks, false, .finish 0⟩)
  /-- The call finds no room and starts over. -/
  | wrap {blocks : List Block} {retries : Nat}
    (hcount : min blocks.length (b.tracker.recordsAfter b.tracker.position) = 0) :
    WriteMove b request ⟨blocks, true, .load retries⟩ (.load b.tracker.position) b
      (.writing request ⟨blocks, true, .rewind retries b.tracker.position⟩)
  /-- The call moves the position back to zero. -/
  | rewind {blocks : List Block} {wraps : Bool} {retries : Nat} :
    WriteMove b request ⟨blocks, wraps, .rewind retries b.tracker.position⟩ .rewind
      { b with tracker := b.tracker.store 0 }
      (.writing request
        ⟨blocks, wraps, .reserve retries 0 (min blocks.length (b.tracker.recordsAfter 0))⟩)
  /-- The call cannot move the position back, as that has moved. -/
  | rewind_lose {blocks : List Block} {wraps : Bool} {retries position : Nat}
    (hmoved : b.tracker.position ≠ position) :
    WriteMove b request ⟨blocks, wraps, .rewind retries position⟩ .lose b
      (.writing request ⟨blocks, wraps, .attempt retries⟩)
  /-- The call claims room. -/
  | reserve {blocks : List Block} {wraps : Bool} {retries count : Nat} :
    WriteMove b request ⟨blocks, wraps, .reserve retries b.tracker.position count⟩
      (.reserve b.tracker.position (request.orders.take count))
      { b with tracker := b.tracker.store (b.tracker.position + count * recordSize) }
      (.writing request ⟨blocks, wraps, .copy b.tracker.position count⟩)
  /-- The call cannot claim room, as the position has moved. -/
  | reserve_lose {blocks : List Block} {wraps : Bool} {retries position count : Nat}
    (hmoved : b.tracker.position ≠ position) :
    WriteMove b request ⟨blocks, wraps, .reserve retries position count⟩ .lose b
      (.writing request ⟨blocks, wraps, .attempt retries⟩)
  /-- The call copies its records. -/
  | copyIn {blocks : List Block} {wraps : Bool} {position count : Nat} :
    WriteMove b request ⟨blocks, wraps, .copy position count⟩
      (.copyIn position (request.orders.take count))
      { b with arena := b.arena.writeAll position (blocks.take count) }
      (.writing request ⟨blocks, wraps, .finish count⟩)
  /-- The call bumps the second stamp. -/
  | finish {blocks : List Block} {wraps : Bool} {count : Nat} :
    WriteMove b request ⟨blocks, wraps, .finish count⟩ .finish
      { b with finished := b.finished + 1 } (.writing request ⟨blocks, wraps, .done count⟩)
  /-- The call returns. -/
  | wrote {blocks : List Block} {wraps : Bool} {count : Nat} :
    WriteMove b request ⟨blocks, wraps, .done count⟩ (.wrote request count) b .idle

/-- What a step of a read call can do. -/
inductive ReadMove (b : OptimisticBuffer) : ReadCall → Event → Thread → Prop
  /-- The call loads the stamp of finished writes. -/
  | loadFinished {offset retries : Nat} :
    ReadMove b ⟨offset, .loadFinished retries⟩ .look
      (.reading ⟨offset, .loadBegun retries b.finished⟩)
  /-- The stamps agree. -/
  | quiet {offset retries : Nat} :
    ReadMove b ⟨offset, .loadBegun retries b.begun⟩ .look
      (.reading ⟨offset, .loadPosition retries b.begun⟩)
  /-- The stamps differ. -/
  | busy {offset retries : Nat} {finished : UInt64} (hdiffer : finished ≠ b.begun) :
    ReadMove b ⟨offset, .loadBegun retries finished⟩ .look (.reading ⟨offset, .attempt retries⟩)
  /-- The record is written. -/
  | written {offset retries : Nat} {stamp : UInt64} (hwritten : b.tracker.isWritten offset = true) :
    ReadMove b ⟨offset, .loadPosition retries stamp⟩ .look (.reading ⟨offset, .copy retries stamp⟩)
  /-- There is no record. -/
  | unwritten {offset retries : Nat} {stamp : UInt64}
    (hwritten : b.tracker.isWritten offset = false) :
    ReadMove b ⟨offset, .loadPosition retries stamp⟩ .look (.reading ⟨offset, .done none⟩)
  /-- The call copies the bytes. -/
  | copyOut {offset retries : Nat} {stamp : UInt64} {block : Block}
    (hblock : b.arena.read offset = some block) :
    ReadMove b ⟨offset, .copy retries stamp⟩ (.copyOut offset)
      (.reading ⟨offset, .check retries stamp block⟩)
  /-- There are no bytes to copy. -/
  | outside {offset retries : Nat} {stamp : UInt64} (hblock : b.arena.read offset = none) :
    ReadMove b ⟨offset, .copy retries stamp⟩ (.copyOut offset) (.reading ⟨offset, .done none⟩)
  /-- No write has begun since the stamp. -/
  | unchanged {offset retries : Nat} {block : Block} :
    ReadMove b ⟨offset, .check retries b.begun block⟩ .look
      (.reading ⟨offset, .done (decodeBlock block).toOption⟩)
  /-- Some write has begun since the stamp. -/
  | changed {offset retries : Nat} {stamp : UInt64} {block : Block} (hchanged : b.begun ≠ stamp) :
    ReadMove b ⟨offset, .check retries stamp block⟩ .look (.reading ⟨offset, .attempt retries⟩)
  /-- The call returns. -/
  | got {offset : Nat} {order : Option Order} :
    ReadMove b ⟨offset, .done order⟩ (.got offset order) .idle

/-- What a step of a thread can do. -/
inductive Move (b : OptimisticBuffer) : Thread → Event → OptimisticBuffer → Thread → Prop
  /-- An idle thread begins a call. -/
  | start (request : Request) : Move b .idle (.start request) b (request.call b)
  /-- A write call goes on. -/
  | write {request : Request} {w : WriteCall} {event : Event} {b' : OptimisticBuffer}
    {thread : Thread} (hmove : WriteMove b request w event b' thread) :
    Move b (.writing request w) event b' thread
  /-- A read call goes on. -/
  | read {r : ReadCall} {event : Event} {thread : Thread} (hmove : ReadMove b r event thread) :
    Move b (.reading r) event b thread

theorem writeMove_step (b : OptimisticBuffer) (request other : Request) (w : WriteCall) :
    WriteMove b request w ((writing request w).step b other).1
      ((writing request w).step b other).2.1 ((writing request w).step b other).2.2 := by
  obtain ⟨blocks, wraps, phase⟩ := w
  cases phase with
  | begin => exact .begin
  | load retries =>
    by_cases hcount : min blocks.length (b.tracker.recordsAfter b.tracker.position) = 0
    · cases wraps with
      | false =>
        simp only [step, WriteCall.event, WriteCall.step, WriteCall.countAfter, hcount, ne_eq,
          not_true_eq_false, if_false, Bool.false_eq_true]
        exact .full hcount
      | true =>
        simp only [step, WriteCall.event, WriteCall.step, WriteCall.countAfter, hcount, ne_eq,
          not_true_eq_false, if_false, if_true]
        exact .wrap hcount
    · simp only [step, WriteCall.event, WriteCall.step, WriteCall.countAfter, ne_eq, hcount,
        not_false_eq_true, if_true]
      exact .room rfl hcount
  | rewind retries position =>
    by_cases hsame : b.tracker.position = position
    · subst hsame
      simp only [step, WriteCall.event, WriteCall.step, WriteCall.countAfter,
        Tracker.compareExchange, if_true]
      exact .rewind
    · simp only [step, WriteCall.event, WriteCall.step, Tracker.compareExchange, if_neg hsame]
      exact .rewind_lose hsame
  | reserve retries position count =>
    by_cases hsame : b.tracker.position = position
    · subst hsame
      simp only [step, WriteCall.event, WriteCall.step, Tracker.compareExchange, if_true]
      exact .reserve
    · simp only [step, WriteCall.event, WriteCall.step, Tracker.compareExchange, if_neg hsame]
      exact .reserve_lose hsame
  | copy position count => exact .copyIn
  | finish count => exact .finish
  | done count => exact .wrote

theorem readMove_step (b : OptimisticBuffer) (other : Request) (r : ReadCall) :
    ReadMove b r ((reading r).step b other).1 ((reading r).step b other).2.2 := by
  obtain ⟨offset, phase⟩ := r
  cases phase with
  | loadFinished retries => exact .loadFinished
  | loadBegun retries finished =>
    by_cases hsame : finished = b.begun
    · subst hsame
      simp only [step, ReadCall.event, ReadCall.step, if_true]
      exact .quiet
    · simp only [step, ReadCall.event, ReadCall.step, if_neg hsame]
      exact .busy hsame
  | loadPosition retries stamp =>
    cases hwritten : b.tracker.isWritten offset with
    | true =>
      simp only [step, ReadCall.event, ReadCall.step, hwritten, if_true]
      exact .written hwritten
    | false =>
      simp only [step, ReadCall.event, ReadCall.step, hwritten, Bool.false_eq_true, if_false]
      exact .unwritten hwritten
  | copy retries stamp =>
    cases hblock : b.arena.read offset with
    | some block =>
      simp only [step, ReadCall.event, ReadCall.step, hblock]
      exact .copyOut hblock
    | none =>
      simp only [step, ReadCall.event, ReadCall.step, hblock]
      exact .outside hblock
  | check retries stamp block =>
    by_cases hsame : b.begun = stamp
    · subst hsame
      simp only [step, ReadCall.event, ReadCall.step, if_true]
      exact .unchanged
    · simp only [step, ReadCall.event, ReadCall.step, if_neg hsame]
      exact .changed hsame
  | done order => exact .got

/-- The relation covers every step. -/
theorem move_step (b : OptimisticBuffer) (request : Request) (thread : Thread) :
    Move b thread (thread.step b request).1 (thread.step b request).2.1
      (thread.step b request).2.2 := by
  cases thread with
  | idle => exact .start request
  | writing asked w => exact .write (writeMove_step b asked request w)
  | reading r => exact .read (readMove_step b request r)

/-- Only an idle thread begins a call. -/
theorem Move.not_start {b b' : OptimisticBuffer} {thread thread' : Thread} {event : Event}
    (h : Move b thread event b' thread') (hbusy : thread ≠ idle) : event.isStart = false := by
  cases h with
  | start request => exact absurd rfl hbusy
  | write hmove => cases hmove <;> rfl
  | read hmove => cases hmove <;> rfl

/-- A thread that writes has just begun to, or its write call has gone on. -/
theorem Move.writing_cases {b b' : OptimisticBuffer} {thread : Thread} {request : Request}
    {w : WriteCall} {event : Event} (h : Move b thread event b' (.writing request w)) :
    (event = .start request ∧ request.call b = .writing request w) ∨
      ∃ before, thread = .writing request before ∧
        WriteMove b request before event b' (.writing request w) := by
  generalize hafter : Thread.writing request w = after at h
  cases h with
  | start asked =>
    cases asked with
    | read offset => cases hafter
    | _ =>
      cases hafter
      exact Or.inl ⟨rfl, rfl⟩
  | @write asked before event b' after hmove =>
    have hasked : asked = request := by
      subst hafter
      cases hmove <;> rfl
    subst hasked
    exact Or.inr ⟨before, rfl, hafter ▸ hmove⟩
  | read hmove => cases hmove <;> cases hafter

end Thread

namespace System

/-- An empty buffer that nobody has called yet. -/
def new (capacity : Nat) (policy : RetryPolicy) : System :=
  ⟨.new capacity policy, fun _ => .idle⟩

/-- One step of thread `t`, and what it did. -/
def step (s : System) (t : Nat) (request : Request) : Event × System :=
  let (event, buffer, thread) := (s.threads t).step s.buffer request
  (event, ⟨buffer, fun u => if u = t then thread else s.threads u⟩)

/-- What a step of thread `t` can do; the other threads stay where they are. -/
structure Moves (s : System) (t : Nat) (event : Event) (s' : System) : Prop where
  /-- The thread makes a move. -/
  move : (s.threads t).Move s.buffer event s'.buffer (s'.threads t)
  /-- No other thread does. -/
  others : ∀ u, u ≠ t → s'.threads u = s.threads u

theorem moves_step (s : System) (t : Nat) (request : Request) :
    s.Moves t (s.step t request).1 (s.step t request).2 where
  move := by
    have hmove := (s.threads t).move_step s.buffer request
    simpa only [step, if_true] using hmove
  others := by
    intro u hne
    simp only [step, if_neg hne]

end System

/-- Which thread takes each step, the latest first, and what it asks for if it is
idle. -/
abbrev Schedule := List (Nat × Request)

/-- What each step did, the latest first. -/
abbrev History := List (Nat × Event)

/-- What a lock-free buffer is made with. -/
structure Setup where
  /-- Size of the buffer in bytes. -/
  capacity : Nat
  /-- How long writes and reads try. -/
  policy : RetryPolicy
deriving DecidableEq

/-- What happened since the latest call of thread `t` began. -/
def since (t : Nat) (history : History) : History :=
  history.takeWhile fun entry => !(entry.1 = t && entry.2.isStart)

theorem since_cons_start (t : Nat) (request : Request) (history : History) :
    since t ((t, .start request) :: history) = [] := by
  simp [since, Event.isStart]

theorem since_cons_of_ne {t u : Nat} (hne : u ≠ t) (event : Event) (history : History) :
    since t ((u, event) :: history) = (u, event) :: since t history := by
  simp [since, hne]

theorem since_cons_of_not_start {event : Event} (hevent : event.isStart = false) (t u : Nat)
    (history : History) : since t ((u, event) :: history) = (u, event) :: since t history := by
  simp [since, hevent]

namespace Setup

/-- The system after a schedule. -/
def system (c : Setup) : Schedule → System
  | [] => .new c.capacity c.policy
  | (t, request) :: earlier => ((c.system earlier).step t request).2

/-- What happened during a schedule. -/
def history (c : Setup) : Schedule → History
  | [] => []
  | (t, request) :: earlier => (t, ((c.system earlier).step t request).1) :: c.history earlier

/-- What holds of a new system and is kept by every step of any thread holds after
every schedule. -/
theorem invariant {motive : History → System → Prop} (c : Setup)
    (hnew : motive [] (.new c.capacity c.policy))
    (hstep : ∀ (earlier : Schedule) {t : Nat} {event : Event} {s' : System},
      motive (c.history earlier) (c.system earlier) → (c.system earlier).Moves t event s' →
        motive ((t, event) :: c.history earlier) s') (schedule : Schedule) :
    motive (c.history schedule) (c.system schedule) := by
  induction schedule with
  | nil => exact hnew
  | cons entry earlier ih =>
    exact hstep earlier ih ((c.system earlier).moves_step entry.1 entry.2)

/-- A thread that has taken no step is idle. -/
theorem idle_of_forall_ne (c : Setup) (schedule : Schedule) : ∀ u,
    (∀ entry ∈ c.history schedule, entry.1 ≠ u) → (c.system schedule).threads u = .idle := by
  apply c.invariant (motive := fun history s => ∀ u,
    (∀ entry ∈ history, entry.1 ≠ u) → s.threads u = .idle)
  · intro u _
    rfl
  · intro earlier t event s' hidle hmoves u hne
    have hu : t ≠ u := hne _ List.mem_cons_self
    rw [hmoves.others u hu.symm]
    exact hidle u fun entry hentry => hne entry (List.mem_cons_of_mem _ hentry)

end Setup

end OrderStore
