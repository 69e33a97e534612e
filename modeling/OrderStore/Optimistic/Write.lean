import OrderStore.Optimistic.Basic

/-!
# Writing without a lock

A write call is a sequence of steps, each of them one atomic access to the
shared state: bump the first stamp, load the position, claim room by
compare-and-swap, copy the bytes, bump the second stamp. Any number of calls can
take their steps in any order; a call that is alone takes them one after the
other.
-/

namespace OrderStore

/-- What a write call does next. -/
inductive WritePhase where
  /-- Bump the stamp of begun writes. -/
  | begin
  /-- Load the position; `retries` more attempts are left after this one. -/
  | load (retries : Nat)
  /-- Move the position from `position`, where nothing fits, back to zero. -/
  | rewind (retries position : Nat)
  /-- Claim room for `count` records at `position`. -/
  | reserve (retries position count : Nat)
  /-- Copy the first `count` records into the room claimed at `position`. -/
  | copy (position count : Nat)
  /-- Bump the stamp of finished writes. -/
  | finish (count : Nat)
  /-- Nothing: `count` records were written. -/
  | done (count : Nat)
deriving DecidableEq

/-- A write call under way. -/
structure WriteCall where
  /-- The records to write, staged before the call touches shared state. -/
  blocks : List Block
  /-- Whether a full buffer is written again from its start. -/
  wraps : Bool
  /-- What comes next. -/
  phase : WritePhase
deriving DecidableEq

namespace WritePhase

/-- The next attempt if one is left, else the end of the call with nothing
written. -/
def attempt : (retries : Nat) → WritePhase
  | 0 => finish 0
  | retries + 1 => load retries

end WritePhase

namespace WriteCall

/-- A call that appends one record. -/
def append (block : Block) : WriteCall := ⟨[block], false, .begin⟩

/-- A call that claims room for as many of the records as fit, all at once. It
touches nothing if the buffer could not hold any of them. -/
def batch (capacity : Nat) (blocks : List Block) : WriteCall :=
  let wanted := min blocks.length (capacity / recordSize)
  ⟨blocks.take wanted, false, if wanted = 0 then .done 0 else .begin⟩

/-- A call that appends one record and starts over in a full buffer. It touches
nothing if the buffer is too small for any record. -/
def ring (capacity : Nat) (block : Block) : WriteCall :=
  ⟨[block], true, if recordSize ≤ capacity then .begin else .done 0⟩

/-- How many records of the call fit after `position`. -/
def countAfter (w : WriteCall) (b : OptimisticBuffer) (position : Nat) : Nat :=
  min w.blocks.length (b.tracker.recordsAfter position)

/-- One step of a write call on the shared state. -/
def step (b : OptimisticBuffer) (w : WriteCall) : OptimisticBuffer × WriteCall :=
  match w.phase with
  | .begin =>
    let attempts := b.policy.maxAttempts.toNat
    ({ b with begun := b.begun + 1 }, { w with phase := .attempt attempts })
  | .load retries =>
    let position := b.tracker.position
    let count := w.countAfter b position
    let phase :=
      if count ≠ 0 then .reserve retries position count
      else if w.wraps then .rewind retries position
      else .finish 0
    (b, { w with phase })
  | .rewind retries position =>
    match b.tracker.compareExchange position 0 with
    | .ok tracker =>
      let count := w.countAfter b 0
      ({ b with tracker }, { w with phase := .reserve retries 0 count })
    | .error _ => (b, { w with phase := .attempt retries })
  | .reserve retries position count =>
    match b.tracker.compareExchange position (position + count * recordSize) with
    | .ok tracker => ({ b with tracker }, { w with phase := .copy position count })
    | .error _ => (b, { w with phase := .attempt retries })
  | .copy position count =>
    ({ b with arena := b.arena.writeAll position (w.blocks.take count) },
      { w with phase := .finish count })
  | .finish count => ({ b with finished := b.finished + 1 }, { w with phase := .done count })
  | .done _ => (b, w)

/-- Lets a call take up to `steps` steps on its own; answers how many records it
wrote. -/
def run : (steps : Nat) → OptimisticBuffer → WriteCall → Nat × OptimisticBuffer
  | 0, b, w =>
    match w.phase with
    | .done count => (count, b)
    | _ => (0, b)
  | steps + 1, b, w =>
    match w.phase with
    | .done count => (count, b)
    | _ =>
      let (b, w) := step b w
      run steps b w

end WriteCall

namespace OptimisticBuffer

/-- The most steps a write call takes: four per attempt, and those around
them. -/
def writeSteps (b : OptimisticBuffer) : Nat := 4 * b.policy.maxAttempts.toNat + 4

/-- Appends an order unless there is no room. -/
def append (b : OptimisticBuffer) (order : Order) : Bool × OptimisticBuffer :=
  let (count, b) := WriteCall.run b.writeSteps b (.append (encode order))
  (count != 0, b)

/-- Appends as many of the orders as fit. -/
def appendAll (b : OptimisticBuffer) (orders : List Order) : Nat × OptimisticBuffer :=
  WriteCall.run b.writeSteps b (.batch b.tracker.capacity (orders.map encode))

/-- Appends an order, starting over from offset zero in a full buffer. -/
def appendRing (b : OptimisticBuffer) (order : Order) : Bool × OptimisticBuffer :=
  let (count, b) := WriteCall.run b.writeSteps b (.ring b.tracker.capacity (encode order))
  (count != 0, b)

end OptimisticBuffer

end OrderStore
