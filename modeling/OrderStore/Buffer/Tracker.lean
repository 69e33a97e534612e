import OrderStore.Record.Basic

/-!
# Where the next record goes

A tracker keeps the next free offset of a region. Locked writers store a new
position; lock-free writers move it by compare-and-swap and learn the position
they lost to.
-/

namespace OrderStore

/-- Whether `offset` is a multiple of the record size and the whole record
there ends at or before `limit`. -/
def isRecordWithin (offset limit : Nat) : Bool :=
  offset % recordSize = 0 ∧ offset + recordSize ≤ limit

/-- The next free offset of a region of `capacity` bytes. -/
structure Tracker where
  /-- Size of the region in bytes. -/
  capacity : Nat
  /-- Next free offset, which is also how many bytes are written. -/
  position : Nat
deriving DecidableEq

namespace Tracker

/-- The tracker of an empty region. -/
def new (capacity : Nat) : Tracker := ⟨capacity, 0⟩

/-- Whether one more record fits after `position`. -/
def hasRoomAfter (t : Tracker) (position : Nat) : Bool := position + recordSize ≤ t.capacity

/-- Whether a record starts at `offset` and is completely written. -/
def isWritten (t : Tracker) (offset : Nat) : Bool := isRecordWithin offset t.position

/-- The tracker moved to `position`. -/
def store (t : Tracker) (position : Nat) : Tracker := { t with position }

/-- The tracker moved on by one record. -/
def advance (t : Tracker) : Tracker := t.store (t.position + recordSize)

/-- The tracker moved back to the start. -/
def reset (t : Tracker) : Tracker := t.store 0

/-- Moves from `current` to `next` if the position still is `current`;
otherwise reports the position found. -/
def compareExchange (t : Tracker) (current next : Nat) : Except Nat Tracker :=
  if t.position = current then .ok (t.store next) else .error t.position

/-- Claims the record's worth of bytes at `current`. -/
def reserve (t : Tracker) (current : Nat) : Except Nat Tracker :=
  t.compareExchange current (current + recordSize)

/-- Bytes written. -/
def used (t : Tracker) : Nat := t.position

/-- Bytes still free. -/
def remaining (t : Tracker) : Nat := t.capacity - t.position

/-- How many whole records still fit after `position`. -/
def recordsAfter (t : Tracker) (position : Nat) : Nat := (t.capacity - position) / recordSize

end Tracker

end OrderStore
