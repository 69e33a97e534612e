import OrderStore.Buffer.Arena
import OrderStore.Buffer.Tracker
import OrderStore.Record.Codec

/-!
# A region under one lock

An arena with its tracker, as the holder of the lock sees it: records are
appended at the position, and only records below it can be read. Rewinding
makes all records unreadable at once, whether or not their bytes are cleared.
-/

namespace OrderStore

/-- Bytes and the position up to which they hold records. -/
structure Region where
  /-- Next free offset. -/
  tracker : Tracker
  /-- The records' bytes. -/
  arena : Arena
deriving DecidableEq

namespace Region

/-- An empty region of `capacity` bytes. -/
def new (capacity : Nat) : Region := ⟨.new capacity, .new capacity⟩

/-- Size of the region in bytes. -/
def capacity (r : Region) : Nat := r.tracker.capacity

/-- Bytes written. -/
def used (r : Region) : Nat := r.tracker.used

/-- Whether another record fits. -/
def hasRoom (r : Region) : Bool := r.tracker.hasRoomAfter r.tracker.position

/-- Whether the region could hold a record if it were empty. -/
def canHoldRecord (r : Region) : Bool := r.tracker.hasRoomAfter 0

/-- The region with a record appended, or unchanged if there is no room. -/
def push (r : Region) (block : Block) : Region :=
  if r.hasRoom then
    let position := r.tracker.position
    { tracker := r.tracker.store (position + recordSize)
      arena := r.arena.write position block }
  else r

/-- Appends orders up to the first that does not fit; counts those written. -/
def pushAll (r : Region) : List Order → Nat × Region
  | [] => (0, r)
  | order :: orders =>
    if r.hasRoom then
      let (count, r) := (r.push (encode order)).pushAll orders
      (count + 1, r)
    else (0, r)

/-- The region with its position back at the start, the bytes untouched. -/
def rewind (r : Region) : Region := { r with tracker := r.tracker.reset }

/-- The region with its position back at the start and every byte zero. -/
def clear (r : Region) : Region := ⟨r.tracker.reset, r.arena.clear⟩

/-- The region made ready for an overwriting append: a full one that could hold
a record starts again at offset zero. -/
def makeRoom (r : Region) : Region :=
  if !r.hasRoom && r.canHoldRecord then r.rewind else r

/-- The order at `offset`, if a record starts there and is written. -/
def read (r : Region) (offset : Nat) : Option Order :=
  if r.tracker.isWritten offset then
    match r.arena.read offset with
    | none => none
    | some block => (decodeBlock block).toOption
  else none

/-- The orders at several offsets, all read while the lock is held once. -/
def readMany (r : Region) : List Nat → List (Option Order)
  | [] => []
  | offset :: offsets =>
    let order :=
      if r.tracker.isWritten offset then
        match r.arena.read offset with
        | none => none
        | some block => (decodeBlock block).toOption
      else none
    order :: r.readMany offsets

end Region

end OrderStore
