import OrderStore.Buffer.Region
import OrderStore.Memory
import OrderStore.Status

/-!
# The segmented buffer

The buffer is split into consecutive segments, each a region under a lock of its
own. Segments are whole records long; what is left over goes to the last one,
so that no record's worth of room is lost.
-/

namespace OrderStore

/-- A part of the buffer with its own lock. -/
structure Segment where
  /-- Offset of the segment within the whole buffer. -/
  start : Nat
  /-- Its bytes; offsets within count from its start. -/
  region : Region
deriving DecidableEq

namespace Segment

/-- An empty segment of `size` bytes. -/
def new (start size : Nat) : Segment := ⟨start, .new size⟩

/-- How many bytes the segment has. -/
def size (s : Segment) : Nat := s.region.capacity

/-- Whether the byte at `offset` of the buffer belongs to the segment. -/
def contains (s : Segment) (offset : Nat) : Bool :=
  s.start ≤ offset ∧ offset - s.start < s.size

/-- The segment's usage. -/
def status (s : Segment) : BufferStatus :=
  ⟨s.region.used, s.region.tracker.remaining, s.size⟩

end Segment

/-- A buffer split into segments. -/
structure SegmentedBuffer where
  /-- Size of the whole buffer in bytes. -/
  capacity : Nat
  /-- The segments in the order of their offsets. -/
  segments : Array Segment
  /-- Number of the next write, which says where it looks for room first. -/
  writeCounter : UInt64
  /-- Number of the next recycling, which says which full segment is next. -/
  recycleCursor : UInt64
deriving DecidableEq

namespace SegmentedBuffer

/-- The size of every segment but the last when `capacity` bytes are split
evenly into whole records. -/
def segmentSize (capacity count : Nat) : Nat := capacity / count / recordSize * recordSize

/-- An empty buffer of `capacity` bytes in `count` segments. -/
def new (capacity count : Nat) : SegmentedBuffer :=
  let size := segmentSize capacity count
  let segments := Array.ofFn fun i : Fin count =>
    let start := i * size
    Segment.new start (if i + 1 = count then capacity - start else size)
  ⟨capacity, segments, 0, 0⟩

/-- The sizes of the allocations that an empty buffer consists of: the table of its
segments, each segment but the last, and the last one, which is never smaller. -/
def allocations (footprint : Footprint) (capacity count : Nat) : List Nat :=
  let size := segmentSize capacity count
  [footprint.segment * count, size, capacity - (count - 1) * size]

/-- A buffer cannot be split into no segments at all. -/
structure NoSegmentsError where
deriving DecidableEq

/-- The fault in words. -/
def NoSegmentsError.message (_ : NoSegmentsError) : String :=
  "Segment count must be at least 1"

/-- An empty buffer of `capacity` bytes in `count` segments, of which there has
to be one. -/
def withSegments (capacity count : Nat) : Except NoSegmentsError SegmentedBuffer :=
  if count = 0 then .error {} else .ok (new capacity count)

/-- Bytes written in all segments. -/
def used (b : SegmentedBuffer) : Nat :=
  b.segments.foldr (fun segment total => segment.region.used + total) 0

/-- Usage of each segment. -/
def segmentStatus (b : SegmentedBuffer) : Array BufferStatus := b.segments.map (·.status)

/-- The segment that owns the byte at `offset`. -/
def segmentFor? (b : SegmentedBuffer) (offset : Nat) : Option Segment :=
  b.segments.find? (·.contains offset)

/-- The order at `offset`, if a record starts there and is written. -/
def read (b : SegmentedBuffer) (offset : Nat) : Option Order :=
  match b.segmentFor? offset with
  | none => none
  | some segment => segment.region.read (offset - segment.start)

/-- Which segment is number `index` when counting goes round and round. -/
def wrapIndex (b : SegmentedBuffer) (index : Nat) : Nat := index % b.segments.size

/-- Whether segment `index` has room for a record. -/
def hasRoom (b : SegmentedBuffer) (index : Nat) : Bool :=
  match b.segments[index]? with
  | none => false
  | some segment => segment.region.hasRoom

/-- The buffer with the region of segment `index` changed by `change`. -/
def modifyRegion (b : SegmentedBuffer) (index : Nat) (change : Region → Region) :
    SegmentedBuffer :=
  { b with
    segments := b.segments.modify index fun segment =>
      { segment with region := change segment.region } }

/-- The buffer with every region changed by `change`. -/
def mapRegions (b : SegmentedBuffer) (change : Region → Region) : SegmentedBuffer :=
  { b with
    segments := b.segments.map fun segment =>
      { segment with region := change segment.region } }

/-- The buffer with every position back at the start, the bytes untouched. -/
def rewind (b : SegmentedBuffer) : SegmentedBuffer := b.mapRegions (·.rewind)

/-- The buffer with every position back at the start and every byte zero. -/
def clear (b : SegmentedBuffer) : SegmentedBuffer := b.mapRegions (·.clear)

end SegmentedBuffer

end OrderStore
