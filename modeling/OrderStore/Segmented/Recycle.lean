import OrderStore.Segmented.Place

/-!
# Overwriting and batches

When every segment is full, an overwriting write recycles whole segments, one
after the other in the order of their offsets. A batch goes into a single
segment so that its records lie next to each other.
-/

namespace OrderStore

namespace SegmentedBuffer

/-- Appends an order to the next segment in recycling order that can hold one,
emptying it first if it is full; tries at most `tries` segments. -/
def recycle (b : SegmentedBuffer) (order : Order) : (tries : Nat) → Bool × SegmentedBuffer
  | 0 => (false, b)
  | tries + 1 =>
    let victim := b.wrapIndex b.recycleCursor.toNat
    let canHold :=
      match b.segments[victim]? with
      | none => false
      | some segment => segment.region.canHoldRecord
    let b := { b with recycleCursor := b.recycleCursor + 1 }
    if canHold then
      let b := b.modifyRegion victim (·.makeRoom)
      (b.hasRoom victim, b.modifyRegion victim (·.push (encode order)))
    else recycle b order tries

/-- Appends an order, recycling a segment if all are full. -/
def appendRing (b : SegmentedBuffer) (order : Order) : Bool × SegmentedBuffer :=
  match b.append order with
  | (true, b) => (true, b)
  | (false, b) => b.recycle order b.segments.size

/-- The first of the segments with the most room among those from number
`index` on, given the best one before them. -/
def roomiest (best : Option (Nat × Nat)) : (index : Nat) → List Segment → Option (Nat × Nat)
  | _, [] => best
  | index, segment :: segments =>
    let room := segment.region.tracker.remaining
    let most := (best.map (·.2)).getD 0
    roomiest (if most < room then some (index, room) else best) (index + 1) segments

/-- The segment for a batch of `required` bytes: the first with room for all of
it, else the one with the most room if that holds any record. -/
def segmentForBatch? (b : SegmentedBuffer) (required : Nat) : Option Nat :=
  match b.segments.findIdx? (required ≤ ·.region.tracker.remaining) with
  | some index => some index
  | none =>
    match roomiest none 0 b.segments.toList with
    | some (index, room) => if recordSize ≤ room then some index else none
    | none => none

/-- Appends orders to one segment until it is full; counts those written. -/
def appendAll (b : SegmentedBuffer) (orders : List Order) : Nat × SegmentedBuffer :=
  if orders.isEmpty then (0, b)
  else
    match b.segmentForBatch? (orders.length * recordSize) with
    | none => (0, b)
    | some index =>
      match b.segments[index]? with
      | none => (0, b)
      | some ⟨start, region⟩ =>
        let (count, region) := region.pushAll orders
        (count, { b with segments := b.segments.setIfInBounds index ⟨start, region⟩ })

end SegmentedBuffer

end OrderStore
