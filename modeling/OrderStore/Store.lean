import OrderStore.Optimistic.Read
import OrderStore.Optimistic.Write
import OrderStore.Segmented.Recycle
import OrderStore.Strategy

/-!
# Stores

A store of orders with any of the four strategies. A full store is no error:
an append answers whether it wrote, a batch how much, and a read finds an order
only where one is completely written.
-/

namespace OrderStore

/-- A store with one of the four strategies. -/
inductive Store where
  /-- A region under a lock that admits one call at a time. -/
  | exclusive (region : Region)
  /-- A lock-free buffer. -/
  | optimistic (buffer : OptimisticBuffer)
  /-- A region under a lock that admits readers together. -/
  | readWrite (region : Region)
  /-- A segmented buffer. -/
  | segmented (buffer : SegmentedBuffer)
deriving DecidableEq

/-- Why there is no store. -/
inductive BuildError where
  /-- None can be built as configured. -/
  | config (fault : ConfigError)
  /-- It asks for too much memory at once. -/
  | memory (fault : AllocationTooLarge)
deriving DecidableEq

namespace Store

/-- An empty store for a valid configuration. -/
def build (strategy : Strategy) (config : StoreConfig) : Except ConfigError Store :=
  let capacity := config.capacity.toNat
  match config.validate with
  | .error fault => .error fault
  | .ok () =>
    .ok <| match strategy with
      | .exclusive => exclusive (.new capacity)
      | .optimistic => optimistic (.new capacity config.optimistic)
      | .readWrite => readWrite (.new capacity)
      | .segmented => segmented (.new capacity config.segmentCount.toNat)

/-- The sizes of the allocations that an empty store of `capacity` bytes consists
of. -/
def allocations (footprint : Footprint) (strategy : Strategy) (capacity segmentCount : Nat) :
    List Nat :=
  match strategy with
  | .segmented => SegmentedBuffer.allocations footprint capacity segmentCount
  | _ => [capacity]

/-- The store that `build` gives, if the memory for it can be asked for. -/
def allocate (footprint : Footprint) (strategy : Strategy) (config : StoreConfig) :
    Except BuildError Store :=
  match config.validate with
  | .error fault => .error (.config fault)
  | .ok () =>
    match checkAllocations
        (allocations footprint strategy config.capacity.toNat config.segmentCount.toNat) with
    | .error fault => .error (.memory fault)
    | .ok () => (build strategy config).mapError .config

/-- The strategy of a store. -/
def strategy : Store → Strategy
  | exclusive _ => .exclusive
  | optimistic _ => .optimistic
  | readWrite _ => .readWrite
  | segmented _ => .segmented

/-- Appends an order; answers whether there was room. -/
def append : Store → Order → Bool × Store
  | exclusive region, order => (region.hasRoom, exclusive (region.push (encode order)))
  | optimistic buffer, order => (buffer.append order).map id optimistic
  | readWrite region, order => (region.hasRoom, readWrite (region.push (encode order)))
  | segmented buffer, order => (buffer.append order).map id segmented

/-- Appends orders up to the first that does not fit; answers how many were
written. -/
def appendAll : Store → List Order → Nat × Store
  | exclusive region, orders => (region.pushAll orders).map id exclusive
  | optimistic buffer, orders => (buffer.appendAll orders).map id optimistic
  | readWrite region, orders => (region.pushAll orders).map id readWrite
  | segmented buffer, orders => (buffer.appendAll orders).map id segmented

/-- Appends an order, overwriting old ones in a full store; answers whether it
was written. -/
def appendRing : Store → Order → Bool × Store
  | exclusive region, order =>
    let region := region.makeRoom
    (region.hasRoom, exclusive (region.push (encode order)))
  | optimistic buffer, order => (buffer.appendRing order).map id optimistic
  | readWrite region, order =>
    let region := region.makeRoom
    (region.hasRoom, readWrite (region.push (encode order)))
  | segmented buffer, order => (buffer.appendRing order).map id segmented

/-- The order at byte `offset`, if a record starts there and is written. -/
def read : Store → (offset : Nat) → Option Order
  | exclusive region, offset => region.read offset
  | optimistic buffer, offset => buffer.read offset
  | readWrite region, offset => region.read offset
  | segmented buffer, offset => buffer.read offset

/-- The orders at several offsets. Where readers share the lock, they are read
under one hold of it. -/
def readMany : Store → (offsets : List Nat) → List (Option Order)
  | readWrite region, offsets => region.readMany offsets
  | s, offsets => offsets.map s.read

/-- The store emptied and its bytes zeroed. -/
def reset : Store → Store
  | exclusive region => exclusive region.clear
  | optimistic buffer => optimistic buffer.clear
  | readWrite region => readWrite region.clear
  | segmented buffer => segmented buffer.clear

/-- The store emptied, its bytes left as they are. -/
def forceReset : Store → Store
  | exclusive region => exclusive region.rewind
  | optimistic buffer => optimistic buffer.rewind
  | readWrite region => readWrite region.rewind
  | segmented buffer => segmented buffer.rewind

/-- Bytes written. -/
def used : Store → Nat
  | exclusive region => region.used
  | optimistic buffer => buffer.tracker.used
  | readWrite region => region.used
  | segmented buffer => buffer.used

/-- Size of the store in bytes. -/
def capacity : Store → Nat
  | exclusive region => region.capacity
  | optimistic buffer => buffer.tracker.capacity
  | readWrite region => region.capacity
  | segmented buffer => buffer.capacity

/-- Bytes still free. -/
def remaining : Store → Nat
  | readWrite region => region.tracker.remaining
  | s => s.capacity - s.used

/-- Whole records that still fit. -/
def remainingRecords (s : Store) : Nat := s.remaining / recordSize

/-- The store's usage. -/
def status (s : Store) : BufferStatus := ⟨s.used, s.capacity - s.used, s.capacity⟩

/-- Whether the used share of the store is above `threshold`. -/
def isNearFull (s : Store) (threshold : Binary64) : Bool :=
  threshold.below (.ofMagnitude (utilisation s.used s.capacity))

/-- How many record slots the store has, written or not. -/
def slots (s : Store) : Nat := s.capacity / recordSize

/-- Every order that can be read, by increasing offset. -/
def contents (s : Store) : List Order :=
  (List.range s.slots).filterMap fun slot => s.read (slot * recordSize)

end Store

end OrderStore
