import OrderStore.Benchmark.Synthetic
import OrderStore.Latency.Recorder
import OrderStore.Store

/-!
# The workload

Writers write synthetic orders with numbers of their own, and readers go round
the slots of the store. Every call is timed by a clock that the surrounding
monad provides, so that the same workload runs with a real clock or without
any.
-/

namespace OrderStore

/-- A word of 64 bits as one of 32 bits, if it fits. -/
def narrow? (n : UInt64) : Option UInt32 :=
  if n.toNat < UInt32.size then some n.toUInt32 else none

/-- The product of two words, if it fits into a word. -/
def product? (a b : UInt32) : Option UInt32 :=
  if a.toNat * b.toNat < UInt32.size then some (a * b) else none

/-- Whether the orders of all writers can be numbered with 32 bits, writer `w`
taking the numbers from `w * records` on. -/
def fitsIdSpace (writers : UInt64) (records : UInt32) : Bool :=
  ((narrow? writers).bind fun writers => product? writers records).isSome

/-- The number of the order that writer `writer` writes after `i` others. -/
def orderId (records : UInt32) (writer i : Nat) : UInt32 :=
  UInt32.ofNat writer * records + UInt32.ofNat i

/-- The numbers of the orders that writer `writer` writes. -/
def writerIds (records : UInt32) (writer : Nat) : List UInt32 :=
  (List.range records.toNat).map (orderId records writer)

/-- How many slots a reader moves on after each read. -/
def readStride : Nat := 7919

/-- The slots that a reader visits in `steps` reads among `slots`, moving on from
slot `slot`. -/
def sweep (slots : Nat) : (steps slot : Nat) → List Nat
  | 0, _ => []
  | steps + 1, slot =>
    let next := (slot + readStride) % slots
    next :: sweep slots steps next

/-- The slots of one round of a reader that starts from slot `slot`: as many as
the store has. -/
def readerSlots (slots slot : Nat) : List Nat := sweep (max slots 1) (max slots 1) slot

variable {m : Type → Type} [Monad m]

/-- One call on the store and how long it took by the clock `now`. -/
def timed {α : Type} (now : m Nat) (call : Store → α × Store) : StateT Store m (α × Nat) :=
  fun store => do
    let start ← now
    let (answer, store) := call store
    let stop ← now
    return ((answer, stop - start), store)

/-- Writes the synthetic order with the given number and records the outcome. -/
def writeOne (now : m Nat) (ring : Bool) (recorder : Recorder) (id : UInt32) :
    StateT Store m Recorder := do
  let order := syntheticOrder id
  let (written, nanos) ← timed now fun store =>
    if ring then store.appendRing order else store.append order
  return recorder.record written nanos

/-- Writes the synthetic orders with the given numbers, one by one. -/
def runWriter (now : m Nat) (ring : Bool) (ids : List UInt32) : StateT Store m Recorder :=
  ids.foldlM (writeOne now ring) {}

/-- Reads a slot, records the outcome and counts the order if it is not as it was
written. -/
def readOne (now : m Nat) (outcomes : Recorder × Nat) (slot : Nat) :
    StateT Store m (Recorder × Nat) := do
  let (recorder, corrupt) := outcomes
  let (order, nanos) ← timed now fun store => (store.read (slot * recordSize), store)
  let isCorrupt := order.any Order.isCorrupt
  return (recorder.record order.isSome nanos, if isCorrupt then corrupt + 1 else corrupt)

/-- Reads the given slots, one by one, and counts the orders that are not as
they were written. -/
def runReader (now : m Nat) (slots : List Nat) : StateT Store m (Recorder × Nat) :=
  slots.foldlM (readOne now) ({}, 0)

/-- Why the outcomes of a writer are lost. -/
inductive LostWriter where
  /-- It ended without a result. -/
  | noResult
  /-- Its latencies cannot be merged with those of the others. -/
  | unmergeable (fault : Histogram.MergeError)
deriving DecidableEq

/-- The outcomes of all writers together, unless those of one are lost. -/
def mergeWriters : (merged : Recorder) → List (Option Recorder) → Except LostWriter Recorder
  | merged, [] => .ok merged
  | _, none :: _ => .error .noResult
  | merged, some recorder :: rest =>
    match merged.merge? recorder with
    | .error fault => .error (.unmergeable fault)
    | .ok merged => mergeWriters merged rest

/-- Waits for every writer, then releases the readers, which go round until
then, and only then sees whether all writers have a result. -/
def joinWriters (writers : List (m (Option Recorder))) (release : m Unit) :
    m (Except LostWriter Recorder) := do
  let results ← writers.mapM id
  release
  return mergeWriters {} results

end OrderStore
