import OrderStore.Buffer.Region
import OrderStore.Config.Basic

/-!
# The lock-free buffer

Writers claim room by moving the position with a compare-and-swap, and only the
copying of bytes is done under a lock. Two stamps bracket every write: one
counts the writes that have begun, the other those that have finished. While
the stamps differ, some write is under way and readers must not trust what they
copy.
-/

namespace OrderStore

/-- The state that all calls on a lock-free buffer share. -/
structure OptimisticBuffer where
  /-- How long writes and reads try. -/
  policy : RetryPolicy
  /-- Up to where room is claimed. -/
  tracker : Tracker
  /-- How many writes have begun. -/
  begun : UInt64
  /-- How many writes have finished, given up ones included. -/
  finished : UInt64
  /-- The records' bytes. -/
  arena : Arena
deriving DecidableEq

namespace OptimisticBuffer

/-- An empty buffer of `capacity` bytes. -/
def new (capacity : Nat) (policy : RetryPolicy) : OptimisticBuffer :=
  ⟨policy, .new capacity, 0, 0, .new capacity⟩

/-- Both stamps together: two more for every finished write. -/
def version (b : OptimisticBuffer) : UInt64 := b.finished + b.begun

/-- The buffer with its position back at the start, the bytes untouched. -/
def rewind (b : OptimisticBuffer) : OptimisticBuffer := { b with tracker := b.tracker.reset }

/-- The buffer with its position back at the start and every byte zero. -/
def clear (b : OptimisticBuffer) : OptimisticBuffer :=
  { b with tracker := b.tracker.reset, arena := b.arena.clear }

end OptimisticBuffer

/-- The arena with records copied in one behind the other from `offset` on. -/
def Arena.writeAll (a : Arena) (offset : Nat) : List Block → Arena
  | [] => a
  | block :: blocks => (a.write offset block).writeAll (offset + recordSize) blocks

end OrderStore
