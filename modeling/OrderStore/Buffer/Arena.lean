import OrderStore.Record.Basic

/-!
# A fixed region of bytes

The arena is allocated once, filled with zeros, and never grows. It copies
whole records in and out at any byte offset and refuses those that do not fit.
-/

namespace OrderStore

/-- Bytes that hold encoded records. -/
structure Arena where
  /-- The stored bytes. -/
  bytes : Array UInt8
deriving DecidableEq

/-- `bytes` with `values` written over it from `offset` on. -/
def overwrite : (values : List UInt8) → (offset : Nat) → (bytes : Array UInt8) → Array UInt8
  | [], _, bytes => bytes
  | value :: values, offset, bytes =>
    overwrite values (offset + 1) (bytes.setIfInBounds offset value)

namespace Arena

/-- A zeroed arena of `capacity` bytes. Whether it can be had is seen to where the
store that it belongs to is allocated. -/
def new (capacity : Nat) : Arena := ⟨Array.replicate capacity 0⟩

/-- How many bytes the arena has. -/
def capacity (a : Arena) : Nat := a.bytes.size

/-- Whether a whole record fits at `offset`. -/
def fits (a : Arena) (offset : Nat) : Bool := offset + recordSize ≤ a.capacity

/-- The arena with a record copied in at `offset`; one that does not fit
changes nothing. -/
def write (a : Arena) (offset : Nat) (block : Block) : Arena :=
  if a.fits offset then ⟨overwrite block.toList offset a.bytes⟩ else a

/-- The record's worth of bytes at `offset`, if it lies within the arena. -/
def read (a : Arena) (offset : Nat) : Option Block :=
  if h : offset + recordSize ≤ a.bytes.size then
    some (Vector.ofFn fun i => a.bytes[offset + i])
  else none

/-- The arena with every byte zero. -/
def clear (a : Arena) : Arena := new a.capacity

end Arena

end OrderStore
