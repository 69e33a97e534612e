import OrderStore.Binary64.Basic
import OrderStore.Binary64.Decimal
import OrderStore.Record.Basic

/-!
# Usage of a buffer

How full a buffer is, as numbers and as a line of text.
-/

namespace OrderStore

/-- The used share of `capacity`. A buffer without any capacity is full. -/
def utilisation (used capacity : Nat) : Magnitude :=
  if capacity = 0 then .ofNat 1 else (Magnitude.ofNat used).div (.ofNat capacity)

/-- Usage of a buffer at one moment, in bytes. -/
structure BufferStatus where
  /-- Bytes written. -/
  used : Nat
  /-- Bytes still free. -/
  remaining : Nat
  /-- Size of the buffer. -/
  capacity : Nat
deriving DecidableEq

namespace BufferStatus

/-- The used share of the capacity. -/
def utilisation (s : BufferStatus) : Magnitude := OrderStore.utilisation s.used s.capacity

/-- How many whole records are written. -/
def records (s : BufferStatus) : Nat := s.used / recordSize

/-- A number of bytes in kibibytes with one decimal. -/
def kibibytes (bytes : Nat) : String :=
  ((Magnitude.ofNat bytes).div (.ofNat 1024)).toFixed 1 ++ "KB"

/-- The usage as a line of text. -/
def describe (s : BufferStatus) : String :=
  let percent := (s.utilisation.mul (.ofNat 100)).toFixed 1
  s!"{s.records} records, {kibibytes s.used}/{kibibytes s.capacity} ({percent}%)"

end BufferStatus

end OrderStore
