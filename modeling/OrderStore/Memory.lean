/-!
# Memory

The program asks for its memory in allocations whose sizes it knows beforehand. One
of more than 2^63 - 1 bytes is never granted, and asking for it stops the program.
Whether a smaller one is granted is up to the machine; here there is always enough
memory for it.
-/

namespace OrderStore

/-- The most bytes that one allocation can have. -/
def maxAllocation : Nat := 0x7FFFFFFFFFFFFFFF

/-- An allocation that is asked for is larger than any can be. -/
structure AllocationTooLarge where
deriving DecidableEq

/-- The fault in words. -/
def AllocationTooLarge.message (_ : AllocationTooLarge) : String := "capacity overflow"

/-- Whether allocations of the given sizes can all be asked for. -/
def checkAllocations (sizes : List Nat) : Except AllocationTooLarge Unit :=
  if sizes.all (· ≤ maxAllocation) then .ok () else .error {}

/-- How many bytes the entries of the program's tables take. Machines differ in this. -/
structure Footprint where
  /-- A segment, the bytes of its records apart. -/
  segment : Nat := 384
  /-- The handle of a thread. -/
  handle : Nat := 24
deriving DecidableEq

end OrderStore
