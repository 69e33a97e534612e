import OrderStore.Binary64.Magnitude

/-!
# Binary64 numbers by their bits

A stored number is kept as its 64 bits, so that nothing of it is lost: the
payload of a not-a-number and the sign of a zero are part of the value. The
numeric comparisons look at what the bits stand for.
-/

namespace OrderStore

/-- A number of the binary64 format, given by its bit pattern. -/
structure Binary64 where
  /-- Sign, exponent field and fraction, from the highest bit down. -/
  bits : UInt64
deriving DecidableEq

namespace Binary64

/-- Positive zero. -/
def zero : Binary64 := ⟨0⟩

/-- The non-negative number of the given magnitude. -/
def ofMagnitude (m : Magnitude) : Binary64 := ⟨UInt64.ofNat m.toBits⟩

/-- Whether the sign bit is set, also on a zero. -/
def isNegative (x : Binary64) : Bool := 1 <<< 63 ≤ x.bits.toNat

/-- The size of the number without its sign. -/
def magnitude (x : Binary64) : Magnitude := Magnitude.ofBits (x.bits.toNat % (1 <<< 63))

/-- Whether the bits stand for no number at all: the exponent field is all ones
and the fraction is not zero. -/
def isNaN (x : Binary64) : Bool := 2047 <<< 52 < x.bits.toNat % (1 <<< 63)

/-- The number as a multiple of the smallest positive one; both zeros are `0`
and an infinity lies beyond every finite number. -/
def toUnits (x : Binary64) : Int :=
  if x.isNegative then -(x.magnitude.units : Int) else x.magnitude.units

/-- Numeric equality: the two zeros are equal, and a not-a-number differs from
everything, itself included. -/
def equals (x y : Binary64) : Bool :=
  !x.isNaN && !y.isNaN && x.toUnits == y.toUnits

/-- Numeric order: a not-a-number is below nothing. -/
def below (x y : Binary64) : Bool :=
  !x.isNaN && !y.isNaN && x.toUnits < y.toUnits

end Binary64

end OrderStore
