import OrderStore.Binary64.Rounding

/-!
# Magnitudes of the binary64 format

Every finite number of the format is a whole multiple of its smallest positive
one, so a magnitude is kept as that multiple and all arithmetic is exact
arithmetic of natural numbers followed by one rounding.
-/

namespace OrderStore

/-- A magnitude in the binary64 format, as a multiple of the smallest positive
one. The format has 53 significant bits; its multiples of one unit are the
numbers below `2 ^ 53` units, then every second one, and so on. -/
structure Magnitude where
  /-- How many times the smallest positive magnitude this is. -/
  units : Nat
deriving DecidableEq

namespace Magnitude

/-- The number one is `2 ^ 1074` of the smallest positive magnitude. -/
def unitsInOne : Nat := 1 <<< 1074

/-- The first magnitude beyond the finite ones; a result that rounds to it or
further is infinite. -/
def infinity : Magnitude := ⟨1 <<< 2098⟩

/-- Whether the magnitude lies within the finite numbers of the format. -/
def isFinite (m : Magnitude) : Bool := m.units < infinity.units

/-- The magnitude nearest to `num / den`, a tie going to the even significand.
The spacing of the format at a number of `n` bits is `2 ^ (n - 53)` units. -/
def ofRatio (num den : Nat) : Magnitude :=
  let scaled := num * unitsInOne
  let spacing := 1 <<< (Nat.log2 (scaled / den) - 52)
  ⟨roundDiv scaled (den * spacing) * spacing⟩

/-- The magnitude nearest to a natural number. -/
def ofNat (n : Nat) : Magnitude := ofRatio n 1

/-- The rounded quotient of two magnitudes. -/
def div (a b : Magnitude) : Magnitude := ofRatio a.units b.units

/-- The rounded product of two magnitudes. -/
def mul (a b : Magnitude) : Magnitude :=
  ofRatio (a.units * b.units) (unitsInOne * unitsInOne)

/-- The least natural number that is not below the magnitude. -/
def ceil (m : Magnitude) : Nat := (m.units + (unitsInOne - 1)) / unitsInOne

/-- The 63 bits that hold the magnitude: above `2 ^ 52` units the top 53 bits
are the significand, whose leading one merges into the exponent field. -/
def toBits (m : Magnitude) : Nat :=
  let exponent := Nat.log2 m.units - 52
  if m.isFinite then (exponent <<< 52) + (m.units >>> exponent) else 2047 <<< 52

/-- The magnitude held by 63 bits. An exponent field of all ones reads as a
magnitude that is not finite. -/
def ofBits (bits : Nat) : Magnitude :=
  let exponent := bits >>> 52
  let fraction := bits % (1 <<< 52)
  ⟨if exponent = 0 then fraction else ((1 <<< 52) + fraction) <<< (exponent - 1)⟩

end Magnitude

end OrderStore
