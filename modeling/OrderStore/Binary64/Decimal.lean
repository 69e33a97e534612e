import OrderStore.Binary64.Magnitude

/-!
# Decimal text with a fixed number of places

The exact binary value is rounded once, to the wanted number of decimals, and
then written out.
-/

namespace OrderStore

/-- `digits` with zeros in front up to `width` characters. -/
def zeroPadded (width : Nat) (digits : String) : String :=
  String.ofList (digits.toList.leftpad width '0')

namespace Magnitude

/-- The magnitude in units of `10 ^ -places`, rounded to the nearest one. -/
def decimalUnits (places : Nat) (m : Magnitude) : Nat :=
  roundDiv (m.units * Nat.pow 10 places) unitsInOne

/-- The magnitude with exactly `places` decimals; without decimals there is no
point either. -/
def toFixed (places : Nat) (m : Magnitude) : String :=
  let total := m.decimalUnits places
  let whole := toString (total / Nat.pow 10 places)
  if places = 0 then whole
  else whole ++ "." ++ zeroPadded places (toString (total % Nat.pow 10 places))

end Magnitude

end OrderStore
