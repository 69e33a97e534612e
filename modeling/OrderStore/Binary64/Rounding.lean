/-!
# Rounding a quotient to a whole number

Every rounding in this library, of a binary number to its format as well as of
a number to a few decimals, is one rounded division of natural numbers.
-/

namespace OrderStore

/-- The natural number nearest to `num / den`; a quotient halfway between two
neighbours goes to the even one. -/
def roundDiv (num den : Nat) : Nat :=
  let floor := num / den
  let rest := 2 * (num % den)
  if rest < den then floor
  else if den < rest then floor + 1
  else floor + floor % 2

end OrderStore
