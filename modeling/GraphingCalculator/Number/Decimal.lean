import GraphingCalculator.Number.Binary64

/-!
Decimal numbers, exactly, and the double that each of them reads as.
-/

namespace GraphingCalculator

/-- The number `coefficient * 10 ^ exponent`. -/
structure Decimal where
  coefficient : Nat
  exponent : Int
deriving DecidableEq, Repr

namespace Decimal

/-- The value of a digit string; the empty string is zero. -/
def digitsValue (digits : List Char) : Nat :=
  digits.foldl (fun value digit => 10 * value + (digit.toNat - '0'.toNat)) 0

/-- The decimal that is written as the digits `whole`, a point, the digits `fraction` and a power
of ten. -/
def ofDigits (whole fraction : List Char) (exponent : Int) : Decimal where
  coefficient := digitsValue (whole ++ fraction)
  exponent := exponent - fraction.length

/-- A power of ten from which every positive integer coefficient overflows. -/
def greatestExponent : Int := 310

/-- A power of ten at which a coefficient of this size is far below half of the least positive
double: `coefficient < 10 ^ (log2 coefficient / 3 + 1)`. -/
def leastExponent (coefficient : Nat) : Int :=
  -((coefficient.log2 / 3 + 332 : Nat) : Int)

/-- The rank of the nearest double, ties to even. Beyond the greatest and the least exponent the
answer no longer changes, so no larger power of ten is ever computed. -/
def rank (d : Decimal) : Nat :=
  let exponent := max (leastExponent d.coefficient) (min d.exponent greatestExponent)
  if 0 ≤ exponent then
    Binary64.nearestRank (d.coefficient * Nat.pow 10 exponent.toNat) 1
  else
    Binary64.nearestRank d.coefficient (Nat.pow 10 (-exponent).toNat)

/-- The double that the decimal reads as. -/
def toFloat (d : Decimal) : Float :=
  Binary64.ofRank d.rank

end Decimal

end GraphingCalculator
