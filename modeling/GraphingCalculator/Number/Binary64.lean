/-!
Doubles by rank. Read as a number, the bit pattern of a nonnegative double is its place in the
increasing order of all of them: rank 0 is zero, rank 1 the least positive double, and infinity
comes right after the greatest finite one. Rounding a ratio to a double is therefore one rounded
division, and the carry into the next power of two needs no care.
-/

namespace GraphingCalculator.Binary64

/-- The number of doubles from one power of two to the next, `2 ^ 52`. -/
def binade : Nat := 0x10000000000000

/-- The value of the sign bit, `2 ^ 63`. -/
def signBit : Nat := 0x8000000000000000

/-- The rank of positive infinity. The finite doubles lie below it, the NaN patterns above it. -/
def infinityRank : Nat := 0x7ff0000000000000

/-- The integer significand of a rank: the fraction bits, behind a leading one unless the double is
subnormal. -/
def significand (rank : Nat) : Nat :=
  if rank < binade then rank else binade + rank % binade

/-- The value of a finite rank in units of `2 ^ -1074`, the least positive double. -/
def scaled (rank : Nat) : Nat :=
  significand rank <<< (rank / binade - 1)

/-- The quotient rounded to the nearest integer; a tie goes to the even neighbour. -/
def roundedDiv (num den : Nat) : Nat :=
  let quotient := num / den
  let twice := 2 * (num % den)
  if twice < den ∨ (twice = den ∧ quotient % 2 = 0) then quotient else quotient + 1

/-- The rank of the double nearest to `num / den`, ties to even, infinity when it is too large.
The significand keeps 53 bits, so `shift` bits of the scaled value are rounded away; each of
them moves the rank up by one power of two. -/
def nearestRank (num den : Nat) : Nat :=
  let shift := ((num <<< 1074) / den).log2 - 52
  min (shift * binade + roundedDiv (num <<< 1074) (den <<< shift)) infinityRank

/-- The nonnegative double of a rank. -/
def ofRank (rank : Nat) : Float :=
  Float.ofBits (UInt64.ofNat rank)

/-- The rank of a double's magnitude: its bits without the sign. -/
def rank (x : Float) : Nat :=
  x.toBits.toNat % signBit

/-- Whether the sign bit is set, which also tells `-0` from `0`. -/
def isNegative (x : Float) : Bool :=
  signBit ≤ x.toBits.toNat

end GraphingCalculator.Binary64
