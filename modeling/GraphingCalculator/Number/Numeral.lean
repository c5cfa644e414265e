import GraphingCalculator.Number.Shortest

/-!
Numbers as they are written: a sign, digits before and after the point, perhaps a power of ten.
A `Layout` holds the choices by which a double becomes a numeral.
-/

namespace GraphingCalculator

/-- A written number. No digits after the point means that there is no point either. -/
structure Numeral where
  negative : Bool
  whole : List Char
  fraction : List Char
  exponent : Option Int
deriving DecidableEq, Repr

namespace Numeral

/-- The magnitude, exactly. -/
def magnitude (n : Numeral) : Decimal :=
  .ofDigits n.whole n.fraction (n.exponent.getD 0)

/-- The double that the numeral reads as; the sign of a zero is kept. -/
def toFloat (n : Numeral) : Float :=
  if n.negative then -n.magnitude.toFloat else n.magnitude.toFloat

/-- The power of ten as it is written, always with its sign. -/
def exponentText (exponent : Int) : List Char :=
  'e' :: (if exponent < 0 then '-' else '+') :: Nat.toDigits 10 exponent.natAbs

/-- The characters of the numeral. -/
def chars (n : Numeral) : List Char :=
  (if n.negative then ['-'] else []) ++ n.whole ++
    (if n.fraction.isEmpty then [] else '.' :: n.fraction) ++
    (n.exponent.map exponentText).getD []

/-- The numeral's text. -/
def render (n : Numeral) : String :=
  String.ofList n.chars

/-- The digits of a decimal on both sides of the point, with the zeros that its place needs. -/
def positional (d : Decimal) : List Char × List Char :=
  let digits := Nat.toDigits 10 d.coefficient
  let point := digits.length + d.exponent
  if 0 ≤ d.exponent then (digits ++ List.replicate d.exponent.toNat '0', [])
  else if 0 < point then (digits.take point.toNat, digits.drop point.toNat)
  else (['0'], List.replicate (-point).toNat '0' ++ digits)

end Numeral

/-- How doubles are laid out as text. -/
structure Layout where
  /-- The decimal that is written when two are equally near. -/
  tie : Shortest.Tie
  /-- Whether a number whose first digit stands at this power of ten is written without one. -/
  isPositional : Int → Bool
  /-- The fraction of a positional number that has no digits after the point. -/
  emptyFraction : List Char

namespace Layout

/-- The numeral of a finite double. -/
def numeral (layout : Layout) (x : Float) : Numeral :=
  let decimal := Shortest.ofRank layout.tie (Binary64.rank x)
  let digits := Nat.toDigits 10 decimal.coefficient
  let power := digits.length + decimal.exponent - 1
  if decimal.coefficient = 0 || layout.isPositional power then
    let (whole, fraction) := Numeral.positional decimal
    { negative := Binary64.isNegative x, whole,
      fraction := if fraction.isEmpty then layout.emptyFraction else fraction,
      exponent := none }
  else
    { negative := Binary64.isNegative x, whole := digits.take 1, fraction := digits.drop 1,
      exponent := some power }

/-- Numbers in expressions and messages: never a power of ten, and no point without need. -/
def plain : Layout where
  tie := .up
  isPositional _ := true
  emptyFraction := []

end Layout

/-- A double as it is shown in expressions and messages. -/
def showFloat (x : Float) : String :=
  if Binary64.infinityRank < Binary64.rank x then "NaN"
  else if Binary64.rank x = Binary64.infinityRank then
    if Binary64.isNegative x then "-inf" else "inf"
  else (Layout.plain.numeral x).render

end GraphingCalculator
