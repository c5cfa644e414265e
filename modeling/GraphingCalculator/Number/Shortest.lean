import GraphingCalculator.Number.Decimal

/-!
The shortest decimal that reads back as a given double. The decimals with a common power of ten
form a grid, and on each grid only the two neighbours of a value can be the nearest. The search
goes from a grid coarser than the value to ever finer ones and stops at the first neighbour that
reads back. It always stops: the grid of `10 ^ -1074` holds every double exactly.
-/

namespace GraphingCalculator.Shortest

/-- Which of two equally near decimals is written. -/
inductive Tie where
  | up
  | even
deriving DecidableEq, Repr

/-- The value of a finite rank in units of `10 ^ -1074`. -/
def fineValue (rank : Nat) : Nat :=
  Binary64.scaled rank * Nat.pow 5 1074

/-- The double of this rank as a decimal without any rounding. -/
def unrounded (rank : Nat) : Decimal :=
  ⟨fineValue rank, -1074⟩

/-- Whether the lower of two neighbours is the one to write, when the value lies `above` units
over it and the neighbours are `unit` apart. -/
def Tie.prefersLower (tie : Tie) (lower above unit : Nat) : Bool :=
  2 * above < unit || (2 * above == unit && tie == .even && lower % 2 == 0)

/-- The two neighbours of a rank's value on the grid of `10 ^ (step - 1074)`, first the one that is
written when both of them read back. -/
def neighbours (tie : Tie) (rank step : Nat) : List Decimal :=
  let unit := Nat.pow 10 step
  let lower := fineValue rank / unit
  let ordered :=
    if tie.prefersLower lower (fineValue rank % unit) unit then [lower, lower + 1]
    else [lower + 1, lower]
  ordered.map (⟨·, step - 1074⟩)

/-- The decimal on the grid of `10 ^ (step - 1074)` that is written for the rank, if one of the two
neighbours there reads back. -/
def onGrid? (tie : Tie) (rank step : Nat) : Option Decimal :=
  (neighbours tie rank step).find? (·.rank == rank)

/-- The first decimal found on the grids from `step` on down, and `last` when none holds one. -/
def search (grid? : Nat → Option Decimal) (last : Decimal) : Nat → Decimal
  | 0 => last
  | step + 1 => (grid? (step + 1)).getD (search grid? last step)

theorem rank_of_onGrid? {tie : Tie} {rank step : Nat} {found : Decimal}
    (hit : onGrid? tie rank step = some found) : found.rank = rank := by
  simpa using List.find?_some hit

/-- A grid whose unit is more than twice the value, so that no coarser grid can hold a decimal
that reads back: `30103 / 100000` is a little over the decimal logarithm of two. -/
def firstStep (rank : Nat) : Nat :=
  (1074 + (((Binary64.scaled rank).log2 - 1072 : Int) * 30103 / 100000 + 1)).toNat

/-- The decimal with the fewest digits that reads back as the finite double of this rank; of two
with equally few digits the nearer one. -/
def ofRank (tie : Tie) (rank : Nat) : Decimal :=
  if rank = 0 then ⟨0, 0⟩ else search (onGrid? tie rank) (unrounded rank) (firstStep rank)

end GraphingCalculator.Shortest
