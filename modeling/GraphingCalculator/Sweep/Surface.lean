import GraphingCalculator.Sweep.Line

/-!
Sweeps over a grid: an expression at evenly spaced values of `x` and `y`.
-/

namespace GraphingCalculator

/-- The variable of the horizontal axis. -/
def horizontalName : String := "x"

/-- The variable of the vertical axis. -/
def verticalName : String := "y"

/-- The values of `x`, and for each value of `y` a row with one outcome for each of them. -/
structure Surface where
  xs : List Float
  rows : List (Float × List Outcome)
  rectangular : ∀ row ∈ rows, row.2.length = xs.length

namespace Surface

/-- The values of `y`. -/
def ys (surface : Surface) : List Float :=
  surface.rows.map (·.1)

/-- The rows of outcomes, without their values of `y`. -/
def outcomes (surface : Surface) : List (List Outcome) :=
  surface.rows.map (·.2)

/-- The number of rows and of columns. -/
def shape (surface : Surface) : Nat × Nat :=
  (surface.rows.length, surface.xs.length)

/-- The number of cells. -/
def size (surface : Surface) : Nat :=
  surface.xs.length * surface.rows.length

/-- Whether there is no cell at all. -/
def isEmpty (surface : Surface) : Bool :=
  surface.size == 0

/-- The outcome in a row and a column, if the grid goes that far. -/
def get? (surface : Surface) (row column : Nat) : Option Outcome := do
  let (_, outcomes) ← surface.rows[row]?
  outcomes[column]?

/-- The number of cells without a value. -/
def failures (surface : Surface) : Nat :=
  surface.outcomes.flatten.countP Outcome.isFailure

end Surface

/-- Evaluates the expression on the grid that cuts each range into `count` equal parts, each row along
`x` in an environment of its own. The range of `x` is checked first, then that of `y`, then the number
of parts. -/
def Expr.sweepSurface (e : Expr) (xBounds yBounds : Bounds) (count : Nat) :
    Except SweepError Surface := do
  let xInterval ← Interval.ofBounds xBounds
  let yInterval ← Interval.ofBounds yBounds
  if count = 0 then throw .noIntervals
  let xs := xInterval.coordinates count
  let row (y : Float) :=
    let env := (Environment.empty.bind horizontalName xInterval.min).bind verticalName y
    (e.along horizontalName env xs).map (·.2)
  return {
    xs
    rows := (yInterval.coordinates count).map fun y => (y, row y)
    rectangular := by simp [row] }

end GraphingCalculator
