import GraphingCalculator.Expr.Eval
import GraphingCalculator.Sweep.Interval

/-!
Sweeps along one axis: an expression at evenly spaced values of one variable. A point without a
value stays in its place with its error.
-/

namespace GraphingCalculator

/-- Whether an evaluation failed. -/
def Outcome.isFailure : Outcome → Bool
  | .ok _ => false
  | .error _ => true

/-- The variable that was swept, and each of its values with the outcome there. -/
structure Line where
  axis : String
  points : List (Float × Outcome)

namespace Line

/-- The values of the variable. -/
def xs (line : Line) : List Float :=
  line.points.map (·.1)

/-- The outcomes at these values. -/
def outcomes (line : Line) : List Outcome :=
  line.points.map (·.2)

/-- The number of points. -/
def size (line : Line) : Nat :=
  line.points.length

/-- Whether there is no point at all. -/
def isEmpty (line : Line) : Bool :=
  line.points.isEmpty

/-- The number of points without a value. -/
def failures (line : Line) : Nat :=
  line.outcomes.countP Outcome.isFailure

end Line

/-- Evaluates the expression at one value of a variable after the other. The environment is handed on
from point to point, and each point gives the variable its new value there. -/
def Expr.along (e : Expr) (name : String) (env : Environment) : List Float → List (Float × Outcome)
  | [] => []
  | x :: xs =>
    let env := env.bind name x
    (x, e.eval env) :: e.along name env xs

@[simp]
theorem Expr.length_along (e : Expr) (name : String) (env : Environment) (xs : List Float) :
    (e.along name env xs).length = xs.length := by
  induction xs generalizing env with
  | nil => rfl
  | cons x xs ih => simp [along, ih]

/-- Evaluates the expression at the ends of `count` equal parts of the range of one variable. The
range is checked before the number of parts. -/
def Expr.sweepLine (e : Expr) (name : String) (bounds : Bounds) (count : Nat) :
    Except SweepError Line := do
  let interval ← Interval.ofBounds bounds
  if count = 0 then throw .noIntervals
  let env := Environment.empty.bind name interval.min
  return ⟨name, e.along name env (interval.coordinates count)⟩

end GraphingCalculator
