import GraphingCalculator.Expr.Basic
import GraphingCalculator.Environment

/-!
The value of an expression in an environment. Only a variable without a value makes it fail;
domain errors of the arithmetic show as NaN and infinities.
-/

namespace GraphingCalculator

/-- Why an expression has no value. -/
inductive EvalError where
  | unbound (name : String)
deriving DecidableEq, Repr

/-- The message of an evaluation that failed. -/
def EvalError.message : EvalError → String
  | unbound name => .join ["unbound variable '", name, "'"]

/-- A value, or why there is none. -/
abbrev Outcome := Except EvalError Float

/-- Evaluates the operands from left to right, so the first unbound name is the one reported. -/
def Expr.eval (env : Environment) : Expr → Outcome
  | literal value => .ok value
  | var name =>
    match env.get? name with
    | some value => .ok value
    | none => .error (.unbound name)
  | constant c => .ok c.value
  | negate operand => do
    let value ← operand.eval env
    return -value
  | binary op left right => do
    let leftValue ← left.eval env
    let rightValue ← right.eval env
    return op.apply leftValue rightValue
  | call f argument => do
    let value ← argument.eval env
    return f.apply value

end GraphingCalculator
