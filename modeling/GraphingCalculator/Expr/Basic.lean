import GraphingCalculator.Expr.Vocabulary
import GraphingCalculator.Number.Numeral

/-!
Expression trees: their shape, the variables that occur in them, and their text with every
operation in parentheses.
-/

namespace GraphingCalculator

/-- An expression in one or more unknowns. -/
inductive Expr where
  | literal (value : Float)
  | var (name : String)
  | constant (c : Constant)
  | negate (operand : Expr)
  | binary (op : Operator) (left right : Expr)
  | call (f : ElementaryFunction) (argument : Expr)

/-- A name put into its place in a list that increases by code points, unless it is there. -/
def insertName (name : String) : List String → List String
  | [] => [name]
  | first :: rest =>
    if name < first then name :: first :: rest
    else if name = first then first :: rest
    else first :: insertName name rest

namespace Expr

/-- The names at the variable leaves, from left to right, as often as they occur. -/
def names : Expr → List String
  | literal _ => []
  | var name => [name]
  | constant _ => []
  | negate operand => operand.names
  | binary _ left right => left.names ++ right.names
  | call _ argument => argument.names

/-- The names of the variables, each once, in the order of their code points. -/
def unknowns (e : Expr) : List String :=
  e.names.foldl (fun sorted name => insertName name sorted) []

/-- The text of the expression. Each operation stands in its own parentheses, so reading it needs
no rule of precedence. -/
def render : Expr → String
  | literal value => showFloat value
  | var name => name
  | constant c => c.name
  | negate operand => "(-" ++ operand.render ++ ")"
  | binary op left right =>
    "(" ++ left.render ++ " " ++ op.symbol.toString ++ " " ++ right.render ++ ")"
  | call f argument => f.name ++ "(" ++ argument.render ++ ")"

end Expr

end GraphingCalculator
