import GraphingCalculator.Expr.Parser
import GraphingCalculator.Sweep.Surface
import GraphingCalculator.Token.Lexer

/-!
All that can go wrong between a text and a value or a plot, and the text's way to a tree.
-/

namespace GraphingCalculator

/-- Why a text has no value or no plot. -/
inductive Failure where
  | lexical (error : LexError)
  | grammatical (error : GrammarError)
  | evaluation (error : EvalError)
  | sweep (error : SweepError)
  | tooManyParts (requested limit : Nat)

/-- The message of a failure. -/
def Failure.message : Failure → String
  | lexical error => error.message
  | grammatical error => error.message
  | evaluation error => error.message
  | sweep error => error.message
  | tooManyParts requested limit =>
    .join ["resolution ", toString requested, " exceeds the configured limit of ", toString limit]

/-- The expression that a text stands for. -/
def Expr.read (source : String) : Except Failure Expr := do
  let tokens ← (lex source).mapError .lexical
  (Expr.parse tokens).mapError .grammatical

/-- The value of a text in an environment; the text is read anew. -/
def Expr.evalSource (source : String) (env : Environment) : Except Failure Float := do
  let tree ← Expr.read source
  (tree.eval env).mapError .evaluation

end GraphingCalculator
