import GraphingCalculator.Expr.Vocabulary
import GraphingCalculator.Number.Numeral

/-!
Tokens: the words, numbers and signs of an expression, and their names in messages.
-/

namespace GraphingCalculator

/-- A unit of an expression's text. -/
inductive Token where
  | number (value : Float)
  | identifier (name : String)
  | operator (op : Operator)
  | leftParen
  | rightParen
  | comma
  | endOfInput

/-- A token and the place of its first character, counted in characters from zero. -/
structure PlacedToken where
  token : Token
  position : Nat

/-- The place behind a token. Places are counted in 64 bits, so behind the last one comes zero. -/
def PlacedToken.next (t : PlacedToken) : Nat := (t.position + 1) % UInt64.size

/-- What a message calls the token. -/
def Token.describe : Token → String
  | number value => .join ["number ", showFloat value]
  | identifier name => .join ["identifier '", name, "'"]
  | operator op => .join ["operator '", op.symbol.toString, "'"]
  | leftParen => "'('"
  | rightParen => "')'"
  | comma => "','"
  | endOfInput => "end of input"

end GraphingCalculator
