/-!
The fixed words and signs of an expression: operators, elementary functions and constants, with
the spelling and the meaning of each.
-/

namespace GraphingCalculator

/-- The operators between two operands. -/
inductive Operator where
  | add
  | subtract
  | multiply
  | divide
  | power
deriving DecidableEq, Repr

/-- The functions of one argument that can be called by name. -/
inductive ElementaryFunction where
  | sin
  | cos
  | tan
  | sqrt
  | log
  | exp
deriving DecidableEq, Repr

/-- The numbers that have a name. -/
inductive Constant where
  | pi
  | e
deriving DecidableEq, Repr

/-- What a word or sign was looked up as. -/
inductive NameKind where
  | operator
  | function
  | constant
deriving DecidableEq, Repr

/-- A word or sign that is none of the kind asked for. -/
structure UnknownName where
  kind : NameKind
  spelling : String
deriving DecidableEq, Repr

/-- How messages call the kind. -/
def NameKind.label : NameKind → String
  | .operator => "operator"
  | .function => "function"
  | .constant => "constant"

/-- The message for a word or sign that was looked up in vain. -/
def UnknownName.message (unknown : UnknownName) : String :=
  .join ["Unknown ", unknown.kind.label, ": ", unknown.spelling]

namespace Operator

/-- The sign that stands for the operator. -/
def symbol : Operator → Char
  | add => '+'
  | subtract => '-'
  | multiply => '*'
  | divide => '/'
  | power => '^'

/-- The operator that a sign stands for. -/
def ofSymbol? : Char → Option Operator
  | '+' => some add
  | '-' => some subtract
  | '*' => some multiply
  | '/' => some divide
  | '^' => some power
  | _ => none

/-- The operator that a sign stands for, or the sign as unknown. -/
def find (sign : Char) : Except UnknownName Operator :=
  match ofSymbol? sign with
  | some op => .ok op
  | none => .error ⟨.operator, sign.toString⟩

/-- The operation on doubles. Division by zero and the like give infinities and NaN. -/
def apply : Operator → Float → Float → Float
  | add, left, right => left + right
  | subtract, left, right => left - right
  | multiply, left, right => left * right
  | divide, left, right => left / right
  | power, left, right => left.pow right

/-- Whether the operator links the terms of a sum. -/
def isAdditive : Operator → Bool
  | add | subtract => true
  | multiply | divide | power => false

/-- Whether the operator links the factors of a product. -/
def isMultiplicative : Operator → Bool
  | multiply | divide => true
  | add | subtract | power => false

theorem ofSymbol?_symbol (op : Operator) : ofSymbol? op.symbol = some op := by
  cases op <;> rfl

end Operator

namespace ElementaryFunction

/-- The name that calls the function. -/
def name : ElementaryFunction → String
  | sin => "sin"
  | cos => "cos"
  | tan => "tan"
  | sqrt => "sqrt"
  | log => "log"
  | exp => "exp"

/-- The function of a name. -/
def ofName? : String → Option ElementaryFunction
  | "sin" => some sin
  | "cos" => some cos
  | "tan" => some tan
  | "sqrt" => some sqrt
  | "log" => some log
  | "exp" => some exp
  | _ => none

/-- The function of a name, or the name as unknown. -/
def find (name : String) : Except UnknownName ElementaryFunction :=
  match ofName? name with
  | some f => .ok f
  | none => .error ⟨.function, name⟩

/-- How many arguments the function takes. -/
def arity (_ : ElementaryFunction) : Nat := 1

/-- The function on doubles; `log` is the natural logarithm. -/
def apply : ElementaryFunction → Float → Float
  | sin, x => x.sin
  | cos, x => x.cos
  | tan, x => x.tan
  | sqrt, x => x.sqrt
  | log, x => x.log
  | exp, x => x.exp

theorem ofName?_name (f : ElementaryFunction) : ofName? f.name = some f := by
  cases f <;> rfl

end ElementaryFunction

namespace Constant

/-- The name of the constant. -/
def name : Constant → String
  | pi => "pi"
  | e => "e"

/-- The constant of a name. -/
def ofName? : String → Option Constant
  | "pi" => some pi
  | "e" => some e
  | _ => none

/-- The constant of a name, or the name as unknown. -/
def find (name : String) : Except UnknownName Constant :=
  match ofName? name with
  | some c => .ok c
  | none => .error ⟨.constant, name⟩

/-- The double nearest to the constant. -/
def value : Constant → Float
  | pi => .ofBits 0x400921fb54442d18
  | e => .ofBits 0x4005bf0a8b145769

theorem ofName?_name (c : Constant) : ofName? c.name = some c := by
  cases c <;> rfl

end Constant

end GraphingCalculator
