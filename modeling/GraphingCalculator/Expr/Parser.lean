import GraphingCalculator.Expr.Basic
import GraphingCalculator.Token.Basic

/-!
Reading an expression from its tokens. Loosest first:

    expression := term (('+' | '-') term)*
    term       := unary (('*' | '/') unary | power)*
    unary      := '-' unary | power
    power      := primary ('^' unary)?
    primary    := number | name | function '(' expression ')' | '(' expression ')'

A `power` that follows a factor without an operator is multiplied; it starts with a name or a
parenthesis. Chains associate to the left.

A group, the arguments of a call, the operand of a minus sign, an exponent and each further link of
a chain lie one level below the phrase around them, and there are only so many levels. The readers
of one level are a `Level`, made from the level below, so all of them recurse on the number of
levels that are left.
-/

namespace GraphingCalculator

/-- What would have been right in the place of a wrong token. -/
inductive Expectation where
  | expression
  | operatorOrEnd
  | leftParen
  | rightParen
deriving DecidableEq, Repr

/-- What messages call the expectation. -/
def Expectation.describe : Expectation → String
  | expression => "an expression"
  | operatorOrEnd => "an operator or end of input"
  | leftParen => "'('"
  | rightParen => "')'"

/-- How many levels an expression may have below its outermost one. -/
def nestingLimit : Nat := 256

/-- Why tokens form no expression. -/
inductive GrammarError where
  | unexpected (position : Nat) (found : Token) (expected : Expectation)
  | unbalanced
  | unknownFunction (name : String)
  | empty
  | arity (f : ElementaryFunction) (found : Nat)
  | tooDeep

/-- The message for tokens that form no expression. -/
def GrammarError.message : GrammarError → String
  | unexpected position found expected =>
    .join ["unexpected ", found.describe, " at position ", toString position, ", expected ",
      expected.describe]
  | unbalanced => "unbalanced parentheses"
  | unknownFunction name => .join ["unknown function '", name, "'"]
  | empty => "empty expression"
  | arity f found =>
    .join ["function '", f.name, "' takes ", toString f.arity, " argument(s), got ",
      toString found]
  | tooDeep =>
    .join ["expression is nested more than ", toString nestingLimit, " levels deep"]

namespace Parser

/-- Reads a phrase from the front of a list of tokens and leaves the rest. -/
abbrev Reader (α : Type) := List PlacedToken → Except GrammarError (α × List PlacedToken)

/-- The token at the front. The list always holds the end of the input, which no reader takes. -/
def current (tokens : List PlacedToken) : PlacedToken :=
  tokens.headD ⟨.endOfInput, 0⟩

/-- The error that the token at the front is wrong. -/
def unexpected (tokens : List PlacedToken) (expected : Expectation) : GrammarError :=
  .unexpected (current tokens).position (current tokens).token expected

/-- Takes an opening parenthesis. -/
def takeLeftParen (tokens : List PlacedToken) : Except GrammarError (List PlacedToken) :=
  match tokens with
  | ⟨.leftParen, _⟩ :: rest => .ok rest
  | _ => .error (unexpected tokens .leftParen)

/-- Takes a closing parenthesis. -/
def takeRightParen (tokens : List PlacedToken) : Except GrammarError (List PlacedToken) :=
  match tokens with
  | ⟨.rightParen, _⟩ :: rest => .ok rest
  | _ => .error (unexpected tokens .rightParen)

/-- Whether the front is an opening parenthesis. -/
def startsGroup (tokens : List PlacedToken) : Bool :=
  match tokens with
  | ⟨.leftParen, _⟩ :: _ => true
  | _ => false

/-- The readers of one level of nesting, for the phrases that the level above starts here. A link
takes what a chain has read so far. -/
structure Level where
  /-- A whole expression, in parentheses. -/
  expression : Reader Expr
  /-- The arguments of a call, up to the closing parenthesis. -/
  arguments : Reader (List Expr)
  /-- The operand of a minus sign, or an exponent. -/
  unary : Reader Expr
  /-- The next term of a sum, and the terms after it. -/
  sumLink : Expr → Operator → Reader Expr
  /-- The next factor of a product after its operator, and the factors after it. -/
  productLink : Expr → Operator → Reader Expr
  /-- The next factor of a product without an operator, and the factors after it. -/
  implicitLink : Expr → Reader Expr

/-- The level below the last one: nothing can start here. -/
def Level.exhausted : Level where
  expression _ := .error .tooDeep
  arguments _ := .error .tooDeep
  unary _ := .error .tooDeep
  sumLink _ _ _ := .error .tooDeep
  productLink _ _ _ := .error .tooDeep
  implicitLink _ _ := .error .tooDeep

/-- The call of a function whose name has been read. -/
def call (below : Level) (f : ElementaryFunction) : Reader Expr := fun tokens => do
  let opened ← takeLeftParen tokens
  let (arguments, closing) ← below.arguments opened
  let rest ← takeRightParen closing
  match arguments with
  | [argument] => return (.call f argument, rest)
  | _ => throw (.arity f arguments.length)

/-- A number, a name, a call or a group. The name of a function is nothing else than that, and a
longer unknown name in front of a parenthesis is taken for a function that does not exist. -/
def primary (below : Level) : Reader Expr := fun tokens =>
  match tokens with
  | ⟨.number value, _⟩ :: rest => .ok (.literal value, rest)
  | ⟨.identifier name, _⟩ :: rest =>
    match ElementaryFunction.ofName? name with
    | some f => call below f rest
    | none =>
      match Constant.ofName? name with
      | some c => .ok (.constant c, rest)
      | none =>
        if startsGroup rest && 1 < name.length then .error (.unknownFunction name)
        else .ok (.var name, rest)
  | ⟨.leftParen, _⟩ :: rest => do
    let (inner, closing) ← below.expression rest
    let rest ← takeRightParen closing
    return (inner, rest)
  | _ => .error (unexpected tokens .expression)

/-- A primary, perhaps raised to a power. -/
def power (below : Level) : Reader Expr := fun tokens => do
  let (base, rest) ← primary below tokens
  match rest with
  | ⟨.operator .power, _⟩ :: rest =>
    let (exponent, rest) ← below.unary rest
    return (.binary .power base exponent, rest)
  | _ => return (base, rest)

/-- A power, perhaps behind minus signs. -/
def unary (below : Level) : Reader Expr := fun tokens =>
  match tokens with
  | ⟨.operator .subtract, _⟩ :: rest => do
    let (operand, rest) ← below.unary rest
    return (.negate operand, rest)
  | _ => power below tokens

/-- The further factors of a product. -/
def moreFactors (below : Level) (product : Expr) : Reader Expr := fun tokens =>
  match tokens with
  | ⟨.operator op, _⟩ :: rest =>
    if op.isMultiplicative then below.productLink product op rest else .ok (product, tokens)
  | ⟨.identifier _, _⟩ :: _ => below.implicitLink product tokens
  | ⟨.leftParen, _⟩ :: _ => below.implicitLink product tokens
  | _ => .ok (product, tokens)

/-- A product. -/
def term (below : Level) : Reader Expr := fun tokens => do
  let (first, rest) ← unary below tokens
  moreFactors below first rest

/-- The further terms of a sum. -/
def moreTerms (below : Level) (sum : Expr) : Reader Expr := fun tokens =>
  match tokens with
  | ⟨.operator op, _⟩ :: rest =>
    if op.isAdditive then below.sumLink sum op rest else .ok (sum, tokens)
  | _ => .ok (sum, tokens)

/-- A sum. -/
def expression (below : Level) : Reader Expr := fun tokens => do
  let (first, rest) ← term below tokens
  moreTerms below first rest

/-- The arguments that follow the ones found, which come in the reverse of their order. The list
holds no more commas than `room`. -/
def moreArguments (below : Level) : Nat → List Expr → Reader (List Expr)
  | 0, found, tokens => .ok (found.reverse, tokens)
  | room + 1, found, tokens =>
    match tokens with
    | ⟨.comma, _⟩ :: rest => do
      let (argument, rest) ← expression below rest
      moreArguments below room (argument :: found) rest
    | _ => .ok (found.reverse, tokens)

/-- Arguments between commas, or none at all. -/
def arguments (below : Level) : Reader (List Expr) := fun tokens =>
  match tokens with
  | ⟨.rightParen, _⟩ :: _ => .ok ([], tokens)
  | _ => do
    let (first, rest) ← expression below tokens
    moreArguments below rest.length [first] rest

/-- The level above a given one. -/
def Level.above (below : Level) : Level where
  expression := Parser.expression below
  arguments := Parser.arguments below
  unary := Parser.unary below
  sumLink sum op tokens := do
    let (right, rest) ← term below tokens
    moreTerms below (.binary op sum right) rest
  productLink product op tokens := do
    let (right, rest) ← Parser.unary below tokens
    moreFactors below (.binary op product right) rest
  implicitLink product tokens := do
    let (right, rest) ← power below tokens
    moreFactors below (.binary .multiply product right) rest

/-- The highest of a number of levels. -/
def Level.nested : Nat → Level
  | 0 => exhausted
  | levels + 1 => (nested levels).above

/-- Whether the parentheses of the tokens pair up, when `opened` of them are open before. -/
def isBalanced (opened : Nat) : List PlacedToken → Bool
  | [] => opened == 0
  | ⟨.leftParen, _⟩ :: rest => isBalanced (opened + 1) rest
  | ⟨.rightParen, _⟩ :: rest =>
    match opened with
    | 0 => false
    | opened + 1 => isBalanced opened rest
  | _ :: rest => isBalanced opened rest

/-- The tokens with an end of the input after the last of them, so that there always is one. -/
def close (tokens : List PlacedToken) : List PlacedToken :=
  match tokens.getLast? with
  | none => [⟨.endOfInput, 0⟩]
  | some last => tokens ++ [⟨.endOfInput, last.next⟩]

end Parser

open GraphingCalculator.Parser in
/-- The expression that the tokens up to the first end of the input form. Their parentheses are
checked before anything else, also the ones behind that end. -/
def Expr.parse (tokens : List PlacedToken) : Except GrammarError Expr :=
  match (current tokens).token with
  | .endOfInput => .error .empty
  | _ =>
    if isBalanced 0 tokens then do
      let (e, rest) ← expression (.nested nestingLimit) (close tokens)
      match (current rest).token with
      | .endOfInput => return e
      | _ => throw (unexpected rest .operatorOrEnd)
    else .error .unbalanced

end GraphingCalculator
