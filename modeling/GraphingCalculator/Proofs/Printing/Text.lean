import GraphingCalculator.Failure
import GraphingCalculator.Proofs.Number.Positional
import GraphingCalculator.Proofs.Token.Steps

/-!
The text of an expression and its tokens.

`Expr.Readable` are the expressions whose leaves can be written in a text: finite numbers without a
sign, and names that are variables. `Printed e tokens` says what tokens the text of such an
expression is cut into (`lexFrom_render`): blanks and parentheses keep neighbouring words apart.
-/

namespace GraphingCalculator

/-- A word that is read as a variable. -/
structure IsVariableName (name : String) : Prop where
  nonempty : name ≠ ""
  letters : ∀ c ∈ name.toList, c.isAlpha
  noFunction : ElementaryFunction.ofName? name = none
  noConstant : Constant.ofName? name = none

namespace Expr

/-- All numbers are finite and without a sign, and all names are read as variables. -/
def Readable : Expr → Prop
  | literal value => Binary64.rank value < Binary64.infinityRank ∧ Binary64.isNegative value = false
  | var name => IsVariableName name
  | constant _ => True
  | negate operand => operand.Readable
  | binary _ left right => left.Readable ∧ right.Readable
  | call _ argument => argument.Readable

end Expr

theorem Expr.read_of_lex {source : String} {tokens : List PlacedToken} (cut : lex source = .ok tokens) :
    Expr.read source = (Expr.parse tokens).mapError .grammatical := by
  simp only [Expr.read, cut, Except.mapError, bind, Except.bind]

theorem Expr.lex_of_read {source : String} {e : Expr} (read : Expr.read source = .ok e) :
    ∃ tokens, lex source = .ok tokens ∧ Expr.parse tokens = .ok e := by
  cases cut : lex source with
  | error error => simp [Expr.read, cut, Except.mapError, bind, Except.bind] at read
  | ok tokens =>
    refine ⟨tokens, rfl, ?_⟩
    rw [Expr.read_of_lex cut] at read
    cases accepted : Expr.parse tokens with
    | error error => simp [accepted, Except.mapError] at read
    | ok tree => simpa [accepted, Except.mapError] using read

/-- The tokens of an expression's text, wherever they stand. -/
inductive Printed : Expr → List PlacedToken → Prop
  | literal (value place) : Printed (.literal value) [⟨.number value, place⟩]
  | var (name place) : Printed (.var name) [⟨.identifier name, place⟩]
  | constant (c place) : Printed (.constant c) [⟨.identifier c.name, place⟩]
  | negate (opening sign closing) {operand v} :
      Printed operand v →
      Printed (.negate operand)
        (⟨.leftParen, opening⟩ :: ⟨.operator .subtract, sign⟩ :: (v ++ [⟨.rightParen, closing⟩]))
  | binary (op opening sign closing) {left right v w} :
      Printed left v → Printed right w →
      Printed (.binary op left right)
        (⟨.leftParen, opening⟩ :: (v ++ ⟨.operator op, sign⟩ :: (w ++ [⟨.rightParen, closing⟩])))
  | call (f place opening closing) {argument v} :
      Printed argument v →
      Printed (.call f argument)
        (⟨.identifier f.name, place⟩ :: ⟨.leftParen, opening⟩ :: (v ++ [⟨.rightParen, closing⟩]))

/-- A character that stands behind an operand in a text: no word goes on with it. -/
def endsOperand (c : Char) : Bool := c == ' ' || c == ')'

section
variable {rest : List Char}

theorem endsNumeral_of_endsOperand (ends : ∀ c ∈ rest.head?, endsOperand c) :
    ∀ c ∈ rest.head?, Lexeme.endsNumeral c := by
  intro c member
  rcases Bool.or_eq_true_iff.mp (ends c member) with same | same <;> rw [eq_of_beq same] <;> rfl

theorem not_isAlpha_of_endsOperand (ends : ∀ c ∈ rest.head?, endsOperand c) :
    ∀ c ∈ rest.head?, c.isAlpha = false := by
  intro c member
  rcases Bool.or_eq_true_iff.mp (ends c member) with same | same <;> rw [eq_of_beq same] <;> rfl

theorem lexFrom_name {name : String} {position : Nat} {found : List PlacedToken} (nonempty : name ≠ "")
    (letters : ∀ c ∈ name.toList, c.isAlpha) (ends : ∀ c ∈ rest.head?, c.isAlpha = false) :
    lexFrom position (name.toList ++ rest) found =
      lexFrom (position + name.toList.length) rest (⟨.identifier name, position⟩ :: found) := by
  rw [lexFrom_letters (by simpa using nonempty) letters ends, String.ofList_toList]

theorem isAlpha_name (f : ElementaryFunction) : f.name ≠ "" ∧ ∀ c ∈ f.name.toList, c.isAlpha := by
  have letters : f.name.toList.all Char.isAlpha = true := by cases f <;> decide
  exact ⟨by cases f <;> decide, List.all_eq_true.mp letters⟩

theorem isAlpha_constantName (constant : Constant) :
    constant.name ≠ "" ∧ ∀ c ∈ constant.name.toList, c.isAlpha := by
  have letters : constant.name.toList.all Char.isAlpha = true := by cases constant <;> decide
  exact ⟨by cases constant <;> decide, List.all_eq_true.mp letters⟩

theorem isBlank_symbol (op : Operator) : isBlank op.symbol = false := by
  cases op <;> decide

section
variable {position : Nat} {found : List PlacedToken}

theorem lexFrom_leftParen :
    lexFrom position ('(' :: rest) found = lexFrom (position + 1) rest (⟨.leftParen, position⟩ :: found) :=
  lexFrom_sign (by decide) rfl

theorem lexFrom_rightParen :
    lexFrom position (')' :: rest) found = lexFrom (position + 1) rest (⟨.rightParen, position⟩ :: found) :=
  lexFrom_sign (by decide) rfl

theorem lexFrom_symbol (op : Operator) :
    lexFrom position (op.symbol :: rest) found =
      lexFrom (position + 1) rest (⟨.operator op, position⟩ :: found) :=
  lexFrom_sign (isBlank_symbol op) (Lexeme.first_symbol op rest)

end

theorem toList_render_negate (operand : Expr) :
    (Expr.negate operand).render.toList ++ rest =
      '(' :: Operator.subtract.symbol :: (operand.render.toList ++ ')' :: rest) := by
  simp [Expr.render, Operator.symbol]

theorem toList_render_binary (op : Operator) (left right : Expr) :
    (Expr.binary op left right).render.toList ++ rest =
      '(' :: (left.render.toList ++ ' ' :: op.symbol :: ' ' :: (right.render.toList ++ ')' :: rest)) := by
  simp [Expr.render]

theorem toList_render_call (f : ElementaryFunction) (argument : Expr) :
    (Expr.call f argument).render.toList ++ rest =
      f.name.toList ++ '(' :: (argument.render.toList ++ ')' :: rest) := by
  simp [Expr.render]

theorem endsOperand_rightParen (rest : List Char) : ∀ c ∈ (')' :: rest).head?, endsOperand c := by simp [endsOperand]

theorem endsOperand_space (rest : List Char) : ∀ c ∈ (' ' :: rest).head?, endsOperand c := by simp [endsOperand]

/-- The text of a readable expression is cut into its tokens. -/
theorem lexFrom_render {e : Expr} (readable : e.Readable) (position : Nat) (found : List PlacedToken)
    (ends : ∀ c ∈ rest.head?, endsOperand c) :
    ∃ v place, Printed e v ∧
      lexFrom position (e.render.toList ++ rest) found = lexFrom place rest (v.reverse ++ found) := by
  -- behind every part of the text stands a blank, a parenthesis or nothing, so no word reaches into the next
  induction e generalizing position found rest with
  | literal value =>
    obtain ⟨finite, unsigned⟩ := readable
    have read := Lexeme.numeral_showFloat finite unsigned (endsNumeral_of_endsOperand ends)
    exact ⟨_, _, .literal value _, lexFrom_numeral (isDigit_head_showFloat finite unsigned) read⟩
  | var name =>
    exact ⟨_, _, .var name _, lexFrom_name readable.nonempty readable.letters (not_isAlpha_of_endsOperand ends)⟩
  | constant c =>
    obtain ⟨nonempty, letters⟩ := isAlpha_constantName c
    exact ⟨_, _, .constant c _, lexFrom_name nonempty letters (not_isAlpha_of_endsOperand ends)⟩
  | negate operand ih =>
    rw [toList_render_negate, lexFrom_leftParen, lexFrom_symbol]
    obtain ⟨v, place, printed, cut⟩ := ih readable (position + 1 + 1)
      (⟨.operator .subtract, position + 1⟩ :: ⟨.leftParen, position⟩ :: found) (endsOperand_rightParen rest)
    refine ⟨_, place + 1, .negate position (position + 1) place printed, ?_⟩
    rw [cut, lexFrom_rightParen]
    simp
  | binary op left right ihLeft ihRight =>
    rw [toList_render_binary, lexFrom_leftParen]
    obtain ⟨v, gap, printedLeft, cutLeft⟩ := ihLeft readable.1 (position + 1)
      (⟨.leftParen, position⟩ :: found)
      (endsOperand_space (op.symbol :: ' ' :: (right.render.toList ++ ')' :: rest)))
    rw [cutLeft, lexFrom_blank rfl, lexFrom_symbol, lexFrom_blank rfl]
    obtain ⟨w, place, printedRight, cutRight⟩ := ihRight readable.2 (gap + 1 + 1 + 1)
      (⟨.operator op, gap + 1⟩ :: (v.reverse ++ ⟨.leftParen, position⟩ :: found)) (endsOperand_rightParen rest)
    refine ⟨_, place + 1, .binary op position (gap + 1) place printedLeft printedRight, ?_⟩
    rw [cutRight, lexFrom_rightParen]
    simp
  | call f argument ih =>
    obtain ⟨nonempty, letters⟩ := isAlpha_name f
    rw [toList_render_call, lexFrom_name nonempty letters (by simp), lexFrom_leftParen]
    obtain ⟨v, place, printed, cut⟩ := ih readable (position + f.name.toList.length + 1)
      (⟨.leftParen, position + f.name.toList.length⟩ :: ⟨.identifier f.name, position⟩ :: found) (endsOperand_rightParen rest)
    refine ⟨_, place + 1, .call f position (position + f.name.toList.length) place printed, ?_⟩
    rw [cut, lexFrom_rightParen]
    simp

/-- The tokens of a readable expression's text are the expression's and the end of the input. -/
theorem lex_render {e : Expr} (readable : e.Readable) :
    ∃ v place, Printed e v ∧ lex e.render = .ok (v ++ [⟨.endOfInput, place⟩]) := by
  have ends : ∀ c ∈ ([] : List Char).head?, endsOperand c := by simp
  obtain ⟨v, place, printed, cut⟩ := lexFrom_render readable 0 [] ends
  refine ⟨v, place, printed, ?_⟩
  rw [List.append_nil, List.append_nil] at cut
  rw [lex, cut, lexFrom]
  simp

end

end GraphingCalculator
