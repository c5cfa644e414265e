import GraphingCalculator.Expr.Parser
import Mathlib.Data.List.Chain

/-!
The grammar of expressions as a relation between tokens and trees, apart from any reader.

`Derives phrase levels tokens e` says that the tokens, from the first to the last, are a phrase with
the tree `e`, and that no part of it lies more than `levels` levels below the phrase itself. Main
statements: what a phrase can start with (`Derives.starts`), that its parentheses pair up
(`Derives.isBalanced_append`) and that it never holds the end of the input
(`Derives.ne_endOfInput`).
-/

namespace GraphingCalculator.Grammar
open GraphingCalculator.Parser

/-- The phrases of the grammar. The rest of a chain continues the tree of the links before it, so
chains associate to the left. -/
inductive Phrase where
  | expression
  | moreTerms (sum : Expr)
  | term
  | moreFactors (product : Expr)
  | unary
  | power
  | primary

/-- A factor without an operator in front of it starts with a name or a parenthesis. -/
def startsFactor : Token → Bool
  | .identifier _ | .leftParen => true
  | _ => false

/-- Derivations of the grammar

    expression := term (('+' | '-') term)*
    term       := unary (('*' | '/') unary | power)*
    unary      := '-' unary | power
    power      := primary ('^' unary)?
    primary    := number | name | function '(' expression ')' | '(' expression ')'

with the number of levels that are left. A group, the argument of a call, the operand of a minus
sign and an exponent take one level, and each link of a chain takes one for itself and for all
that follow it. -/
inductive Derives : Phrase → Nat → List PlacedToken → Expr → Prop
  | sum {levels v w first e} :
      Derives .term levels v first → Derives (.moreTerms first) levels w e →
      Derives .expression levels (v ++ w) e
  | lastTerm {levels sum} : Derives (.moreTerms sum) levels [] sum
  | nextTerm {levels sum op place v w right e} :
      op.isAdditive → Derives .term levels v right →
      Derives (.moreTerms (.binary op sum right)) levels w e →
      Derives (.moreTerms sum) (levels + 1) (⟨.operator op, place⟩ :: (v ++ w)) e
  | product {levels v w first e} :
      Derives .unary levels v first → Derives (.moreFactors first) levels w e →
      Derives .term levels (v ++ w) e
  | lastFactor {levels product} : Derives (.moreFactors product) levels [] product
  | nextFactor {levels product op place v w right e} :
      op.isMultiplicative → Derives .unary levels v right →
      Derives (.moreFactors (.binary op product right)) levels w e →
      Derives (.moreFactors product) (levels + 1) (⟨.operator op, place⟩ :: (v ++ w)) e
  | impliedFactor {levels product head v w right e} :
      startsFactor head.token → Derives .power levels (head :: v) right →
      Derives (.moreFactors (.binary .multiply product right)) levels w e →
      Derives (.moreFactors product) (levels + 1) (head :: (v ++ w)) e
  | negation {levels place v e} :
      Derives .unary levels v e →
      Derives .unary (levels + 1) (⟨.operator .subtract, place⟩ :: v) (.negate e)
  | unsigned {levels v e} : Derives .power levels v e → Derives .unary levels v e
  | raised {levels place v w base exponent} :
      Derives .primary (levels + 1) v base → Derives .unary levels w exponent →
      Derives .power (levels + 1) (v ++ ⟨.operator .power, place⟩ :: w) (.binary .power base exponent)
  | base {levels v e} : Derives .primary levels v e → Derives .power levels v e
  | number {levels value place} : Derives .primary levels [⟨.number value, place⟩] (.literal value)
  | constant {levels name place c} :
      ElementaryFunction.ofName? name = none → Constant.ofName? name = some c →
      Derives .primary levels [⟨.identifier name, place⟩] (.constant c)
  | var {levels name place} :
      ElementaryFunction.ofName? name = none → Constant.ofName? name = none →
      Derives .primary levels [⟨.identifier name, place⟩] (.var name)
  | call {levels name f place opening closing v argument} :
      ElementaryFunction.ofName? name = some f → Derives .expression levels v argument →
      Derives .primary (levels + 1)
        (⟨.identifier name, place⟩ :: ⟨.leftParen, opening⟩ :: (v ++ [⟨.rightParen, closing⟩]))
        (.call f argument)
  | group {levels opening closing v e} :
      Derives .expression levels v e →
      Derives .primary (levels + 1) (⟨.leftParen, opening⟩ :: (v ++ [⟨.rightParen, closing⟩])) e

/-- A name of more than one letter, neither of a function nor of a constant, in front of a
parenthesis: it would be taken for a call. -/
def UnknownCall (t next : PlacedToken) : Prop :=
  ∃ name, t.token = .identifier name ∧ next.token = .leftParen ∧ 1 < name.length ∧
    ElementaryFunction.ofName? name = none ∧ Constant.ofName? name = none

/-- No two neighbours look like the call of an unknown function. -/
def CallsKnown (tokens : List PlacedToken) : Prop :=
  tokens.IsChain fun t next => ¬ UnknownCall t next

/-! ### Front and end of a phrase -/

/-- A number, a name or a parenthesis: an operand without a sign starts with it. -/
def startsOperand : Token → Bool
  | .number _ | .identifier _ | .leftParen => true
  | _ => false

def isMinus : Token → Bool
  | .operator .subtract => true
  | _ => false

def isRaising : Token → Bool
  | .operator .power => true
  | _ => false

/-- A product goes on here. -/
def linksFactor : Token → Bool
  | .operator op => op.isMultiplicative
  | token => startsFactor token

/-- A sum goes on here. -/
def linksTerm : Token → Bool
  | .operator op => op.isAdditive
  | _ => false

namespace Phrase

/-- The tokens with which a phrase can start. -/
def startsWith : Phrase → Token → Bool
  | moreTerms _ => linksTerm
  | moreFactors _ => linksFactor
  | primary | power => startsOperand
  | unary | term | expression => fun token => startsOperand token || isMinus token

/-- The rest of a chain can be empty. -/
def canBeEmpty : Phrase → Bool
  | moreTerms _ | moreFactors _ => true
  | _ => false

/-- The tokens that would make a complete phrase longer. -/
def goesOnWith : Phrase → Token → Bool
  | primary => fun _ => false
  | power | unary => isRaising
  | term | moreFactors _ => fun token => isRaising token || linksFactor token
  | expression | moreTerms _ => fun token => isRaising token || linksFactor token || linksTerm token

/-- What the rest of a chain continues has a property. -/
def Continues (property : Expr → Prop) : Phrase → Prop
  | moreTerms chain | moreFactors chain => property chain
  | _ => True

/-- A phrase is not longer in front of these tokens. -/
def EndsBefore (phrase : Phrase) (tail : List PlacedToken) : Prop :=
  ∀ next ∈ tail.head?, phrase.goesOnWith next.token = false

end Phrase

section
variable {phrase : Phrase} {levels : Nat} {v : List PlacedToken} {e : Expr}

/-- Only the rest of a chain can be empty, and every phrase starts as it should. -/
theorem Derives.starts (d : Derives phrase levels v e) :
    (v = [] ∧ phrase.canBeEmpty) ∨ ∃ t w, v = t :: w ∧ phrase.startsWith t.token := by
  induction d with
  | sum _ _ first _ | product _ _ first _ | raised _ _ first _ =>
    obtain ⟨-, empty⟩ | ⟨t, w, rfl, starts⟩ := first
    · cases empty
    · exact .inr ⟨t, _, rfl, starts⟩
  | lastTerm | lastFactor => exact .inl ⟨rfl, rfl⟩
  | nextTerm additive => exact .inr ⟨_, _, rfl, additive⟩
  | nextFactor multiplicative => exact .inr ⟨_, _, rfl, multiplicative⟩
  | @impliedFactor _ _ head _ _ _ _ starts =>
    refine .inr ⟨head, _, rfl, ?_⟩
    obtain ⟨token, _⟩ := head
    cases token <;> simp_all [Phrase.startsWith, startsFactor, linksFactor]
  | unsigned _ operand =>
    obtain ⟨-, empty⟩ | ⟨t, w, rfl, starts⟩ := operand
    · cases empty
    · exact .inr ⟨t, w, rfl, by simp only [Phrase.startsWith] at starts ⊢; simp [starts]⟩
  | base _ operand => exact operand
  | negation | number | constant | var | call | group => exact .inr ⟨_, _, rfl, rfl⟩

theorem Derives.first (d : Derives phrase levels v e) (whole : phrase.canBeEmpty = false) :
    ∃ t w, v = t :: w ∧ phrase.startsWith t.token := by
  obtain ⟨-, empty⟩ | first := d.starts
  · rw [whole] at empty; cases empty
  · exact first

/-- The parentheses of a phrase pair up among themselves. -/
theorem Derives.isBalanced_append (d : Derives phrase levels v e) (opened : Nat)
    (tail : List PlacedToken) : isBalanced opened (v ++ tail) = isBalanced opened tail := by
  induction d generalizing opened tail with
  | sum _ _ first rest | product _ _ first rest => rw [List.append_assoc, first, rest]
  | lastTerm | lastFactor => rfl
  | nextTerm _ _ _ right rest | nextFactor _ _ _ right rest =>
    rw [List.cons_append, List.append_assoc]
    simp only [isBalanced, right, rest]
  | impliedFactor _ _ _ right rest => rw [← List.cons_append, List.append_assoc, right, rest]
  | negation _ operand => simpa [isBalanced] using operand opened tail
  | raised _ _ base exponent =>
    rw [List.append_assoc, base, List.cons_append]
    simpa [isBalanced] using exponent opened tail
  | unsigned _ operand | base _ operand => exact operand opened tail
  | number | constant | var => rfl
  | call _ _ argument | group _ argument => simp [isBalanced, argument]

theorem Derives.ne_endOfInput (d : Derives phrase levels v e) :
    ∀ t ∈ v, t.token ≠ .endOfInput := by
  induction d with
  | impliedFactor _ _ _ right rest =>
    intro t member
    rw [← List.cons_append] at member
    rcases List.mem_append.mp member with member | member
    · exact right t member
    · exact rest t member
  | _ => simp_all [or_imp]

end

end GraphingCalculator.Grammar
