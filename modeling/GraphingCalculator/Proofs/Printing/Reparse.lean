import GraphingCalculator.Proofs.Grammar.Acceptance
import GraphingCalculator.Proofs.Printing.Text

/-!
The text of a readable expression is read back as the same expression, as long as it is not nested
too deep.

The parentheses of the text nest deeper than the expression: `Expr.printDepth` counts the levels that
its text takes. With so many levels the tokens of the text are a phrase of the grammar
(`derives_of_printed`), and with fewer the reader gives up for want of a level and for no other
reason (`tooDeep_of_printed`).
-/

namespace GraphingCalculator

/-- The number of levels that the text of an expression takes. -/
def Expr.printDepth : Expr → Nat
  | literal _ | var _ | constant _ => 0
  | negate operand => 2 + operand.printDepth
  | binary _ left right => 1 + max left.printDepth (1 + right.printDepth)
  | call _ argument => 1 + argument.printDepth

namespace Grammar
open GraphingCalculator.Parser

section
variable {e : Expr} {v w tail : List PlacedToken} {levels : Nat}

theorem startsOperand_of_printed (printed : Printed e v) : ∃ t w, v = t :: w ∧ startsOperand t.token := by
  cases printed <;> exact ⟨_, _, rfl, rfl⟩

theorem ofName?_constantName (c : Constant) : ElementaryFunction.ofName? c.name = none := by
  cases c <;> rfl

/-! ### With enough levels -/

theorem derives_unary_of_primary (d : Derives .primary levels v e) : Derives .unary levels v e :=
  .unsigned (.base d)

theorem derives_term_of_unary (d : Derives .unary levels v e) : Derives .term levels v e := by
  have chain := Derives.product d .lastFactor
  rwa [List.append_nil] at chain

theorem derives_expression_of_term (d : Derives .term levels v e) : Derives .expression levels v e := by
  have chain := Derives.sum d .lastTerm
  rwa [List.append_nil] at chain

theorem derives_expression_of_primary (d : Derives .primary levels v e) : Derives .expression levels v e :=
  derives_expression_of_term (derives_term_of_unary (derives_unary_of_primary d))

theorem derives_lastTerm {op : Operator} {sum right : Expr} (sign : Nat) (additive : op.isAdditive)
    (d : Derives .term levels w right) :
    Derives (.moreTerms sum) (levels + 1) (⟨.operator op, sign⟩ :: w) (.binary op sum right) := by
  have link : Derives (.moreTerms sum) (levels + 1) (⟨.operator op, sign⟩ :: (w ++ [])) (.binary op sum right) :=
    .nextTerm additive d .lastTerm
  rwa [List.append_nil] at link

theorem derives_lastFactor {op : Operator} {product right : Expr} (sign : Nat) (multiplicative : op.isMultiplicative)
    (d : Derives .unary levels w right) :
    Derives (.moreFactors product) (levels + 1) (⟨.operator op, sign⟩ :: w) (.binary op product right) := by
  have link : Derives (.moreFactors product) (levels + 1) (⟨.operator op, sign⟩ :: (w ++ []))
      (.binary op product right) := .nextFactor multiplicative d .lastFactor
  rwa [List.append_nil] at link

/-- Two operands with an operator between them are an expression. The right one has a level less. -/
theorem derives_operation {left right : Expr} (op : Operator) (sign : Nat)
    (dLeft : Derives .primary (levels + 1) v left) (dRight : Derives .primary levels w right) :
    Derives .expression (levels + 1) (v ++ ⟨.operator op, sign⟩ :: w) (.binary op left right) := by
  have first := derives_unary_of_primary dLeft
  have second := derives_unary_of_primary dRight
  cases op with
  | add | subtract =>
    exact .sum (derives_term_of_unary first) (derives_lastTerm sign rfl (derives_term_of_unary second))
  | multiply | divide =>
    exact derives_expression_of_term (.product first (derives_lastFactor sign rfl second))
  | power =>
    exact derives_expression_of_term (derives_term_of_unary (.unsigned (.raised dLeft second)))

theorem derives_group (opening closing : Nat) (d : Derives .expression levels v e) :
    Derives .primary (levels + 1) (⟨.leftParen, opening⟩ :: (v ++ [⟨.rightParen, closing⟩])) e :=
  .group d

theorem derives_of_printed (printed : Printed e v) (readable : e.Readable) (enough : e.printDepth ≤ levels) :
    Derives .primary levels v e := by
  induction printed generalizing levels with
  | literal => exact .number
  | var => exact .var readable.noFunction readable.noConstant
  | constant c => exact .constant (ofName?_constantName c) (Constant.ofName?_name c)
  | negate opening sign closing _ ih =>
    obtain ⟨fewer, rfl⟩ := Nat.exists_eq_add_of_le' (Nat.le_trans (Nat.le_add_right 2 _) enough)
    have operand := ih readable (show _ ≤ fewer by simp only [Expr.printDepth] at enough; omega)
    have negation : Derives .unary (fewer + 1) (⟨.operator .subtract, sign⟩ :: _) _ :=
      .negation (derives_unary_of_primary operand)
    exact .group (derives_expression_of_term (derives_term_of_unary negation))
  | binary op opening sign closing _ _ ihLeft ihRight =>
    simp only [Expr.printDepth] at enough
    obtain ⟨fewer, rfl⟩ := Nat.exists_eq_add_of_le' (show 2 ≤ levels by omega)
    have left := ihLeft readable.1 (show _ ≤ fewer + 1 by omega)
    have right := ihRight readable.2 (show _ ≤ fewer by omega)
    have group := derives_group opening closing (derives_operation op sign left right)
    rwa [List.append_assoc] at group
  | call f place opening closing _ ih =>
    obtain ⟨fewer, rfl⟩ := Nat.exists_eq_add_of_le' (Nat.le_trans (Nat.le_add_right 1 _) enough)
    have argument := ih readable (show _ ≤ fewer by simp only [Expr.printDepth] at enough; omega)
    exact .call (ElementaryFunction.ofName?_name f) (derives_expression_of_primary argument)

theorem knownBefore_of_printed (printed : Printed e v) (noGroup : startsGroup tail = false) :
    KnownBefore v tail := by
  induction printed generalizing tail with
  | literal => exact knownBefore_single (not_unknownCall (by simp))
  | var name => exact knownBefore_name (by simp [noGroup])
  | constant c => exact knownBefore_single (not_unknownCall_of_known (.inr (by simp [Constant.ofName?_name])))
  | negate opening sign closing _ ih =>
    exact knownBefore_parenthesized (knownBefore_cons (not_unknownCall (by simp)) (ih rfl))
  | @binary op opening sign closing left right v w _ _ ihLeft ihRight =>
    have inner : KnownBefore (v ++ ⟨.operator op, sign⟩ :: w) (⟨.rightParen, closing⟩ :: tail) :=
      knownBefore_append.mpr ⟨ihLeft rfl, knownBefore_cons (not_unknownCall (by simp)) (ihRight rfl)⟩
    have group : KnownBefore (⟨.leftParen, opening⟩ :: ((v ++ _ :: w) ++ [⟨.rightParen, closing⟩])) tail :=
      knownBefore_parenthesized inner
    rwa [List.append_assoc] at group
  | call f place opening closing _ ih =>
    have known : ElementaryFunction.ofName? f.name ≠ none := by simp [ElementaryFunction.ofName?_name]
    exact knownBefore_cons (not_unknownCall_of_known (.inl known)) (knownBefore_parenthesized (ih rfl))

/-! ### With too few levels -/

section
variable {below : Level} {t : PlacedToken} {tokens : List PlacedToken} {error : GrammarError}

theorem power_error (fails : primary below tokens = .error error) : power below tokens = .error error := by
  simp only [power, fails, bind, Except.bind]

theorem unary_error (starts : startsOperand t.token) (fails : primary below (t :: tokens) = .error error) :
    unary below (t :: tokens) = .error error :=
  (unary_of_startsOperand starts).trans (power_error fails)

theorem term_error (fails : unary below tokens = .error error) : term below tokens = .error error := by
  simp only [term, fails, bind, Except.bind]

theorem expression_error (fails : term below tokens = .error error) : expression below tokens = .error error := by
  simp only [expression, fails, bind, Except.bind]

theorem expression_error_of_primary (starts : startsOperand t.token)
    (fails : primary below (t :: tokens) = .error error) : expression below (t :: tokens) = .error error :=
  expression_error (term_error (unary_error starts fails))

theorem primary_error_of_group (opening : Nat) (fails : below.expression tokens = .error error) :
    primary below (⟨.leftParen, opening⟩ :: tokens) = .error error := by
  simp only [primary, fails, bind, Except.bind]

theorem primary_error_of_call {name : String} {f : ElementaryFunction} (place opening : Nat)
    (isFunction : ElementaryFunction.ofName? name = some f) (fails : below.arguments tokens = .error error) :
    primary below (⟨.identifier name, place⟩ :: ⟨.leftParen, opening⟩ :: tokens) = .error error := by
  simp only [primary, isFunction, call, takeLeftParen, fails, bind, Except.bind]

theorem power_error_of_exponent {base : Expr} {place : Nat} {rest : List PlacedToken}
    (read : primary below tokens = .ok (base, ⟨.operator .power, place⟩ :: rest))
    (fails : below.unary rest = .error error) : power below tokens = .error error := by
  simp only [power, read, fails, bind, Except.bind]

/-- An operand cannot be read a level further down, if there is such a level. -/
def FailsBelow (levels : Nat) (tokens : List PlacedToken) : Prop :=
  ∀ fewer, levels = fewer + 1 → primary (Level.nested fewer) tokens = .error .tooDeep

theorem unary_error_of_minus (place : Nat) (fails : below.unary tokens = .error error) :
    unary below (⟨.operator .subtract, place⟩ :: tokens) = .error error := by
  simp only [unary, fails, bind, Except.bind]

variable (starts : startsOperand t.token) (fails : FailsBelow levels (t :: tokens))
include starts fails

theorem unary_failsBelow : (Level.nested levels).unary (t :: tokens) = .error .tooDeep := by
  cases levels with
  | zero => rfl
  | succ fewer => exact unary_error starts (fails fewer rfl)

theorem arguments_failsBelow : (Level.nested levels).arguments (t :: tokens) = .error .tooDeep := by
  cases levels with
  | zero => rfl
  | succ fewer =>
    have read := expression_error_of_primary starts (fails fewer rfl)
    show arguments (Level.nested fewer) (t :: tokens) = _
    unfold arguments
    split
    case h_1 split => cases split; cases starts
    case h_2 => simp only [read, bind, Except.bind]

theorem sumLink_failsBelow (sum : Expr) (op : Operator) :
    (Level.nested levels).sumLink sum op (t :: tokens) = .error .tooDeep := by
  cases levels with
  | zero => rfl
  | succ fewer =>
    have read := term_error (unary_error starts (fails fewer rfl))
    simp only [Level.nested, Level.above, read, bind, Except.bind]

theorem productLink_failsBelow (product : Expr) (op : Operator) :
    (Level.nested levels).productLink product op (t :: tokens) = .error .tooDeep := by
  cases levels with
  | zero => rfl
  | succ fewer =>
    have read := unary_error starts (fails fewer rfl)
    simp only [Level.nested, Level.above, read, bind, Except.bind]

omit starts fails in
/-- An operation is not read when a level is missing for its right operand. -/
theorem expression_error_of_right {u : PlacedToken} {rest : List PlacedToken} {left : Expr} (op : Operator)
    (sign : Nat) (starts : startsOperand t.token)
    (read : primary (Level.nested levels) (t :: tokens) = .ok (left, ⟨.operator op, sign⟩ :: u :: rest))
    (startsRight : startsOperand u.token) (fails : FailsBelow levels (u :: rest)) :
    expression (Level.nested levels) (t :: tokens) = .error .tooDeep := by
  have unaryRead : Phrase.power.EndsBefore (⟨.operator op, sign⟩ :: u :: rest) →
      unary (Level.nested levels) (t :: tokens) = .ok (left, ⟨.operator op, sign⟩ :: u :: rest) :=
    fun ends => (unary_of_startsOperand starts).trans (power_of_endsBefore read ends)
  cases op with
  | add | subtract =>
    have first := unaryRead fun _ member => by cases member; rfl
    have termRead := (term_of_unary first).trans (moreFactors_of_endsBefore fun _ member => by cases member; rfl)
    exact (expression_of_term termRead).trans (sumLink_failsBelow startsRight fails _ _)
  | multiply | divide =>
    have first := unaryRead fun _ member => by cases member; rfl
    exact expression_error ((term_of_unary first).trans (productLink_failsBelow startsRight fails _ _))
  | power =>
    have raised := power_error_of_exponent read (unary_failsBelow startsRight fails)
    exact expression_error (term_error ((unary_of_startsOperand starts).trans raised))

end

theorem tooDeep_of_printed (printed : Printed e v) (readable : e.Readable) (deep : levels < e.printDepth) :
    primary (Level.nested levels) (v ++ tail) = .error .tooDeep := by
  induction printed generalizing levels tail with
  | literal | var | constant => exact absurd deep (Nat.not_lt_zero levels)
  | @negate opening sign closing operand v printed ih =>
    simp only [Expr.printDepth] at deep
    obtain ⟨t, w, rfl, starts⟩ := startsOperand_of_printed printed
    rw [List.cons_append, List.cons_append, List.append_assoc]
    apply primary_error_of_group
    cases levels with
    | zero => rfl
    | succ levels =>
      refine expression_error (term_error (unary_error_of_minus sign (unary_failsBelow starts ?_)))
      rintro fewer rfl
      exact ih readable (show fewer < _ by omega)
  | @binary op opening sign closing left right v w printedLeft printedRight ihLeft ihRight =>
    simp only [Expr.printDepth] at deep
    obtain ⟨t, v', rfl, starts⟩ := startsOperand_of_printed printedLeft
    obtain ⟨u, w', rfl, startsRight⟩ := startsOperand_of_printed printedRight
    simp only [List.cons_append, List.append_assoc, List.nil_append]
    apply primary_error_of_group
    cases levels with
    | zero => rfl
    | succ levels =>
      -- the reader fails on the left operand, or gets past it and fails on the right one, a level further down
      by_cases deepLeft : levels < left.printDepth
      · exact expression_error_of_primary starts (ihLeft readable.1 deepLeft)
      · have derived := derives_of_printed printedLeft readable.1 (Nat.le_of_not_lt deepLeft)
        have known : KnownBefore (t :: v') (⟨.operator op, sign⟩ :: u :: (w' ++ ⟨.rightParen, closing⟩ :: tail)) :=
          knownBefore_of_printed printedLeft rfl
        have read := reader_of_derives derived (fun _ _ => rfl) known
        refine expression_error_of_right op sign starts read startsRight ?_
        rintro fewer rfl
        exact ihRight readable.2 (show fewer < _ by omega)
  | @call f place opening closing argument v printed ih =>
    simp only [Expr.printDepth] at deep
    obtain ⟨t, w, rfl, starts⟩ := startsOperand_of_printed printed
    rw [List.cons_append, List.cons_append, List.append_assoc]
    apply primary_error_of_call place opening (ElementaryFunction.ofName?_name f)
    refine arguments_failsBelow starts ?_
    rintro fewer rfl
    exact ih readable (show fewer < _ by omega)

/-! ### The whole text -/

/-- The tokens of a readable expression and the end behind them are the expression, or nested too deep. -/
theorem parse_printed (printed : Printed e v) (readable : e.Readable) (place : Nat) :
    Expr.parse (v ++ [⟨.endOfInput, place⟩]) =
      if e.printDepth ≤ nestingLimit then .ok e else .error .tooDeep := by
  have derived := derives_of_printed printed readable (Nat.le_refl _)
  have balanced : isBalanced 0 (v ++ [⟨.endOfInput, place⟩]) = true := by
    rw [derived.isBalanced_append]
    rfl
  split
  case isTrue enough =>
    have whole := derives_expression_of_primary (derives_of_printed printed readable enough)
    have known : KnownBefore v [] := knownBefore_of_printed printed rfl
    rw [KnownBefore, List.take_nil, List.append_nil] at known
    rw [parse_eq_ok_iff, untilEnd_append whole.ne_endOfInput rfl]
    exact ⟨balanced, whole, known⟩
  case isFalse deep =>
    -- no balance of parentheses is missed and no end is met on the way to the missing level
    obtain ⟨t, w, rfl, starts⟩ := startsOperand_of_printed printed
    have read : ∀ tail, expression (Level.nested nestingLimit) (t :: w ++ tail) = .error .tooDeep := fun tail =>
      expression_error_of_primary starts (tooDeep_of_printed printed readable (Nat.lt_of_not_le deep))
    obtain ⟨position, closed⟩ := close_eq_append (t :: w ++ [⟨.endOfInput, place⟩])
    unfold Expr.parse
    split
    case h_1 atEnd =>
      rw [show t.token = .endOfInput from atEnd] at starts
      cases starts
    case h_2 =>
      rw [if_pos balanced, closed, List.append_assoc, read]
      rfl

end

end Grammar

/-- The text of a readable expression is read as the expression, unless it takes too many levels. -/
theorem Expr.read_render {e : Expr} (readable : e.Readable) :
    Expr.read e.render =
      if e.printDepth ≤ nestingLimit then .ok e else .error (.grammatical .tooDeep) := by
  obtain ⟨v, place, printed, cut⟩ := lex_render readable
  rw [Expr.read_of_lex cut, Grammar.parse_printed printed readable place]
  split <;> rfl

end GraphingCalculator
