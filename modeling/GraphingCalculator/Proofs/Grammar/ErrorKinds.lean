import GraphingCalculator.Proofs.Grammar.Faults
import GraphingCalculator.Proofs.Grammar.WrongToken
import GraphingCalculator.Proofs.Token.Partition
import Mathlib.Combinatorics.Enumerative.DyckWord

/-!
Which error a text is rejected with (`errors_are_classified`). It is empty if there is nothing in front of the
end mark, and unbalanced if its parentheses form no Dyck word. A wrong token is one of a few kinds, which depend
on what is expected in its place: parentheses that pair up leave no closing one over, and a reader only stops
where nothing goes on.
-/

namespace GraphingCalculator.Grammar
open GraphingCalculator.Parser

/-! ### Parentheses that pair up -/

/-- The parentheses among the tokens, as steps up and down. -/
def parentheses (tokens : List PlacedToken) : List DyckStep :=
  tokens.filterMap fun t =>
    match t.token with
    | .leftParen => some .U
    | .rightParen => some .D
    | _ => none

/-- The parentheses of the tokens form a balanced sequence. -/
def PairUp (tokens : List PlacedToken) : Prop :=
  ∃ word : DyckWord, word.toList = parentheses tokens

/-- The steps go down from this height to the ground, and never below it. -/
structure Lands (height : Nat) (steps : List DyckStep) : Prop where
  onGround : steps.count .D = steps.count .U + height
  above : ∀ i, (steps.take i).count .D ≤ (steps.take i).count .U + height

section
variable {height : Nat} {steps : List DyckStep} {tokens : List PlacedToken}

theorem lands_nil_iff : Lands height [] ↔ height = 0 := by
  constructor
  · intro lands
    simpa using lands.onGround.symm
  · rintro rfl
    exact ⟨rfl, by simp⟩

/-- The first step is one from the height to the next one. -/
theorem lands_cons_iff {step : DyckStep} {next : Nat} (moves : height + [step].count .U = next + [step].count .D) :
    Lands height (step :: steps) ↔ Lands next steps := by
  have front (way : DyckStep) (steps : List DyckStep) :
      (step :: steps).count way = [step].count way + steps.count way := by
    rw [← List.count_append, List.singleton_append]
  constructor
  · rintro ⟨onGround, above⟩
    refine ⟨?_, fun i => ?_⟩
    · rw [front .D, front .U] at onGround
      omega
    · have here := above (i + 1)
      rw [List.take_succ_cons, front .D, front .U] at here
      omega
  · rintro ⟨onGround, above⟩
    refine ⟨?_, fun i => ?_⟩
    · rw [front .D, front .U]
      omega
    · cases i with
      | zero => simp
      | succ i =>
        have here := above i
        rw [List.take_succ_cons, front .D, front .U]
        omega

theorem not_lands_down : ¬ Lands 0 (.D :: steps) := fun lands => by simpa using lands.above 1

theorem isBalanced_iff_lands : isBalanced height tokens = true ↔ Lands height (parentheses tokens) := by
  fun_induction isBalanced height tokens with
  | case1 height => simp [parentheses, lands_nil_iff]
  | case2 height place rest ih => exact ih.trans (lands_cons_iff rfl).symm
  | case3 place rest => exact ⟨nofun, fun lands => absurd lands not_lands_down⟩
  | case4 place rest height ih => exact ih.trans (lands_cons_iff rfl).symm
  | case5 height t rest noLeft noRight ih =>
    have skip : parentheses (t :: rest) = parentheses rest := by
      obtain ⟨token, place⟩ := t
      cases token with
      | leftParen => exact absurd rfl (noLeft place)
      | rightParen => exact absurd rfl (noRight place)
      | _ => rfl
    rwa [skip]

theorem isBalanced_iff_pairUp : isBalanced 0 tokens = true ↔ PairUp tokens := by
  rw [isBalanced_iff_lands]
  constructor
  · intro lands
    exact ⟨⟨parentheses tokens, lands.onGround.symm, lands.above⟩, rfl⟩
  · rintro ⟨word, same⟩
    rw [← same]
    exact ⟨word.count_U_eq_count_D.symm, word.count_D_le_count_U⟩

end

/-! ### Errors of a whole text -/

/-- The tokens that an error can name when this is expected in their place, behind the token `before`. -/
def CanBeWrong (before : Option PlacedToken) : Expectation → Token → Prop
  | .expression, found =>
    (∃ op, found = .operator op ∧ op ≠ .subtract) ∨ found = .rightParen ∨ found = .comma ∨ found = .endOfInput
  | .operatorOrEnd, found | .rightParen, found => (∃ value, found = .number value) ∨ found = .comma
  | .leftParen, found => found ≠ .leftParen ∧ ∃ t ∈ before, IsFunctionName t.token

section
variable {tokens v rest : List PlacedToken} {t : PlacedToken} {error : GrammarError} {found : Token} {place : Nat}

theorem number_or_comma_of_not_goesOn (ends : Phrase.expression.goesOnWith found = false)
    (notRight : found ≠ .rightParen) (notEnd : found ≠ .endOfInput) :
    (∃ value, found = .number value) ∨ found = .comma := by
  cases found with
  | number value => exact .inl ⟨value, rfl⟩
  | comma => exact .inr rfl
  | operator op => cases op <;> cases ends
  | identifier | leftParen => cases ends
  | rightParen => exact absurd rfl notRight
  | endOfInput => exact absurd rfl notEnd

theorem canBeWrong_of_not_startsWith {before : Option PlacedToken}
    (noStart : Phrase.expression.startsWith found = false) : CanBeWrong before .expression found := by
  cases found with
  | operator op => exact .inl ⟨op, rfl, by rintro rfl; cases noStart⟩
  | rightParen => exact .inr (.inl rfl)
  | comma => exact .inr (.inr (.inl rfl))
  | endOfInput => exact .inr (.inr (.inr rfl))
  | number | identifier | leftParen => cases noStart

theorem onlyEnd_eq_error {e : Expr} (fails : onlyEnd (e, rest) = .error error) :
    error = unexpected rest .operatorOrEnd ∧ (current rest).token ≠ .endOfInput := by
  unfold onlyEnd at fails
  split at fails
  case h_1 => cases fails
  case h_2 more =>
    cases fails
    exact ⟨rfl, more⟩

/-- A token that is left over behind what has been read. -/
structure IsLeftOver (v : List PlacedToken) (t : PlacedToken) : Prop where
  isPiece : IsPiece v
  notEnd : t.token ≠ .endOfInput
  endsHere : Phrase.expression.goesOnWith t.token = false

/-- When tokens are read, an error is one of the readers, or a token is left over. -/
theorem explains_or_isLeftOver (fails : expression (.nested nestingLimit) tokens >>= onlyEnd = .error error) :
    Explains tokens error ∨
      ∃ v t rest, tokens = v ++ t :: rest ∧ IsLeftOver v t ∧
        error = .unexpected t.position t.token .operatorOrEnd := by
  have levels := localBelow nestingLimit
  have stops := levelStops nestingLimit
  cases read : expression (.nested nestingLimit) tokens with
  | error readerError =>
    rw [read] at fails
    cases fails
    exact .inl (expression_failsSoundly levels stops (faultsBelow nestingLimit) tokens read)
  | ok result =>
    obtain ⟨e, behind⟩ := result
    rw [read] at fails
    obtain ⟨rfl, more⟩ := onlyEnd_eq_error fails
    obtain ⟨v, split, -, took⟩ := ((expression_readsOperands levels).readsLocally tokens).took read
    cases behind with
    | nil => exact absurd rfl more
    | cons t rest =>
      exact .inr ⟨v, t, rest, split, ⟨took.isPiece, more, goesOnWith_current (expression_stops stops read)⟩, rfl⟩

theorem ne_empty_of_stages (fails : expression (.nested nestingLimit) (close tokens) >>= onlyEnd = .error error) :
    error ≠ .empty ∧ error ≠ .unbalanced := by
  obtain explained | ⟨v, t, rest, -, -, rfl⟩ := explains_or_isLeftOver fails
  · refine ⟨?_, ?_⟩ <;> rintro rfl <;> exact explained
  · exact ⟨nofun, nofun⟩

theorem parse_eq_empty_iff : Expr.parse tokens = .error .empty ↔ (current tokens).token = .endOfInput := by
  constructor
  · intro fails
    obtain ⟨atEnd, -⟩ | ⟨-, unbalanced⟩ | stages := parse_stages tokens
    · exact atEnd
    · cases unbalanced.symm.trans fails
    · exact absurd rfl (ne_empty_of_stages (stages.symm.trans fails)).1
  · intro atEnd
    simp only [Expr.parse, atEnd]

theorem parse_eq_unbalanced_iff :
    Expr.parse tokens = .error .unbalanced ↔ (current tokens).token ≠ .endOfInput ∧ ¬ PairUp tokens := by
  rw [← isBalanced_iff_pairUp, Bool.not_eq_true]
  constructor
  · intro fails
    refine ⟨fun atEnd => ?_, ?_⟩
    · cases (parse_eq_empty_iff.mpr atEnd).symm.trans fails
    · obtain ⟨-, empty⟩ | ⟨unbalanced, -⟩ | stages := parse_stages tokens
      · cases empty.symm.trans fails
      · exact unbalanced
      · exact absurd rfl (ne_empty_of_stages (stages.symm.trans fails)).2
  · rintro ⟨notAtEnd, unbalanced⟩
    unfold Expr.parse
    split
    case h_1 atEnd => exact absurd atEnd notAtEnd
    case h_2 => rw [unbalanced, if_neg Bool.false_ne_true]

/-- What closed tokens hold in front of their first end, and the token there, is the front of the tokens. -/
theorem exists_behind_of_close_eq (hasEnd : ∃ t ∈ tokens, t.token = .endOfInput)
    (noEnd : ∀ t ∈ v, t.token ≠ .endOfInput) (split : close tokens = v ++ t :: rest) :
    ∃ behind, tokens = v ++ t :: behind := by
  obtain ⟨same, here⟩ := exists_index_of_close_eq hasEnd noEnd split
  obtain ⟨inside, rfl⟩ := List.getElem?_eq_some_iff.mp here
  refine ⟨tokens.drop (v.length + 1), ?_⟩
  calc tokens = tokens.take v.length ++ tokens.drop v.length := (List.take_append_drop v.length tokens).symm
    _ = v ++ tokens[v.length] :: tokens.drop (v.length + 1) := by rw [same, List.getElem_cons_drop inside]

/-- A text is cut into words, and the end mark stands behind them. -/
theorem exists_words_of_lex {source : String} (cut : lex source = .ok tokens) :
    ∃ words last, tokens = words ++ [⟨.endOfInput, last⟩] ∧ ∀ t ∈ words, t.token ≠ .endOfInput := by
  obtain ⟨words, cuts, rfl⟩ := lex_eq_ok_iff.mp cut
  refine ⟨words.map Word.placed, source.length, rfl, fun t member => ?_⟩
  obtain ⟨word, inWords, rfl⟩ := List.mem_map.mp member
  obtain ⟨kind, front⟩ := cuts.isFront word inWords
  exact front.spells.ne_endOfInput

section
variable {words : List PlacedToken} {last : Nat} (noEnd : ∀ t ∈ words, t.token ≠ .endOfInput)
include noEnd

theorem current_eq_endOfInput_iff : (current (words ++ [⟨.endOfInput, last⟩])).token = .endOfInput ↔ words = [] := by
  cases words with
  | nil => simp [current]
  | cons t words => simpa [current] using noEnd t (by simp)

/-- The end mark stands behind all other tokens. -/
theorem behind_endOfInput_eq_nil {behind : List PlacedToken} (atEnd : t.token = .endOfInput)
    (split : words ++ [⟨.endOfInput, last⟩] = v ++ t :: behind) : behind = [] := by
  rcases List.eq_nil_or_concat' behind with none | ⟨middle, final, rfl⟩
  · exact none
  · rw [← List.cons_append, ← List.append_assoc] at split
    obtain ⟨rfl, -⟩ := List.append_inj' split rfl
    exact absurd atEnd (noEnd t (by simp))

end

/-- The token that a reader's error names can be wrong there, for the parentheses pair up. -/
theorem canBeWrong_of_misfits {opened : Nat} {expected : Expectation} {behind : List PlacedToken}
    (balanced : isBalanced opened (⟨found, place⟩ :: behind) = true) (atEnd : found = .endOfInput → behind = [])
    (misfits : Misfits v opened found expected) : CanBeWrong v.getLast? expected found := by
  cases expected with
  | expression => exact canBeWrong_of_not_startsWith misfits
  | operatorOrEnd => exact False.elim misfits
  | leftParen => exact misfits
  | rightParen =>
    obtain ⟨notRight, ends, positive⟩ := misfits
    refine number_or_comma_of_not_goesOn ends notRight fun isEnd => ?_
    obtain rfl := atEnd isEnd
    subst isEnd
    simp [isBalanced, Nat.pos_iff_ne_zero.mp positive] at balanced

theorem stages_of_unexpected {expected : Expectation}
    (fails : Expr.parse tokens = .error (.unexpected place found expected)) :
    isBalanced 0 tokens = true ∧
      expression (.nested nestingLimit) (close tokens) >>= onlyEnd = .error (.unexpected place found expected) := by
  unfold Expr.parse at fails
  split at fails
  case h_1 => cases fails
  case h_2 =>
    split at fails
    case isTrue balanced => exact ⟨balanced, fails⟩
    case isFalse => cases fails

/-- Where an error of tokens that are read points. -/
theorem exists_front_of_stages {expected : Expectation} (hasEnd : ∃ t ∈ tokens, t.token = .endOfInput)
    (fails : expression (.nested nestingLimit) tokens >>= onlyEnd = .error (.unexpected place found expected)) :
    ∃ v rest opened, tokens = v ++ ⟨found, place⟩ :: rest ∧ LeavesOpen opened v ∧
      (Misfits v opened found expected ∨
        (expected = .operatorOrEnd ∧ opened = 0 ∧ IsLeftOver v ⟨found, place⟩)) := by
  obtain ⟨v, rest, opened, split, here, leaves, misfits⟩ | ⟨v, t, rest, split, leftOver, names⟩ :=
    explains_or_isLeftOver fails
  · cases rest with
    | nil =>
      obtain ⟨last, member, atEnd⟩ := hasEnd
      rw [split, List.append_nil] at member
      exact absurd atEnd (leaves.noEnd last member)
    | cons t rest =>
      cases (show t = _ from here)
      exact ⟨v, rest, opened, split, leaves, .inl misfits⟩
  · cases names
    exact ⟨v, rest, 0, split, leftOver.isPiece.leavesOpen, .inr ⟨rfl, rfl, leftOver⟩⟩

theorem canBeWrong_of_isLeftOver {behind : List PlacedToken} (balanced : isBalanced 0 (⟨found, place⟩ :: behind) = true)
    (leftOver : IsLeftOver v ⟨found, place⟩) : CanBeWrong v.getLast? .operatorOrEnd found := by
  refine number_or_comma_of_not_goesOn leftOver.endsHere ?_ leftOver.notEnd
  rintro rfl
  cases balanced

/-- How the errors of a text are sorted. A text with nothing in it is empty, and one whose parentheses form no
balanced sequence is unbalanced. A wrong token stands in the text at the place of the error. Where an operator or
a closing parenthesis is expected it is a number or a comma, where an expression is expected it is one of the
tokens with which no expression starts, and an opening parenthesis is expected only behind the name of a
function. -/
theorem errors_are_classified {source : String} (cut : lex source = .ok tokens) :
    (Expr.parse tokens = .error .empty ↔ ∃ place, tokens = [⟨.endOfInput, place⟩]) ∧
    (Expr.parse tokens = .error .unbalanced ↔ ¬ PairUp tokens) ∧
    ∀ position found expected, Expr.parse tokens = .error (.unexpected position found expected) →
      ∃ before behind, tokens = before ++ ⟨found, position⟩ :: behind ∧
        CanBeWrong before.getLast? expected found := by
  obtain ⟨words, last, rfl, noEnd⟩ := exists_words_of_lex cut
  refine ⟨?_, ?_, fun position found expected fails => ?_⟩
  · rw [parse_eq_empty_iff, current_eq_endOfInput_iff noEnd]
    constructor
    · rintro rfl
      exact ⟨last, rfl⟩
    · rintro ⟨place, same⟩
      obtain ⟨none, -⟩ | ⟨-, none⟩ := List.append_eq_singleton_iff.mp same
      · exact none
      · cases none
  · rw [parse_eq_unbalanced_iff, ne_eq, current_eq_endOfInput_iff noEnd]
    refine and_iff_right_of_imp fun unbalanced => ?_
    -- the end mark alone is balanced
    rintro rfl
    exact unbalanced (isBalanced_iff_pairUp.mp rfl)
  · obtain ⟨balanced, stages⟩ := stages_of_unexpected fails
    obtain ⟨v, rest, opened, split, leaves, wrong⟩ := exists_front_of_stages (exists_end_mem_close _) stages
    have hasEnd : ∃ t ∈ words ++ [⟨.endOfInput, last⟩], t.token = .endOfInput := endOfInput_mem_of_lexFrom cut
    obtain ⟨behind, same⟩ := exists_behind_of_close_eq hasEnd leaves.noEnd split
    have closes : isBalanced opened (⟨found, position⟩ :: behind) = true := by
      rw [same, leaves.isBalanced_append, Nat.zero_add] at balanced
      exact balanced
    refine ⟨v, behind, same, ?_⟩
    rcases wrong with misfits | ⟨rfl, rfl, leftOver⟩
    · exact canBeWrong_of_misfits closes (fun atEnd => behind_endOfInput_eq_nil noEnd atEnd same) misfits
    · exact canBeWrong_of_isLeftOver closes leftOver

/-- A pair stands where one expression is expected. -/
theorem errors_are_classified_pair :
    let tokens : List PlacedToken := [⟨.leftParen, 0⟩, ⟨.identifier "x", 1⟩, ⟨.comma, 2⟩, ⟨.identifier "y", 3⟩,
      ⟨.rightParen, 4⟩, ⟨.endOfInput, 5⟩]
    lex "(x,y)" = .ok tokens ∧ Expr.parse tokens = .error (.unexpected 2 .comma .rightParen) ∧ PairUp tokens ∧
      ∃ before behind, tokens = before ++ ⟨.comma, 2⟩ :: behind ∧ CanBeWrong before.getLast? .rightParen .comma := by
  intro tokens
  have cut : lex "(x,y)" = .ok tokens := by cbv
  have fails : Expr.parse tokens = .error (.unexpected 2 .comma .rightParen) := by rfl
  obtain ⟨-, unbalanced, wrong⟩ := errors_are_classified cut
  refine ⟨cut, fails, ?_, wrong 2 .comma .rightParen fails⟩
  by_contra notPaired
  cases (unbalanced.mpr notPaired).symm.trans fails

end

end GraphingCalculator.Grammar
