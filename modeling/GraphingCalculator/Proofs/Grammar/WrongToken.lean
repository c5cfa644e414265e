import GraphingCalculator.Proofs.Grammar.Acceptance
import GraphingCalculator.Proofs.Grammar.Foresight
import GraphingCalculator.Token.Lexer
import Mathlib

/-!
The token that an error points at is the first one that cannot be right (`wrong_token_is_first`): no text that
starts alike is accepted, however it goes on behind that token, and what stands before the token could have gone
on, with numbers and parentheses alone, to a text in which nothing is wrong but that there may be too much of
something.
-/

namespace GraphingCalculator.Grammar
open GraphingCalculator.Parser

/-- The tokens are accepted, or the only fault is a call with more or fewer arguments than its function takes,
or too many levels. -/
def IsWellFormed (tokens : List PlacedToken) : Prop :=
  (∃ e, Expr.parse tokens = .ok e) ∨ (∃ f count, Expr.parse tokens = .error (.arity f count)) ∨
    Expr.parse tokens = .error .tooDeep

variable {tokens v w rest : List PlacedToken} {t : PlacedToken}

/-- The tree, when nothing but the end of the input is left over behind it. -/
def onlyEnd (result : Expr × List PlacedToken) : Except GrammarError Expr :=
  match (current result.2).token with
  | .endOfInput => .ok result.1
  | _ => .error (unexpected result.2 .operatorOrEnd)

/-- Only tokens with something in front of the end and with parentheses that pair up are read. -/
theorem parse_stages (tokens : List PlacedToken) :
    ((current tokens).token = .endOfInput ∧ Expr.parse tokens = .error .empty) ∨
      (isBalanced 0 tokens = false ∧ Expr.parse tokens = .error .unbalanced) ∨
      Expr.parse tokens = expression (.nested nestingLimit) (close tokens) >>= onlyEnd := by
  unfold Expr.parse
  split
  case h_1 atEnd => exact .inl ⟨atEnd, rfl⟩
  case h_2 =>
    cases balanced : isBalanced 0 tokens with
    | false => exact .inr (.inl ⟨rfl, rfl⟩)
    | true => exact .inr (.inr rfl)

/-- A wrong token stops the reader of the whole expression, or it is left over behind it. -/
theorem cases_of_parse_eq_unexpected {position : Nat} {found : Token} {expected : Expectation}
    (fails : Expr.parse tokens = .error (.unexpected position found expected)) :
    expression (.nested nestingLimit) (close tokens) = .error (.unexpected position found expected) ∨
      ∃ e rest, expression (.nested nestingLimit) (close tokens) = .ok (e, ⟨found, position⟩ :: rest) ∧
        found ≠ .endOfInput := by
  obtain ⟨-, empty⟩ | ⟨-, unbalanced⟩ | stages := parse_stages tokens
  · cases empty.symm.trans fails
  · cases unbalanced.symm.trans fails
  · rw [stages] at fails
    cases read : expression (.nested nestingLimit) (close tokens) with
    | error error =>
      rw [read] at fails
      exact .inl (congrArg Except.error (Except.error.inj fails))
    | ok result =>
      obtain ⟨e, rest⟩ := result
      rw [read] at fails
      have left : onlyEnd (e, rest) = .error (.unexpected position found expected) := fails
      unfold onlyEnd at left
      split at left
      case h_1 => cases left
      case h_2 more =>
        cases left
        cases rest with
        | nil => exact absurd rfl more
        | cons t rest => exact .inr ⟨e, rest, rfl, more⟩

theorem expression_of_endOfInput (atEnd : t.token = .endOfInput) (rest : List PlacedToken) :
    expression (.nested nestingLimit) (t :: rest) = .error (.unexpected t.position t.token .expression) :=
  (expression_readsOperands (localBelow nestingLimit)).wrong t rest (by rw [atEnd]; rfl)

/-- What the reader of expressions comes through is well formed. -/
theorem isWellFormed_of_settles (piece : IsPiece w) (place : Nat)
    (settles : ∀ tail, NextIs isClosing tail → Settles (expression (.nested nestingLimit)) (w ++ tail) tail) :
    IsWellFormed (w ++ [⟨.endOfInput, place⟩]) := by
  obtain ⟨last, closed⟩ := close_eq_append (w ++ [⟨.endOfInput, place⟩])
  rw [List.append_assoc, List.singleton_append] at closed
  have through := settles [⟨.endOfInput, place⟩, ⟨.endOfInput, last⟩] ⟨_, rfl, rfl⟩
  have balanced : isBalanced 0 (w ++ [⟨.endOfInput, place⟩]) = true := by
    rw [piece.isBalanced_append]
    rfl
  -- there is something to read, since no expression starts with the end
  have notAtEnd : (current (w ++ [⟨.endOfInput, place⟩])).token ≠ .endOfInput := by
    cases w with
    | nil =>
      rw [Settles, List.nil_append, expression_of_endOfInput rfl] at through
      simp at through
    | cons t w => exact piece.noEnd t (by simp)
  obtain ⟨atEnd, -⟩ | ⟨unbalanced, -⟩ | stages := parse_stages (w ++ [⟨.endOfInput, place⟩])
  · exact absurd atEnd notAtEnd
  · simp [balanced] at unbalanced
  · unfold IsWellFormed
    rw [stages, closed]
    obtain ⟨e, read⟩ | ⟨f, count, read⟩ | read := through
    · exact .inl ⟨e, by rw [read]; rfl⟩
    · exact .inr (.inl ⟨f, count, by rw [read]; rfl⟩)
    · exact .inr (.inr (by rw [read]; rfl))

/-- A token at which the reader of expressions is stuck makes it impossible to accept the tokens. -/
theorem parse_ne_ok_of_fails (starts : v ++ [t] <+: tokens)
    (fails : ∀ rest result, expression (.nested nestingLimit) (v ++ t :: rest) = .ok result →
      current result.2 = t ∧ t.token ≠ .endOfInput) (e : Expr) : Expr.parse tokens ≠ .ok e := by
  obtain ⟨rest, rfl⟩ := starts
  intro accepted
  obtain ⟨-, empty⟩ | ⟨-, unbalanced⟩ | stages := parse_stages (v ++ [t] ++ rest)
  · cases empty.symm.trans accepted
  · cases unbalanced.symm.trans accepted
  · obtain ⟨last, closed⟩ := close_eq_append (v ++ [t] ++ rest)
    rw [stages, closed] at accepted
    obtain ⟨⟨tree, left⟩, read, finish⟩ := ok_of_bind accepted
    simp only [List.append_assoc, List.cons_append] at read
    obtain ⟨leftOver, more⟩ := fails _ _ read
    unfold onlyEnd at finish
    split at finish
    case h_1 atEnd => exact more (leftOver ▸ atEnd)
    case h_2 => cases finish

/-- In front of the wrong token nothing is the end of the input. -/
theorem exists_index_of_close_eq (hasEnd : ∃ u ∈ tokens, u.token = .endOfInput)
    (noEnd : ∀ u ∈ v, u.token ≠ .endOfInput) (split : close tokens = v ++ t :: rest) :
    tokens.take v.length = v ∧ tokens[v.length]? = some t := by
  obtain ⟨last, closed⟩ := close_eq_append tokens
  rw [closed] at split
  obtain ⟨u, member, isEnd⟩ := hasEnd
  rcases List.append_eq_append_iff.mp split with ⟨more, rfl, -⟩ | ⟨more, rfl, behind⟩
  · exact absurd isEnd (noEnd u (List.mem_append_left _ member))
  · cases more with
    | nil => exact absurd isEnd (noEnd u (by simpa using member))
    | cons first more =>
      obtain ⟨rfl, -⟩ := List.cons.inj behind
      simp

theorem endOfInput_mem_of_lexFrom {position : Nat} {text : List Char} {found : List PlacedToken}
    (cut : lexFrom position text found = .ok tokens) : ∃ t ∈ tokens, t.token = .endOfInput := by
  fun_induction lexFrom position text found with
  | case1 position found =>
    cases cut
    exact ⟨⟨.endOfInput, position⟩, by simp, rfl⟩
  | case2 _ _ _ _ _ ih => exact ih cut
  | case3 => cases cut
  | case4 _ _ _ _ _ _ _ ih => exact ih cut

/-- What a wrong token stands behind can be filled up, and the reader of expressions gets no further than to the
token, whatever follows it. -/
theorem exists_front_of_unexpected {position : Nat} {found : Token} {expected : Expectation}
    (fails : Expr.parse tokens = .error (.unexpected position found expected)) :
    ∃ v rest filler, close tokens = v ++ ⟨found, position⟩ :: rest ∧ (∀ t ∈ filler, isFiller t.token) ∧
      IsPiece (v ++ filler) ∧
      (∀ tail, NextIs isClosing tail → Settles (expression (.nested nestingLimit)) (v ++ filler ++ tail) tail) ∧
      ∀ rest result, expression (.nested nestingLimit) (v ++ ⟨found, position⟩ :: rest) = .ok result →
        current result.2 = ⟨found, position⟩ ∧ found ≠ .endOfInput := by
  have reads := (expression_readsOperands (localBelow nestingLimit)).readsLocally (close tokens)
  obtain stuck | ⟨e, rest, read, more⟩ := cases_of_parse_eq_unexpected fails
  · obtain ⟨v, rest, filler, split, -, stuck⟩ := reads.stuck stuck (exists_end_mem_close tokens)
    refine ⟨v, rest, filler, split, stuck.fills, stuck.isPiece, ?_, ?_⟩
    · simpa only [List.append_assoc] using stuck.settles
    · exact fun rest result done => absurd done (stuck.fails rest result)
  · obtain ⟨v, split, -, took⟩ := reads.took read
    refine ⟨v, rest, [], split, by simp, by simpa using took.isPiece, fun tail closes => ?_, fun rest result done => ?_⟩
    · rw [List.append_nil]
      exact .inl ⟨e, took.again tail (.inr closes)⟩
    · rw [took.again (_ :: rest) (.inl rfl)] at done
      cases done
      exact ⟨rfl, more⟩

/-- When a text is rejected for a wrong token, that token stands in it at the position of the error. No tokens that
are the same up to and including that one are accepted. The ones in front of it become well formed when numbers and
parentheses, and then the end of the input, are put behind them. -/
theorem wrong_token_is_first {source : String} {position : Nat} {found : Token} {expected : Expectation}
    (cut : lex source = .ok tokens) (fails : Expr.parse tokens = .error (.unexpected position found expected)) :
    ∃ i, tokens[i]? = some ⟨found, position⟩ ∧
      (∀ others e, tokens.take (i + 1) <+: others → Expr.parse others ≠ .ok e) ∧
      ∃ filler : List PlacedToken, (∀ t ∈ filler, isFiller t.token) ∧
        ∀ place, IsWellFormed (tokens.take i ++ filler ++ [⟨.endOfInput, place⟩]) := by
  have hasEnd : ∃ t ∈ tokens, t.token = .endOfInput := endOfInput_mem_of_lexFrom cut
  obtain ⟨v, rest, filler, split, fills, piece, settles, refused⟩ := exists_front_of_unexpected fails
  have noEnd : ∀ t ∈ v, t.token ≠ .endOfInput := fun t member => piece.noEnd t (List.mem_append_left _ member)
  obtain ⟨front, here⟩ := exists_index_of_close_eq hasEnd noEnd split
  refine ⟨v.length, here, fun others e starts => ?_, filler, fills, fun place => ?_⟩
  · rw [List.take_add_one, front, here] at starts
    exact parse_ne_ok_of_fails starts refused e
  · rw [front]
    exact isWellFormed_of_settles piece place settles

/-- In `sin x` the variable stands in the place of a parenthesis. -/
theorem wrong_token_is_first_call :
    let tokens : List PlacedToken := [⟨.identifier "sin", 0⟩, ⟨.identifier "x", 4⟩, ⟨.endOfInput, 5⟩]
    lex "sin x" = .ok tokens ∧ Expr.parse tokens = .error (.unexpected 4 (.identifier "x") .leftParen) ∧
      ∃ i, tokens[i]? = some ⟨.identifier "x", 4⟩ ∧
        (∀ others e, tokens.take (i + 1) <+: others → Expr.parse others ≠ .ok e) ∧
        ∃ filler : List PlacedToken, (∀ t ∈ filler, isFiller t.token) ∧
          ∀ place, IsWellFormed (tokens.take i ++ filler ++ [⟨.endOfInput, place⟩]) := by
  intro tokens
  have cut : lex "sin x" = .ok tokens := by cbv
  have fails : Expr.parse tokens = .error (.unexpected 4 (.identifier "x") .leftParen) := by rfl
  exact ⟨cut, fails, wrong_token_is_first cut fails⟩

end GraphingCalculator.Grammar
