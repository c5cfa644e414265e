import GraphingCalculator.Proofs.Grammar.Foresight

/-!
Where the readers of expressions stop: none leaves a token behind with which its phrase would go on. The
phrases that start on a level below end where they have to (`levelStops`), and so does a whole
expression (`expression_stops`).
-/

namespace GraphingCalculator.Grammar
open GraphingCalculator.Parser

section
variable {α : Type} {phrase : Phrase} {tokens tail rest : List PlacedToken} {below : Level}

/-- The phrase does not go on where the reader stops. -/
def StopsBefore (phrase : Phrase) (reader : Reader α) : Prop :=
  ∀ ⦃tokens a rest⦄, reader tokens = .ok (a, rest) → phrase.EndsBefore rest

theorem endsBefore_of_not_nextIs (last : ¬ NextIs phrase.goesOnWith tail) : phrase.EndsBefore tail := by
  intro next member
  rw [← Bool.not_eq_true]
  exact fun goesOn => last ⟨next, member, goesOn⟩

/-- A product ends behind a factor that is not raised when no other factor follows. -/
theorem endsBefore_term (ends : Phrase.unary.EndsBefore tail) (last : ¬ NextIs linksFactor tail) :
    Phrase.term.EndsBefore tail := by
  intro next member
  exact Bool.or_eq_false_iff.mpr ⟨ends next member, Bool.eq_false_iff.mpr fun links => last ⟨next, member, links⟩⟩

/-- A sum ends behind a product when no other term follows. -/
theorem endsBefore_expression (ends : Phrase.term.EndsBefore tail) (last : ¬ NextIs linksTerm tail) :
    Phrase.expression.EndsBefore tail := by
  intro next member
  exact Bool.or_eq_false_iff.mpr ⟨ends next member, Bool.eq_false_iff.mpr fun links => last ⟨next, member, links⟩⟩

theorem endsBefore_of_isRightParen (closes : NextIs isRightParen tail) : phrase.EndsBefore tail := by
  obtain ⟨t, rest, rfl, isRight⟩ := exists_cons_of_nextIs closes
  obtain ⟨place, rfl⟩ := eq_of_isRightParen isRight
  intro next member
  cases member
  cases phrase <;> rfl

/-- Where the phrases stop that a level starts on the one below. -/
structure LevelStops (below : Level) : Prop where
  expression : StopsBefore .expression below.expression
  arguments : StopsBefore .expression below.arguments
  unary : StopsBefore .unary below.unary
  sumLink : ∀ sum op, StopsBefore .expression (below.sumLink sum op)
  productLink : ∀ product op, StopsBefore .term (below.productLink product op)
  implicitLink : ∀ product, StopsBefore .term (below.implicitLink product)

section
variable (stops : LevelStops below)
include stops

theorem power_stops : StopsBefore .power (power below) := by
  rw [power_eq_bind]
  intro tokens e rest done
  obtain ⟨⟨base, behind⟩, -, finish⟩ := ok_of_bind done
  by_cases raises : NextIs isRaising behind
  · obtain ⟨t, after, rfl, isRaising⟩ := exists_cons_of_nextIs raises
    obtain ⟨place, rfl⟩ := eq_of_isRaising isRaising
    obtain ⟨⟨exponent, last⟩, read, finish⟩ := ok_of_bind finish
    cases finish
    exact stops.unary read
  · rw [raised_of_not_nextIs below base raises] at finish
    cases finish
    exact endsBefore_of_not_nextIs raises

theorem unary_stops : StopsBefore .unary (unary below) := by
  intro tokens e rest done
  unfold unary at done
  split at done
  case h_1 =>
    obtain ⟨⟨operand, last⟩, read, finish⟩ := ok_of_bind done
    cases finish
    exact stops.unary read
  case h_2 => exact power_stops stops done

/-- Behind a factor that is not raised, the rest of a product is read to the product's end. -/
theorem moreFactors_stops {product e : Expr} (ends : Phrase.unary.EndsBefore tokens)
    (done : moreFactors below product tokens = .ok (e, rest)) : Phrase.term.EndsBefore rest := by
  by_cases links : NextIs linksFactor tokens
  · obtain ⟨⟨token, place⟩, behind, rfl, isLink⟩ := exists_cons_of_nextIs links
    cases token with
    | operator op =>
      have multiplicative : op.isMultiplicative = true := isLink
      rw [moreFactors, if_pos multiplicative] at done
      exact stops.productLink product op done
    | identifier | leftParen => exact stops.implicitLink product done
    | _ => cases isLink
  · rw [moreFactors_of_not_nextIs below product links] at done
    cases done
    exact endsBefore_term ends links

theorem term_stops : StopsBefore .term (term below) := by
  intro tokens e rest done
  obtain ⟨⟨first, behind⟩, read, more⟩ := ok_of_bind done
  exact moreFactors_stops stops (unary_stops stops read) more

theorem moreTerms_stops {sum e : Expr} (ends : Phrase.term.EndsBefore tokens)
    (done : moreTerms below sum tokens = .ok (e, rest)) : Phrase.expression.EndsBefore rest := by
  by_cases links : NextIs linksTerm tokens
  · obtain ⟨⟨token, place⟩, behind, rfl, isLink⟩ := exists_cons_of_nextIs links
    cases token with
    | operator op =>
      have additive : op.isAdditive = true := isLink
      rw [moreTerms, if_pos additive] at done
      exact stops.sumLink sum op done
    | _ => cases isLink
  · rw [moreTerms_of_not_nextIs below sum links] at done
    cases done
    exact endsBefore_expression ends links

theorem expression_stops : StopsBefore .expression (expression below) := by
  intro tokens e rest done
  obtain ⟨⟨first, behind⟩, read, more⟩ := ok_of_bind done
  exact moreTerms_stops stops (term_stops stops read) more

theorem moreArguments_stops {room : Nat} {found all : List Expr} (ends : Phrase.expression.EndsBefore tokens)
    (done : moreArguments below room found tokens = .ok (all, rest)) : Phrase.expression.EndsBefore rest := by
  induction room generalizing found tokens with
  | zero =>
    cases done
    exact ends
  | succ room ih =>
    unfold moreArguments at done
    split at done
    case h_1 =>
      obtain ⟨⟨argument, behind⟩, read, more⟩ := ok_of_bind done
      exact ih (expression_stops stops read) more
    case h_2 =>
      cases done
      exact ends

theorem arguments_stops : StopsBefore .expression (arguments below) := by
  intro tokens all rest done
  unfold arguments at done
  split at done
  case h_1 =>
    cases done
    exact endsBefore_of_isRightParen ⟨_, rfl, rfl⟩
  case h_2 =>
    obtain ⟨⟨first, behind⟩, read, more⟩ := ok_of_bind done
    exact moreArguments_stops stops (expression_stops stops read) more

theorem levelStops_above : LevelStops below.above where
  expression := expression_stops stops
  arguments := arguments_stops stops
  unary := unary_stops stops
  sumLink sum op tokens e rest done := by
    obtain ⟨⟨right, behind⟩, read, more⟩ := ok_of_bind done
    exact moreTerms_stops stops (term_stops stops read) more
  productLink product op tokens e rest done := by
    obtain ⟨⟨right, behind⟩, read, more⟩ := ok_of_bind done
    exact moreFactors_stops stops (unary_stops stops read) more
  implicitLink product tokens e rest done := by
    obtain ⟨⟨right, behind⟩, read, more⟩ := ok_of_bind done
    exact moreFactors_stops stops (power_stops stops read) more

end

theorem levelStops_exhausted : LevelStops .exhausted where
  expression := nofun
  arguments := nofun
  unary := nofun
  sumLink := nofun
  productLink := nofun
  implicitLink := nofun

theorem levelStops (levels : Nat) : LevelStops (.nested levels) := by
  induction levels with
  | zero => exact levelStops_exhausted
  | succ levels ih => exact levelStops_above ih

end

end GraphingCalculator.Grammar
