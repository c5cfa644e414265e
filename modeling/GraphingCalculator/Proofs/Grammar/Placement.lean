import GraphingCalculator.Proofs.Grammar.Acceptance

/-!
What a phrase says of the places of its tokens, and of their neighbours: nothing of the places (`Derives.replaced`,
`parse_replaced`), and that no number stands directly behind an operand (`Derives.numbersApart`).
-/

namespace GraphingCalculator.Grammar

section
variable {phrase : Phrase} {levels : Nat} {v w : List PlacedToken} {e : Expr}

/-! ### Places -/

/-- The lists have the same tokens, perhaps at other places. -/
def SameTokens (v w : List PlacedToken) : Prop := v.map PlacedToken.token = w.map PlacedToken.token

theorem SameTokens.of_cons {t : PlacedToken} (same : SameTokens w (t :: v)) :
    ∃ place tail, w = ⟨t.token, place⟩ :: tail ∧ SameTokens tail v := by
  obtain ⟨⟨token, place⟩, tail, rfl, rfl, sameTail⟩ := List.map_eq_cons_iff.mp same
  exact ⟨place, tail, rfl, sameTail⟩

theorem SameTokens.of_append {front back : List PlacedToken} (same : SameTokens w (front ++ back)) :
    ∃ front' back', w = front' ++ back' ∧ SameTokens front' front ∧ SameTokens back' back :=
  List.map_eq_append_iff.mp (same.trans List.map_append)

theorem SameTokens.eq_nil (same : SameTokens w []) : w = [] := List.map_eq_nil_iff.mp same

theorem SameTokens.of_singleton {t : PlacedToken} (same : SameTokens w [t]) : ∃ place, w = [⟨t.token, place⟩] := by
  obtain ⟨place, tail, rfl, none⟩ := same.of_cons
  exact ⟨place, by rw [none.eq_nil]⟩

/-- The same tokens at other places are the same phrase. -/
theorem Derives.replaced (d : Derives phrase levels v e) (same : SameTokens w v) : Derives phrase levels w e := by
  induction d generalizing w with
  | sum _ _ first rest =>
    obtain ⟨v, w, rfl, here, later⟩ := same.of_append
    exact .sum (first here) (rest later)
  | product _ _ first rest =>
    obtain ⟨v, w, rfl, here, later⟩ := same.of_append
    exact .product (first here) (rest later)
  | lastTerm =>
    obtain rfl := same.eq_nil
    exact .lastTerm
  | lastFactor =>
    obtain rfl := same.eq_nil
    exact .lastFactor
  | nextTerm additive _ _ right rest =>
    obtain ⟨place, tail, rfl, behind⟩ := same.of_cons
    obtain ⟨v, w, rfl, here, later⟩ := behind.of_append
    exact .nextTerm additive (right here) (rest later)
  | nextFactor multiplicative _ _ right rest =>
    obtain ⟨place, tail, rfl, behind⟩ := same.of_cons
    obtain ⟨v, w, rfl, here, later⟩ := behind.of_append
    exact .nextFactor multiplicative (right here) (rest later)
  | impliedFactor starts _ _ right rest =>
    rw [← List.cons_append] at same
    obtain ⟨front, w, rfl, first, later⟩ := same.of_append
    obtain ⟨place, v, rfl, -⟩ := first.of_cons
    exact .impliedFactor starts (right first) (rest later)
  | negation _ operand =>
    obtain ⟨place, tail, rfl, behind⟩ := same.of_cons
    exact .negation (operand behind)
  | unsigned _ operand => exact .unsigned (operand same)
  | raised _ _ base exponent =>
    obtain ⟨v, behind, rfl, here, later⟩ := same.of_append
    obtain ⟨place, w, rfl, last⟩ := later.of_cons
    exact .raised (base here) (exponent last)
  | base _ operand => exact .base (operand same)
  | number =>
    obtain ⟨place, rfl⟩ := same.of_singleton
    exact .number
  | constant noFunction isConstant =>
    obtain ⟨place, rfl⟩ := same.of_singleton
    exact .constant noFunction isConstant
  | var noFunction noConstant =>
    obtain ⟨place, rfl⟩ := same.of_singleton
    exact .var noFunction noConstant
  | call isFunction _ argument =>
    obtain ⟨place, tail, rfl, behind⟩ := same.of_cons
    obtain ⟨opening, tail, rfl, inside⟩ := behind.of_cons
    obtain ⟨v, last, rfl, here, later⟩ := inside.of_append
    obtain ⟨closing, rfl⟩ := later.of_singleton
    exact .call isFunction (argument here)
  | group _ inner =>
    obtain ⟨opening, tail, rfl, inside⟩ := same.of_cons
    obtain ⟨v, last, rfl, here, later⟩ := inside.of_append
    obtain ⟨closing, rfl⟩ := later.of_singleton
    exact .group (inner here)

theorem CallsKnown.replaced (known : CallsKnown v) (same : SameTokens w v) : CallsKnown w := by
  -- which call is unknown is said of tokens without their places
  have forget (tokens : List PlacedToken) : CallsKnown tokens ↔
      (tokens.map PlacedToken.token).IsChain fun token next => ¬ UnknownCall ⟨token, 0⟩ ⟨next, 0⟩ := by
    rw [List.isChain_map]
    rfl
  rw [forget] at known ⊢
  rwa [same]

/-- Accepted tokens are accepted as the same tree at other places. -/
theorem parse_replaced {position position' : Nat} (noEnd : ∀ t ∈ v, t.token ≠ .endOfInput) (same : SameTokens w v)
    (accepted : Expr.parse (v ++ [⟨.endOfInput, position⟩]) = .ok e) :
    Expr.parse (w ++ [⟨.endOfInput, position'⟩]) = .ok e := by
  have noEnd' : ∀ t ∈ w, t.token ≠ .endOfInput := by
    intro t member
    have elsewhere : t.token ∈ v.map PlacedToken.token := same ▸ List.mem_map_of_mem member
    obtain ⟨u, inV, sameToken⟩ := List.mem_map.mp elsewhere
    rw [← sameToken]
    exact noEnd u inV
  obtain ⟨derived, known⟩ := (parse_iff_derives v position noEnd e).mp accepted
  exact (parse_iff_derives w position' noEnd' e).mpr ⟨derived.replaced same, known.replaced same⟩

/-! ### Neighbours -/

def isNumber : Token → Bool
  | .number _ => true
  | _ => false

/-- An operand can end with it. -/
def couldEndOperand : Token → Bool
  | .number _ | .identifier _ | .rightParen => true
  | _ => false

/-- `next` is no number that stands directly behind an operand. -/
def NoNumberBehind (token next : Token) : Prop := isNumber next = true → couldEndOperand token = false

/-- No number stands directly behind an operand. -/
def NumbersApart (tokens : List PlacedToken) : Prop := tokens.IsChain fun t next => NoNumberBehind t.token next.token

theorem isNumber_eq_false_of_linksFactor {token : Token} (links : linksFactor token) : isNumber token = false := by
  cases token <;> first | rfl | cases links

theorem isNumber_eq_false_of_linksTerm {token : Token} (links : linksTerm token) : isNumber token = false := by
  cases token <;> first | rfl | cases links

/-- The rest of a chain does not start with a number. -/
theorem Derives.head_of_canBeEmpty (d : Derives phrase levels v e) (rest : phrase.canBeEmpty) :
    ∀ t ∈ v.head?, isNumber t.token = false := by
  obtain ⟨rfl, -⟩ | ⟨t, w, rfl, starts⟩ := d.starts
  · simp
  · rintro t ⟨rfl⟩
    cases phrase with
    | moreTerms => exact isNumber_eq_false_of_linksTerm starts
    | moreFactors => exact isNumber_eq_false_of_linksFactor starts
    | _ => cases rest

/-- Two parts, of which the second does not start with a number. -/
theorem NumbersApart.append (front : NumbersApart v) (back : NumbersApart w)
    (head : ∀ t ∈ w.head?, isNumber t.token = false) : NumbersApart (v ++ w) := by
  refine List.isChain_append.mpr ⟨front, back, fun t _ next member number => ?_⟩
  rw [head next member] at number
  cases number

theorem NumbersApart.cons {t : PlacedToken} (inner : couldEndOperand t.token = false) (back : NumbersApart w) :
    NumbersApart (t :: w) :=
  List.isChain_cons.mpr ⟨fun _ _ _ => inner, back⟩

theorem numbersApart_singleton (t : PlacedToken) : NumbersApart [t] := List.isChain_singleton t

/-- In a phrase no number stands directly behind an operand. -/
theorem Derives.numbersApart (d : Derives phrase levels v e) : NumbersApart v := by
  induction d with
  | sum _ restDerived first rest | product _ restDerived first rest =>
    exact first.append rest (restDerived.head_of_canBeEmpty rfl)
  | lastTerm | lastFactor => exact .nil
  | nextTerm _ _ restDerived right rest | nextFactor _ _ restDerived right rest =>
    exact .cons rfl (right.append rest (restDerived.head_of_canBeEmpty rfl))
  | impliedFactor _ _ restDerived right rest =>
    rw [← List.cons_append]
    exact right.append rest (restDerived.head_of_canBeEmpty rfl)
  | negation _ operand => exact .cons rfl operand
  | unsigned _ operand | base _ operand => exact operand
  | raised _ _ base exponent => exact base.append (.cons rfl exponent) (by simp [isNumber])
  | number | constant | var => exact numbersApart_singleton _
  | call _ _ argument =>
    refine (numbersApart_singleton _).append (.cons rfl ?_) (by simp [isNumber])
    exact argument.append (numbersApart_singleton _) (by simp [isNumber])
  | group _ inner =>
    refine .cons rfl ?_
    exact inner.append (numbersApart_singleton _) (by simp [isNumber])

end

end GraphingCalculator.Grammar
