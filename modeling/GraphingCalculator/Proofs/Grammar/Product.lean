import GraphingCalculator.Proofs.Grammar.Acceptance

/-!
Products without a sign. A sign of multiplication in front of each factor that has none changes nothing:
what was a phrase is one with the same tree and on the same levels (`derives_signed`), and no name is
taken for a call that was none before (`callsKnown_signed`). So tokens that are accepted are accepted
as the same tree with these signs (`parse_withSigns`).
-/

namespace GraphingCalculator.Grammar
open GraphingCalculator.Parser

/-- An operand ends with a number, a closing parenthesis, or a name that is not the one of a function. -/
def closesOperand : Token → Bool
  | .number _ | .rightParen => true
  | .identifier name => (ElementaryFunction.ofName? name).isNone
  | _ => false

/-- The tokens with a sign of multiplication in front of each name and each opening parenthesis that
directly follow an operand. `behind` tells whether one stands in front of the tokens, and `place` gives
the signs their positions. -/
def signed (place : PlacedToken → Nat) (behind : Bool) : List PlacedToken → List PlacedToken
  | [] => []
  | t :: rest =>
    if behind && startsFactor t.token then
      ⟨.operator .multiply, place t⟩ :: t :: signed place (closesOperand t.token) rest
    else t :: signed place (closesOperand t.token) rest

/-- The tokens of a whole text with all signs of multiplication. -/
def withSigns (place : PlacedToken → Nat) (tokens : List PlacedToken) : List PlacedToken :=
  signed place false tokens

section
variable {place : PlacedToken → Nat} {phrase : Phrase} {levels : Nat} {v w : List PlacedToken} {e : Expr}

/-! ### Where the signs stand -/

theorem signed_false_cons (t : PlacedToken) (rest : List PlacedToken) :
    signed place false (t :: rest) = t :: signed place (closesOperand t.token) rest := rfl

theorem signed_operator_cons (behind : Bool) (op : Operator) (position : Nat) (rest : List PlacedToken) :
    signed place behind (⟨.operator op, position⟩ :: rest) = ⟨.operator op, position⟩ :: signed place false rest := by
  cases behind <;> rfl

theorem signed_leftParen_cons (opening : Nat) (rest : List PlacedToken) :
    signed place false (⟨.leftParen, opening⟩ :: rest) = ⟨.leftParen, opening⟩ :: signed place false rest := rfl

theorem signed_function_cons {name : String} {f : ElementaryFunction} (isFunction : ElementaryFunction.ofName? name = some f)
    (position : Nat) (rest : List PlacedToken) :
    signed place false (⟨.identifier name, position⟩ :: rest) = ⟨.identifier name, position⟩ :: signed place false rest := by
  rw [signed_false_cons]
  simp [closesOperand, isFunction]

theorem signed_cons_of_startsFactor {t : PlacedToken} (rest : List PlacedToken) (starts : startsFactor t.token) :
    signed place true (t :: rest) =
      ⟨.operator .multiply, place t⟩ :: t :: signed place (closesOperand t.token) rest := by
  simp [signed, starts]

/-- Behind tokens that end with an operand, the signs are set as behind an operand. -/
theorem signed_append {behind : Bool} (nonempty : v ≠ []) (closes : ∀ t ∈ v.getLast?, closesOperand t.token) :
    signed place behind (v ++ w) = signed place behind v ++ signed place true w := by
  induction v generalizing behind with
  | nil => exact absurd rfl nonempty
  | cons t v ih =>
    have behindFirst : signed place (closesOperand t.token) (v ++ w) =
        signed place (closesOperand t.token) v ++ signed place true w := by
      rcases v with _ | ⟨u, v⟩
      · rw [closes t rfl]
        rfl
      · exact ih (List.cons_ne_nil u v) fun last member => closes last (by simpa using member)
    rw [List.cons_append, signed, signed, behindFirst]
    split <;> rfl

/-! ### Phrases -/

theorem closes_append (front : ∀ t ∈ v.getLast?, closesOperand t.token) (back : ∀ t ∈ w.getLast?, closesOperand t.token) :
    ∀ t ∈ (v ++ w).getLast?, closesOperand t.token := by
  intro t member
  rw [List.getLast?_append, Option.mem_def, Option.or_eq_some_iff] at member
  exact member.elim (back t) fun last => front t last.2

theorem closes_cons {u : PlacedToken} (nonempty : v ≠ []) (closes : ∀ t ∈ v.getLast?, closesOperand t.token) :
    ∀ t ∈ (u :: v).getLast?, closesOperand t.token := by
  obtain ⟨first, v, rfl⟩ := List.exists_cons_of_ne_nil nonempty
  rwa [List.getLast?_cons_cons]

theorem Derives.ne_nil (d : Derives phrase levels v e) (whole : phrase.canBeEmpty = false) : v ≠ [] := by
  obtain ⟨t, v, rfl, -⟩ := d.first whole
  exact List.cons_ne_nil t v

/-- Every phrase ends with the end of an operand. -/
theorem Derives.closes_last (d : Derives phrase levels v e) : ∀ t ∈ v.getLast?, closesOperand t.token := by
  induction d with
  | sum _ _ first rest | product _ _ first rest => exact closes_append first rest
  | lastTerm | lastFactor => nofun
  | nextTerm _ right _ first rest | nextFactor _ right _ first rest =>
    exact closes_append (closes_cons (right.ne_nil rfl) first) rest
  | impliedFactor _ _ _ first rest => exact closes_append first rest
  | negation operand last => exact closes_cons (operand.ne_nil rfl) last
  | unsigned _ last | base _ last => exact last
  | raised _ exponent first last => exact closes_append first (closes_cons (exponent.ne_nil rfl) last)
  | number =>
    rintro t ⟨⟩
    rfl
  | constant noFunction | var noFunction =>
    rintro t ⟨⟩
    simp [closesOperand, noFunction]
  | call | group =>
    intro t member
    obtain rfl : _ = t := by simpa [List.getLast?_cons, List.getLast?_append] using member
    rfl

theorem signed_append_of_derives (d : Derives phrase levels v e) (whole : phrase.canBeEmpty = false) {behind : Bool} :
    signed place behind (v ++ w) = signed place behind v ++ signed place true w :=
  signed_append (d.ne_nil whole) d.closes_last

/-- A phrase stays the phrase that it was, with its tree and its levels. The rest of a chain stands behind the
operand that it continues, and all other phrases stand behind none. -/
theorem derives_signed (d : Derives phrase levels v e) :
    Derives phrase levels (signed place phrase.canBeEmpty v) e := by
  induction d with
  | sum first _ ihFirst ihMore =>
    rw [signed_append_of_derives first rfl]
    exact .sum ihFirst ihMore
  | lastTerm => exact .lastTerm
  | nextTerm additive right _ ihRight ihMore =>
    rw [signed_operator_cons, signed_append_of_derives right rfl]
    exact .nextTerm additive ihRight ihMore
  | product first _ ihFirst ihMore =>
    rw [signed_append_of_derives first rfl]
    exact .product ihFirst ihMore
  | lastFactor => exact .lastFactor
  | nextFactor multiplicative right _ ihRight ihMore =>
    rw [signed_operator_cons, signed_append_of_derives right rfl]
    exact .nextFactor multiplicative ihRight ihMore
  | @impliedFactor _ _ head v w _ _ starts right _ ihRight ihMore =>
    -- the sign makes a link with a sign out of one without, on the same level
    have factor : signed place true (head :: (v ++ w)) =
        ⟨.operator .multiply, place head⟩ :: (signed place false (head :: v) ++ signed place true w) := by
      rw [← signed_append_of_derives right rfl, List.cons_append, signed_cons_of_startsFactor _ starts, signed_false_cons]
    exact factor ▸ .nextFactor rfl (.unsigned ihRight) ihMore
  | negation _ ihOperand =>
    rw [signed_operator_cons]
    exact .negation ihOperand
  | unsigned _ ihOperand => exact .unsigned ihOperand
  | raised base _ ihBase ihExponent =>
    rw [signed_append_of_derives base rfl, signed_operator_cons]
    exact .raised ihBase ihExponent
  | base _ ihOperand => exact .base ihOperand
  | number => exact .number
  | constant noFunction isConstant => exact .constant noFunction isConstant
  | var noFunction noConstant => exact .var noFunction noConstant
  | @call _ name f position opening closing v _ isFunction argument ihArgument =>
    have inside : signed place false (⟨.identifier name, position⟩ :: ⟨.leftParen, opening⟩ ::
        (v ++ [⟨.rightParen, closing⟩])) = ⟨.identifier name, position⟩ :: ⟨.leftParen, opening⟩ ::
        (signed place false v ++ [⟨.rightParen, closing⟩]) := by
      rw [signed_function_cons isFunction, signed_leftParen_cons, signed_append_of_derives argument rfl]
      rfl
    exact inside ▸ .call isFunction ihArgument
  | @group _ opening closing v _ inner ihInner =>
    have inside : signed place false (⟨.leftParen, opening⟩ :: (v ++ [⟨.rightParen, closing⟩])) =
        ⟨.leftParen, opening⟩ :: (signed place false v ++ [⟨.rightParen, closing⟩]) := by
      rw [signed_leftParen_cons, signed_append_of_derives inner rfl]
      rfl
    exact inside ▸ .group ihInner

/-! ### Whole texts -/

theorem callsKnown_signed (t : PlacedToken) (rest : List PlacedToken) :
    CallsKnown (t :: signed place (closesOperand t.token) rest) := by
  induction rest generalizing t with
  | nil => exact List.isChain_singleton t
  | cons next rest ih =>
    cases sign : closesOperand t.token && startsFactor next.token with
    | true =>
      rw [signed, if_pos sign]
      refine .cons_cons ?_ (.cons_cons (not_unknownCall (by simp) next) (ih next))
      rintro ⟨name, -, isGroup, -⟩
      cases isGroup
    | false =>
      rw [signed, if_neg (by simp [sign])]
      refine .cons_cons ?_ (ih next)
      rintro ⟨name, isName, isGroup, -, noFunction, -⟩
      simp [isName, isGroup, closesOperand, startsFactor, noFunction] at sign

theorem callsKnown_withSigns (tokens : List PlacedToken) : CallsKnown (withSigns place tokens) := by
  cases tokens with
  | nil => exact .nil
  | cons t rest => exact callsKnown_signed t rest

theorem isBalanced_signed (behind : Bool) (opened : Nat) (tokens : List PlacedToken) :
    isBalanced opened (signed place behind tokens) = isBalanced opened tokens := by
  induction tokens generalizing behind opened with
  | nil => rfl
  | cons t rest ih =>
    have unsigned : isBalanced opened (t :: signed place (closesOperand t.token) rest) = isBalanced opened (t :: rest) := by
      obtain ⟨token, position⟩ := t
      cases token with
      | rightParen => cases opened <;> simp only [isBalanced, ih]
      | _ => simp only [isBalanced, ih]
    rw [signed]
    split
    · exact unsigned
    · exact unsigned

theorem untilEnd_signed (behind : Bool) (tokens : List PlacedToken) :
    untilEnd (signed place behind tokens) = signed place behind (untilEnd tokens) := by
  induction tokens generalizing behind with
  | nil => rfl
  | cons t rest ih =>
    cases last : isEnd t.token with
    | true =>
      obtain ⟨token, position⟩ := t
      cases token <;> cases last
      simp [signed, untilEnd, isEnd, startsFactor]
    | false =>
      have unsigned : untilEnd (t :: signed place (closesOperand t.token) rest) =
          t :: signed place (closesOperand t.token) (untilEnd rest) := by
        rw [← ih]
        simp [untilEnd, last]
      have kept : untilEnd (t :: rest) = t :: untilEnd rest := by simp [untilEnd, last]
      rw [kept, signed, signed]
      split
      · rw [← unsigned]
        simp [untilEnd, isEnd]
      · exact unsigned

/-- A product without a sign is the product with its sign: tokens that are accepted as a tree are accepted as the
same tree with a sign of multiplication in front of each name and each opening parenthesis that directly follow
a number, a closing parenthesis or a name that is not the one of a function. -/
theorem parse_withSigns (place : PlacedToken → Nat) {tokens : List PlacedToken} {e : Expr}
    (accepted : Expr.parse tokens = .ok e) : Expr.parse (withSigns place tokens) = .ok e := by
  obtain ⟨balanced, derived, -⟩ := (parse_eq_ok_iff tokens e).mp accepted
  refine (parse_eq_ok_iff _ e).mpr ⟨?_, ?_, ?_⟩
  · rwa [withSigns, isBalanced_signed]
  · rw [withSigns, untilEnd_signed]
    exact derives_signed derived
  · rw [withSigns, untilEnd_signed]
    exact callsKnown_withSigns _

/-- `2x^-y(z)` is `2*x^-y*(z)`. -/
theorem parse_withSigns_two_products :
    let before : List PlacedToken := [⟨.number 2, 0⟩]
    let raised : List PlacedToken :=
      [⟨.identifier "x", 1⟩, ⟨.operator .power, 2⟩, ⟨.operator .subtract, 3⟩, ⟨.identifier "y", 4⟩]
    let behind : List PlacedToken :=
      [⟨.leftParen, 5⟩, ⟨.identifier "z", 6⟩, ⟨.rightParen, 7⟩, ⟨.endOfInput, 8⟩]
    let tree : Expr := .binary .multiply
      (.binary .multiply (.literal 2) (.binary .power (.var "x") (.negate (.var "y")))) (.var "z")
    Expr.parse (before ++ raised ++ behind) = .ok tree ∧
      Expr.parse (before ++ ⟨.operator .multiply, 1⟩ :: raised ++ ⟨.operator .multiply, 5⟩ :: behind) = .ok tree := by
  intro before raised behind tree
  have accepted : Expr.parse (before ++ raised ++ behind) = .ok tree := by rfl
  exact ⟨accepted, parse_withSigns (·.position) accepted⟩

end

end GraphingCalculator.Grammar
