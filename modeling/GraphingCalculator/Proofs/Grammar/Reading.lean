import GraphingCalculator.Proofs.Grammar.Derivation

/-!
The readers of expressions read exactly the phrases of the grammar.

What a reader takes off the front of its tokens is a derivation with as many levels as the reader
has (`reads_of_reader`), and a derivation is read to its end, whatever follows it that cannot make
it longer (`reader_of_derives`). Since only one reading is tried, each list of tokens has at most
one tree.
-/

namespace GraphingCalculator.Grammar
open GraphingCalculator.Parser

theorem ok_of_bind {ε α β : Type} {x : Except ε α} {f : α → Except ε β} {b : β}
    (done : x >>= f = .ok b) : ∃ a, x = .ok a ∧ f a = .ok b := by
  cases x with
  | error _ => cases done
  | ok a => exact ⟨a, rfl, done⟩

/-- The reader of a phrase. -/
def Phrase.reader : Phrase → Level → Reader Expr
  | expression => Parser.expression
  | moreTerms sum => fun below => Parser.moreTerms below sum
  | term => Parser.term
  | moreFactors product => fun below => Parser.moreFactors below product
  | unary => Parser.unary
  | power => Parser.power
  | primary => Parser.primary

/-! ### What has been read is a phrase -/

/-- No call of an unknown function starts in `v` when `tail` follows. -/
def KnownBefore (v tail : List PlacedToken) : Prop := CallsKnown (v ++ tail.take 1)

theorem knownBefore_nil {tail : List PlacedToken} : KnownBefore [] tail := by
  rcases tail with _ | ⟨next, rest⟩ <;> simp [KnownBefore, CallsKnown]

theorem knownBefore_append {v w tail : List PlacedToken} :
    KnownBefore (v ++ w) tail ↔ KnownBefore v (w ++ tail) ∧ KnownBefore w tail := by
  cases w with
  | nil => simp [knownBefore_nil]
  | cons t w =>
    have split : CallsKnown (v ++ t :: (w ++ tail.take 1)) ↔ _ := List.isChain_split
    simpa [KnownBefore, CallsKnown] using split

theorem knownBefore_cons {t : PlacedToken} {v tail : List PlacedToken}
    (harmless : ∀ next, ¬ UnknownCall t next) (known : KnownBefore v tail) :
    KnownBefore (t :: v) tail := by
  have border : KnownBefore [t] (v ++ tail) := by
    rcases v ++ tail with _ | ⟨next, rest⟩
    · exact List.isChain_singleton t
    · exact List.isChain_pair.mpr (harmless next)
  exact knownBefore_append.mpr ⟨border, known⟩

theorem KnownBefore.tail {t : PlacedToken} {v tail : List PlacedToken}
    (known : KnownBefore (t :: v) tail) : KnownBefore v tail :=
  (List.isChain_cons.mp known).2

theorem knownBefore_single {t : PlacedToken} {tail : List PlacedToken}
    (harmless : ∀ next, ¬ UnknownCall t next) : KnownBefore [t] tail :=
  knownBefore_cons harmless knownBefore_nil

theorem not_unknownCall {t : PlacedToken} (other : ∀ name, t.token ≠ .identifier name)
    (next : PlacedToken) : ¬ UnknownCall t next := by
  rintro ⟨name, isName, -⟩
  exact other name isName

theorem not_unknownCall_of_known {name : String} {place : Nat}
    (known : ElementaryFunction.ofName? name ≠ none ∨ Constant.ofName? name ≠ none)
    (next : PlacedToken) : ¬ UnknownCall ⟨.identifier name, place⟩ next := by
  rintro ⟨other, isName, -, -, noFunction, noConstant⟩
  cases isName
  exact known.elim (· noFunction) (· noConstant)

theorem knownBefore_parenthesized {left right : Nat} {v tail : List PlacedToken}
    (known : KnownBefore v (⟨.rightParen, right⟩ :: tail)) :
    KnownBefore (⟨.leftParen, left⟩ :: (v ++ [⟨.rightParen, right⟩])) tail :=
  knownBefore_cons (not_unknownCall (by simp))
    (knownBefore_append.mpr ⟨known, knownBefore_single (not_unknownCall (by simp))⟩)

theorem knownBefore_name {name : String} {place : Nat} {tail : List PlacedToken}
    (noCall : ¬ (startsGroup tail && decide (1 < name.length)) = true) :
    KnownBefore [⟨.identifier name, place⟩] tail := by
  rcases tail with _ | ⟨⟨token, position⟩, rest⟩
  · exact List.isChain_singleton _
  · refine List.isChain_pair.mpr ?_
    rintro ⟨other, isName, isGroup, long, -⟩
    cases isName
    simp only at isGroup
    subst isGroup
    exact noCall (by simpa [startsGroup] using long)

theorem eq_of_takeLeftParen {tokens rest : List PlacedToken} (taken : takeLeftParen tokens = .ok rest) :
    ∃ place, tokens = ⟨.leftParen, place⟩ :: rest := by
  unfold takeLeftParen at taken
  split at taken <;> cases taken
  exact ⟨_, rfl⟩

theorem eq_of_takeRightParen {tokens rest : List PlacedToken} (taken : takeRightParen tokens = .ok rest) :
    ∃ place, tokens = ⟨.rightParen, place⟩ :: rest := by
  unfold takeRightParen at taken
  split at taken <;> cases taken
  exact ⟨_, rfl⟩

/-- The reader takes tokens of one kind off the front, and no unknown call starts among them. -/
def Reads (reader : Reader Expr) (kind : List PlacedToken → Expr → Prop) : Prop :=
  ∀ ⦃tokens e rest⦄, reader tokens = .ok (e, rest) →
    ∃ v, tokens = v ++ rest ∧ kind v e ∧ KnownBefore v rest

/-- A phrase of the next level below. -/
def Below (phrase : Phrase) (levels : Nat) (v : List PlacedToken) (e : Expr) : Prop :=
  ∃ fewer, levels = fewer + 1 ∧ Derives phrase fewer v e

/-- What the readers of a level do for the phrases of the level above it. -/
structure SoundBelow (levels : Nat) : Prop where
  expression : Reads (Level.nested levels).expression (Below .expression levels)
  argument : ∀ {tokens argument rest}, (Level.nested levels).arguments tokens = .ok ([argument], rest) →
    ∃ v, tokens = v ++ rest ∧ Below .expression levels v argument ∧ KnownBefore v rest
  unary : Reads (Level.nested levels).unary (Below .unary levels)
  sumLink : ∀ sum op, Reads ((Level.nested levels).sumLink sum op) fun v e =>
    op.isAdditive → ∀ place, Derives (.moreTerms sum) levels (⟨.operator op, place⟩ :: v) e
  productLink : ∀ product op, Reads ((Level.nested levels).productLink product op) fun v e =>
    op.isMultiplicative →
      ∀ place, Derives (.moreFactors product) levels (⟨.operator op, place⟩ :: v) e
  implicitLink : ∀ product, Reads ((Level.nested levels).implicitLink product) fun v e =>
    ∃ head w, v = head :: w ∧ (startsFactor head.token → Derives (.moreFactors product) levels v e)

section
variable {levels : Nat} (below : SoundBelow levels)
include below

theorem call_reads (f : ElementaryFunction) :
    Reads (call (Level.nested levels) f) fun v e =>
      ∀ name place, ElementaryFunction.ofName? name = some f →
        Derives .primary levels (⟨.identifier name, place⟩ :: v) e := by
  intro tokens e rest done
  obtain ⟨opened, opens, afterOpening⟩ := ok_of_bind done
  obtain ⟨⟨found, closing⟩, read, afterArguments⟩ := ok_of_bind afterOpening
  obtain ⟨after, closes, finish⟩ := ok_of_bind afterArguments
  split at finish <;> cases finish
  obtain ⟨left, rfl⟩ := eq_of_takeLeftParen opens
  obtain ⟨right, rfl⟩ := eq_of_takeRightParen closes
  obtain ⟨v, rfl, ⟨fewer, rfl, derived⟩, known⟩ := below.argument read
  refine ⟨⟨.leftParen, left⟩ :: (v ++ [⟨.rightParen, right⟩]), by simp, ?_, ?_⟩
  · intro name place isFunction
    exact .call isFunction derived
  · exact knownBefore_parenthesized known

theorem primary_reads : Reads (primary (Level.nested levels)) (Derives .primary levels) := by
  intro tokens e rest done
  unfold primary at done
  split at done
  case h_1 =>
    cases done
    exact ⟨[_], rfl, .number, knownBefore_single (not_unknownCall (by simp))⟩
  case h_2 name place after =>
    split at done
    case h_1 f isFunction =>
      obtain ⟨v, rfl, derived, known⟩ := call_reads below f done
      refine ⟨⟨.identifier name, place⟩ :: v, rfl, derived name place isFunction, ?_⟩
      exact knownBefore_cons (not_unknownCall_of_known (.inl (by simp [isFunction]))) known
    case h_2 noFunction =>
      split at done
      case h_1 c isConstant =>
        cases done
        exact ⟨[_], rfl, .constant noFunction isConstant,
          knownBefore_single (not_unknownCall_of_known (.inr (by simp [isConstant])))⟩
      case h_2 noConstant =>
        split at done
        case isTrue => cases done
        case isFalse noCall =>
          cases done
          exact ⟨[_], rfl, .var noFunction noConstant, knownBefore_name noCall⟩
  case h_3 opening after =>
    obtain ⟨⟨inner, closing⟩, read, afterGroup⟩ := ok_of_bind done
    obtain ⟨after, closes, finish⟩ := ok_of_bind afterGroup
    cases finish
    obtain ⟨right, rfl⟩ := eq_of_takeRightParen closes
    obtain ⟨v, rfl, ⟨fewer, rfl, derived⟩, known⟩ := below.expression read
    exact ⟨⟨.leftParen, opening⟩ :: (v ++ [⟨.rightParen, right⟩]), by simp, .group derived,
      knownBefore_parenthesized known⟩
  case h_4 => cases done

theorem power_reads : Reads (power (Level.nested levels)) (Derives .power levels) := by
  intro tokens e rest done
  obtain ⟨⟨base, after⟩, read, finish⟩ := ok_of_bind done
  obtain ⟨v, rfl, derived, known⟩ := primary_reads below read
  dsimp only at finish
  split at finish
  case h_1 place behind =>
    obtain ⟨⟨exponent, after⟩, readExponent, finish⟩ := ok_of_bind finish
    cases finish
    obtain ⟨w, rfl, ⟨fewer, rfl, exponentDerived⟩, exponentKnown⟩ := below.unary readExponent
    refine ⟨v ++ ⟨.operator .power, place⟩ :: w, by simp, .raised derived exponentDerived, ?_⟩
    exact knownBefore_append.mpr ⟨known, knownBefore_cons (not_unknownCall (by simp)) exponentKnown⟩
  case h_2 =>
    cases finish
    exact ⟨v, rfl, .base derived, known⟩

theorem unary_reads : Reads (unary (Level.nested levels)) (Derives .unary levels) := by
  intro tokens e rest done
  unfold unary at done
  split at done
  case h_1 place behind =>
    obtain ⟨⟨operand, after⟩, read, finish⟩ := ok_of_bind done
    cases finish
    obtain ⟨v, rfl, ⟨fewer, rfl, derived⟩, known⟩ := below.unary read
    exact ⟨⟨.operator .subtract, place⟩ :: v, rfl, .negation derived,
      knownBefore_cons (not_unknownCall (by simp)) known⟩
  case h_2 =>
    obtain ⟨v, rfl, derived, known⟩ := power_reads below done
    exact ⟨v, rfl, .unsigned derived, known⟩

theorem moreFactors_reads (product : Expr) :
    Reads (moreFactors (Level.nested levels) product) (Derives (.moreFactors product) levels) := by
  intro tokens e rest done
  unfold moreFactors at done
  have implicit : ∀ head tail, tokens = head :: tail → startsFactor head.token →
      (Level.nested levels).implicitLink product tokens = .ok (e, rest) →
      ∃ v, tokens = v ++ rest ∧ Derives (.moreFactors product) levels v e ∧ KnownBefore v rest := by
    intro head tail split starts done
    obtain ⟨v, rfl, ⟨first, w, rfl, derived⟩, known⟩ := below.implicitLink product done
    cases split
    exact ⟨_, rfl, derived starts, known⟩
  split at done
  case h_1 op place behind =>
    split at done
    case isTrue multiplicative =>
      obtain ⟨v, rfl, derived, known⟩ := below.productLink product op done
      exact ⟨⟨.operator op, place⟩ :: v, rfl, derived multiplicative place,
        knownBefore_cons (not_unknownCall (by simp)) known⟩
    case isFalse =>
      cases done
      exact ⟨[], rfl, .lastFactor, knownBefore_nil⟩
  case h_2 => exact implicit _ _ rfl rfl done
  case h_3 => exact implicit _ _ rfl rfl done
  case h_4 =>
    cases done
    exact ⟨[], rfl, .lastFactor, knownBefore_nil⟩

theorem term_reads : Reads (term (Level.nested levels)) (Derives .term levels) := by
  intro tokens e rest done
  obtain ⟨⟨first, after⟩, read, more⟩ := ok_of_bind done
  obtain ⟨v, rfl, derived, known⟩ := unary_reads below read
  obtain ⟨w, rfl, moreDerived, moreKnown⟩ := moreFactors_reads below first more
  exact ⟨v ++ w, by simp, .product derived moreDerived, knownBefore_append.mpr ⟨known, moreKnown⟩⟩

theorem moreTerms_reads (sum : Expr) :
    Reads (moreTerms (Level.nested levels) sum) (Derives (.moreTerms sum) levels) := by
  intro tokens e rest done
  unfold moreTerms at done
  split at done
  case h_1 op place behind =>
    split at done
    case isTrue additive =>
      obtain ⟨v, rfl, derived, known⟩ := below.sumLink sum op done
      exact ⟨⟨.operator op, place⟩ :: v, rfl, derived additive place,
        knownBefore_cons (not_unknownCall (by simp)) known⟩
    case isFalse =>
      cases done
      exact ⟨[], rfl, .lastTerm, knownBefore_nil⟩
  case h_2 =>
    cases done
    exact ⟨[], rfl, .lastTerm, knownBefore_nil⟩

theorem expression_reads : Reads (expression (Level.nested levels)) (Derives .expression levels) := by
  intro tokens e rest done
  obtain ⟨⟨first, after⟩, read, more⟩ := ok_of_bind done
  obtain ⟨v, rfl, derived, known⟩ := term_reads below read
  obtain ⟨w, rfl, moreDerived, moreKnown⟩ := moreTerms_reads below first more
  exact ⟨v ++ w, by simp, .sum derived moreDerived, knownBefore_append.mpr ⟨known, moreKnown⟩⟩

end

/-- The arguments after the first ones only come on top of them. -/
theorem length_le_of_moreArguments {below : Level} {room : Nat} {found all : List Expr}
    {tokens rest : List PlacedToken} (done : moreArguments below room found tokens = .ok (all, rest)) :
    found.length ≤ all.length ∧ (all.length = found.length → all = found.reverse ∧ rest = tokens) := by
  induction room generalizing found tokens with
  | zero => cases done; simp
  | succ room ih =>
    unfold moreArguments at done
    split at done
    case h_1 =>
      obtain ⟨⟨argument, after⟩, -, more⟩ := ok_of_bind done
      have longer := (ih more).1
      simp only [List.length_cons] at longer
      exact ⟨by omega, by omega⟩
    case h_2 => cases done; simp

theorem argument_reads {levels : Nat} (below : SoundBelow levels) {tokens rest : List PlacedToken}
    {argument : Expr} (done : arguments (Level.nested levels) tokens = .ok ([argument], rest)) :
    ∃ v, tokens = v ++ rest ∧ Derives .expression levels v argument ∧ KnownBefore v rest := by
  unfold arguments at done
  split at done
  case h_1 => cases done
  case h_2 =>
    obtain ⟨⟨first, after⟩, read, more⟩ := ok_of_bind done
    obtain ⟨same, rfl⟩ := (length_le_of_moreArguments more).2 rfl
    cases same
    exact expression_reads below read

/-- Every level reads the phrases that the level above it starts on it. -/
theorem soundBelow (levels : Nat) : SoundBelow levels := by
  -- the readers call each other in circles only through the level below
  induction levels with
  | zero =>
    exact {
      expression := fun _ _ _ done => by cases done
      argument := fun done => by cases done
      unary := fun _ _ _ done => by cases done
      sumLink := fun _ _ _ _ _ done => by cases done
      productLink := fun _ _ _ _ _ done => by cases done
      implicitLink := fun _ _ _ _ done => by cases done }
  | succ fewer below =>
    constructor
    case expression =>
      intro tokens e rest done
      obtain ⟨v, split, derived, known⟩ := expression_reads below done
      exact ⟨v, split, ⟨fewer, rfl, derived⟩, known⟩
    case argument =>
      intro tokens argument rest done
      obtain ⟨v, split, derived, known⟩ := argument_reads below done
      exact ⟨v, split, ⟨fewer, rfl, derived⟩, known⟩
    case unary =>
      intro tokens e rest done
      obtain ⟨v, split, derived, known⟩ := unary_reads below done
      exact ⟨v, split, ⟨fewer, rfl, derived⟩, known⟩
    case sumLink =>
      intro sum op tokens e rest done
      obtain ⟨⟨right, after⟩, read, more⟩ := ok_of_bind done
      obtain ⟨v, rfl, derived, known⟩ := term_reads below read
      obtain ⟨w, rfl, moreDerived, moreKnown⟩ := moreTerms_reads below _ more
      exact ⟨v ++ w, by simp, fun additive _ => .nextTerm additive derived moreDerived,
        knownBefore_append.mpr ⟨known, moreKnown⟩⟩
    case productLink =>
      intro product op tokens e rest done
      obtain ⟨⟨right, after⟩, read, more⟩ := ok_of_bind done
      obtain ⟨v, rfl, derived, known⟩ := unary_reads below read
      obtain ⟨w, rfl, moreDerived, moreKnown⟩ := moreFactors_reads below _ more
      exact ⟨v ++ w, by simp, fun multiplicative _ => .nextFactor multiplicative derived moreDerived,
        knownBefore_append.mpr ⟨known, moreKnown⟩⟩
    case implicitLink =>
      intro product tokens e rest done
      obtain ⟨⟨right, after⟩, read, more⟩ := ok_of_bind done
      obtain ⟨v, rfl, derived, known⟩ := power_reads below read
      obtain ⟨w, rfl, moreDerived, moreKnown⟩ := moreFactors_reads below _ more
      obtain ⟨head, v, rfl, -⟩ := derived.first rfl
      exact ⟨_, by simp, ⟨head, v ++ w, rfl, fun starts => .impliedFactor starts derived moreDerived⟩,
        knownBefore_append.mpr ⟨known, moreKnown⟩⟩

/-- What a reader takes off the front of its tokens is a phrase, and neither in the phrase nor right
behind it is an unknown function called. -/
theorem reads_of_reader (phrase : Phrase) (levels : Nat) :
    Reads (phrase.reader (Level.nested levels)) (Derives phrase levels) := by
  have below := soundBelow levels
  cases phrase with
  | expression => exact expression_reads below
  | moreTerms sum => exact moreTerms_reads below sum
  | term => exact term_reads below
  | moreFactors product => exact moreFactors_reads below product
  | unary => exact unary_reads below
  | power => exact power_reads below
  | primary => exact primary_reads below

/-! ### A phrase is read to its end -/

section
variable {phrase : Phrase} {levels : Nat} {v tail : List PlacedToken} {e : Expr}

theorem not_raising_of_linksFactor {token : Token} (links : linksFactor token) : isRaising token = false := by
  unfold isRaising
  split
  · cases links
  · rfl

theorem not_goesOn_of_linksTerm {token : Token} (links : linksTerm token) :
    Phrase.term.goesOnWith token = false := by
  unfold linksTerm at links
  split at links
  case h_1 op =>
    cases op with
    | add | subtract => rfl
    | multiply | divide | power => cases links
  case h_2 => cases links

/-- A factor ends where the rest of its product starts, and where the product ends. -/
theorem endsBefore_moreFactors {product : Expr} (d : Derives (.moreFactors product) levels v e)
    (ends : Phrase.term.EndsBefore tail) : Phrase.unary.EndsBefore (v ++ tail) := by
  obtain ⟨rfl, -⟩ | ⟨t, w, rfl, links⟩ := d.starts
  · intro next member
    exact (Bool.or_eq_false_iff.mp (ends next member)).1
  · intro next member
    cases member
    exact not_raising_of_linksFactor links

theorem endsBefore_moreTerms {sum : Expr} (d : Derives (.moreTerms sum) levels v e)
    (ends : Phrase.expression.EndsBefore tail) : Phrase.term.EndsBefore (v ++ tail) := by
  obtain ⟨rfl, -⟩ | ⟨t, w, rfl, links⟩ := d.starts
  · intro next member
    exact (Bool.or_eq_false_iff.mp (ends next member)).1
  · intro next member
    cases member
    exact not_goesOn_of_linksTerm links

/-! ### One step of each reader -/

variable {below : Level} {tokens rest : List PlacedToken} {place : Nat}

theorem expression_of_term {first : Expr} (read : term below tokens = .ok (first, rest)) :
    expression below tokens = moreTerms below first rest := by
  simp only [expression, read, bind, Except.bind]

theorem term_of_unary {first : Expr} (read : unary below tokens = .ok (first, rest)) :
    term below tokens = moreFactors below first rest := by
  simp only [term, read, bind, Except.bind]

theorem moreTerms_nested {op : Operator} {sum right : Expr} (additive : op.isAdditive)
    (read : term (Level.nested levels) tokens = .ok (right, rest)) :
    moreTerms (Level.nested (levels + 1)) sum (⟨.operator op, place⟩ :: tokens) =
      moreTerms (Level.nested levels) (.binary op sum right) rest := by
  rw [moreTerms, if_pos additive]
  simp only [Level.nested, Level.above, read, bind, Except.bind]

theorem moreFactors_nested {op : Operator} {product right : Expr} (multiplicative : op.isMultiplicative)
    (read : unary (Level.nested levels) tokens = .ok (right, rest)) :
    moreFactors (Level.nested (levels + 1)) product (⟨.operator op, place⟩ :: tokens) =
      moreFactors (Level.nested levels) (.binary op product right) rest := by
  rw [moreFactors, if_pos multiplicative]
  simp only [Level.nested, Level.above, read, bind, Except.bind]

theorem moreFactors_nested_implied {head : PlacedToken} {product right : Expr}
    (starts : startsFactor head.token)
    (read : power (Level.nested levels) (head :: tokens) = .ok (right, rest)) :
    moreFactors (Level.nested (levels + 1)) product (head :: tokens) =
      moreFactors (Level.nested levels) (.binary .multiply product right) rest := by
  have link : moreFactors (Level.nested (levels + 1)) product (head :: tokens) =
      (Level.nested (levels + 1)).implicitLink product (head :: tokens) := by
    obtain ⟨token, position⟩ := head
    cases token with
    | identifier | leftParen => rfl
    | _ => cases starts
  rw [link]
  simp only [Level.nested, Level.above, read, bind, Except.bind]

theorem moreTerms_of_endsBefore {sum : Expr} (ends : Phrase.expression.EndsBefore tail) :
    moreTerms below sum tail = .ok (sum, tail) := by
  unfold moreTerms
  split
  case h_1 op place rest =>
    have stops := ends _ rfl
    cases op with
    | add | subtract => cases stops
    | multiply | divide | power => rfl
  case h_2 => rfl

theorem moreFactors_of_endsBefore {product : Expr} (ends : Phrase.term.EndsBefore tail) :
    moreFactors below product tail = .ok (product, tail) := by
  unfold moreFactors
  split
  case h_1 op place rest =>
    have stops := ends _ rfl
    cases op with
    | multiply | divide => cases stops
    | add | subtract | power => rfl
  case h_2 => cases ends _ rfl
  case h_3 => cases ends _ rfl
  case h_4 => rfl

theorem unary_of_minus {operand : Expr} (place : Nat) (read : below.unary tokens = .ok (operand, tail)) :
    unary below (⟨.operator .subtract, place⟩ :: tokens) = .ok (.negate operand, tail) := by
  simp only [unary, read, bind, Except.bind]
  rfl

theorem unary_of_startsOperand {t : PlacedToken} (starts : startsOperand t.token) :
    unary below (t :: tokens) = power below (t :: tokens) := by
  obtain ⟨token, position⟩ := t
  cases token with
  | number | identifier | leftParen => rfl
  | _ => cases starts

theorem power_of_raising {base exponent : Expr}
    (readBase : primary below tokens = .ok (base, ⟨.operator .power, place⟩ :: rest))
    (readExponent : below.unary rest = .ok (exponent, tail)) :
    power below tokens = .ok (.binary .power base exponent, tail) := by
  simp only [power, readBase, readExponent, bind, Except.bind]
  rfl

theorem power_of_endsBefore (read : primary below tokens = .ok (e, tail))
    (ends : Phrase.power.EndsBefore tail) : power below tokens = .ok (e, tail) := by
  simp only [power, read, bind, Except.bind]
  split
  case h_1 => cases ends _ rfl
  case h_2 => rfl

theorem primary_of_constant {name : String} {c : Constant} (place : Nat)
    (noFunction : ElementaryFunction.ofName? name = none) (isConstant : Constant.ofName? name = some c) :
    primary below (⟨.identifier name, place⟩ :: tail) = .ok (.constant c, tail) := by
  simp only [primary, noFunction, isConstant]

theorem primary_of_name {name : String} (noFunction : ElementaryFunction.ofName? name = none)
    (noConstant : Constant.ofName? name = none)
    (known : KnownBefore [⟨.identifier name, place⟩] tail) :
    primary below (⟨.identifier name, place⟩ :: tail) = .ok (.var name, tail) := by
  have noCall : (startsGroup tail && decide (1 < name.length)) = false := by
    rcases tail with _ | ⟨⟨token, position⟩, rest⟩
    · rfl
    · have notUnknown := List.isChain_pair.mp known
      cases token
      case leftParen =>
        by_contra long
        exact notUnknown ⟨name, rfl, rfl, by simpa [startsGroup] using long, noFunction, noConstant⟩
      all_goals rfl
  simp only [primary, noFunction, noConstant, noCall]
  rfl

theorem primary_of_group {closing : Nat} (opening : Nat)
    (read : below.expression tokens = .ok (e, ⟨.rightParen, closing⟩ :: tail)) :
    primary below (⟨.leftParen, opening⟩ :: tokens) = .ok (e, tail) := by
  simp only [primary, read, bind, Except.bind]
  rfl

theorem primary_of_call {name : String} {f : ElementaryFunction} {closing : Nat} (place opening : Nat)
    (isFunction : ElementaryFunction.ofName? name = some f)
    (read : below.arguments tokens = .ok ([e], ⟨.rightParen, closing⟩ :: tail)) :
    primary below (⟨.identifier name, place⟩ :: ⟨.leftParen, opening⟩ :: tokens) =
      .ok (.call f e, tail) := by
  simp only [primary, isFunction, call, takeLeftParen, read, bind, Except.bind]
  rfl

theorem arguments_of_expression {t : PlacedToken} (starts : Phrase.expression.startsWith t.token)
    (read : expression below (t :: tokens) = .ok (e, ⟨.rightParen, place⟩ :: tail)) :
    arguments below (t :: tokens) = .ok ([e], ⟨.rightParen, place⟩ :: tail) := by
  unfold arguments
  split
  case h_1 split => cases split; cases starts
  case h_2 =>
    simp only [read, bind, Except.bind, List.length_cons]
    rfl

/-- A phrase is read to its end, unless what follows makes it longer or makes a call of its last
name. -/
theorem reader_of_derives (d : Derives phrase levels v e) (ends : phrase.EndsBefore tail)
    (known : KnownBefore v tail) :
    phrase.reader (Level.nested levels) (v ++ tail) = .ok (e, tail) := by
  -- for every `tail`: behind a part of the phrase stands what is left of the phrase
  induction d generalizing tail with
  | sum _ more readFirst readMore =>
    obtain ⟨knownFirst, knownMore⟩ := knownBefore_append.mp known
    rw [List.append_assoc]
    have first := readFirst (endsBefore_moreTerms more ends) knownFirst
    exact (expression_of_term first).trans (readMore ends knownMore)
  | lastTerm => exact moreTerms_of_endsBefore ends
  | nextTerm additive _ more readRight readMore =>
    obtain ⟨knownRight, knownMore⟩ := knownBefore_append.mp known.tail
    rw [List.cons_append, List.append_assoc]
    have right := readRight (endsBefore_moreTerms more ends) knownRight
    exact (moreTerms_nested additive right).trans (readMore ends knownMore)
  | product _ more readFirst readMore =>
    obtain ⟨knownFirst, knownMore⟩ := knownBefore_append.mp known
    rw [List.append_assoc]
    have first := readFirst (endsBefore_moreFactors more ends) knownFirst
    exact (term_of_unary first).trans (readMore ends knownMore)
  | lastFactor => exact moreFactors_of_endsBefore ends
  | nextFactor multiplicative _ more readRight readMore =>
    obtain ⟨knownRight, knownMore⟩ := knownBefore_append.mp known.tail
    rw [List.cons_append, List.append_assoc]
    have right := readRight (endsBefore_moreFactors more ends) knownRight
    exact (moreFactors_nested multiplicative right).trans (readMore ends knownMore)
  | impliedFactor starts _ more readRight readMore =>
    rw [← List.cons_append] at known ⊢
    obtain ⟨knownRight, knownMore⟩ := knownBefore_append.mp known
    rw [List.append_assoc]
    have right := readRight (endsBefore_moreFactors more ends) knownRight
    exact (moreFactors_nested_implied starts right).trans (readMore ends knownMore)
  | @negation _ place _ _ _ readOperand => exact unary_of_minus place (readOperand ends known.tail)
  | unsigned operand readOperand =>
    obtain ⟨t, w, rfl, starts⟩ := operand.first rfl
    exact (unary_of_startsOperand starts).trans (readOperand ends known)
  | raised _ _ readBase readExponent =>
    obtain ⟨knownBase, knownExponent⟩ := knownBefore_append.mp known
    rw [List.append_assoc]
    have base := readBase (fun _ _ => rfl) knownBase
    exact power_of_raising base (readExponent ends knownExponent.tail)
  | base _ readBase => exact power_of_endsBefore (readBase (fun _ _ => rfl) known) ends
  | number => rfl
  | @constant _ _ place _ noFunction isConstant => exact primary_of_constant place noFunction isConstant
  | var noFunction noConstant => exact primary_of_name noFunction noConstant known
  | @call _ _ _ place opening _ _ _ isFunction argument readArgument =>
    rw [List.cons_append, List.cons_append, List.append_assoc]
    obtain ⟨knownArgument, -⟩ := knownBefore_append.mp known.tail.tail
    have read := readArgument (fun _ member => by cases member; rfl) knownArgument
    obtain ⟨t, w, rfl, starts⟩ := argument.first rfl
    exact primary_of_call place opening isFunction (arguments_of_expression starts read)
  | @group _ opening _ _ _ _ readInner =>
    rw [List.cons_append, List.append_assoc]
    obtain ⟨knownInner, -⟩ := knownBefore_append.mp known.tail
    exact primary_of_group opening (readInner (fun _ member => by cases member; rfl) knownInner)

end

end GraphingCalculator.Grammar
