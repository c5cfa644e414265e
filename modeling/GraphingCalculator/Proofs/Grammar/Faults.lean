import GraphingCalculator.Proofs.Grammar.Stopping

/-!
What errors say about the tokens. The readers of expressions never report missing tokens or parentheses
that do not pair up, and where they report a wrong token, the token is one that cannot stand there
(`Explains`): nothing starts or goes on with it, and no parenthesis is missed that has not been opened.
The readers of every level explain themselves so (`faultsBelow`).
-/

namespace GraphingCalculator.Grammar
open GraphingCalculator.Parser

/-! ### Explanations -/

/-- The tokens hold no end of the input, and leave this many parentheses open. -/
structure LeavesOpen (opened : Nat) (v : List PlacedToken) : Prop where
  noEnd : ∀ t ∈ v, t.token ≠ .endOfInput
  isBalanced_append : ∀ before tail, isBalanced before (v ++ tail) = isBalanced (before + opened) tail

/-- The name of a function. -/
def IsFunctionName (token : Token) : Prop :=
  ∃ name f, token = .identifier name ∧ ElementaryFunction.ofName? name = some f

/-- The found token cannot stand where something else is expected, behind tokens that leave this many parentheses
open. The readers never expect the end of the input. -/
def Misfits (before : List PlacedToken) (opened : Nat) (found : Token) : Expectation → Prop
  | .expression => Phrase.expression.startsWith found = false
  | .operatorOrEnd => False
  | .leftParen => found ≠ .leftParen ∧ ∃ t ∈ before.getLast?, IsFunctionName t.token
  | .rightParen => found ≠ .rightParen ∧ Phrase.expression.goesOnWith found = false ∧ 0 < opened

/-- What a reader's error says about the tokens is so. -/
def Explains (tokens : List PlacedToken) : GrammarError → Prop
  | .unexpected position found expected =>
    ∃ before rest opened, tokens = before ++ rest ∧ current rest = ⟨found, position⟩ ∧
      LeavesOpen opened before ∧ Misfits before opened found expected
  | .unbalanced | .empty => False
  | .unknownFunction _ | .arity _ _ | .tooDeep => True

section
variable {v w before rest tokens : List PlacedToken} {opened more : Nat} {found : Token} {expected : Expectation}
  {error : GrammarError}

theorem IsPiece.leavesOpen (piece : IsPiece v) : LeavesOpen 0 v := ⟨piece.noEnd, piece.isBalanced_append⟩

theorem leavesOpen_leftParen (place : Nat) : LeavesOpen 1 [⟨.leftParen, place⟩] := ⟨by simp, fun _ _ => rfl⟩

theorem LeavesOpen.append (front : LeavesOpen opened v) (back : LeavesOpen more w) :
    LeavesOpen (opened + more) (v ++ w) where
  noEnd := List.forall_mem_append.mpr ⟨front.noEnd, back.noEnd⟩
  isBalanced_append before tail := by
    rw [List.append_assoc, front.isBalanced_append, back.isBalanced_append, Nat.add_assoc]

theorem Misfits.append (misfits : Misfits before opened found expected) (v : List PlacedToken) (more : Nat) :
    Misfits (v ++ before) (more + opened) found expected := by
  cases expected with
  | expression => exact misfits
  | operatorOrEnd => exact misfits
  | leftParen =>
    obtain ⟨other, t, last, isName⟩ := misfits
    exact ⟨other, t, by simp [List.getLast?_append, Option.mem_def.mp last], isName⟩
  | rightParen =>
    obtain ⟨other, ends, positive⟩ := misfits
    exact ⟨other, ends, Nat.add_pos_right more positive⟩

/-- What is so of the rest of the tokens is so of all of them. -/
theorem Explains.append (explains : Explains rest error) (front : LeavesOpen opened v) :
    Explains (v ++ rest) error := by
  cases error with
  | unexpected =>
    obtain ⟨before, behind, inner, rfl, here, leaves, misfits⟩ := explains
    exact ⟨v ++ before, behind, opened + inner, by simp, here, front.append leaves, misfits.append v opened⟩
  | _ => exact explains

end

/-! ### Readers -/

section
variable {α β : Type} {tokens rest : List PlacedToken} {error : GrammarError} {t : PlacedToken}

/-- When the reader fails on these tokens, the error is so. -/
def FailsSoundly (reader : Reader α) (tokens : List PlacedToken) : Prop :=
  ∀ ⦃error⦄, reader tokens = .error error → Explains tokens error

theorem failsSoundly_of_ok {reader : Reader α} {result : α × List PlacedToken} (done : reader tokens = .ok result) :
    FailsSoundly reader tokens := by
  intro error fails
  cases done.symm.trans fails

/-- A reader that does not accept the next token. -/
theorem failsSoundly_unexpected {reader : Reader α} {expected : Expectation}
    (gives : reader tokens = .error (unexpected tokens expected))
    (misfits : Misfits [] 0 (current tokens).token expected) : FailsSoundly reader tokens := by
  intro error fails
  cases gives.symm.trans fails
  exact ⟨[], tokens, 0, rfl, rfl, isPiece_nil.leavesOpen, misfits⟩

theorem failsSoundly_tooDeep : FailsSoundly (fun _ => .error .tooDeep : Reader α) tokens := by
  intro error fails
  cases fails
  trivial

theorem FailsSoundly.cons {reader other : Reader α} (sound : FailsSoundly other rest) (piece : IsPiece [t])
    (step : reader (t :: rest) = other rest) : FailsSoundly reader (t :: rest) := by
  intro error fails
  rw [step] at fails
  exact (sound fails).append piece.leavesOpen

/-- Where the second reader fails, the first one has taken a piece. -/
theorem FailsSoundly.bind {first : Reader α} {next : α → Reader β} {ends : Token → Bool} {p q : Prop}
    (sound : FailsSoundly first tokens) (reads : ReadsLocally ends p q first tokens)
    (more : ∀ a rest, FailsSoundly (next a) rest) :
    FailsSoundly (fun tokens => first tokens >>= fun read => next read.1 read.2) tokens := by
  intro error fails
  cases read : first tokens with
  | error firstError =>
    simp only [read] at fails
    cases fails
    exact sound read
  | ok result =>
    obtain ⟨a, behind⟩ := result
    simp only [read] at fails
    obtain ⟨v, rfl, -, took⟩ := reads.took read
    exact (more a behind fails).append took.isPiece.leavesOpen

/-- What a reader has made may be changed. -/
theorem FailsSoundly.map {first : Reader α} {ends : Token → Bool} {p q : Prop} (sound : FailsSoundly first tokens)
    (reads : ReadsLocally ends p q first tokens) (f : α → β) :
    FailsSoundly (fun tokens => first tokens >>= fun read => .ok (f read.1, read.2)) tokens := by
  have made (a : α) (rest : List PlacedToken) : FailsSoundly (fun tokens => .ok (f a, tokens) : Reader β) rest :=
    failsSoundly_of_ok rfl
  exact sound.bind reads made

theorem takeLeftParen_eq_error (fails : takeLeftParen tokens = .error error) :
    error = unexpected tokens .leftParen ∧ (current tokens).token ≠ .leftParen := by
  unfold takeLeftParen at fails
  split at fails
  case h_1 => cases fails
  case h_2 other =>
    cases fails
    refine ⟨rfl, fun isLeft => ?_⟩
    rcases tokens with _ | ⟨⟨token, place⟩, tokens⟩
    · cases isLeft
    · cases isLeft
      exact other place tokens rfl

theorem takeRightParen_eq_error (fails : takeRightParen tokens = .error error) :
    error = unexpected tokens .rightParen ∧ (current tokens).token ≠ .rightParen := by
  unfold takeRightParen at fails
  split at fails
  case h_1 => cases fails
  case h_2 other =>
    cases fails
    refine ⟨rfl, fun isRight => ?_⟩
    rcases tokens with _ | ⟨⟨token, place⟩, tokens⟩
    · cases isRight
    · cases isRight
      exact other place tokens rfl

theorem goesOnWith_current {phrase : Phrase} (ends : phrase.EndsBefore tokens) :
    phrase.goesOnWith (current tokens).token = false := by
  cases tokens with
  | nil => cases phrase <;> rfl
  | cons t rest => exact ends t rfl

/-- In the place of a closing parenthesis stands neither one nor anything with which an expression would go on. -/
theorem enclosed_failsSoundly {reader : Reader α} {ends : Token → Bool} {p q : Prop}
    (sound : FailsSoundly reader tokens) (reads : ReadsLocally ends p q reader tokens)
    (stops : StopsBefore .expression reader) (place : Nat) :
    FailsSoundly (enclosed reader) (⟨.leftParen, place⟩ :: tokens) := by
  intro error fails
  cases read : reader tokens with
  | error readerError =>
    rw [enclosed_eq_error read] at fails
    cases fails
    exact (sound read).append (leavesOpen_leftParen place)
  | ok result =>
    obtain ⟨a, behind⟩ := result
    obtain ⟨v, rfl, -, took⟩ := reads.took read
    simp only [enclosed, takeLeftParen, read, bind, Except.bind] at fails
    cases closes : takeRightParen behind with
    | ok after =>
      rw [closes] at fails
      cases fails
    | error closingError =>
      rw [closes] at fails
      cases fails
      obtain ⟨rfl, other⟩ := takeRightParen_eq_error closes
      refine ⟨⟨.leftParen, place⟩ :: v, behind, 1, rfl, rfl, ?_, other, goesOnWith_current (stops read), Nat.one_pos⟩
      exact (leavesOpen_leftParen place).append took.isPiece.leavesOpen

end

/-- What the errors say that come from the readers of a level is so. -/
structure FaultsBelow (below : Level) : Prop where
  expression : ∀ tokens, FailsSoundly below.expression tokens
  arguments : ∀ tokens, FailsSoundly below.arguments tokens
  unary : ∀ tokens, FailsSoundly below.unary tokens
  sumLink : ∀ sum op tokens, FailsSoundly (below.sumLink sum op) tokens
  productLink : ∀ product op tokens, FailsSoundly (below.productLink product op) tokens
  implicitLink : ∀ product t rest, startsFactor t.token → FailsSoundly (below.implicitLink product) (t :: rest)

theorem unsigned_of_startsFactor {token : Token} (starts : startsFactor token = true) : isMinus token = false := by
  cases token with
  | identifier | leftParen => rfl
  | _ => cases starts

theorem called_failsSoundly (f : ElementaryFunction) (arguments : List Expr) (tokens : List PlacedToken) :
    FailsSoundly (called f arguments) tokens := by
  intro error fails
  unfold called at fails
  split at fails <;> cases fails
  trivial

section
variable {below : Level} {tokens : List PlacedToken} (levels : LocalBelow below) (stops : LevelStops below)
  (faults : FaultsBelow below)
include levels stops faults

/-- A function's name is followed by an opening parenthesis, and the closing one stands behind an argument. -/
theorem call_failsSoundly {name : String} {f : ElementaryFunction}
    (isFunction : ElementaryFunction.ofName? name = some f) (place : Nat) (rest : List PlacedToken) :
    FailsSoundly (primary below) (⟨.identifier name, place⟩ :: rest) := by
  have piece : IsPiece [⟨.identifier name, place⟩] := isPiece_single rfl (by simp)
  have step : primary below (⟨.identifier name, place⟩ :: rest) = call below f rest := by
    simp only [primary, isFunction]
  cases opens : takeLeftParen rest with
  | error openingError =>
    have gives : call below f rest = .error openingError := by simp only [call, opens, bind, Except.bind]
    intro error fails
    cases (step.trans gives).symm.trans fails
    obtain ⟨rfl, other⟩ := takeLeftParen_eq_error opens
    exact ⟨[⟨.identifier name, place⟩], rest, 0, rfl, rfl, piece.leavesOpen, other, _, rfl, name, f, rfl, isFunction⟩
  | ok opened =>
    obtain ⟨opening, rfl⟩ := eq_of_takeLeftParen opens
    have reads : ReadsLocally isClosing False False (enclosed below.arguments) (⟨.leftParen, opening⟩ :: opened) :=
      readsLocally_enclosed (levels.arguments opened) opening
    have inner := enclosed_failsSoundly (faults.arguments opened) (levels.arguments opened) stops.arguments opening
    refine FailsSoundly.cons ?_ piece step
    rw [call_eq_bind]
    exact inner.bind reads (called_failsSoundly f)

theorem primary_failsSoundly (unsigned : isMinus (current tokens).token = false) :
    FailsSoundly (primary below) tokens := by
  rcases tokens with _ | ⟨⟨token, place⟩, rest⟩
  · exact failsSoundly_unexpected rfl rfl
  · cases token with
    | number => exact failsSoundly_of_ok rfl
    | identifier name =>
      cases isFunction : ElementaryFunction.ofName? name with
      | some f => exact call_failsSoundly levels stops faults isFunction place rest
      | none =>
        intro error fails
        simp only [primary, isFunction] at fails
        split at fails
        · cases fails
        · split at fails <;> cases fails
          trivial
    | leftParen => exact enclosed_failsSoundly (faults.expression rest) (levels.expression rest) stops.expression place
    | operator op =>
      refine failsSoundly_unexpected rfl ?_
      cases op with
      | subtract => cases unsigned
      | _ => rfl
    | _ => exact failsSoundly_unexpected rfl rfl

omit stops in
theorem raised_failsSoundly (base : Expr) (tokens : List PlacedToken) : FailsSoundly (raised below base) tokens := by
  by_cases raises : NextIs isRaising tokens
  · obtain ⟨t, rest, rfl, isRaising⟩ := exists_cons_of_nextIs raises
    obtain ⟨place, rfl⟩ := eq_of_isRaising isRaising
    have exponent := (faults.unary rest).map (levels.unary rest) (Expr.binary .power base)
    exact exponent.cons (isPiece_single rfl (by simp)) rfl
  · exact failsSoundly_of_ok (raised_of_not_nextIs below base raises)

theorem power_failsSoundly (unsigned : isMinus (current tokens).token = false) : FailsSoundly (power below) tokens := by
  rw [power_eq_bind]
  exact (primary_failsSoundly levels stops faults unsigned).bind ((primary_readsOperands levels).readsLocally tokens)
    (raised_failsSoundly levels faults)

theorem unary_failsSoundly (tokens : List PlacedToken) : FailsSoundly (unary below) tokens := by
  cases minus : isMinus (current tokens).token with
  | true =>
    rcases tokens with _ | ⟨t, rest⟩
    · cases minus
    · obtain ⟨place, rfl⟩ := eq_of_isMinus minus
      have operand := (faults.unary rest).map (levels.unary rest) Expr.negate
      exact operand.cons (isPiece_single rfl (by simp)) rfl
  | false =>
    intro error fails
    unfold unary at fails
    split at fails
    case h_1 => cases minus
    case h_2 => exact power_failsSoundly levels stops faults minus fails

omit levels stops in
theorem moreFactors_failsSoundly (product : Expr) (tokens : List PlacedToken) :
    FailsSoundly (moreFactors below product) tokens := by
  by_cases links : NextIs linksFactor tokens
  · obtain ⟨⟨token, place⟩, rest, rfl, isLink⟩ := exists_cons_of_nextIs links
    cases token with
    | operator op =>
      have multiplicative : op.isMultiplicative = true := isLink
      refine (faults.productLink product op rest).cons (isPiece_single rfl (by simp)) ?_
      rw [moreFactors, if_pos multiplicative]
    | identifier | leftParen => exact faults.implicitLink product _ rest rfl
    | _ => cases isLink
  · exact failsSoundly_of_ok (moreFactors_of_not_nextIs below product links)

theorem term_failsSoundly (tokens : List PlacedToken) : FailsSoundly (term below) tokens := by
  rw [term_eq_bind]
  exact (unary_failsSoundly levels stops faults tokens).bind ((unary_readsOperands levels).readsLocally tokens)
    (moreFactors_failsSoundly faults)

omit levels stops in
theorem moreTerms_failsSoundly (sum : Expr) (tokens : List PlacedToken) :
    FailsSoundly (moreTerms below sum) tokens := by
  by_cases links : NextIs linksTerm tokens
  · obtain ⟨⟨token, place⟩, rest, rfl, isLink⟩ := exists_cons_of_nextIs links
    cases token with
    | operator op =>
      have additive : op.isAdditive = true := isLink
      refine (faults.sumLink sum op rest).cons (isPiece_single rfl (by simp)) ?_
      rw [moreTerms, if_pos additive]
    | _ => cases isLink
  · exact failsSoundly_of_ok (moreTerms_of_not_nextIs below sum links)

theorem expression_failsSoundly (tokens : List PlacedToken) : FailsSoundly (expression below) tokens := by
  rw [expression_eq_bind]
  exact (term_failsSoundly levels stops faults tokens).bind ((term_readsOperands levels).readsLocally tokens)
    (moreTerms_failsSoundly faults)

theorem moreArguments_failsSoundly (room : Nat) (found : List Expr) (tokens : List PlacedToken) :
    FailsSoundly (moreArguments below room found) tokens := by
  induction room generalizing found tokens with
  | zero => exact failsSoundly_of_ok rfl
  | succ room ih =>
    intro error fails
    unfold moreArguments at fails
    split at fails
    case h_1 place rest =>
      have piece : IsPiece [⟨.comma, place⟩] := isPiece_single rfl (by simp)
      have argument := (expression_failsSoundly levels stops faults rest).bind
        ((expression_readsOperands levels).readsLocally rest) fun argument => ih (argument :: found)
      exact (argument fails).append piece.leavesOpen
    case h_2 => cases fails

theorem arguments_failsSoundly (tokens : List PlacedToken) : FailsSoundly (arguments below) tokens := by
  intro error fails
  unfold arguments at fails
  split at fails
  case h_1 => cases fails
  case h_2 =>
    have all := (expression_failsSoundly levels stops faults tokens).bind
      ((expression_readsOperands levels).readsLocally tokens)
      fun first rest => moreArguments_failsSoundly levels stops faults rest.length [first] rest
    exact all fails

theorem faultsBelow_above : FaultsBelow below.above where
  expression := expression_failsSoundly levels stops faults
  arguments := arguments_failsSoundly levels stops faults
  unary := unary_failsSoundly levels stops faults
  sumLink sum op tokens :=
    (term_failsSoundly levels stops faults tokens).bind ((term_readsOperands levels).readsLocally tokens)
      fun right => moreTerms_failsSoundly faults (.binary op sum right)
  productLink product op tokens :=
    (unary_failsSoundly levels stops faults tokens).bind ((unary_readsOperands levels).readsLocally tokens)
      fun right => moreFactors_failsSoundly faults (.binary op product right)
  implicitLink product t rest starts := by
    have unsigned : isMinus (current (t :: rest)).token = false := unsigned_of_startsFactor starts
    exact (power_failsSoundly levels stops faults unsigned).bind ((power_readsOperands levels).readsLocally (t :: rest))
      fun right => moreFactors_failsSoundly faults (.binary .multiply product right)

end

theorem faultsBelow_exhausted : FaultsBelow .exhausted where
  expression _ := failsSoundly_tooDeep
  arguments _ := failsSoundly_tooDeep
  unary _ := failsSoundly_tooDeep
  sumLink _ _ _ := failsSoundly_tooDeep
  productLink _ _ _ := failsSoundly_tooDeep
  implicitLink _ _ _ _ := failsSoundly_tooDeep

theorem faultsBelow (levels : Nat) : FaultsBelow (.nested levels) := by
  induction levels with
  | zero => exact faultsBelow_exhausted
  | succ levels ih => exact faultsBelow_above (localBelow levels) (levelStops levels) ih

end GraphingCalculator.Grammar
