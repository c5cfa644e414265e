import GraphingCalculator.Proofs.Grammar.LocalReader

/-!
How far the readers of expressions look ahead: on every level, no further than the token that they stop at
(`localBelow`). A reader of operands refuses at once what starts no operand (`ReadsOperands`).
-/

namespace GraphingCalculator.Grammar
open GraphingCalculator.Parser

/-! ### Readers of operands -/

section
variable {reader : Reader Expr} {tokens rest : List PlacedToken} {t : PlacedToken}

/-- A reader of operands. It takes something of the tokens that start with one of these kinds, and refuses all
others at once; a number at the end it takes for itself. -/
structure ReadsOperands (starts : Token → Bool) (reader : Reader Expr) : Prop where
  reads : ∀ t rest, starts t.token → ReadsLocally isClosing False False reader (t :: rest)
  wrong : ∀ t rest, starts t.token = false →
    reader (t :: rest) = .error (.unexpected t.position t.token .expression)
  nil : ∀ result, reader [] ≠ .ok result
  number : ∀ value place tail, NextIs isClosing tail →
    reader (⟨.number value, place⟩ :: tail) = .ok (.literal value, tail)

theorem isPiece_number (value : Float) (place : Nat) : IsPiece [⟨.number value, place⟩] :=
  isPiece_single rfl (by simp)

theorem ReadsOperands.readsLocally {starts : Token → Bool} (operands : ReadsOperands starts reader)
    (tokens : List PlacedToken) : ReadsLocally isClosing True True reader tokens := by
  rcases tokens with _ | ⟨t, rest⟩
  · exact readsLocally_nil operands.nil
  · cases start : starts t.token with
    | true => exact (operands.reads t rest start).mono (fun _ => id) False.elim False.elim
    | false =>
      refine readsLocally_wrong [⟨.number 1, 0⟩] (fun x => operands.wrong t x start) (by simp [isFiller])
        (isPiece_number 1 0) fun tail ending => .inl ⟨_, operands.number 1 0 tail ending⟩

/-- An operand may go on with what does not go on at the end. -/
theorem ReadsOperands.bind {starts : Token → Bool} {next : Expr → Reader Expr} (operands : ReadsOperands starts reader)
    (more : ∀ e rest, ReadsLocally isClosing True False (next e) rest)
    (stops : ∀ e tail, NextIs isClosing tail → next e tail = .ok (e, tail)) :
    ReadsOperands starts fun tokens => reader tokens >>= fun read => next read.1 read.2 where
  reads t rest start :=
    (operands.reads t rest start).bind next (fun e rest _ => more e rest)
      fun e tail ending => .inl ⟨e, stops e tail ending⟩
  wrong t rest start := by
    rw [operands.wrong t rest start]
    rfl
  nil result done := by
    obtain ⟨read, taken, -⟩ := ok_of_bind done
    exact operands.nil read taken
  number value place tail ending := by
    rw [operands.number value place tail ending]
    exact stops _ tail ending

end

/-! ### The readers of one level -/

section
variable {α : Type} {tokens rest tail : List PlacedToken} {below : Level}

/-- The exponent behind a base, if there is one. -/
def raised (below : Level) (base : Expr) : Reader Expr := fun tokens =>
  match tokens with
  | ⟨.operator .power, _⟩ :: rest => below.unary rest >>= fun read => .ok (.binary .power base read.1, read.2)
  | _ => .ok (base, tokens)

/-- What a reader reads, in parentheses. -/
def enclosed (reader : Reader α) : Reader α := fun tokens => do
  let opened ← takeLeftParen tokens
  let (a, closing) ← reader opened
  let rest ← takeRightParen closing
  return (a, rest)

/-- A call of a function with these arguments, if it takes so many. -/
def called (f : ElementaryFunction) (arguments : List Expr) : Reader Expr := fun tokens =>
  match arguments with
  | [argument] => .ok (.call f argument, tokens)
  | _ => .error (.arity f arguments.length)

/-- The arguments that follow the ones found. -/
def furtherArguments (below : Level) (found : List Expr) : Reader (List Expr) := fun tokens =>
  moreArguments below tokens.length found tokens

theorem power_eq_bind (below : Level) :
    power below = fun tokens => primary below tokens >>= fun read => raised below read.1 read.2 := rfl

theorem term_eq_bind (below : Level) :
    term below = fun tokens => unary below tokens >>= fun read => moreFactors below read.1 read.2 := rfl

theorem expression_eq_bind (below : Level) :
    expression below = fun tokens => term below tokens >>= fun read => moreTerms below read.1 read.2 := rfl

theorem call_eq_bind (below : Level) (f : ElementaryFunction) :
    call below f = fun tokens => enclosed below.arguments tokens >>= fun read => called f read.1 read.2 := by
  funext tokens
  unfold call enclosed
  cases opens : takeLeftParen tokens with
  | error => rfl
  | ok opened =>
    cases read : below.arguments opened with
    | error => simp only [bind, Except.bind, read]
    | ok result =>
      cases closes : takeRightParen result.2 with
      | error => simp only [bind, Except.bind, read, closes]
      | ok rest =>
        simp only [bind, Except.bind, read, closes]
        rfl

theorem enclosed_eq_ok {reader : Reader α} {a : α} {opening closing : Nat}
    (read : reader tokens = .ok (a, ⟨.rightParen, closing⟩ :: tail)) :
    enclosed reader (⟨.leftParen, opening⟩ :: tokens) = .ok (a, tail) := by
  simp only [enclosed, takeLeftParen, takeRightParen, read, bind, Except.bind]
  rfl

theorem enclosed_eq_error {reader : Reader α} {error : GrammarError} {opening : Nat}
    (read : reader tokens = .error error) : enclosed reader (⟨.leftParen, opening⟩ :: tokens) = .error error := by
  simp only [enclosed, takeLeftParen, read, bind, Except.bind]

theorem ok_of_enclosed {reader : Reader α} {a : α} {opening : Nat}
    (done : enclosed reader (⟨.leftParen, opening⟩ :: tokens) = .ok (a, rest)) :
    ∃ closing, reader tokens = .ok (a, ⟨.rightParen, closing⟩ :: rest) := by
  obtain ⟨opened, opens, afterOpening⟩ := ok_of_bind done
  cases opens
  obtain ⟨⟨a, behind⟩, read, afterReading⟩ := ok_of_bind afterOpening
  obtain ⟨after, closes, finish⟩ := ok_of_bind afterReading
  cases finish
  obtain ⟨closing, rfl⟩ := eq_of_takeRightParen closes
  exact ⟨closing, read⟩

theorem settles_enclosed {reader : Reader α} {closing : Nat} (opening : Nat)
    (settles : Settles reader tokens (⟨.rightParen, closing⟩ :: tail)) :
    Settles (enclosed reader) (⟨.leftParen, opening⟩ :: tokens) tail := by
  obtain ⟨a, taken⟩ | ⟨f, count, gives⟩ | gives := settles
  · exact .inl ⟨a, enclosed_eq_ok taken⟩
  · exact .inr (.inl ⟨f, count, enclosed_eq_error gives⟩)
  · exact .inr (.inr (enclosed_eq_error gives))

section
variable {ends : Token → Bool} {reader : Reader α} {v filler : List PlacedToken} {t : PlacedToken} {a : α}

theorem took_enclosed {closing : Nat} (opening : Nat)
    (took : Took isRightParen reader v (⟨.rightParen, closing⟩ :: rest) a) :
    Took ends (enclosed reader) (⟨.leftParen, opening⟩ :: (v ++ [⟨.rightParen, closing⟩])) rest a where
  isPiece := took.isPiece.parenthesized opening closing
  again tail _ := by simpa using enclosed_eq_ok (took.again (⟨.rightParen, closing⟩ :: tail) (.inl rfl))

/-- When a reader is stuck between parentheses, the closing one is part of the filler. -/
theorem stuckAt_enclosed (opening : Nat) (stuck : StuckAt isRightParen reader v t filler) :
    StuckAt ends (enclosed reader) (⟨.leftParen, opening⟩ :: v) t (filler ++ [⟨.rightParen, 0⟩]) where
  fails rest result done := by
    obtain ⟨closing, taken⟩ := ok_of_enclosed done
    exact stuck.fails rest _ taken
  fills := List.forall_mem_append.mpr ⟨stuck.fills, by simp [isFiller]⟩
  isPiece := by simpa using stuck.isPiece.parenthesized opening 0
  settles tail _ := by
    rw [List.cons_append, List.append_assoc]
    exact settles_enclosed opening (stuck.settles (⟨.rightParen, 0⟩ :: tail) ⟨_, rfl, rfl⟩)

/-- A token that stands in the place of the closing parenthesis is wrong. -/
theorem stuckAt_enclosed_of_took (opening : Nat) (took : Took isRightParen reader v (t :: rest) a)
    (other : t.token ≠ .rightParen) :
    StuckAt ends (enclosed reader) (⟨.leftParen, opening⟩ :: v) t [⟨.rightParen, 0⟩] where
  fails rest result done := by
    obtain ⟨closing, taken⟩ := ok_of_enclosed done
    cases (took.again (t :: rest) (.inl rfl)).symm.trans taken
    exact other rfl
  fills := by simp [isFiller]
  isPiece := by simpa using took.isPiece.parenthesized opening 0
  settles tail _ := .inl ⟨a, enclosed_eq_ok (took.again (⟨.rightParen, 0⟩ :: tail) (.inr ⟨_, rfl, rfl⟩))⟩

end

/-- Parentheses look at no token behind the closing one. -/
theorem readsLocally_enclosed {ends : Token → Bool} {p q : Prop} {reader : Reader α}
    (inner : ReadsLocally isRightParen p q reader tokens) (opening : Nat) :
    ReadsLocally ends False False (enclosed reader) (⟨.leftParen, opening⟩ :: tokens) where
  took done := by
    obtain ⟨closing, read⟩ := ok_of_enclosed done
    obtain ⟨v, rfl, -, took⟩ := inner.took read
    exact ⟨⟨.leftParen, opening⟩ :: (v ++ [⟨.rightParen, closing⟩]), by simp, nofun, took_enclosed opening took⟩
  stuck := by
    intro position found expected fails hasEnd
    have endInside : ∃ u ∈ tokens, u.token = .endOfInput := by simpa using hasEnd
    cases read : reader tokens with
    | error error =>
      rw [enclosed_eq_error read] at fails
      cases fails
      obtain ⟨v, rest, filler, rfl, -, stuck⟩ := inner.stuck read endInside
      exact ⟨⟨.leftParen, opening⟩ :: v, rest, _, rfl, nofun, stuckAt_enclosed opening stuck⟩
    | ok result =>
      obtain ⟨a, behind⟩ := result
      obtain ⟨v, rfl, -, took⟩ := inner.took read
      -- the end is not in what has been read, so there is a token in the place of the closing parenthesis
      obtain ⟨⟨token, place⟩, rest, rfl⟩ : ∃ t rest, behind = t :: rest := by
        obtain ⟨u, member, -⟩ := took.isPiece.exists_end_behind endInside
        exact List.exists_cons_of_ne_nil (List.ne_nil_of_mem member)
      have wrong : token ≠ .rightParen ∧ (⟨token, place⟩ : PlacedToken) = ⟨found, position⟩ := by
        simp only [enclosed, takeLeftParen, read, bind, Except.bind] at fails
        cases token <;> cases fails <;> exact ⟨by simp, rfl⟩
      obtain ⟨other, here⟩ := wrong
      rw [← here]
      exact ⟨⟨.leftParen, opening⟩ :: v, rest, _, rfl, nofun, stuckAt_enclosed_of_took opening took other⟩

theorem startsOperand_of_startsFactor {token : Token} (starts : startsFactor token = true) :
    startsOperand token = true := by
  cases token with
  | identifier | leftParen => rfl
  | _ => cases starts

/-- The readers of a level look no further than the token that they stop at. -/
structure LocalBelow (below : Level) : Prop where
  expression : ∀ tokens, ReadsLocally isClosing True True below.expression tokens
  arguments : ∀ tokens, ReadsLocally isRightParen True True below.arguments tokens
  oneArgument : ∀ value place tail, NextIs isRightParen tail →
    Settles below.arguments (⟨.number value, place⟩ :: tail) tail
  unary : ∀ tokens, ReadsLocally isClosing True True below.unary tokens
  sumLink : ∀ sum op tokens, ReadsLocally isClosing True True (below.sumLink sum op) tokens
  productLink : ∀ product op tokens, ReadsLocally isClosing True True (below.productLink product op) tokens
  implicitLink : ∀ product t rest, startsFactor t.token →
    ReadsLocally isClosing False False (below.implicitLink product) (t :: rest)

theorem raised_of_not_nextIs (below : Level) (base : Expr) (last : ¬ NextIs isRaising tail) :
    raised below base tail = .ok (base, tail) := by
  unfold raised
  split
  · exact absurd ⟨_, rfl, rfl⟩ last
  · rfl

theorem moreFactors_of_not_nextIs (below : Level) (product : Expr) (last : ¬ NextIs linksFactor tail) :
    moreFactors below product tail = .ok (product, tail) := by
  unfold moreFactors
  split
  · exact if_neg fun multiplicative => last ⟨_, rfl, multiplicative⟩
  · exact absurd ⟨_, rfl, rfl⟩ last
  · exact absurd ⟨_, rfl, rfl⟩ last
  · rfl

theorem moreTerms_of_not_nextIs (below : Level) (sum : Expr) (last : ¬ NextIs linksTerm tail) :
    moreTerms below sum tail = .ok (sum, tail) := by
  unfold moreTerms
  split
  · exact if_neg fun additive => last ⟨_, rfl, additive⟩
  · rfl

theorem furtherArguments_of_not_nextIs (below : Level) (found : List Expr) (last : ¬ NextIs isComma tail) :
    furtherArguments below found tail = .ok (found.reverse, tail) := by
  unfold furtherArguments
  cases tail.length with
  | zero => rfl
  | succ room =>
    unfold moreArguments
    split
    · exact absurd ⟨_, rfl, rfl⟩ last
    · rfl

variable (levels : LocalBelow below)
include levels

theorem call_readsLocally (f : ElementaryFunction) (tokens : List PlacedToken) :
    ReadsLocally isClosing True True (call below f) tokens := by
  rw [call_eq_bind]
  refine ReadsLocally.bind ?_ (called f) (fun arguments rest _ => ?_) (fun arguments tail _ => ?_)
  · rcases tokens with _ | ⟨⟨token, place⟩, rest⟩
    · exact readsLocally_nil nofun
    · cases token with
      | leftParen =>
        exact (readsLocally_enclosed (levels.arguments rest) place).mono (fun _ => id) False.elim False.elim
      | _ =>
        refine readsLocally_wrong [⟨.leftParen, 0⟩, ⟨.number 1, 0⟩, ⟨.rightParen, 0⟩] (fun _ => rfl)
          (by simp [isFiller]) ((isPiece_number 1 0).parenthesized 0 0) fun tail _ => ?_
        exact settles_enclosed 0 (levels.oneArgument 1 0 (⟨.rightParen, 0⟩ :: tail) ⟨_, rfl, rfl⟩)
  · unfold called
    split
    · exact readsLocally_pure fun _ _ => rfl
    · exact readsLocally_error _ rfl nofun
  · unfold called
    split
    · exact .inl ⟨_, rfl⟩
    · exact .inr (.inl ⟨f, _, rfl⟩)

omit levels in
/-- A name that might be taken for a call is one unless a parenthesis follows at once. -/
theorem readsLocally_name (name : String) (place : Nat) {reader : Reader Expr}
    (step : ∀ x, reader (⟨.identifier name, place⟩ :: x) =
      if startsGroup x && 1 < name.length then .error (.unknownFunction name) else .ok (.var name, x)) :
    ReadsLocally isClosing False False reader (⟨.identifier name, place⟩ :: rest) := by
  have piece : IsPiece [⟨.identifier name, place⟩] := isPiece_single rfl (by simp)
  by_cases long : 1 < name.length
  · by_cases group : NextIs isLeftParen rest
    · have called : startsGroup rest = true := startsGroup_iff.mpr group
      refine (readsLocally_error (p := True) (q := False) (.unknownFunction name) ?_ nofun).cons piece step
      simp [called, long]
    · refine (readsLocally_stop isLeftParen (a := .var name) rfl rfl (fun tail alone => ?_) group).cons piece step
      simp [startsGroup_iff, alone]
  · exact readsLocally_single piece fun x => by rw [step, if_neg (by simp [long])]

theorem primary_readsOperands : ReadsOperands startsOperand (primary below) where
  reads t rest start := by
    obtain ⟨token, place⟩ := t
    cases token with
    | number value => exact readsLocally_single (isPiece_number value place) fun x => rfl
    | identifier name =>
      have piece : IsPiece [⟨.identifier name, place⟩] := isPiece_single rfl (by simp)
      cases isFunction : ElementaryFunction.ofName? name with
      | some f => exact (call_readsLocally levels f rest).cons piece fun x => by simp only [primary, isFunction]
      | none =>
        cases isConstant : Constant.ofName? name with
        | some c =>
          exact readsLocally_single (a := .constant c) piece fun x => by simp only [primary, isFunction, isConstant]
        | none => exact readsLocally_name name place fun x => by simp only [primary, isFunction, isConstant]
    | leftParen =>
      have inner : ReadsLocally isRightParen True True below.expression rest :=
        (levels.expression rest).mono isClosing_of_isRightParen id id
      exact (readsLocally_enclosed inner place).congr_cons fun x => rfl
    | _ => cases start
  wrong t rest start := by
    obtain ⟨token, place⟩ := t
    cases token with
    | number | identifier | leftParen => cases start
    | _ => rfl
  nil := nofun
  number _ _ _ _ := rfl

theorem raised_readsLocally (base : Expr) (tokens : List PlacedToken) :
    ReadsLocally isClosing True False (raised below base) tokens := by
  by_cases links : NextIs isRaising tokens
  · obtain ⟨t, rest, rfl, raises⟩ := exists_cons_of_nextIs links
    obtain ⟨place, rfl⟩ := eq_of_isRaising raises
    have exponent := (levels.unary rest).map (Expr.binary .power base)
    exact (exponent.cons (isPiece_single rfl (by simp)) fun x => rfl).mono (fun _ => id) False.elim id
  · exact readsLocally_stop isRaising rfl rfl (fun tail => raised_of_not_nextIs below base) links

theorem power_readsOperands : ReadsOperands startsOperand (power below) := by
  rw [power_eq_bind]
  exact (primary_readsOperands levels).bind (raised_readsLocally levels) fun base tail closes =>
    raised_of_not_nextIs below base (not_nextIs_of_closing rfl rfl closes)

theorem unary_readsOperands : ReadsOperands Phrase.unary.startsWith (unary below) where
  reads t rest start := by
    by_cases operand : startsOperand t.token
    · exact ((power_readsOperands levels).reads t rest operand).congr_cons fun x => unary_of_startsOperand operand
    · have minus : isMinus t.token = true := (Bool.or_eq_true _ _).mp start |>.resolve_left operand
      obtain ⟨place, rfl⟩ := eq_of_isMinus minus
      have negated := (levels.unary rest).map Expr.negate
      exact negated.cons (isPiece_single rfl (by simp)) fun x => rfl
  wrong t rest start := by
    obtain ⟨operand, minus⟩ := Bool.or_eq_false_iff.mp start
    obtain ⟨token, place⟩ := t
    refine Eq.trans ?_ ((power_readsOperands levels).wrong ⟨token, place⟩ rest operand)
    cases token with
    | operator op =>
      cases op with
      | subtract => cases minus
      | _ => rfl
    | _ => rfl
  nil := (power_readsOperands levels).nil
  number value place tail closes := (power_readsOperands levels).number value place tail closes

theorem moreFactors_readsLocally (product : Expr) (tokens : List PlacedToken) :
    ReadsLocally isClosing True False (moreFactors below product) tokens := by
  by_cases links : NextIs linksFactor tokens
  · obtain ⟨t, rest, rfl, goesOn⟩ := exists_cons_of_nextIs links
    refine ReadsLocally.mono (p := False) (q := False) ?_ (fun _ => id) False.elim id
    obtain ⟨token, place⟩ := t
    cases token with
    | operator op =>
      have multiplicative : op.isMultiplicative = true := goesOn
      refine (levels.productLink product op rest).cons (isPiece_single rfl (by simp)) fun x => ?_
      rw [moreFactors, if_pos multiplicative]
    | identifier name => exact (levels.implicitLink product _ rest rfl).congr_cons fun x => rfl
    | leftParen => exact (levels.implicitLink product _ rest rfl).congr_cons fun x => rfl
    | _ => cases goesOn
  · exact readsLocally_stop linksFactor rfl rfl (fun tail => moreFactors_of_not_nextIs below product) links

theorem term_readsOperands : ReadsOperands Phrase.unary.startsWith (term below) := by
  rw [term_eq_bind]
  exact (unary_readsOperands levels).bind (moreFactors_readsLocally levels) fun product tail closes =>
    moreFactors_of_not_nextIs below product (not_nextIs_of_closing rfl rfl closes)

theorem moreTerms_readsLocally (sum : Expr) (tokens : List PlacedToken) :
    ReadsLocally isClosing True False (moreTerms below sum) tokens := by
  by_cases links : NextIs linksTerm tokens
  · obtain ⟨t, rest, rfl, goesOn⟩ := exists_cons_of_nextIs links
    refine ReadsLocally.mono (p := False) (q := False) ?_ (fun _ => id) False.elim id
    obtain ⟨token, place⟩ := t
    cases token with
    | operator op =>
      have additive : op.isAdditive = true := goesOn
      refine (levels.sumLink sum op rest).cons (isPiece_single rfl (by simp)) fun x => ?_
      rw [moreTerms, if_pos additive]
    | _ => cases goesOn
  · exact readsLocally_stop linksTerm rfl rfl (fun tail => moreTerms_of_not_nextIs below sum) links

theorem expression_readsOperands : ReadsOperands Phrase.unary.startsWith (expression below) := by
  rw [expression_eq_bind]
  exact (term_readsOperands levels).bind (moreTerms_readsLocally levels) fun sum tail closes =>
    moreTerms_of_not_nextIs below sum (not_nextIs_of_closing rfl rfl closes)

theorem length_le_of_expression {e : Expr} (done : expression below tokens = .ok (e, rest)) :
    rest.length ≤ tokens.length := by
  obtain ⟨v, rfl, -⟩ := ((expression_readsOperands levels).readsLocally tokens).took done
  simp

/-- There is always enough room for the arguments. -/
theorem moreArguments_eq {room other : Nat} {found : List Expr} (enough : tokens.length ≤ room)
    (enoughToo : tokens.length ≤ other) :
    moreArguments below room found tokens = moreArguments below other found tokens := by
  induction room generalizing other found tokens with
  | zero =>
    obtain rfl := List.length_eq_zero_iff.mp (Nat.le_zero.mp enough)
    cases other <;> rfl
  | succ room ih =>
    cases other with
    | zero =>
      obtain rfl := List.length_eq_zero_iff.mp (Nat.le_zero.mp enoughToo)
      rfl
    | succ other =>
      unfold moreArguments
      split
      · next rest =>
        simp only [List.length_cons] at enough enoughToo
        cases read : expression below rest with
        | error => rfl
        | ok result =>
          have shorter := length_le_of_expression levels read
          exact ih (by omega) (by omega)
      · rfl

theorem furtherArguments_comma {found : List Expr} (place : Nat) (rest : List PlacedToken) :
    furtherArguments below found (⟨.comma, place⟩ :: rest) =
      expression below rest >>= fun read => furtherArguments below (read.1 :: found) read.2 := by
  cases read : expression below rest with
  | error error => simp only [furtherArguments, List.length_cons, moreArguments, read, bind, Except.bind]
  | ok result =>
    have shorter := length_le_of_expression levels read
    simp only [furtherArguments, List.length_cons, moreArguments, read, bind, Except.bind]
    exact moreArguments_eq levels shorter (Nat.le_refl _)

theorem furtherArguments_readsLocally (found : List Expr) (tokens : List PlacedToken) :
    ReadsLocally isClosing True False (furtherArguments below found) tokens := by
  induction size : tokens.length using Nat.strongRecOn generalizing tokens found with
  | ind n ih =>
    by_cases links : NextIs isComma tokens
    · obtain ⟨t, rest, rfl, comma⟩ := exists_cons_of_nextIs links
      obtain ⟨place, rfl⟩ := eq_of_isComma comma
      refine ReadsLocally.mono (p := False) (q := False) ?_ (fun _ => id) False.elim id
      have reads := ((expression_readsOperands levels).readsLocally rest).bind
        (fun argument => furtherArguments below (argument :: found))
        (fun argument behind read => by
          have shorter := length_le_of_expression levels read
          exact ih _ (by simp only [List.length_cons] at size; omega) _ _ rfl)
        fun argument tail closes =>
          .inl ⟨_, furtherArguments_of_not_nextIs below _ (not_nextIs_of_closing rfl rfl closes)⟩
      exact reads.cons (isPiece_single rfl (by simp)) fun x => furtherArguments_comma levels place x
    · exact readsLocally_stop isComma rfl rfl (fun tail => furtherArguments_of_not_nextIs below found) links

omit levels in
theorem arguments_cons {t : PlacedToken} (notClosing : isRightParen t.token = false) (x : List PlacedToken) :
    arguments below (t :: x) = expression below (t :: x) >>= fun read => furtherArguments below [read.1] read.2 := by
  obtain ⟨token, place⟩ := t
  cases token with
  | rightParen => cases notClosing
  | _ => rfl

theorem settles_argument (value : Float) (place : Nat) (closes : NextIs isRightParen tail) :
    Settles (arguments below) (⟨.number value, place⟩ :: tail) tail := by
  have ending : NextIs isClosing tail := closes.imp fun t => And.imp_right (isClosing_of_isRightParen t.token)
  refine .inl ⟨[.literal value], ?_⟩
  rw [arguments_cons rfl, (expression_readsOperands levels).number value place tail ending]
  exact furtherArguments_of_not_nextIs below _ (not_nextIs_of_closing rfl rfl ending)

theorem arguments_readsLocally (tokens : List PlacedToken) :
    ReadsLocally isRightParen True True (arguments below) tokens := by
  rcases tokens with _ | ⟨t, rest⟩
  · refine readsLocally_nil fun result done => ?_
    obtain ⟨read, taken, -⟩ := ok_of_bind done
    exact (expression_readsOperands levels).nil read taken
  · cases closes : isRightParen t.token with
    | true =>
      have none : ReadsLocally isRightParen True False (arguments below) (t :: rest) := by
        refine readsLocally_pure (a := []) fun tail replaces => ?_
        obtain ⟨u, behind, rfl, isRight⟩ : ∃ u behind, tail = u :: behind ∧ isRightParen u.token := by
          rcases replaces with same | next
          · exact exists_cons_of_nextIs ⟨t, same, closes⟩
          · exact exists_cons_of_nextIs next
        obtain ⟨place, rfl⟩ := eq_of_isRightParen isRight
        rfl
      exact none.mono (fun _ => id) id False.elim
    | false =>
      cases start : Phrase.unary.startsWith t.token with
      | true =>
        have reads := ((expression_readsOperands levels).reads t rest start).bind
          (fun argument => furtherArguments below [argument])
          (fun argument behind _ => furtherArguments_readsLocally levels [argument] behind)
          fun argument tail closes =>
            .inl ⟨_, furtherArguments_of_not_nextIs below _ (not_nextIs_of_closing rfl rfl closes)⟩
        exact (reads.congr_cons (arguments_cons closes)).mono isClosing_of_isRightParen False.elim False.elim
      | false =>
        have wrong (x : List PlacedToken) :
            arguments below (t :: x) = .error (.unexpected t.position t.token .expression) := by
          rw [arguments_cons closes, (expression_readsOperands levels).wrong t x start]
          rfl
        exact readsLocally_wrong [⟨.number 1, 0⟩] wrong (by simp [isFiller]) (isPiece_number 1 0)
          fun tail ending => settles_argument levels 1 0 ending

theorem localBelow_above : LocalBelow below.above where
  expression := (expression_readsOperands levels).readsLocally
  arguments := arguments_readsLocally levels
  oneArgument _ _ _ closes := settles_argument levels _ _ closes
  unary := (unary_readsOperands levels).readsLocally
  sumLink sum op tokens :=
    ((term_readsOperands levels).readsLocally tokens).bind
      (fun right => moreTerms below (.binary op sum right)) (fun _ rest _ => moreTerms_readsLocally levels _ rest)
      fun _ _ closes => .inl ⟨_, moreTerms_of_not_nextIs below _ (not_nextIs_of_closing rfl rfl closes)⟩
  productLink product op tokens :=
    ((unary_readsOperands levels).readsLocally tokens).bind
      (fun right => moreFactors below (.binary op product right))
      (fun _ rest _ => moreFactors_readsLocally levels _ rest)
      fun _ _ closes => .inl ⟨_, moreFactors_of_not_nextIs below _ (not_nextIs_of_closing rfl rfl closes)⟩
  implicitLink product t rest start :=
    ((power_readsOperands levels).reads t rest (startsOperand_of_startsFactor start)).bind
      (fun right => moreFactors below (.binary .multiply product right))
      (fun _ rest _ => moreFactors_readsLocally levels _ rest)
      fun _ _ closes => .inl ⟨_, moreFactors_of_not_nextIs below _ (not_nextIs_of_closing rfl rfl closes)⟩

end

theorem readsLocally_tooDeep {α : Type} {ends : Token → Bool} {p q : Prop} {tokens : List PlacedToken} :
    ReadsLocally ends p q (fun _ => .error .tooDeep : Reader α) tokens :=
  readsLocally_error .tooDeep rfl fun _ _ _ wrong => nomatch wrong

theorem localBelow_exhausted : LocalBelow .exhausted where
  expression _ := readsLocally_tooDeep
  arguments _ := readsLocally_tooDeep
  oneArgument _ _ _ _ := .inr (.inr rfl)
  unary _ := readsLocally_tooDeep
  sumLink _ _ _ := readsLocally_tooDeep
  productLink _ _ _ := readsLocally_tooDeep
  implicitLink _ _ _ _ := readsLocally_tooDeep

theorem localBelow (levels : Nat) : LocalBelow (.nested levels) := by
  induction levels with
  | zero => exact localBelow_exhausted
  | succ levels ih => exact localBelow_above ih

end GraphingCalculator.Grammar
