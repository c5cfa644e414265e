import GraphingCalculator.Proofs.Grammar.InPlace

/-!
What the procedures of the parser in place leave behind.

On every level each of them does what its reader does with the levels that are left (`Routine.follows`). The argument
is the one of the readers: a procedure reaches the others of its level directly, and those one level further down as
`FollowsBelow` says, by induction on the levels. The whole parser gives what `Expr.parse` gives (`parse_runFrom`).

What is known of the readers then holds of the state: a procedure that comes through has taken a phrase and stands on
the level again where it has been started (`routine_passes_phrase`).
-/

namespace GraphingCalculator.Grammar.InPlace
open GraphingCalculator.Parser (Reader Level)

/-- One level further down, the procedures do what the readers of the level below do. The links of a chain leave
their levels to its end. -/
structure FollowsBelow (given : Setup) (below : Level) (depth : Nat) : Prop where
  expression : ∀ cursor, Follows given (· = depth + 1) (descend >>= fun _ => given.expression)
    below.expression ⟨cursor, depth⟩
  arguments : ∀ cursor, Follows given (· = depth + 1) (descend >>= fun _ => given.arguments)
    below.arguments ⟨cursor, depth⟩
  unary : ∀ cursor, Follows given (· = depth + 1) (descend >>= fun _ => given.unary) below.unary ⟨cursor, depth⟩
  sumLink : ∀ sum op cursor, Follows given (fun _ => True)
    (descend >>= fun _ => given.term >>= fun right => given.moreTerms (.binary op sum right))
    (below.sumLink sum op) ⟨cursor, depth⟩
  productLink : ∀ product op cursor, Follows given (fun _ => True)
    (descend >>= fun _ => given.unary >>= fun right => given.moreFactors (.binary op product right))
    (below.productLink product op) ⟨cursor, depth⟩
  implicitLink : ∀ product cursor, Follows given (fun _ => True)
    (descend >>= fun _ => given.power >>= fun right => given.moreFactors (.binary .multiply product right))
    (below.implicitLink product) ⟨cursor, depth⟩

section
variable {α : Type} {given : Setup} {depth cursor : Nat} {below : Level}

/-! ### Parentheses, calls and names -/

/-- A closing parenthesis behind what has been read. -/
def closing (a : α) : Reader α := fun tokens => Parser.takeRightParen tokens >>= fun rest => .ok (a, rest)

/-- What a reader reads, up to a closing parenthesis. -/
def closed (reader : Reader α) : Reader α := fun tokens => reader tokens >>= fun read => closing read.1 read.2

/-- A phrase on the level below, up to a closing parenthesis. -/
def Setup.closedBelow (given : Setup) (inner : Procedure α) : Procedure α := do
  descend
  let a ← inner
  given.ascend
  given.takeRight
  return a

theorem follows_closing (a : α) : Follows given (· = depth) (given.takeRight >>= fun _ => pure a) (closing a)
    ⟨cursor, depth⟩ := by
  unfold Setup.takeRight
  rw [bind_assoc]
  refine follows_peek fun token place rest left goesOn => ?_
  cases token with
  | rightParen =>
    obtain ⟨rfl, inside⟩ := goesOn (by simp)
    exact follows_single inside (by rw [left]; rfl)
  | _ => exact (follows_refuse .rightParen).stops.congr rfl (by rw [left]; rfl)

theorem follows_closedBelow {inner : Procedure α} {reader : Reader α} (above : given.floor ≤ depth)
    (follows : Follows given (· = depth + 1) (descend >>= fun _ => inner) reader ⟨cursor, depth⟩) :
    Follows given (· = depth) (given.closedBelow inner) (closed reader) ⟨cursor, depth⟩ := by
  have both : Follows given (· = depth)
      (((descend >>= fun _ => inner) >>= fun a => given.ascend >>= fun _ => pure a) >>= fun a =>
        given.takeRight >>= fun _ => pure a)
      (closed reader) ⟨cursor, depth⟩ :=
    (follows.ascended above).andThen fun a _ _ => follows_closing a
  simpa only [Setup.closedBelow, bind_assoc, pure_bind] using both

/-- There is an argument to be taken when there are as many as the function takes. -/
theorem follows_applied (f : ElementaryFunction) (found : List Expr) :
    Follows given (· = depth) (applied f found) (called f found) ⟨cursor, depth⟩ := by
  rcases found with _ | ⟨argument, _ | ⟨second, more⟩⟩
  · exact follows_error (.arity f 0)
  · exact follows_return (Expr.call f argument)
  · refine (follows_error (.arity f (more.length + 2))).congr ?_ rfl
    simp [applied, ElementaryFunction.arity]

/-- The name of a variable, unless it looks like the call of an unknown function. -/
theorem follows_name (name : String) (inside : cursor < given.tokens.length) :
    Follows given (· = depth)
      (given.peekNext >>= fun next =>
        if isLeftParen next.token && 1 < name.length then throw (.grammar (.unknownFunction name))
        else advance >>= fun _ => pure (Expr.var name))
      (fun _ =>
        let rest := tailFrom given.tokens (cursor + 1)
        if Parser.startsGroup rest && 1 < name.length then .error (.unknownFunction name) else .ok (.var name, rest))
      ⟨cursor, depth⟩ := by
  refine follows_peekNext ?_
  dsimp only
  rw [startsGroup_tailFrom]
  split
  · exact follows_error (.unknownFunction name)
  · exact follows_single inside rfl

/-- A chain goes on behind an operator that belongs to it, and ends in front of every other one. -/
theorem follows_link {link : Procedure Expr} {reader : Reader Expr} (belongs : Bool) (chain : Expr)
    (follows : Follows given (fun _ => True) link reader ⟨cursor + 1, depth⟩) (inside : cursor < given.tokens.length) :
    Follows given (fun _ => True) (if belongs then advance >>= fun _ => link else pure chain)
      (fun tokens => if belongs then reader (tailFrom given.tokens (cursor + 1)) else .ok (chain, tokens))
      ⟨cursor, depth⟩ := by
  cases belongs with
  | true => exact follows.advance inside rfl
  | false => exact follows_pure chain trivial

/-! ### The procedures of one level -/

section
variable (level : FollowsBelow given below depth) (above : given.floor ≤ depth)
include level above

theorem call_follows (f : ElementaryFunction) (cursor : Nat) :
    Follows given (· = depth) (given.call f) (Parser.call below f) ⟨cursor, depth⟩ := by
  have regrouped : given.call f = given.takeLeft >>= fun _ => given.closedBelow given.arguments >>= applied f := by
    simp only [Setup.call, Setup.closedBelow, bind_assoc, pure_bind]
  have behindLeft (cursor : Nat) : Follows given (· = depth) (given.closedBelow given.arguments >>= applied f)
      (fun tokens => closed below.arguments tokens >>= fun read => called f read.1 read.2) ⟨cursor, depth⟩ :=
    (follows_closedBelow above (level.arguments cursor)).andThen fun found _ _ => follows_applied f found
  rw [regrouped, Setup.takeLeft, bind_assoc, call_eq_bind]
  refine follows_peek fun token place rest left goesOn => ?_
  cases token with
  | leftParen =>
    obtain ⟨rfl, inside⟩ := goesOn (by simp)
    exact (behindLeft (cursor + 1)).advance inside (by rw [left]; rfl)
  | _ => exact (follows_refuse .leftParen).stops.congr rfl (by rw [left]; rfl)

theorem primary_follows (cursor : Nat) :
    Follows given (· = depth) given.primary (Parser.primary below) ⟨cursor, depth⟩ := by
  rw [Setup.primary]
  refine follows_peek fun token place rest left goesOn => ?_
  cases token with
  | number value =>
    obtain ⟨rfl, inside⟩ := goesOn (by simp)
    exact follows_single inside (by rw [left]; rfl)
  | leftParen =>
    obtain ⟨rfl, inside⟩ := goesOn (by simp)
    exact (follows_closedBelow above (level.expression (cursor + 1))).advance inside (by rw [left]; rfl)
  | identifier name =>
    obtain ⟨rfl, inside⟩ := goesOn (by simp)
    cases isFunction : ElementaryFunction.ofName? name with
    | some f =>
      simp only [isFunction]
      exact (call_follows level above f (cursor + 1)).advance inside (by simp only [left, Parser.primary, isFunction])
    | none =>
      cases isConstant : Constant.ofName? name with
      | some c =>
        simp only [isFunction, isConstant]
        exact follows_single inside (by simp only [left, Parser.primary, isFunction, isConstant])
      | none =>
        simp only [isFunction, isConstant]
        exact (follows_name name inside).congr rfl (by simp only [left, Parser.primary, isFunction, isConstant])
  | _ => exact (follows_refuse .expression).congr rfl (by rw [left]; rfl)

omit above in
theorem moreTerms_follows (sum : Expr) (cursor : Nat) :
    Follows given (fun _ => True) (given.moreTerms sum) (Parser.moreTerms below sum) ⟨cursor, depth⟩ := by
  rw [Setup.moreTerms]
  refine follows_peek fun token place rest left goesOn => ?_
  cases token with
  | operator op =>
    obtain ⟨rfl, inside⟩ := goesOn (by simp)
    exact (follows_link op.isAdditive sum (level.sumLink sum op (cursor + 1)) inside).congr rfl (by rw [left]; rfl)
  | _ => exact (follows_pure sum trivial).congr rfl (by rw [left]; rfl)

omit above in
theorem moreFactors_follows (product : Expr) (cursor : Nat) :
    Follows given (fun _ => True) (given.moreFactors product) (Parser.moreFactors below product) ⟨cursor, depth⟩ := by
  rw [Setup.moreFactors]
  refine follows_peek fun token place rest left goesOn => ?_
  cases token with
  | operator op =>
    obtain ⟨rfl, inside⟩ := goesOn (by simp)
    have link := level.productLink product op (cursor + 1)
    exact (follows_link op.isMultiplicative product link inside).congr rfl (by rw [left]; rfl)
  | identifier | leftParen => exact (level.implicitLink product cursor).congr rfl (by rw [left]; rfl)
  | _ => exact (follows_pure product trivial).congr rfl (by rw [left]; rfl)

/-- An exponent, or what a minus sign stands in front of. -/
theorem operand_follows (f : Expr → Expr) (cursor : Nat) :
    Follows given (· = depth)
      (do
        descend
        let operand ← given.unary
        given.ascend
        return f operand)
      (fun tokens => below.unary tokens >>= fun read => .ok (f read.1, read.2)) ⟨cursor, depth⟩ := by
  have operand := ((level.unary cursor).ascended above).map f
  simpa only [bind_assoc, pure_bind] using operand

theorem power_follows (cursor : Nat) : Follows given (· = depth) given.power (Parser.power below) ⟨cursor, depth⟩ := by
  rw [Setup.power, power_eq_bind]
  refine (primary_follows level above cursor).andThen fun base cursor _ => ?_
  refine follows_peek fun token place rest left goesOn => ?_
  cases token with
  | operator op =>
    obtain ⟨rfl, inside⟩ := goesOn (by simp)
    cases op with
    | power =>
      exact (operand_follows level above (.binary .power base) (cursor + 1)).advance inside (by rw [left]; rfl)
    | _ => exact (follows_return base).congr rfl (by rw [left]; rfl)
  | _ => exact (follows_return base).congr rfl (by rw [left]; rfl)

theorem unary_follows (cursor : Nat) : Follows given (· = depth) given.unary (Parser.unary below) ⟨cursor, depth⟩ := by
  have unsigned := power_follows level above cursor
  rw [Setup.unary]
  refine follows_peek fun token place rest left goesOn => ?_
  cases token with
  | operator op =>
    obtain ⟨rfl, inside⟩ := goesOn (by simp)
    cases op with
    | subtract => exact (operand_follows level above .negate (cursor + 1)).advance inside (by rw [left]; rfl)
    | _ => exact unsigned.congr rfl (by rw [left]; rfl)
  | _ => exact unsigned.congr rfl (by rw [left]; rfl)

theorem term_follows (cursor : Nat) : Follows given (· = depth) given.term (Parser.term below) ⟨cursor, depth⟩ := by
  have product : Follows given (fun _ => True) (given.unary >>= given.moreFactors) (Parser.term below)
      ⟨cursor, depth⟩ :=
    (unary_follows level above cursor).andThen fun first cursor _ => moreFactors_follows level first cursor
  refine (product.restored above).congr ?_ rfl
  rw [Setup.term, bind_assoc]
  rfl

theorem expression_follows (cursor : Nat) :
    Follows given (· = depth) given.expression (Parser.expression below) ⟨cursor, depth⟩ := by
  have sum : Follows given (fun _ => True) (given.term >>= given.moreTerms) (Parser.expression below) ⟨cursor, depth⟩ :=
    (term_follows level above cursor).andThen fun first cursor _ => moreTerms_follows level first cursor
  refine (sum.restored above).congr ?_ rfl
  rw [Setup.expression, bind_assoc]
  rfl

theorem moreArguments_follows (shallow : LocalBelow below) (found : List Expr) (cursor : Nat) :
    Follows given (· = depth) (given.moreArguments found) (furtherArguments below found) ⟨cursor, depth⟩ := by
  -- the loop takes a comma each time, so fewer tokens are left
  induction size : (tailFrom given.tokens cursor).length using Nat.strongRecOn generalizing cursor found with
  | ind n ih =>
    rw [Setup.moreArguments]
    refine follows_peek fun token place rest left goesOn => ?_
    cases token with
    | comma =>
      obtain ⟨rfl, inside⟩ := goesOn (by simp)
      have argument : Follows given (· = depth)
          (given.expression >>= fun argument => given.moreArguments (argument :: found))
          (fun tokens => Parser.expression below tokens >>= fun read => furtherArguments below (read.1 :: found) read.2)
          ⟨cursor + 1, depth⟩ :=
        (expression_follows level above (cursor + 1)).andThen fun argument after read => by
          have shorter := length_le_of_expression shallow read
          refine ih _ ?_ (argument :: found) after rfl
          simp only [left, List.length_cons] at size
          simp only at shorter
          omega
      exact argument.advance inside (by rw [left]; exact furtherArguments_comma shallow place _)
    | _ =>
      refine (follows_return found.reverse).congr rfl ?_
      rw [left]
      exact furtherArguments_of_not_nextIs below found (by simp [NextIs, isComma])

theorem arguments_follows (shallow : LocalBelow below) (cursor : Nat) :
    Follows given (· = depth) given.arguments (Parser.arguments below) ⟨cursor, depth⟩ := by
  have oneOrMore : Follows given (· = depth) (given.expression >>= fun first => given.moreArguments [first])
      (fun tokens => Parser.expression below tokens >>= fun read => furtherArguments below [read.1] read.2)
      ⟨cursor, depth⟩ :=
    (expression_follows level above cursor).andThen fun first cursor _ =>
      moreArguments_follows level above shallow [first] cursor
  rw [Setup.arguments]
  refine follows_peek fun token place rest left goesOn => ?_
  cases token with
  | rightParen => exact (follows_return []).congr rfl (by rw [left]; rfl)
  | _ => exact oneOrMore.congr rfl (by rw [left]; rfl)

end

/-! ### All levels -/

theorem followsBelow_above (level : FollowsBelow given below (depth + 1)) (shallow : LocalBelow below)
    (room : depth < nestingLimit) (above : given.floor ≤ depth + 1) : FollowsBelow given below.above depth where
  expression cursor := (expression_follows level above cursor).descended room
  arguments cursor := (arguments_follows level above shallow cursor).descended room
  unary cursor := (unary_follows level above cursor).descended room
  sumLink sum op cursor :=
    Follows.descended ((term_follows level above cursor).andThen fun right after _ =>
      moreTerms_follows level (.binary op sum right) after) room
  productLink product op cursor :=
    Follows.descended ((unary_follows level above cursor).andThen fun right after _ =>
      moreFactors_follows level (.binary op product right) after) room
  implicitLink product cursor :=
    Follows.descended ((power_follows level above cursor).andThen fun right after _ =>
      moreFactors_follows level (.binary .multiply product right) after) room

theorem followsBelow_exhausted (deep : nestingLimit ≤ depth) : FollowsBelow given .exhausted depth where
  expression _ := follows_tooDeep deep
  arguments _ := follows_tooDeep deep
  unary _ := follows_tooDeep deep
  sumLink _ _ _ := follows_tooDeep deep
  productLink _ _ _ := follows_tooDeep deep
  implicitLink _ _ := follows_tooDeep deep

/-- The levels above and the levels that are left are as many as there can be. -/
theorem followsBelow {levels : Nat} (whole : depth + levels = nestingLimit) (above : given.floor ≤ depth) :
    FollowsBelow given (.nested levels) depth := by
  induction levels generalizing depth with
  | zero => exact followsBelow_exhausted (by omega)
  | succ levels ih =>
    have level : FollowsBelow given (.nested levels) (depth + 1) := ih (by omega) (by omega)
    exact followsBelow_above level (localBelow levels) (by omega) (by omega)

end

/-! ### Every procedure, and the whole parser -/

/-- The procedures that read an expression or a part of one. -/
inductive Routine where
  | expression
  | term
  | unary
  | power
  | primary
  | call (f : ElementaryFunction)

namespace Routine

def procedure (given : Setup) : Routine → Procedure Expr
  | expression => given.expression
  | term => given.term
  | unary => given.unary
  | power => given.power
  | primary => given.primary
  | call f => given.call f

def reader : Routine → Level → Reader Expr
  | expression => Parser.expression
  | term => Parser.term
  | unary => Parser.unary
  | power => Parser.power
  | primary => Parser.primary
  | call f => fun below => Parser.call below f

theorem follows (routine : Routine) (given : Setup) {depth : Nat} (cursor : Nat)
    (shallow : depth ≤ nestingLimit) (above : given.floor ≤ depth) :
    Follows given (· = depth) (routine.procedure given) (routine.reader (.nested (nestingLimit - depth)))
      ⟨cursor, depth⟩ := by
  have level : FollowsBelow given (.nested (nestingLimit - depth)) depth := followsBelow (by omega) above
  cases routine with
  | expression => exact expression_follows level above cursor
  | term => exact term_follows level above cursor
  | unary => exact unary_follows level above cursor
  | power => exact power_follows level above cursor
  | primary => exact primary_follows level above cursor
  | call f => exact call_follows level above f cursor

end Routine

section
variable {given : Setup}

theorem toTheEnd_runFrom (ground : given.floor = 0) :
    (given.toTheEnd.runFrom ⟨0, 0⟩).map (Except.map Prod.fst) =
      some ((Parser.expression (.nested nestingLimit) (tailFrom given.tokens 0) >>= onlyEnd).mapError .grammar) := by
  have follows : Follows given (· = 0) given.expression (Parser.expression (.nested nestingLimit)) ⟨0, 0⟩ :=
    Routine.expression.follows given 0 (Nat.zero_le nestingLimit) (Nat.le_of_eq ground)
  rw [Setup.toTheEnd]
  cases follows with
  | fails read run =>
    rw [runFrom_bind_of_error run, read]
    rfl
  | @reads e after read run =>
    rw [runFrom_bind_of_ok run, runFrom_bind_of_ok runFrom_peek, read]
    have last : (Except.ok (e, tailFrom given.tokens after.cursor) >>= onlyEnd) =
      onlyEnd (e, tailFrom given.tokens after.cursor) := rfl
    rw [last, onlyEnd, Parser.unexpected, current_tailFrom]
    obtain ⟨⟨token, place⟩, -, here, -⟩ := exists_tailFrom_eq_cons given.tokens after.cursor
    rw [here]
    cases token with
    | endOfInput => rfl
    | _ =>
      simp only
      rw [runFrom_refuse .operatorOrEnd here]
      rfl

theorem token_current (tokens : List PlacedToken) : (Parser.current tokens).token = (tokenAt tokens 0).token := by
  cases tokens <;> rfl

/-- Started in front of the first token, the parser gives what is parsed from the tokens. -/
theorem parse_runFrom (ground : given.floor = 0) :
    (given.parse.runFrom ⟨0, 0⟩).map (Except.map Prod.fst) = some ((Expr.parse given.tokens).mapError .grammar) := by
  rw [Setup.parse, runFrom_bind_of_ok runFrom_peek, Expr.parse, token_current, ← tailFrom_zero]
  cases (tokenAt given.tokens 0).token with
  | endOfInput => rfl
  | _ =>
    dsimp only
    split
    · exact toTheEnd_runFrom ground
    · rfl

end

/-! ### What is left behind -/

/-- The tokens that are taken between two states. -/
def taken (tokens : List PlacedToken) (before after : State) : List PlacedToken :=
  (tokens.take after.cursor).drop before.cursor

/-- A phrase has been taken, and nothing else has changed. -/
structure Passes (tokens : List PlacedToken) (before after : State) : Prop where
  level : after.depth = before.depth
  moves : before.cursor < after.cursor
  inside : after.cursor ≤ tokens.length
  noEnd : ∀ t ∈ taken tokens before after, t.token ≠ .endOfInput
  pairUp : PairUp (taken tokens before after)

/-- The tokens with which no expression goes on. -/
def mayFollow : Token → Bool
  | .number _ | .rightParen | .comma | .endOfInput => true
  | _ => false

section
variable {tokens rest v : List PlacedToken} {before after : State} {e : Expr} {levels : Nat}

theorem exists_piece_of_reader (phrase : Phrase) (whole : phrase.canBeEmpty = false)
    (done : phrase.reader (.nested levels) tokens = .ok (e, rest)) :
    ∃ v, tokens = v ++ rest ∧ v ≠ [] ∧ IsPiece v := by
  obtain ⟨v, split, derived, -⟩ := reads_of_reader phrase levels done
  obtain ⟨t, w, rfl, -⟩ := derived.first whole
  exact ⟨t :: w, split, List.cons_ne_nil t w, derived.ne_endOfInput, derived.isBalanced_append⟩

/-- What is read as an expression or as a part of one is never nothing. -/
theorem Routine.exists_piece (routine : Routine) (done : routine.reader (.nested levels) tokens = .ok (e, rest)) :
    ∃ v, tokens = v ++ rest ∧ v ≠ [] ∧ IsPiece v := by
  cases routine with
  | expression => exact exists_piece_of_reader .expression rfl done
  | term => exact exists_piece_of_reader .term rfl done
  | unary => exact exists_piece_of_reader .unary rfl done
  | power => exact exists_piece_of_reader .power rfl done
  | primary => exact exists_piece_of_reader .primary rfl done
  | call f =>
    -- with the name in front of it, what has been read is a primary
    obtain ⟨v, split, derives, -⟩ := call_reads (soundBelow levels) f done
    have isFunction := ElementaryFunction.ofName?_name f
    have derived := derives f.name 0 isFunction
    refine ⟨v, split, ?_, fun t member => derived.ne_endOfInput t (List.mem_cons_of_mem _ member), ?_⟩
    · rintro rfl
      cases derived with
      | constant noFunction | var noFunction => rw [isFunction] at noFunction; cases noFunction
    · exact derived.isBalanced_append

/-- A part of the tokens that are left has been taken from the list itself: the end behind the list stays. -/
theorem passes_of_piece (level : after.depth = before.depth) (inside : after.cursor ≤ max before.cursor tokens.length)
    (split : tailFrom tokens before.cursor = v ++ tailFrom tokens after.cursor) (nonempty : v ≠ [])
    (piece : IsPiece v) : Passes tokens before after := by
  have lengths := congrArg List.length split
  rw [List.length_append, length_tailFrom, length_tailFrom] at lengths
  have positive : 0 < v.length := List.length_pos_iff.mpr nonempty
  have isTaken : taken tokens before after = v := by
    have front : v = (tailFrom tokens before.cursor).take v.length := by rw [split, List.take_left]
    rw [front, tailFrom, List.take_append_of_le_length (by rw [List.length_drop]; omega), taken, List.drop_take]
    congr 1
    omega
  exact {
    level
    moves := by omega
    inside := by omega
    noEnd := isTaken ▸ piece.noEnd
    pairUp := by
      rw [isTaken, ← isBalanced_iff_pairUp]
      simpa [Parser.isBalanced] using piece.isBalanced_append 0 [] }

theorem mayFollow_of_not_goesOn {found : Token} (ends : Phrase.expression.goesOnWith found = false) :
    mayFollow found := by
  cases found with
  | number | rightParen | comma | endOfInput => rfl
  | operator op => cases op <;> cases ends
  | identifier | leftParen => cases ends

end

/-- From every state a procedure comes to an end, and on the way the depth never falls below the one at the start, nor
is an argument taken that is not there. The procedure stops with the error of its reader, or it gives what the reader
reads, has passed this phrase, and the depth is the one at the start again. -/
theorem routine_passes_phrase (routine : Routine) (tokens : List PlacedToken) (cursor : Nat) {depth : Nat}
    (shallow : depth ≤ nestingLimit) :
    (∃ error, routine.reader (.nested (nestingLimit - depth)) (tailFrom tokens cursor) = .error error ∧
      (routine.procedure ⟨tokens, depth⟩).runFrom ⟨cursor, depth⟩ = some (.error (.grammar error))) ∨
    ∃ e after,
      routine.reader (.nested (nestingLimit - depth)) (tailFrom tokens cursor) =
        .ok (e, tailFrom tokens after.cursor) ∧
      (routine.procedure ⟨tokens, depth⟩).runFrom ⟨cursor, depth⟩ = some (.ok (e, after)) ∧
      Passes tokens ⟨cursor, depth⟩ after ∧
      (routine = .expression → mayFollow (tokenAt tokens after.cursor).token) := by
  cases routine.follows ⟨tokens, depth⟩ cursor shallow (Nat.le_refl depth) with
  | fails read run => exact .inl ⟨_, read, run⟩
  | @reads e after read run inside level =>
    obtain ⟨v, split, nonempty, piece⟩ := routine.exists_piece read
    refine .inr ⟨e, after, read, run, passes_of_piece level inside split nonempty piece, ?_⟩
    rintro rfl
    rw [← current_tailFrom]
    exact mayFollow_of_not_goesOn (goesOnWith_current (expression_stops (levelStops _) read))

/-- On the last level but one there is room for a group. -/
theorem routine_passes_phrase_group :
    let tokens : List PlacedToken := [⟨.leftParen, 0⟩, ⟨.identifier "x", 1⟩, ⟨.rightParen, 2⟩, ⟨.comma, 3⟩]
    255 ≤ nestingLimit ∧
      (Routine.expression.procedure ⟨tokens, 255⟩).runFrom ⟨0, 255⟩ = some (.ok (.var "x", ⟨3, 255⟩)) ∧
      Passes tokens ⟨0, 255⟩ ⟨3, 255⟩ ∧ mayFollow (tokenAt tokens 3).token := by
  intro tokens
  have shallow : 255 ≤ nestingLimit := by decide
  have reads : Routine.expression.reader (.nested (nestingLimit - 255)) (tailFrom tokens 0) =
      .ok (.var "x", tailFrom tokens 3) := by rfl
  obtain ⟨error, fails, -⟩ | ⟨e, ⟨cursor, depth⟩, read, run, passes, next⟩ :=
    routine_passes_phrase .expression tokens 0 shallow
  · cases reads.symm.trans fails
  · obtain ⟨rfl, tails⟩ := Prod.mk.inj (Except.ok.inj (reads.symm.trans read))
    obtain rfl : depth = 255 := passes.level
    obtain rfl : cursor = 3 := by
      have lengths := congrArg List.length tails
      rw [length_tailFrom, length_tailFrom] at lengths
      have inside := passes.inside
      simp only [tokens, List.length_cons, List.length_nil] at lengths inside
      omega
    exact ⟨shallow, run, passes, next rfl⟩

end GraphingCalculator.Grammar.InPlace
