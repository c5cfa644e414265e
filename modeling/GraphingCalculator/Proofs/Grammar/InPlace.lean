import GraphingCalculator.Proofs.Grammar.Positions

/-!
A parser that works in place: its state tells how many tokens have been taken and how deep the current phrase lies,
and its procedures call each other and go in loops. A procedure goes down one level at a time and has to come up again
by itself.

The readers of `Parser` have no such state: they hand on the rest of the tokens, and recurse on the levels that are
left. A procedure follows a reader when both give the same from what is left of the tokens (`Follows`), and so do two
procedures, one behind the other, that follow two readers (`Follows.bind`).
-/

namespace GraphingCalculator.Grammar.InPlace

/-- How many tokens have been taken, and how many levels the current phrase lies below the outermost one. -/
structure State where
  cursor : Nat
  depth : Nat

/-- Why a procedure stops: the tokens form no expression, or the parser itself goes wrong. -/
inductive Fault where
  | grammar (error : GrammarError)
  /-- The depth is to become less than the floor. -/
  | belowFloor
  /-- The argument of a call is taken from an empty list. -/
  | noArgument

/-- A step of the parser. There is no result when it does not come to an end. -/
abbrev Procedure (α : Type) := StateT State (ExceptT Fault Option) α

/-- What a procedure gives when it is started in a state. -/
def Procedure.runFrom {α : Type} (s : State) (p : Procedure α) : Option (Except Fault (α × State)) := (p.run s).run

/-- What stays the same while the parser works. The floor is the depth that must not be fallen below. It does not
change what is parsed: every step that makes the depth less looks whether the floor is kept, and stops the parser if it
is not. -/
structure Setup where
  tokens : List PlacedToken
  floor : Nat

/-! ### The parser -/

/-- Takes the token at the cursor. -/
def advance : Procedure Unit :=
  modify fun s => { s with cursor := s.cursor + 1 }

/-- Goes down a level, if there is one. -/
def descend : Procedure Unit := do
  modify fun s => { s with depth := s.depth + 1 }
  if nestingLimit < (← get).depth then throw (.grammar .tooDeep)

/-- The call of a function with the arguments found, if it takes so many. -/
def applied (f : ElementaryFunction) (found : List Expr) : Procedure Expr :=
  if found.length = f.arity then
    match found with
    | [] => throw .noArgument
    | argument :: _ => return .call f argument
  else throw (.grammar (.arity f found.length))

namespace Setup

section
variable (given : Setup)

/-- The token at the cursor. -/
def peek : Procedure PlacedToken := do
  return tokenAt given.tokens (← get).cursor

/-- The token behind the one at the cursor. -/
def peekNext : Procedure PlacedToken := do
  return tokenAt given.tokens ((← get).cursor + 1)

/-- Stops because the token at the cursor is wrong. -/
def refuse {α : Type} (expected : Expectation) : Procedure α := do
  let t ← given.peek
  throw (.grammar (.unexpected t.position t.token expected))

/-- Takes an opening parenthesis. -/
def takeLeft : Procedure Unit := do
  match (← given.peek).token with
  | .leftParen => advance
  | _ => given.refuse .leftParen

/-- Takes a closing parenthesis. -/
def takeRight : Procedure Unit := do
  match (← given.peek).token with
  | .rightParen => advance
  | _ => given.refuse .rightParen

/-- Sets the depth back to an earlier one. -/
def restore (entry : Nat) : Procedure Unit := do
  if entry < given.floor then throw .belowFloor
  modify fun s => { s with depth := entry }

/-- Comes up a level. -/
def ascend : Procedure Unit := do
  match (← get).depth with
  | 0 => throw .belowFloor
  | depth + 1 => given.restore depth

mutual

/-- A sum. Each of its links goes down a level, and all of them are left again at its end. -/
def expression (given : Setup) : Procedure Expr := do
  let entry := (← get).depth
  let first ← given |>.term
  let sum ← given |>.moreTerms first
  given.restore entry
  return sum
partial_fixpoint

/-- The further terms of a sum. -/
def moreTerms (given : Setup) (sum : Expr) : Procedure Expr := do
  match (← given.peek).token with
  | .operator op =>
    if op.isAdditive then
      advance
      descend
      let right ← given |>.term
      given |>.moreTerms (.binary op sum right)
    else return sum
  | _ => return sum
partial_fixpoint

/-- A product. -/
def term (given : Setup) : Procedure Expr := do
  let entry := (← get).depth
  let first ← given |>.unary
  let product ← given |>.moreFactors first
  given.restore entry
  return product
partial_fixpoint

/-- The further factors of a product, with an operator or without. -/
def moreFactors (given : Setup) (product : Expr) : Procedure Expr := do
  match (← given.peek).token with
  | .operator op =>
    if op.isMultiplicative then
      advance
      descend
      let right ← given |>.unary
      given |>.moreFactors (.binary op product right)
    else return product
  | .identifier _ | .leftParen =>
    descend
    let right ← given |>.power
    given |>.moreFactors (.binary .multiply product right)
  | _ => return product
partial_fixpoint

/-- A power, perhaps behind minus signs. -/
def unary (given : Setup) : Procedure Expr := do
  match (← given.peek).token with
  | .operator .subtract =>
    advance
    descend
    let operand ← given |>.unary
    given.ascend
    return .negate operand
  | _ => given |>.power
partial_fixpoint

/-- A primary, perhaps raised to a power. -/
def power (given : Setup) : Procedure Expr := do
  let base ← given |>.primary
  match (← given.peek).token with
  | .operator .power =>
    advance
    descend
    let exponent ← given |>.unary
    given.ascend
    return .binary .power base exponent
  | _ => return base
partial_fixpoint

/-- A number, a name, a call or a group. -/
def primary (given : Setup) : Procedure Expr := do
  match (← given.peek).token with
  | .number value =>
    advance
    return .literal value
  | .identifier name =>
    match ElementaryFunction.ofName? name with
    | some f =>
      advance
      given |>.call f
    | none =>
      match Constant.ofName? name with
      | some c =>
        advance
        return .constant c
      | none =>
        if isLeftParen (← given.peekNext).token && 1 < name.length then
          throw (.grammar (.unknownFunction name))
        else
          advance
          return .var name
  | .leftParen =>
    advance
    descend
    let inner ← given |>.expression
    given.ascend
    given.takeRight
    return inner
  | _ => given.refuse .expression
partial_fixpoint

/-- The call of a function whose name has been taken. -/
def call (given : Setup) (f : ElementaryFunction) : Procedure Expr := do
  given.takeLeft
  descend
  let found ← given |>.arguments
  given.ascend
  given.takeRight
  applied f found
partial_fixpoint

/-- Arguments between commas, or none at all. -/
def arguments (given : Setup) : Procedure (List Expr) := do
  match (← given.peek).token with
  | .rightParen => return []
  | _ =>
    let first ← given |>.expression
    given |>.moreArguments [first]
partial_fixpoint

/-- The arguments that follow the ones found, which come in the reverse of their order. -/
def moreArguments (given : Setup) (found : List Expr) : Procedure (List Expr) := do
  match (← given.peek).token with
  | .comma =>
    advance
    let argument ← given |>.expression
    given |>.moreArguments (argument :: found)
  | _ => return found.reverse
partial_fixpoint

end

/-- An expression, and the end of the input behind it. -/
def toTheEnd : Procedure Expr := do
  let e ← given.expression
  match (← given.peek).token with
  | .endOfInput => return e
  | _ => given.refuse .operatorOrEnd

/-- The expression that the tokens up to the first end of the input form. -/
def parse : Procedure Expr := do
  match (← given.peek).token with
  | .endOfInput => throw (.grammar .empty)
  | _ => if Parser.isBalanced 0 given.tokens then given.toTheEnd else throw (.grammar .unbalanced)

end

end Setup

/-! ### Single steps -/

section
variable {α β : Type} {given : Setup} {s after : State} {p : Procedure α} {next : α → Procedure β}

theorem runFrom_bind_of_ok {a : α} (done : p.runFrom s = some (.ok (a, after))) :
    (p >>= next).runFrom s = (next a).runFrom after := by
  unfold Procedure.runFrom at done ⊢
  rw [StateT.run_bind, ExceptT.run_bind, done]
  rfl

theorem runFrom_bind_of_error {fault : Fault} (fails : p.runFrom s = some (.error fault)) :
    (p >>= next).runFrom s = some (.error fault) := by
  unfold Procedure.runFrom at fails ⊢
  rw [StateT.run_bind, ExceptT.run_bind, fails]
  rfl

theorem runFrom_peek : given.peek.runFrom s = some (.ok (tokenAt given.tokens s.cursor, s)) := rfl

theorem runFrom_peekNext : given.peekNext.runFrom s = some (.ok (tokenAt given.tokens (s.cursor + 1), s)) := rfl

theorem runFrom_advance : advance.runFrom s = some (.ok ((), ⟨s.cursor + 1, s.depth⟩)) := rfl

theorem runFrom_refuse (expected : Expectation) {t : PlacedToken} (here : tokenAt given.tokens s.cursor = t) :
    (given.refuse expected : Procedure α).runFrom s =
      some (.error (.grammar (.unexpected t.position t.token expected))) := by
  rw [← here]
  rfl

theorem runFrom_descend (room : s.depth < nestingLimit) :
    descend.runFrom s = some (.ok ((), ⟨s.cursor, s.depth + 1⟩)) := by
  have enough : ¬ nestingLimit < s.depth + 1 := by omega
  simp [Procedure.runFrom, descend, enough]

theorem runFrom_descend_of_le (deep : nestingLimit ≤ s.depth) :
    descend.runFrom s = some (.error (.grammar .tooDeep)) := by
  have exhausted : nestingLimit < s.depth + 1 := by omega
  simp [Procedure.runFrom, descend, exhausted]

theorem runFrom_restore {entry : Nat} (above : given.floor ≤ entry) :
    (given.restore entry).runFrom s = some (.ok ((), ⟨s.cursor, entry⟩)) := by
  have allowed : ¬ entry < given.floor := by omega
  simp [Procedure.runFrom, Setup.restore, allowed]

theorem runFrom_ascend {cursor depth : Nat} (above : given.floor ≤ depth) :
    given.ascend.runFrom ⟨cursor, depth + 1⟩ = some (.ok ((), ⟨cursor, depth⟩)) :=
  runFrom_restore above

end

/-! ### The tokens that are left -/

/-- The tokens from the cursor on, and the end of the input behind them. -/
def tailFrom (tokens : List PlacedToken) (cursor : Nat) : List PlacedToken :=
  tokens.drop cursor ++ [tokenAt tokens tokens.length]

theorem tailFrom_zero (tokens : List PlacedToken) : tailFrom tokens 0 = Parser.close tokens :=
  (close_eq_concat tokens).symm

theorem length_tailFrom (tokens : List PlacedToken) (cursor : Nat) :
    (tailFrom tokens cursor).length = tokens.length - cursor + 1 := by simp [tailFrom]

/-- The token at the cursor is the first one that is left. It is followed by what is left behind it, unless it is an
end, behind which nothing is taken. -/
theorem exists_tailFrom_eq_cons (tokens : List PlacedToken) (cursor : Nat) :
    ∃ t rest, tokenAt tokens cursor = t ∧ tailFrom tokens cursor = t :: rest ∧
      (t.token ≠ .endOfInput → rest = tailFrom tokens (cursor + 1) ∧ cursor < tokens.length) := by
  rcases Nat.lt_or_ge cursor tokens.length with inside | outside
  · refine ⟨tokens[cursor], tailFrom tokens (cursor + 1), tokenAt_of_lt inside, ?_, fun _ => ⟨rfl, inside⟩⟩
    rw [tailFrom, List.drop_eq_getElem_cons inside, List.cons_append, tailFrom]
  · refine ⟨tokenAt tokens cursor, [], rfl, ?_, fun noEnd => ?_⟩
    · simp [tailFrom, tokenAt, outside]
    · simp [tokenAt, outside] at noEnd

theorem current_tailFrom (tokens : List PlacedToken) (cursor : Nat) :
    Parser.current (tailFrom tokens cursor) = tokenAt tokens cursor := by
  obtain ⟨t, rest, here, left, -⟩ := exists_tailFrom_eq_cons tokens cursor
  rw [left, here]
  rfl

theorem startsGroup_tailFrom (tokens : List PlacedToken) (cursor : Nat) :
    Parser.startsGroup (tailFrom tokens cursor) = isLeftParen (tokenAt tokens cursor).token := by
  obtain ⟨⟨token, place⟩, rest, here, left, -⟩ := exists_tailFrom_eq_cons tokens cursor
  rw [here, left]
  cases token <;> rfl

/-! ### Procedures and readers -/

section
open GraphingCalculator.Parser (Reader)

/-- The procedure does what the reader does with the tokens that are left: it fails with the same error, or takes the
same tokens for the same thing. Then it stands on such a level. -/
inductive Follows {α : Type} (given : Setup) (ends : Nat → Prop) (p : Procedure α) (reader : Reader α)
    (s : State) : Prop
  | fails {error : GrammarError} (read : reader (tailFrom given.tokens s.cursor) = .error error)
      (run : p.runFrom s = some (.error (.grammar error)))
  | reads {a : α} {after : State}
      (read : reader (tailFrom given.tokens s.cursor) = .ok (a, tailFrom given.tokens after.cursor))
      (run : p.runFrom s = some (.ok (a, after))) (inside : after.cursor ≤ max s.cursor given.tokens.length)
      (level : ends after.depth)

variable {α β : Type} {given : Setup} {ends atEnd : Nat → Prop} {p other : Procedure α}
  {reader second : Reader α} {next : α → Procedure β} {more : α → Reader β} {s : State} {cursor depth : Nat}

theorem Follows.congr (follows : Follows given ends p reader s) (run : other.runFrom s = p.runFrom s)
    (read : second (tailFrom given.tokens s.cursor) = reader (tailFrom given.tokens s.cursor)) :
    Follows given ends other second s := by
  cases follows with
  | fails readFirst runFirst => exact .fails (read.trans readFirst) (run.trans runFirst)
  | reads readFirst runFirst inside level => exact .reads (read.trans readFirst) (run.trans runFirst) inside level

theorem follows_pure (a : α) (level : ends s.depth) :
    Follows given ends (pure a) (fun tokens => .ok (a, tokens)) s :=
  .reads rfl rfl (Nat.le_max_left _ _) level

theorem follows_return (a : α) : Follows given (· = depth) (pure a) (fun tokens => .ok (a, tokens)) ⟨cursor, depth⟩ :=
  follows_pure a rfl

theorem follows_error (error : GrammarError) :
    Follows given ends (throw (.grammar error) : Procedure α) (fun _ => .error error) s :=
  .fails rfl rfl

theorem follows_refuse (expected : Expectation) :
    Follows given ends (given.refuse expected : Procedure α)
      (fun tokens => .error (Parser.unexpected tokens expected)) s := by
  refine .fails ?_ (runFrom_refuse expected rfl)
  rw [Parser.unexpected, current_tailFrom]

/-! ### One behind the other -/

theorem Follows.bind (first : Follows given ends p reader s)
    (follows : ∀ a after, reader (tailFrom given.tokens s.cursor) = .ok (a, tailFrom given.tokens after.cursor) →
      ends after.depth → Follows given atEnd (next a) (more a) after) :
    Follows given atEnd (p >>= next) (fun tokens => reader tokens >>= fun read => more read.1 read.2) s := by
  cases first with
  | fails read run => exact .fails (bind_of_error read) (runFrom_bind_of_error run)
  | @reads a after read run inside level =>
    have readMore : (reader (tailFrom given.tokens s.cursor) >>= fun read => more read.1 read.2) = _ := bind_of_ok read
    have runMore : (p >>= next).runFrom s = _ := runFrom_bind_of_ok run
    cases follows a after read level with
    | fails readSecond runSecond => exact .fails (readMore.trans readSecond) (runMore.trans runSecond)
    | reads readSecond runSecond insideSecond levelSecond =>
      exact .reads (readMore.trans readSecond) (runMore.trans runSecond) (by omega) levelSecond

/-- When the first procedure ends on a known level, the second one starts on it. -/
theorem Follows.andThen (first : Follows given (· = depth) p reader s)
    (follows : ∀ a cursor, reader (tailFrom given.tokens s.cursor) = .ok (a, tailFrom given.tokens cursor) →
      Follows given atEnd (next a) (more a) ⟨cursor, depth⟩) :
    Follows given atEnd (p >>= next) (fun tokens => reader tokens >>= fun read => more read.1 read.2) s :=
  first.bind fun a ⟨cursor, entry⟩ read level => by
    obtain rfl : entry = depth := level
    exact follows a cursor read

/-- What has been read may be changed. -/
theorem Follows.map (first : Follows given ends p reader s) (f : α → β) :
    Follows given ends (p >>= fun a => pure (f a)) (fun tokens => reader tokens >>= fun read => .ok (f read.1, read.2))
      s :=
  first.bind fun a _ _ level => follows_pure (f a) level

/-- Behind what is read the level may be changed. -/
theorem Follows.finish {next : α → Procedure α} (first : Follows given ends p reader s)
    (follows : ∀ a after, ends after.depth → Follows given atEnd (next a) (fun tokens => .ok (a, tokens)) after) :
    Follows given atEnd (p >>= next) reader s := by
  have both : Follows given atEnd (p >>= next) (fun tokens => reader tokens >>= fun read => .ok (read.1, read.2)) s :=
    first.bind fun a after _ level => follows a after level
  refine both.congr rfl ?_
  cases reader (tailFrom given.tokens s.cursor) <;> rfl

/-- Behind an error nothing is done. -/
theorem Follows.stops {error : List PlacedToken → GrammarError}
    (follows : Follows given ends p (fun tokens => .error (error tokens)) s) :
    Follows given ends (p >>= next) (fun tokens => .error (error tokens)) s := by
  cases follows with
  | fails read run =>
    cases read
    exact .fails rfl (runFrom_bind_of_error run)
  | reads read => cases read

/-! ### Steps in front of what is read -/

theorem follows_peek {next : PlacedToken → Procedure α}
    (follows : ∀ token place rest, tailFrom given.tokens s.cursor = ⟨token, place⟩ :: rest →
      (token ≠ .endOfInput → rest = tailFrom given.tokens (s.cursor + 1) ∧ s.cursor < given.tokens.length) →
      Follows given ends (next ⟨token, place⟩) reader s) : Follows given ends (given.peek >>= next) reader s := by
  obtain ⟨⟨token, place⟩, rest, here, left, goesOn⟩ := exists_tailFrom_eq_cons given.tokens s.cursor
  refine (follows token place rest left goesOn).congr ?_ rfl
  rw [runFrom_bind_of_ok runFrom_peek, here]

theorem follows_peekNext {next : PlacedToken → Procedure α}
    (follows : Follows given ends (next (tokenAt given.tokens (s.cursor + 1))) reader s) :
    Follows given ends (given.peekNext >>= next) reader s :=
  follows.congr (runFrom_bind_of_ok runFrom_peekNext) rfl

/-- A step from one state to another, in front of a procedure. -/
theorem Follows.step {move : Procedure Unit} {after : State} (follows : Follows given ends p second after)
    (moves : move.runFrom s = some (.ok ((), after))) (inside : after.cursor ≤ max s.cursor given.tokens.length)
    (read : reader (tailFrom given.tokens s.cursor) = second (tailFrom given.tokens after.cursor)) :
    Follows given ends (move >>= fun _ => p) reader s := by
  have run : (move >>= fun _ => p).runFrom s = p.runFrom after := runFrom_bind_of_ok moves
  cases follows with
  | fails readRest runRest => exact .fails (read.trans readRest) (run.trans runRest)
  | reads readRest runRest insideRest level =>
    exact .reads (read.trans readRest) (run.trans runRest) (by omega) level

theorem Follows.advance (follows : Follows given ends p second ⟨cursor + 1, depth⟩)
    (inside : cursor < given.tokens.length)
    (read : reader (tailFrom given.tokens cursor) = second (tailFrom given.tokens (cursor + 1))) :
    Follows given ends (advance >>= fun _ => p) reader ⟨cursor, depth⟩ :=
  follows.step runFrom_advance (Nat.le_trans inside (Nat.le_max_right _ _)) read

theorem follows_single {a : α} (inside : cursor < given.tokens.length)
    (read : reader (tailFrom given.tokens cursor) = .ok (a, tailFrom given.tokens (cursor + 1))) :
    Follows given (· = depth) (advance >>= fun _ => pure a) reader ⟨cursor, depth⟩ :=
  (follows_return a).advance inside read

/-! ### Changes of the level -/

theorem Follows.moved {entry : Nat} {move : Procedure Unit} (follows : Follows given ends p reader ⟨cursor, entry⟩)
    (moves : move.runFrom ⟨cursor, depth⟩ = some (.ok ((), ⟨cursor, entry⟩))) :
    Follows given ends (move >>= fun _ => p) reader ⟨cursor, depth⟩ :=
  follows.step moves (Nat.le_max_left _ _) rfl

theorem Follows.descended (follows : Follows given ends p reader ⟨cursor, depth + 1⟩) (room : depth < nestingLimit) :
    Follows given ends (descend >>= fun _ => p) reader ⟨cursor, depth⟩ :=
  follows.moved (runFrom_descend room)

theorem follows_tooDeep (deep : nestingLimit ≤ s.depth) :
    Follows given ends (descend >>= fun _ => p) (fun _ => .error .tooDeep) s :=
  .fails rfl (runFrom_bind_of_error (runFrom_descend_of_le deep))

/-- At the end of a chain all its levels are left again, however many they are. -/
theorem Follows.restored (follows : Follows given ends p reader s) {entry : Nat} (above : given.floor ≤ entry) :
    Follows given (· = entry) (p >>= fun a => given.restore entry >>= fun _ => pure a) reader s :=
  follows.finish fun a _ _ => (follows_return a).moved (runFrom_restore above)

/-- Behind a phrase on the level below, this level is left. -/
theorem Follows.ascended (follows : Follows given (· = depth + 1) p reader s) (above : given.floor ≤ depth) :
    Follows given (· = depth) (p >>= fun a => given.ascend >>= fun _ => pure a) reader s :=
  follows.finish fun a ⟨cursor, deeper⟩ level => by
    obtain rfl : deeper = depth + 1 := level
    exact (follows_return a).moved (runFrom_ascend above)

end

end GraphingCalculator.Grammar.InPlace
