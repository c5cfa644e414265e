import GraphingCalculator.Proofs.Grammar.ErrorKinds
import GraphingCalculator.Proofs.Grammar.Placement

/-!
Lists of tokens as they may be put together by hand: an end of the input may be missing or stand anywhere, and the
positions may be any numbers.

A tree says nothing of what stands behind the first end, but that all parentheses pair up (`parse_eq_ok_iff_untilEnd`).
The readers only hand the positions on to an error, and so the answer is the one for the tokens in the places 1, 2, 3
and so on, with the position of the token whose number an error names (`parse_eq_numbered`). Both together are
`parse_reads_front`.
-/

namespace GraphingCalculator

/-- The token in another place. -/
def PlacedToken.elsewhere (f : Nat → Nat) (t : PlacedToken) : PlacedToken := ⟨t.token, f t.position⟩

/-- The error when the tokens stand in other places. -/
def GrammarError.elsewhere (f : Nat → Nat) : GrammarError → GrammarError
  | .unexpected position found expected => .unexpected (f position) found expected
  | .unbalanced => .unbalanced
  | .unknownFunction name => .unknownFunction name
  | .empty => .empty
  | .arity g found => .arity g found
  | .tooDeep => .tooDeep

namespace Grammar
open GraphingCalculator.Parser

/-! ### Tokens in other places -/

/-- The tokens in other places. -/
def elsewhere (f : Nat → Nat) (tokens : List PlacedToken) : List PlacedToken := tokens.map (PlacedToken.elsewhere f)

/-- What a reader gives when the tokens stand in other places. -/
def resultElsewhere {α : Type} (f : Nat → Nat) :
    Except GrammarError (α × List PlacedToken) → Except GrammarError (α × List PlacedToken)
  | .ok (a, rest) => .ok (a, elsewhere f rest)
  | .error error => .error (error.elsewhere f)

/-- The reader takes the same tokens for the same thing wherever they stand, and names their places in errors only. -/
def IgnoresPlaces {α : Type} (f : Nat → Nat) (reader : Reader α) : Prop :=
  ∀ tokens, reader (elsewhere f tokens) = resultElsewhere f (reader tokens)

section
variable {α β : Type} {f : Nat → Nat} {tokens : List PlacedToken} {below : Level}

@[simp]
theorem elsewhere_nil : elsewhere f [] = [] := rfl

@[simp]
theorem elsewhere_cons (t : PlacedToken) (rest : List PlacedToken) :
    elsewhere f (t :: rest) = t.elsewhere f :: elsewhere f rest := rfl

@[simp]
theorem length_elsewhere : (elsewhere f tokens).length = tokens.length := List.length_map _

theorem startsGroup_elsewhere : startsGroup (elsewhere f tokens) = startsGroup tokens := by
  rcases tokens with _ | ⟨⟨token, place⟩, rest⟩
  · rfl
  · cases token <;> rfl

/-! ### Readers -/

theorem ignoresPlaces_pure (a : α) : IgnoresPlaces f fun tokens => .ok (a, tokens) := fun _ => rfl

theorem ignoresPlaces_tooDeep : IgnoresPlaces f (fun _ => .error .tooDeep : Reader α) := fun _ => rfl

theorem IgnoresPlaces.bind {first : Reader α} {next : α → Reader β} (ignores : IgnoresPlaces f first)
    (more : ∀ a, IgnoresPlaces f (next a)) :
    IgnoresPlaces f fun tokens => first tokens >>= fun read => next read.1 read.2 := by
  intro tokens
  have step := ignores tokens
  beta_reduce
  cases read : first tokens with
  | error error =>
    rw [read] at step
    rw [bind_of_error step]
    rfl
  | ok result =>
    obtain ⟨a, behind⟩ := result
    rw [read] at step
    rw [bind_of_ok step]
    exact more a behind

theorem IgnoresPlaces.map {first : Reader α} (ignores : IgnoresPlaces f first) (g : α → β) :
    IgnoresPlaces f fun tokens => first tokens >>= fun read => .ok (g read.1, read.2) :=
  ignores.bind fun a => ignoresPlaces_pure (g a)

/-- What the readers of a level do is the same wherever the tokens stand. -/
structure LevelIgnoresPlaces (f : Nat → Nat) (below : Level) : Prop where
  expression : IgnoresPlaces f below.expression
  arguments : IgnoresPlaces f below.arguments
  unary : IgnoresPlaces f below.unary
  sumLink : ∀ sum op, IgnoresPlaces f (below.sumLink sum op)
  productLink : ∀ product op, IgnoresPlaces f (below.productLink product op)
  implicitLink : ∀ product, IgnoresPlaces f (below.implicitLink product)

/-! The place 0 is the one of the end that is found where no token is left, so it has to stay. -/

section
variable (zero : f 0 = 0)
include zero

theorem current_elsewhere (tokens : List PlacedToken) :
    current (elsewhere f tokens) = (current tokens).elsewhere f := by
  cases tokens with
  | nil => simp [current, PlacedToken.elsewhere, zero]
  | cons t rest => rfl

theorem unexpected_elsewhere (tokens : List PlacedToken) (expected : Expectation) :
    unexpected (elsewhere f tokens) expected = (unexpected tokens expected).elsewhere f := by
  simp [unexpected, current_elsewhere zero, PlacedToken.elsewhere, GrammarError.elsewhere]

/-- A reader that does not accept the next token names its place. -/
theorem resultElsewhere_unexpected (tokens : List PlacedToken) (expected : Expectation) :
    (.error (unexpected (elsewhere f tokens) expected) : Except GrammarError (α × List PlacedToken)) =
      resultElsewhere f (.error (unexpected tokens expected)) :=
  congrArg Except.error (unexpected_elsewhere zero tokens expected)

theorem enclosed_ignoresPlaces {reader : Reader α} (ignores : IgnoresPlaces f reader) :
    IgnoresPlaces f (enclosed reader) := by
  intro tokens
  rcases tokens with _ | ⟨⟨token, place⟩, inside⟩
  · exact resultElsewhere_unexpected zero [] .leftParen
  · cases token with
    | leftParen =>
      have step := ignores inside
      cases read : reader inside with
      | error error =>
        rw [read] at step
        exact (enclosed_eq_error step).trans (congrArg (resultElsewhere f) (enclosed_eq_error read)).symm
      | ok result =>
        obtain ⟨a, behind⟩ := result
        rw [read] at step
        simp only [enclosed, takeLeftParen, elsewhere_cons, PlacedToken.elsewhere, step, read, resultElsewhere, bind,
          Except.bind]
        rcases behind with _ | ⟨⟨token, place⟩, rest⟩
        · exact resultElsewhere_unexpected zero [] .rightParen
        · cases token with
          | rightParen => rfl
          | _ => exact resultElsewhere_unexpected zero (_ :: rest) .rightParen
    | _ => exact resultElsewhere_unexpected zero (_ :: inside) .leftParen

omit zero in
theorem called_ignoresPlaces (g : ElementaryFunction) (arguments : List Expr) :
    IgnoresPlaces f (called g arguments) := by
  intro tokens
  unfold called
  split <;> rfl

variable (level : LevelIgnoresPlaces f below)
include level

theorem call_ignoresPlaces (g : ElementaryFunction) : IgnoresPlaces f (call below g) := by
  rw [call_eq_bind]
  exact (enclosed_ignoresPlaces zero level.arguments).bind (called_ignoresPlaces g)

theorem primary_ignoresPlaces : IgnoresPlaces f (primary below) := by
  intro tokens
  rcases tokens with _ | ⟨⟨token, place⟩, rest⟩
  · exact resultElsewhere_unexpected zero [] .expression
  · cases token with
    | number value => rfl
    | identifier name =>
      simp only [elsewhere_cons, PlacedToken.elsewhere, primary, startsGroup_elsewhere]
      cases ElementaryFunction.ofName? name with
      | some g => exact call_ignoresPlaces zero level g rest
      | none =>
        cases Constant.ofName? name with
        | some c => rfl
        | none =>
          simp only
          split <;> rfl
    | leftParen => exact enclosed_ignoresPlaces zero level.expression (⟨.leftParen, place⟩ :: rest)
    | _ => exact resultElsewhere_unexpected zero (_ :: rest) .expression

omit zero in
theorem raised_ignoresPlaces (base : Expr) : IgnoresPlaces f (raised below base) := by
  intro tokens
  rcases tokens with _ | ⟨⟨token, place⟩, rest⟩
  · rfl
  · cases token with
    | operator op =>
      cases op with
      | power => exact level.unary.map (Expr.binary .power base) rest
      | _ => rfl
    | _ => rfl

theorem power_ignoresPlaces : IgnoresPlaces f (power below) := by
  rw [power_eq_bind]
  exact (primary_ignoresPlaces zero level).bind (raised_ignoresPlaces level)

theorem unary_ignoresPlaces : IgnoresPlaces f (unary below) := by
  intro tokens
  have power := power_ignoresPlaces zero level tokens
  rcases tokens with _ | ⟨⟨token, place⟩, rest⟩
  · exact power
  · cases token with
    | operator op =>
      cases op with
      | subtract => exact level.unary.map Expr.negate rest
      | _ => exact power
    | _ => exact power

omit zero in
theorem moreFactors_ignoresPlaces (product : Expr) : IgnoresPlaces f (moreFactors below product) := by
  intro tokens
  rcases tokens with _ | ⟨⟨token, place⟩, rest⟩
  · rfl
  · cases token with
    | operator op =>
      simp only [elsewhere_cons, PlacedToken.elsewhere, moreFactors]
      split
      · exact level.productLink product op rest
      · rfl
    | identifier | leftParen => exact level.implicitLink product (_ :: rest)
    | _ => rfl

theorem term_ignoresPlaces : IgnoresPlaces f (term below) := by
  rw [term_eq_bind]
  exact (unary_ignoresPlaces zero level).bind (moreFactors_ignoresPlaces level)

omit zero in
theorem moreTerms_ignoresPlaces (sum : Expr) : IgnoresPlaces f (moreTerms below sum) := by
  intro tokens
  rcases tokens with _ | ⟨⟨token, place⟩, rest⟩
  · rfl
  · cases token with
    | operator op =>
      simp only [elsewhere_cons, PlacedToken.elsewhere, moreTerms]
      split
      · exact level.sumLink sum op rest
      · rfl
    | _ => rfl

theorem expression_ignoresPlaces : IgnoresPlaces f (expression below) := by
  rw [expression_eq_bind]
  exact (term_ignoresPlaces zero level).bind (moreTerms_ignoresPlaces level)

theorem moreArguments_ignoresPlaces (room : Nat) (found : List Expr) :
    IgnoresPlaces f (moreArguments below room found) := by
  induction room generalizing found with
  | zero => exact ignoresPlaces_pure found.reverse
  | succ room ih =>
    intro tokens
    rcases tokens with _ | ⟨⟨token, place⟩, rest⟩
    · rfl
    · cases token with
      | comma => exact (expression_ignoresPlaces zero level).bind (fun argument => ih (argument :: found)) rest
      | _ => rfl

theorem arguments_ignoresPlaces : IgnoresPlaces f (arguments below) := by
  have further (found : List Expr) : IgnoresPlaces f (furtherArguments below found) := by
    intro tokens
    rw [furtherArguments, length_elsewhere]
    exact moreArguments_ignoresPlaces zero level tokens.length found tokens
  have some := (expression_ignoresPlaces zero level).bind fun first => further [first]
  intro tokens
  rcases tokens with _ | ⟨⟨token, place⟩, rest⟩
  · exact some []
  · cases token with
    | rightParen => rfl
    | _ => exact some (_ :: rest)

theorem levelIgnoresPlaces_above : LevelIgnoresPlaces f below.above where
  expression := expression_ignoresPlaces zero level
  arguments := arguments_ignoresPlaces zero level
  unary := unary_ignoresPlaces zero level
  sumLink _ _ := (term_ignoresPlaces zero level).bind fun _ => moreTerms_ignoresPlaces level _
  productLink _ _ := (unary_ignoresPlaces zero level).bind fun _ => moreFactors_ignoresPlaces level _
  implicitLink _ := (power_ignoresPlaces zero level).bind fun _ => moreFactors_ignoresPlaces level _

end

theorem levelIgnoresPlaces_exhausted : LevelIgnoresPlaces f .exhausted where
  expression := ignoresPlaces_tooDeep
  arguments := ignoresPlaces_tooDeep
  unary := ignoresPlaces_tooDeep
  sumLink _ _ := ignoresPlaces_tooDeep
  productLink _ _ := ignoresPlaces_tooDeep
  implicitLink _ := ignoresPlaces_tooDeep

theorem levelIgnoresPlaces (zero : f 0 = 0) (levels : Nat) : LevelIgnoresPlaces f (.nested levels) := by
  induction levels with
  | zero => exact levelIgnoresPlaces_exhausted
  | succ levels ih => exact levelIgnoresPlaces_above zero ih

/-! ### Whole lists -/

theorem isBalanced_elsewhere (opened : Nat) : isBalanced opened (elsewhere f tokens) = isBalanced opened tokens := by
  fun_induction isBalanced opened tokens with
  | case1 => rfl
  | case2 _ _ _ ih => exact ih
  | case3 => rfl
  | case4 _ _ _ ih => exact ih
  | case5 opened t rest noLeft noRight ih =>
    obtain ⟨token, place⟩ := t
    cases token with
    | leftParen => exact absurd rfl (noLeft place)
    | rightParen => exact absurd rfl (noRight place)
    | _ => exact ih

theorem onlyEnd_elsewhere (zero : f 0 = 0) (e : Expr) (rest : List PlacedToken) :
    onlyEnd (e, elsewhere f rest) = (onlyEnd (e, rest)).mapError (GrammarError.elsewhere f) := by
  simp only [onlyEnd, current_elsewhere zero, PlacedToken.elsewhere]
  split
  · rfl
  · exact congrArg Except.error (unexpected_elsewhere zero rest .operatorOrEnd)

/-- A reader of the whole input takes the same tokens for the same tree, or fails in the other place. -/
theorem stages_elsewhere (zero : f 0 = 0) (tokens : List PlacedToken) :
    expression (.nested nestingLimit) (elsewhere f tokens) >>= onlyEnd =
      (expression (.nested nestingLimit) tokens >>= onlyEnd).mapError (GrammarError.elsewhere f) := by
  have step := expression_ignoresPlaces zero (levelIgnoresPlaces zero nestingLimit) tokens
  cases read : expression (.nested nestingLimit) tokens with
  | error error =>
    rw [read] at step
    rw [step]
    rfl
  | ok result =>
    obtain ⟨e, rest⟩ := result
    rw [read] at step
    rw [step]
    exact onlyEnd_elsewhere zero e rest

end

/-! ### Tokens by their numbers -/

/-- The token with this index. Behind the last token stands an end of the input, in the next place. -/
def tokenAt (tokens : List PlacedToken) (i : Nat) : PlacedToken :=
  tokens[i]?.getD ⟨.endOfInput, tokens.getLast?.elim 0 PlacedToken.next⟩

/-- The tokens in the places 1, 2, 3 and so on. -/
def numbered (kinds : List Token) : List PlacedToken :=
  kinds.mapIdx fun i token => ⟨token, i + 1⟩

/-- The place of the token with this number. -/
def placeOf (tokens : List PlacedToken) : Nat → Nat
  | 0 => 0
  | i + 1 => (tokenAt tokens i).position

/-- What tokens are parsed as when each of them, and the end behind them, stands in the place of its number. -/
def parseNumbered (kinds : List Token) : Except GrammarError Expr :=
  match (current (numbered kinds)).token with
  | .endOfInput => .error .empty
  | _ =>
    if isBalanced 0 (numbered kinds) then
      expression (.nested nestingLimit) (numbered (kinds ++ [.endOfInput])) >>= onlyEnd
    else .error .unbalanced

section
variable {tokens others : List PlacedToken}

theorem tokenAt_of_lt {i : Nat} (inside : i < tokens.length) : tokenAt tokens i = tokens[i] := by
  simp [tokenAt, inside]

/-- One place behind the last token, unless that has the greatest place there is. -/
theorem position_tokenAt_length {last : PlacedToken} (isLast : tokens.getLast? = some last)
    (below : last.position < UInt64.size - 1) : (tokenAt tokens tokens.length).position = last.position + 1 := by
  have inside : last.position + 1 < UInt64.size := by omega
  simp [tokenAt, isLast, PlacedToken.next, Nat.mod_eq_of_lt inside]

example : tokenAt [⟨.number 1, 0⟩, ⟨.operator .add, 18446744073709551615⟩] 2 = ⟨.endOfInput, 0⟩ := rfl

theorem close_eq_concat (tokens : List PlacedToken) : close tokens = tokens ++ [tokenAt tokens tokens.length] := by
  cases last : tokens.getLast? with
  | none => simp [close, tokenAt, List.getLast?_eq_none_iff.mp last]
  | some t => simp [close, last, tokenAt]

theorem length_close : (close tokens).length = tokens.length + 1 := by
  rw [close_eq_concat, List.length_append, List.length_singleton]

theorem getElem_close {i : Nat} (inside : i < (close tokens).length) : (close tokens)[i] = tokenAt tokens i := by
  simp only [close_eq_concat]
  rw [length_close, Nat.lt_succ_iff] at inside
  rcases Nat.lt_or_eq_of_le inside with before | rfl
  · rw [List.getElem_append_left before, tokenAt_of_lt before]
  · simp

theorem map_token_close : (close tokens).map PlacedToken.token = tokens.map PlacedToken.token ++ [.endOfInput] := by
  obtain ⟨position, closed⟩ := close_eq_append tokens
  simp [closed]

/-- Tokens are the numbered ones, put where they stand. -/
theorem elsewhere_numbered {placed : List PlacedToken}
    (here : ∀ i, (inside : i < placed.length) → placed[i] = tokenAt tokens i) :
    elsewhere (placeOf tokens) (numbered (placed.map PlacedToken.token)) = placed := by
  refine List.ext_getElem (by simp [numbered]) fun i _ inside => ?_
  simp only [elsewhere, numbered, PlacedToken.elsewhere, List.getElem_map, List.getElem_mapIdx, placeOf, here i inside]

/-- What tokens are parsed as depends on their kinds alone, up to the place in an error. -/
theorem parse_eq_numbered (tokens : List PlacedToken) : Expr.parse tokens =
    (parseNumbered (tokens.map PlacedToken.token)).mapError (GrammarError.elsewhere (placeOf tokens)) := by
  have whole := elsewhere_numbered fun i (inside : i < tokens.length) => (tokenAt_of_lt inside).symm
  have closed := elsewhere_numbered fun i (inside : i < (close tokens).length) => getElem_close inside
  have first : (current tokens).token = (current (numbered (tokens.map PlacedToken.token))).token := by
    rw [← whole, current_elsewhere rfl, whole]
    rfl
  have balanced : isBalanced 0 tokens = isBalanced 0 (numbered (tokens.map PlacedToken.token)) := by
    rw [← whole, isBalanced_elsewhere, whole]
  have stages := stages_elsewhere (f := placeOf tokens) rfl (numbered ((close tokens).map PlacedToken.token))
  rw [closed, map_token_close] at stages
  unfold Expr.parse parseNumbered
  rw [first, balanced]
  cases (current (numbered (tokens.map PlacedToken.token))).token with
  | endOfInput => rfl
  | _ =>
    cases isBalanced 0 (numbered (tokens.map PlacedToken.token)) with
    | true => exact stages
    | false => rfl

theorem eq_unexpected_of_elsewhere {f : Nat → Nat} {error : GrammarError} {position : Nat} {found : Token}
    {expected : Expectation} (same : error.elsewhere f = .unexpected position found expected) :
    ∃ place, error = .unexpected place found expected ∧ f place = position := by
  cases error <;> cases same
  exact ⟨_, rfl, rfl⟩

/-- An error in numbered tokens names one of them, or the end behind them, by its number. -/
theorem exists_index_of_parseNumbered {kinds : List Token} {place : Nat} {found : Token} {expected : Expectation}
    (fails : parseNumbered kinds = .error (.unexpected place found expected)) :
    ∃ i ≤ kinds.length, place = i + 1 ∧ (kinds ++ [.endOfInput])[i]? = some found := by
  unfold parseNumbered at fails
  split at fails
  case h_1 => cases fails
  case h_2 =>
    split at fails
    case isFalse => cases fails
    case isTrue =>
      have hasEnd : ∃ t ∈ numbered (kinds ++ [.endOfInput]), t.token = .endOfInput :=
        ⟨⟨.endOfInput, kinds.length + 1⟩, by simp [numbered, List.mapIdx_append], rfl⟩
      obtain ⟨v, rest, -, split, -⟩ := exists_front_of_stages hasEnd fails
      have here : (numbered (kinds ++ [.endOfInput]))[v.length]? = some ⟨found, place⟩ := by simp [split]
      rw [numbered, List.getElem?_mapIdx, Option.map_eq_some_iff] at here
      obtain ⟨token, inList, placed⟩ := here
      cases placed
      obtain ⟨inside, -⟩ := List.getElem?_eq_some_iff.mp inList
      rw [List.length_append, List.length_singleton] at inside
      exact ⟨v.length, by omega, rfl, inList⟩

/-- An error names a token of the list, or the end behind it, by its index: with the same tokens in other places it
names the one with the same index. -/
theorem exists_index_of_unexpected {position : Nat} {found : Token} {expected : Expectation}
    (fails : Expr.parse tokens = .error (.unexpected position found expected)) :
    ∃ i ≤ tokens.length, tokenAt tokens i = ⟨found, position⟩ ∧ ∀ others, SameTokens others tokens →
      Expr.parse others = .error (.unexpected (tokenAt others i).position found expected) := by
  have mapped := (parse_eq_numbered tokens).symm.trans fails
  obtain ⟨error, numberedFails, same⟩ : ∃ error, parseNumbered (tokens.map PlacedToken.token) = .error error ∧
      error.elsewhere (placeOf tokens) = .unexpected position found expected := by
    cases answer : parseNumbered (tokens.map PlacedToken.token) with
    | ok e =>
      rw [answer] at mapped
      cases mapped
    | error error =>
      rw [answer] at mapped
      exact ⟨error, rfl, Except.error.inj mapped⟩
  obtain ⟨place, rfl, moved⟩ := eq_unexpected_of_elsewhere same
  obtain ⟨i, inside, rfl, isFound⟩ := exists_index_of_parseNumbered numberedFails
  rw [List.length_map] at inside
  have here : (tokenAt tokens i).token = found := by
    rw [← map_token_close, List.getElem?_map, Option.map_eq_some_iff] at isFound
    obtain ⟨t, isThere, rfl⟩ := isFound
    obtain ⟨bound, rfl⟩ := List.getElem?_eq_some_iff.mp isThere
    rw [getElem_close]
  refine ⟨i, inside, ?_, fun others sameTokens => ?_⟩
  · rw [← here, ← moved]
    rfl
  · rw [parse_eq_numbered, show others.map PlacedToken.token = _ from sameTokens, numberedFails]
    rfl

/-- The same tokens in other places give the same answer, unless it names a place. -/
theorem parse_eq_of_sameTokens (same : SameTokens others tokens)
    (placeless : ∀ position found expected, Expr.parse tokens ≠ .error (.unexpected position found expected)) :
    Expr.parse others = Expr.parse tokens := by
  have here := parse_eq_numbered tokens
  have there := parse_eq_numbered others
  rw [show others.map PlacedToken.token = _ from same] at there
  cases answer : parseNumbered (tokens.map PlacedToken.token) with
  | ok e =>
    rw [answer] at here there
    exact there.trans here.symm
  | error error =>
    rw [answer] at here there
    cases error with
    | unexpected position found expected => exact absurd here (placeless _ found expected)
    | _ => exact there.trans here.symm

/-- Tokens are accepted as a tree if and only if all their parentheses pair up and the ones in front of the first
end of the input, with one end behind them, are accepted as this tree. -/
theorem parse_eq_ok_iff_untilEnd {e : Expr} (place : Nat) :
    Expr.parse tokens = .ok e ↔
      PairUp tokens ∧ Expr.parse (untilEnd tokens ++ [⟨.endOfInput, place⟩]) = .ok e := by
  rw [parse_eq_ok_iff, isBalanced_iff_pairUp,
    parse_iff_derives (untilEnd tokens) place ne_endOfInput_of_mem_untilEnd]

/-- A list of tokens means what stands in front of its first end of the input, provided that all its parentheses pair
up. The same tokens in other places give the same tree or the same error; only where a token is wrong, the error names
the place of the token with the same index, and where it is the end that is wrong, the next place behind the last
token. That is one place further, unless no place is: behind the greatest number of 64 bits the count starts again. -/
theorem parse_reads_front (tokens : List PlacedToken) :
    (∀ e place, Expr.parse tokens = .ok e ↔
      PairUp tokens ∧ Expr.parse (untilEnd tokens ++ [⟨.endOfInput, place⟩]) = .ok e) ∧
    (∀ last, tokens.getLast? = some last → last.position < UInt64.size - 1 →
      (tokenAt tokens tokens.length).position = last.position + 1) ∧
    match Expr.parse tokens with
    | .error (.unexpected position found expected) =>
      ∃ i ≤ tokens.length, tokenAt tokens i = ⟨found, position⟩ ∧ ∀ others, SameTokens others tokens →
        Expr.parse others = .error (.unexpected (tokenAt others i).position found expected)
    | answer => ∀ others, SameTokens others tokens → Expr.parse others = answer := by
  refine ⟨fun e place => parse_eq_ok_iff_untilEnd place, fun last => position_tokenAt_length, ?_⟩
  split
  case h_1 fails => exact exists_index_of_unexpected fails
  case h_2 placeless => exact fun others same => parse_eq_of_sameTokens same placeless

/-- The end that is missing behind `x +` is found one place behind the sign, wherever that stands, and the same tokens
behind the end of `x` do no harm. -/
theorem parse_reads_front_missing_end :
    let sum : List PlacedToken := [⟨.identifier "x", 9⟩, ⟨.operator .add, 4⟩]
    let others : List PlacedToken := [⟨.identifier "x", 0⟩, ⟨.operator .add, 7⟩]
    let single : List PlacedToken := [⟨.identifier "x", 2⟩]
    let both : List PlacedToken := single ++ ⟨.endOfInput, 0⟩ :: sum ++ [⟨.endOfInput, 0⟩]
    SameTokens others sum ∧ Expr.parse sum = .error (.unexpected 5 .endOfInput .expression) ∧
      Expr.parse others = .error (.unexpected 8 .endOfInput .expression) ∧
      PairUp both ∧ Expr.parse (single ++ [⟨.endOfInput, 3⟩]) = .ok (.var "x") ∧ Expr.parse both = .ok (.var "x") := by
  intro sum others single both
  have same : SameTokens others sum := rfl
  have fails : Expr.parse sum = .error (.unexpected 5 .endOfInput .expression) := by rfl
  have pairUp : PairUp both := isBalanced_iff_pairUp.mp rfl
  have accepted : Expr.parse (single ++ [⟨.endOfInput, 3⟩]) = .ok (.var "x") := by rfl
  obtain ⟨-, -, errors⟩ := parse_reads_front sum
  rw [fails] at errors
  obtain ⟨i, inside, here, moved⟩ := errors
  obtain rfl : i = 2 := by
    match i, inside with
    | 0, _ | 1, _ => cases here
    | 2, _ => rfl
  obtain ⟨front, -⟩ := parse_reads_front both
  exact ⟨same, fails, moved others same, pairUp, accepted, (front (.var "x") 3).mpr ⟨pairUp, accepted⟩⟩

end

end Grammar

end GraphingCalculator
