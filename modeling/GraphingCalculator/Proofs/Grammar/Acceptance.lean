import GraphingCalculator.Proofs.Grammar.Reading
import Mathlib.Data.List.TakeWhile

/-!
Which lists of tokens are accepted, and as which tree: the ones whose parentheses pair up and whose
part in front of the first end of the input is an expression of the grammar (`parse_eq_ok_iff`). For a list
that holds the end only as its last token, the first condition follows from the second
(`parse_iff_derives`).
-/

namespace GraphingCalculator.Grammar
open GraphingCalculator.Parser

def isEnd : Token → Bool
  | .endOfInput => true
  | _ => false

theorem isEnd_eq_false {token : Token} : isEnd token = false ↔ token ≠ .endOfInput := by
  cases token <;> simp [isEnd]

/-- The tokens in front of the first end of the input. -/
def untilEnd (tokens : List PlacedToken) : List PlacedToken :=
  tokens.takeWhile fun t => !isEnd t.token

theorem untilEnd_append {v rest : List PlacedToken} {last : PlacedToken}
    (noEnd : ∀ t ∈ v, t.token ≠ .endOfInput) (atEnd : last.token = .endOfInput) :
    untilEnd (v ++ last :: rest) = v := by
  have keep : ∀ t ∈ v, (!isEnd t.token) = true := by
    intro t member
    rw [isEnd_eq_false.mpr (noEnd t member)]
    rfl
  rw [untilEnd, List.takeWhile_append_of_pos keep, List.takeWhile_cons_of_neg (by simp [atEnd, isEnd])]
  simp

theorem close_eq_append (tokens : List PlacedToken) :
    ∃ position, close tokens = tokens ++ [⟨.endOfInput, position⟩] := by
  unfold close
  split
  case h_1 none => exact ⟨0, by simp [List.getLast?_eq_none_iff.mp none]⟩
  case h_2 last _ => exact ⟨last.next, rfl⟩

theorem exists_end_mem_close (tokens : List PlacedToken) : ∃ t ∈ close tokens, t.token = .endOfInput := by
  obtain ⟨position, closed⟩ := close_eq_append tokens
  exact ⟨⟨.endOfInput, position⟩, by simp [closed], rfl⟩

theorem ne_endOfInput_of_mem_untilEnd {tokens : List PlacedToken} :
    ∀ t ∈ untilEnd tokens, t.token ≠ .endOfInput := by
  intro t member
  have kept := List.mem_takeWhile_imp member
  exact isEnd_eq_false.mp (by simpa using kept)

/-- Closed tokens are the ones in front of the first end, and then an end. -/
theorem close_eq_untilEnd (tokens : List PlacedToken) :
    ∃ last rest, close tokens = untilEnd tokens ++ last :: rest ∧ last.token = .endOfInput := by
  obtain ⟨position, closed⟩ := close_eq_append tokens
  have split := List.takeWhile_append_dropWhile (p := fun t : PlacedToken => !isEnd t.token) (l := tokens)
  cases behind : tokens.dropWhile fun t => !isEnd t.token with
  | nil =>
    rw [behind, List.append_nil] at split
    exact ⟨⟨.endOfInput, position⟩, [], by rw [closed, untilEnd, split], rfl⟩
  | cons last rest =>
    have stops := List.head?_dropWhile_not (fun t : PlacedToken => !isEnd t.token) tokens
    rw [behind] at split stops
    refine ⟨last, rest ++ [⟨.endOfInput, position⟩], ?_, ?_⟩
    · rw [closed, untilEnd, ← List.cons_append, ← List.append_assoc, split]
    · by_contra other
      simp [isEnd_eq_false.mpr other] at stops

/-- What is read up to an end of the input is all that stands in front of the first one. -/
theorem eq_untilEnd {tokens v rest : List PlacedToken} (split : close tokens = v ++ rest)
    (noEnd : ∀ t ∈ v, t.token ≠ .endOfInput) (atEnd : (current rest).token = .endOfInput) :
    v = untilEnd tokens := by
  obtain ⟨last, after, closed, lastIsEnd⟩ := close_eq_untilEnd tokens
  rw [closed] at split
  cases rest with
  | nil =>
    have member : last ∈ v := by
      rw [← List.append_nil v, ← split]
      simp
    exact absurd lastIsEnd (noEnd last member)
  | cons next rest =>
    have nextIsEnd : next.token = .endOfInput := atEnd
    have front := congrArg untilEnd split
    rw [untilEnd_append ne_endOfInput_of_mem_untilEnd lastIsEnd, untilEnd_append noEnd nextIsEnd] at front
    exact front.symm

theorem knownBefore_of_ne_leftParen {v rest : List PlacedToken} {next : PlacedToken}
    (known : CallsKnown v) (other : next.token ≠ .leftParen) : KnownBefore v (next :: rest) := by
  refine List.isChain_append.mpr ⟨known, List.isChain_singleton next, ?_⟩
  rintro t - after member ⟨name, -, isGroup, -⟩
  cases member
  exact other isGroup

theorem current_eq_of_untilEnd {tokens w : List PlacedToken} {t : PlacedToken}
    (front : untilEnd tokens = t :: w) : current tokens = t := by
  have split := List.takeWhile_append_dropWhile (p := fun t : PlacedToken => !isEnd t.token) (l := tokens)
  rw [← untilEnd, front] at split
  rw [← split]
  rfl

/-- The tokens are accepted as a tree if and only if all their parentheses pair up and the ones in front of
the first end of the input are an expression with this tree in which no unknown function is called. -/
theorem parse_eq_ok_iff (tokens : List PlacedToken) (e : Expr) :
    Expr.parse tokens = .ok e ↔ isBalanced 0 tokens ∧
      Derives .expression nestingLimit (untilEnd tokens) e ∧ CallsKnown (untilEnd tokens) := by
  constructor
  · intro accepted
    unfold Expr.parse at accepted
    split at accepted
    case h_1 => cases accepted
    case h_2 =>
      split at accepted
      case isFalse => cases accepted
      case isTrue balanced =>
        obtain ⟨⟨tree, rest⟩, read, finish⟩ := ok_of_bind accepted
        dsimp only at finish
        split at finish
        case h_2 => cases finish
        case h_1 atEnd =>
          cases finish
          -- the end that stops the reader is the first one, for there is none in the phrase
          obtain ⟨v, split, derived, known⟩ := reads_of_reader .expression nestingLimit read
          rw [← eq_untilEnd split derived.ne_endOfInput atEnd]
          exact ⟨balanced, derived, known.left_of_append⟩
  · rintro ⟨balanced, derived, known⟩
    obtain ⟨last, after, closed, lastIsEnd⟩ := close_eq_untilEnd tokens
    have ends : Phrase.expression.EndsBefore (last :: after) := by
      intro next member
      cases member
      rw [lastIsEnd]
      rfl
    have border : KnownBefore (untilEnd tokens) (last :: after) :=
      knownBefore_of_ne_leftParen known (by rw [lastIsEnd]; simp)
    have read : expression (Level.nested nestingLimit) (close tokens) = .ok (e, last :: after) := by
      rw [closed]
      exact reader_of_derives derived ends border
    obtain ⟨t, w, front, -⟩ := derived.first rfl
    have notAtEnd : (current tokens).token ≠ .endOfInput := by
      rw [current_eq_of_untilEnd front]
      exact derived.ne_endOfInput t (by simp [front])
    unfold Expr.parse
    split
    case h_1 atEnd => exact absurd atEnd notAtEnd
    case h_2 =>
      rw [if_pos balanced, read]
      simp only [bind, Except.bind, current, List.headD_cons, lastIsEnd]
      rfl

/-- A list of tokens with the end of the input as its last token, and there only, is accepted as a tree if and
only if the tokens in front of the end are an expression of the grammar with this tree, nested no deeper than the
limit, in which no longer unknown name is followed by a parenthesis. -/
theorem parse_iff_derives (words : List PlacedToken) (position : Nat)
    (noEnd : ∀ t ∈ words, t.token ≠ .endOfInput) (e : Expr) :
    Expr.parse (words ++ [⟨.endOfInput, position⟩]) = .ok e ↔
      Derives .expression nestingLimit words e ∧ CallsKnown words := by
  have front : untilEnd (words ++ [⟨.endOfInput, position⟩]) = words := untilEnd_append noEnd rfl
  rw [parse_eq_ok_iff, front]
  constructor
  · rintro ⟨-, derived⟩
    exact derived
  · rintro ⟨derived, known⟩
    refine ⟨?_, derived, known⟩
    rw [derived.isBalanced_append]
    rfl

/-- `x^-y sin(e)` is a power times a call. -/
theorem parse_iff_derives_implied_product :
    let words : List PlacedToken := [⟨.identifier "x", 0⟩, ⟨.operator .power, 1⟩, ⟨.operator .subtract, 2⟩,
      ⟨.identifier "y", 3⟩, ⟨.identifier "sin", 5⟩, ⟨.leftParen, 8⟩, ⟨.identifier "e", 9⟩, ⟨.rightParen, 10⟩]
    let tree : Expr := .binary .multiply (.binary .power (.var "x") (.negate (.var "y"))) (.call .sin (.constant .e))
    (∀ t ∈ words, t.token ≠ .endOfInput) ∧ Expr.parse (words ++ [⟨.endOfInput, 11⟩]) = .ok tree ∧
      Derives .expression nestingLimit words tree ∧ CallsKnown words := by
  intro words tree
  have noEnd : ∀ t ∈ words, t.token ≠ .endOfInput := by simp [words]
  have accepted : Expr.parse (words ++ [⟨.endOfInput, 11⟩]) = .ok tree := by rfl
  exact ⟨noEnd, accepted, (parse_iff_derives words 11 noEnd tree).mp accepted⟩

end GraphingCalculator.Grammar
