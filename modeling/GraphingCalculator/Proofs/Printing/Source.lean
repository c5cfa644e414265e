import GraphingCalculator.Proofs.Printing.Reparse

/-!
What a text can be read as. Its numbers are read as doubles without a sign, of which only infinity is
not finite, and its words are letters only (`written_of_lex`). So an expression that has been read
can be printed and read again, unless it holds an infinite number (`render_reads_back`).
-/

namespace GraphingCalculator

/-- Some number is infinite. -/
def Expr.HasInfinity : Expr → Prop
  | literal value => Binary64.rank value = Binary64.infinityRank ∧ Binary64.isNegative value = false
  | var _ | constant _ => False
  | negate operand => operand.HasInfinity
  | binary _ left right => left.HasInfinity ∨ right.HasInfinity
  | call _ argument => argument.HasInfinity

/-- A token that can stand in a text. -/
def Token.Written : Token → Prop
  | number value => Binary64.rank value ≤ Binary64.infinityRank ∧ Binary64.isNegative value = false
  | identifier name => name ≠ "" ∧ ∀ c ∈ name.toList, c.isAlpha
  | _ => True

namespace Lexeme

theorem written_of_numeral {text : List Char} {lexeme : Lexeme} (read : numeral text = .ok lexeme) :
    lexeme.token.Written := by
  unfold numeral at read
  dsimp only at read
  split at read
  case isTrue => cases read
  case isFalse =>
    split at read
    case isTrue => cases read
    case isFalse =>
      cases read
      have le := Decimal.rank_le
      exact ⟨(Binary64.rank_ofRank (le _)).trans_le (le _), Binary64.isNegative_ofRank (le _)⟩

theorem written_of_letters {c : Char} {rest : List Char} (letter : c.isAlpha) :
    (Token.identifier (String.ofList (c :: rest.takeWhile Char.isAlpha))).Written := by
  refine ⟨by simp, fun other member => ?_⟩
  rw [String.toList_ofList] at member
  rcases List.mem_cons.mp member with rfl | member
  · exact letter
  · exact List.mem_takeWhile_imp member

theorem written_of_first {c : Char} {rest : List Char} {lexeme : Lexeme} (read : first c rest = .ok lexeme) :
    lexeme.token.Written := by
  unfold first at read
  split at read
  case isTrue => cases read; trivial
  split at read
  case isTrue => cases read; trivial
  split at read
  case isTrue => cases read; trivial
  split at read
  case isTrue =>
    cases read
    exact isAlpha_constantName .pi
  split at read
  case h_1 => cases read; trivial
  split at read
  case isTrue => exact written_of_numeral read
  split at read
  case isTrue letter =>
    cases read
    exact written_of_letters letter
  cases read

end Lexeme

theorem written_of_lexFrom {position : Nat} {text : List Char} {found tokens : List PlacedToken}
    (cut : lexFrom position text found = .ok tokens) (before : ∀ t ∈ found, t.token.Written) :
    ∀ t ∈ tokens, t.token.Written := by
  fun_induction lexFrom position text found with
  | case1 =>
    cases cut
    intro t member
    rcases List.mem_cons.mp (List.mem_reverse.mp member) with rfl | member
    · trivial
    · exact before t member
  | case2 position found c rest blank ih => exact ih cut before
  | case3 => cases cut
  | case4 position found c rest visible lexeme read ih =>
    refine ih cut fun t member => ?_
    rcases List.mem_cons.mp member with rfl | member
    · exact Lexeme.written_of_first read
    · exact before t member

theorem written_of_lex {source : String} {tokens : List PlacedToken} (cut : lex source = .ok tokens) :
    ∀ t ∈ tokens, t.token.Written :=
  written_of_lexFrom cut (by simp)

/-! ### Expressions from texts -/

namespace Expr

/-- Only infinite numbers keep the expression from being readable. -/
def IsWritten (e : Expr) : Prop := e.Readable ∨ e.HasInfinity

theorem IsWritten.binary {op : Operator} {left right : Expr} (first : left.IsWritten) (second : right.IsWritten) :
    (Expr.binary op left right).IsWritten := by
  rcases first with first | first
  · exact second.imp (fun second => ⟨first, second⟩) .inr
  · exact .inr (.inl first)

end Expr

namespace Grammar

theorem isWritten_of_derives {phrase : Phrase} {levels : Nat} {v : List PlacedToken} {e : Expr}
    (d : Derives phrase levels v e) (written : ∀ t ∈ v, t.token.Written) (before : phrase.Continues Expr.IsWritten) :
    e.IsWritten := by
  induction d with
  | sum _ _ first rest | product _ _ first rest =>
    obtain ⟨front, back⟩ := List.forall_mem_append.mp written
    exact rest back (first front trivial)
  | lastTerm | lastFactor => exact before
  | nextTerm _ _ _ right rest | nextFactor _ _ _ right rest =>
    obtain ⟨front, back⟩ := List.forall_mem_append.mp (List.forall_mem_cons.mp written).2
    exact rest back (before.binary (right front trivial))
  | impliedFactor _ _ _ right rest =>
    rw [← List.cons_append] at written
    obtain ⟨front, back⟩ := List.forall_mem_append.mp written
    exact rest back (before.binary (right front trivial))
  | negation _ operand => exact operand (List.forall_mem_cons.mp written).2 trivial
  | unsigned _ operand | base _ operand => exact operand written trivial
  | raised _ _ base exponent =>
    obtain ⟨front, back⟩ := List.forall_mem_append.mp written
    exact (base front trivial).binary (exponent (List.forall_mem_cons.mp back).2 trivial)
  | number =>
    obtain ⟨le, unsigned⟩ := written _ (List.mem_singleton_self _)
    rcases Nat.lt_or_eq_of_le le with finite | infinite
    · exact .inl ⟨finite, unsigned⟩
    · exact .inr ⟨infinite, unsigned⟩
  | constant => exact .inl trivial
  | var noFunction noConstant =>
    obtain ⟨nonempty, letters⟩ := written _ (List.mem_singleton_self _)
    exact .inl ⟨nonempty, letters, noFunction, noConstant⟩
  | call _ _ argument =>
    have inner := (List.forall_mem_cons.mp (List.forall_mem_cons.mp written).2).2
    exact argument (List.forall_mem_append.mp inner).1 trivial
  | group _ inner =>
    exact inner (List.forall_mem_append.mp (List.forall_mem_cons.mp written).2).1 trivial

theorem isWritten_of_parse {tokens : List PlacedToken} {e : Expr} (written : ∀ t ∈ tokens, t.token.Written)
    (accepted : Expr.parse tokens = .ok e) : e.IsWritten := by
  obtain ⟨-, derived, -⟩ := (parse_eq_ok_iff tokens e).mp accepted
  exact isWritten_of_derives derived (fun t member => written t ((List.takeWhile_sublist _).subset member)) trivial

end Grammar

/-- Printing and reading again is the identity up to the number of levels: the text of a readable expression is read
as the expression when it takes no more levels than there are, and is nested too deep otherwise; and whatever is read
from a text is readable or holds an infinite number. -/
theorem render_reads_back :
    (∀ e : Expr, e.Readable → Expr.read e.render =
      if e.printDepth ≤ nestingLimit then .ok e else .error (.grammatical .tooDeep)) ∧
    ∀ (source : String) (e : Expr), Expr.read source = .ok e → e.Readable ∨ e.HasInfinity := by
  refine ⟨fun e readable => Expr.read_render readable, fun source e read => ?_⟩
  obtain ⟨tokens, cut, accepted⟩ := Expr.lex_of_read read
  exact Grammar.isWritten_of_parse (written_of_lex cut) accepted

/-- `((-1.5) ^ x)` is read as what it was printed from. -/
theorem render_reads_back_power :
    let e : Expr := .binary .power (.negate (.literal (.ofBits 0x3ff8000000000000))) (.var "x")
    e.Readable ∧ e.render = "((-1.5) ^ x)" ∧ Expr.read e.render = .ok e := by
  intro e
  have readable : e.Readable :=
    ⟨⟨by decide +kernel, by decide +kernel⟩, ⟨by decide, List.all_eq_true.mp (by decide), rfl, rfl⟩⟩
  have enough : e.printDepth ≤ nestingLimit := by decide
  exact ⟨readable, by decide +kernel, (render_reads_back.1 e readable).trans (if_pos enough)⟩

end GraphingCalculator
