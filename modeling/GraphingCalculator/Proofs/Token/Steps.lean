import GraphingCalculator.Token.Lexer
import Mathlib

/-!
The lexer one lexeme at a time: what it does with a blank, a sign, a run of letters or a numeral in
front of the rest of a text. Each step puts one token behind the ones found before and goes on
after the lexeme (`lexFrom_blank`, `lexFrom_lexeme`).
-/

namespace GraphingCalculator

/-! ### Kinds of characters -/

theorem isWord_of_mem_blanks {c : Char} (member : c ∈ blanks) : (c.isDigit || c.isAlpha) = false := by
  have none : blanks.all (fun c => !(c.isDigit || c.isAlpha)) = true := by decide
  simpa using List.all_eq_true.mp none c member

theorem isBlank_eq_false {c : Char} (word : c.isDigit || c.isAlpha) : isBlank c = false := by
  cases blank : isBlank c with
  | false => rfl
  | true => simp [isWord_of_mem_blanks (isBlank_iff.mp blank)] at word

theorem isDigit_eq_false_of_isAlpha {c : Char} (letter : c.isAlpha) : c.isDigit = false := by
  simp only [Char.isAlpha, Char.isUpper, Char.isLower, Char.isDigit] at *
  grind

namespace Lexeme

/-- The characters that are lexemes of their own. -/
def signs : List Char := ['(', ')', ',', 'π', '+', '-', '*', '/', '^']

theorem isWord_of_mem_signs {c : Char} (member : c ∈ signs) : (c.isDigit || c.isAlpha) = false := by
  have none : signs.all (fun c => !(c.isDigit || c.isAlpha)) = true := by decide
  simpa using List.all_eq_true.mp none c member

theorem notMem_signs {c : Char} (word : c.isDigit || c.isAlpha) : c ∉ signs := by
  intro member
  simp [isWord_of_mem_signs member] at word

theorem ofSymbol?_eq_none {c : Char} (noSign : c ∉ signs) : Operator.ofSymbol? c = none := by
  unfold Operator.ofSymbol?
  split
  case h_6 => rfl
  all_goals exact absurd (by decide) noSign

/-- What is no sign starts a numeral, a name, or nothing at all. -/
theorem first_of_notMem_signs {c : Char} (noSign : c ∉ signs) (rest : List Char) :
    first c rest =
      if c.isDigit || c == '.' then numeral (c :: rest)
      else if c.isAlpha then
        .ok ⟨.identifier (String.ofList (c :: rest.takeWhile Char.isAlpha)), (rest.takeWhile Char.isAlpha).length + 1⟩
      else .error ⟨0, c⟩ := by
  have apart : ∀ sign ∈ signs, c ≠ sign := fun sign member same => noSign (same ▸ member)
  rw [first, if_neg (apart '(' (by decide)), if_neg (apart ')' (by decide)), if_neg (apart ',' (by decide)),
    if_neg (apart 'π' (by decide)), ofSymbol?_eq_none noSign]
  rfl

theorem first_of_isDigit {c : Char} (digit : c.isDigit) (rest : List Char) : first c rest = numeral (c :: rest) := by
  rw [first_of_notMem_signs (notMem_signs (by simp [digit])), if_pos (by simp [digit])]

theorem first_of_isAlpha {c : Char} (letter : c.isAlpha) (rest : List Char) :
    first c rest =
      .ok ⟨.identifier (String.ofList (c :: rest.takeWhile Char.isAlpha)), (rest.takeWhile Char.isAlpha).length + 1⟩ := by
  have noPoint : c ≠ '.' := by
    rintro rfl
    cases letter
  rw [first_of_notMem_signs (notMem_signs (by simp [letter])),
    if_neg (by simp [isDigit_eq_false_of_isAlpha letter, noPoint]), if_pos letter]

theorem first_symbol (op : Operator) (rest : List Char) : first op.symbol rest = .ok ⟨.operator op, 1⟩ := by
  cases op <;> rfl

end Lexeme

/-! ### Steps -/

section
variable {position : Nat} {c : Char} {rest : List Char} {found : List PlacedToken}

theorem lexFrom_blank (blank : isBlank c) :
    lexFrom position (c :: rest) found = lexFrom (position + 1) rest found := by
  rw [lexFrom, if_pos blank]

theorem lexFrom_blanks {gap : List Char} (blank : ∀ c ∈ gap, isBlank c) :
    lexFrom position (gap ++ rest) found = lexFrom (position + gap.length) rest found := by
  induction gap generalizing position with
  | nil => rfl
  | cons c gap ih =>
    obtain ⟨first, others⟩ := List.forall_mem_cons.mp blank
    rw [List.cons_append, lexFrom_blank first, ih others, List.length_cons, Nat.add_right_comm, Nat.add_assoc]

theorem lexFrom_lexeme {lexeme : Lexeme} (visible : isBlank c = false) (starts : Lexeme.first c rest = .ok lexeme) :
    lexFrom position (c :: rest) found =
      lexFrom (position + lexeme.length) (rest.drop (lexeme.length - 1)) (⟨lexeme.token, position⟩ :: found) := by
  rw [lexFrom, if_neg (by simp [visible]), starts]

theorem lexFrom_sign {token : Token} (visible : isBlank c = false) (starts : Lexeme.first c rest = .ok ⟨token, 1⟩) :
    lexFrom position (c :: rest) found = lexFrom (position + 1) rest (⟨token, position⟩ :: found) :=
  lexFrom_lexeme visible starts

theorem lexFrom_letters {letters : List Char} (nonempty : letters ≠ []) (alphabetic : ∀ c ∈ letters, c.isAlpha)
    (ends : ∀ c ∈ rest.head?, c.isAlpha = false) :
    lexFrom position (letters ++ rest) found =
      lexFrom (position + letters.length) rest (⟨.identifier (String.ofList letters), position⟩ :: found) := by
  cases letters with
  | nil => exact absurd rfl nonempty
  | cons c letters =>
    have letter : c.isAlpha := alphabetic c List.mem_cons_self
    have run : (letters ++ rest).takeWhile Char.isAlpha = letters := by
      rw [List.takeWhile_append_of_pos fun other member => alphabetic other (List.mem_cons_of_mem c member)]
      cases rest with
      | nil => simp
      | cons next rest => simp [ends next rfl]
    rw [List.cons_append, lexFrom_lexeme (isBlank_eq_false (by simp [letter])) (Lexeme.first_of_isAlpha letter _), run]
    simp

theorem lexFrom_numeral {digits : List Char} {token : Token} (starts : ∃ c ∈ digits.head?, c.isDigit)
    (reads : Lexeme.numeral (digits ++ rest) = .ok ⟨token, digits.length⟩) :
    lexFrom position (digits ++ rest) found = lexFrom (position + digits.length) rest (⟨token, position⟩ :: found) := by
  obtain ⟨c, first, digit⟩ := starts
  cases digits with
  | nil => cases first
  | cons other digits =>
    cases first
    rw [List.cons_append] at *
    rw [lexFrom_lexeme (isBlank_eq_false (by simp [digit])) ((Lexeme.first_of_isDigit digit _).trans reads)]
    simp

end

end GraphingCalculator
