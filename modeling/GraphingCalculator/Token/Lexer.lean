import GraphingCalculator.Text.Blank
import GraphingCalculator.Token.Basic

/-!
Cutting a text into tokens. Each step takes the longest lexeme at the front of the text: a sign, a
run of letters, or a numeral. `Lexeme.first` is one step and `lex` goes through the whole text.
-/

namespace GraphingCalculator

/-- A character that starts no token, or a point where no numeral can have one. -/
structure LexError where
  position : Nat
  found : Char
deriving DecidableEq, Repr

/-- The message for a text that cannot be cut into tokens. -/
def LexError.message (error : LexError) : String :=
  .join ["unexpected character '", error.found.toString, "' at position ", toString error.position]

/-- A token and the number of characters that it covers. -/
structure Lexeme where
  token : Token
  length : Nat

namespace Lexeme

/-- The digits at the front of a text. -/
def digits (text : List Char) : List Char :=
  text.takeWhile Char.isDigit

/-- The point at the front of a text and the digits after it; nothing without a point. -/
def pointed : List Char → List Char
  | '.' :: rest => '.' :: digits rest
  | _ => []

/-- The power of ten at the front of a text. The letter starts one only when a digit follows at
once; otherwise nothing is taken, and `2e` is two times a constant. -/
def powerOfTen : List Char → List Char
  | mark :: rest =>
    if (mark == 'e' || mark == 'E') && !(digits rest).isEmpty then mark :: digits rest else []
  | [] => []

/-- The numeral at the front of a text that starts with a digit or a point. A point without a
digit on either side is no numeral, and none is directly followed by another point. The error
says how far from the front the wrong character stands. -/
def numeral (text : List Char) : Except LexError Lexeme :=
  let whole := digits text
  let fraction := pointed (text.drop whole.length)
  let power := powerOfTen (text.drop (whole.length + fraction.length))
  let length := whole.length + fraction.length + power.length
  if whole.isEmpty && fraction.length ≤ 1 then .error ⟨0, '.'⟩
  else if (text.drop length).head? = some '.' then .error ⟨length, '.'⟩
  else
    let exponent := Decimal.digitsValue power.tail
    .ok ⟨.number (Decimal.ofDigits whole fraction.tail exponent).toFloat, length⟩

/-- The lexeme at the front of a text, which is given by its first character and the rest. -/
def first (c : Char) (rest : List Char) : Except LexError Lexeme :=
  if c = '(' then .ok ⟨.leftParen, 1⟩
  else if c = ')' then .ok ⟨.rightParen, 1⟩
  else if c = ',' then .ok ⟨.comma, 1⟩
  else if c = 'π' then .ok ⟨.identifier Constant.pi.name, 1⟩
  else
    match Operator.ofSymbol? c with
    | some op => .ok ⟨.operator op, 1⟩
    | none =>
      if c.isDigit || c == '.' then numeral (c :: rest)
      else if c.isAlpha then
        let letters := c :: rest.takeWhile Char.isAlpha
        .ok ⟨.identifier (String.ofList letters), letters.length⟩
      else .error ⟨0, c⟩

end Lexeme

/-- Puts the tokens of `text`, which starts at `position`, after the ones found so far. Those come
in the reverse of their order. -/
def lexFrom (position : Nat) (text : List Char) (found : List PlacedToken) :
    Except LexError (List PlacedToken) :=
  match text with
  | [] => .ok (⟨.endOfInput, position⟩ :: found).reverse
  | c :: rest =>
    if isBlank c then lexFrom (position + 1) rest found
    else
      match Lexeme.first c rest with
      | .error error => .error ⟨position + error.position, error.found⟩
      | .ok lexeme =>
        lexFrom (position + lexeme.length) (rest.drop (lexeme.length - 1))
          (⟨lexeme.token, position⟩ :: found)
termination_by text.length

/-- What has been found before only stands in front of the tokens of the text. -/
theorem lexFrom_eq_map (position : Nat) (text : List Char) (found : List PlacedToken) :
    lexFrom position text found = (lexFrom position text []).map (found.reverse ++ ·) := by
  induction size : text.length using Nat.strongRecOn generalizing position text found with
  | ind n ih =>
    cases text with
    | nil => simp [lexFrom, Except.map]
    | cons c rest =>
      simp only [List.length_cons] at size
      rw [lexFrom, lexFrom]
      split
      · exact ih rest.length (by omega) _ _ _ rfl
      · split
        · rfl
        · next lexeme _ =>
          have shorter : (rest.drop (lexeme.length - 1)).length < n := by
            rw [List.length_drop]; omega
          rw [ih _ shorter _ _ (_ :: found) rfl, ih _ shorter _ _ [_] rfl]
          cases lexFrom (position + lexeme.length) (rest.drop (lexeme.length - 1)) [] <;>
            simp [Except.map]

/-- The tokens of a text, with the end of the input as the last one. -/
def lex (source : String) : Except LexError (List PlacedToken) :=
  lexFrom 0 source.toList []

end GraphingCalculator
