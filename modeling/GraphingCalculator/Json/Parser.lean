import GraphingCalculator.Json.Literal

/-!
Reading JSON. The text must be a document and nothing else; only blanks may stand around it.
-/

namespace GraphingCalculator.Json

/-- Whether the character may stand between the parts of a document. -/
def isSpace (c : Char) : Bool :=
  c == ' ' || c == '\t' || c == '\n' || c == '\r'

/-- The text after the blanks at its front. -/
def skipSpace (text : List Char) : List Char :=
  text.dropWhile isSpace

/-- The body of a string whose opening quote has been taken, and the text after its closing quote.
The characters found so far come in the reverse of their order. Escapes must be well formed, and
control characters must be escaped. -/
def takeBody (found : List Char) : List Char → Option (String × List Char)
  | [] => none
  | c :: rest =>
    if c = '"' then some (String.ofList found.reverse, rest)
    else if c = '\\' then
      match rest with
      | [] => none
      | mark :: rest =>
        if mark = 'u' then
          match rest with
          | w :: x :: y :: z :: rest =>
            if (hexUnit? w x y z).isSome then
              takeBody (z :: y :: x :: w :: 'u' :: '\\' :: found) rest
            else none
          | _ => none
        else if (shortEscape? mark).isSome then takeBody (mark :: '\\' :: found) rest
        else none
    else if c.toNat < 0x20 then none
    else takeBody (c :: found) rest

/-- The digits at the front of a text, at least one, and the text after them. -/
def takeDigits (text : List Char) : Option (List Char × List Char) :=
  match text.takeWhile Char.isDigit with
  | [] => none
  | digits => some (digits, text.dropWhile Char.isDigit)

/-- The digits after a point, if there is one. -/
def takeFraction : List Char → Option (List Char × List Char)
  | '.' :: rest => takeDigits rest
  | text => some ([], text)

/-- The power of ten behind its mark, if there is one. -/
def takeExponent : List Char → Option (Option Int × List Char)
  | mark :: rest =>
    if mark == 'e' || mark == 'E' then
      let (negative, unsigned) :=
        match rest with
        | '-' :: unsigned => (true, unsigned)
        | '+' :: unsigned => (false, unsigned)
        | _ => (false, rest)
      (takeDigits unsigned).map fun (digits, rest) =>
        let size : Int := Decimal.digitsValue digits
        (some (if negative then -size else size), rest)
    else some (none, mark :: rest)
  | [] => some (none, [])

/-- The number at the front of a text. Its whole part starts with zero only when it is zero. -/
def takeNumeral (text : List Char) : Option (Numeral × List Char) := do
  let (negative, unsigned) :=
    match text with
    | '-' :: unsigned => (true, unsigned)
    | _ => (false, text)
  let (whole, rest) ← takeDigits unsigned
  if whole.head? = some '0' && 1 < whole.length then none
  let (fraction, rest) ← takeFraction rest
  let (exponent, rest) ← takeExponent rest
  return (⟨negative, whole, fraction, exponent⟩, rest)

mutual

/-- The document at the front of a text. -/
def takeValue : Nat → List Char → Option (Json × List Char)
  | 0, _ => none
  | fuel + 1, text =>
    match skipSpace text with
    | 'n' :: 'u' :: 'l' :: 'l' :: rest => some (.null, rest)
    | 't' :: 'r' :: 'u' :: 'e' :: rest => some (.bool true, rest)
    | 'f' :: 'a' :: 'l' :: 's' :: 'e' :: rest => some (.bool false, rest)
    | '"' :: rest => (takeBody [] rest).map fun (body, rest) => (.string body, rest)
    | '[' :: rest =>
      match skipSpace rest with
      | ']' :: rest => some (.array [], rest)
      | _ => takeItems fuel [] rest
    | '\x7b' :: rest =>
      match skipSpace rest with
      | '\x7d' :: rest => some (.object [], rest)
      | _ => takeMembers fuel [] rest
    | start => (takeNumeral start).map fun (n, rest) => (.number n, rest)

/-- The array whose items start with the ones found, in the reverse of their order. -/
def takeItems : Nat → List Json → List Char → Option (Json × List Char)
  | 0, _, _ => none
  | fuel + 1, found, text =>
    match takeValue fuel text with
    | none => none
    | some (item, rest) =>
      match skipSpace rest with
      | ',' :: rest => takeItems fuel (item :: found) rest
      | ']' :: rest => some (.array (item :: found).reverse, rest)
      | _ => none

/-- The object whose members start with the ones found, in the reverse of their order. -/
def takeMembers : Nat → List (String × Json) → List Char → Option (Json × List Char)
  | 0, _, _ => none
  | fuel + 1, found, text =>
    match skipSpace text with
    | '"' :: rest =>
      match takeBody [] rest with
      | none => none
      | some (key, rest) =>
        match skipSpace rest with
        | ':' :: rest =>
          match takeValue fuel rest with
          | none => none
          | some (value, rest) =>
            match skipSpace rest with
            | ',' :: rest => takeMembers fuel ((key, value) :: found) rest
            | '\x7d' :: rest => some (.object ((key, value) :: found).reverse, rest)
            | _ => none
        | _ => none
    | _ => none

end

/-- The document that a text is. Two steps are enough for each character: one for a bracket or a
comma, and one for the value behind it. -/
def parse? (text : String) : Option Json := do
  let characters := text.toList
  let (document, rest) ← takeValue (2 * characters.length + 1) characters
  if (skipSpace rest).isEmpty then some document else none

end GraphingCalculator.Json
