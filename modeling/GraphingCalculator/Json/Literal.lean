import GraphingCalculator.Json.Library

/-!
Numbers and strings as JSON has them. Each number is read as the double that is nearest to it.
-/

namespace GraphingCalculator

namespace Json

/-- The layout of numbers: a point in every number, and powers of ten below `10 ^ -5` and from
`10 ^ 16` on. -/
def numberLayout : Layout where
  tie := .even
  isPositional power := -5 ≤ power && power < 16
  emptyFraction := ['0']

/-- The digits of a number from zero to fifteen. -/
def hexDigit (n : Nat) : Char :=
  "0123456789abcdef".toList.getD n '0'

/-- The escape of a character in a string; most characters stand for themselves. -/
def escapeChar (c : Char) : List Char :=
  if c = '"' then ['\\', '"']
  else if c = '\\' then ['\\', '\\']
  else if c = '\x08' then ['\\', 'b']
  else if c = '\x0c' then ['\\', 'f']
  else if c = '\n' then ['\\', 'n']
  else if c = '\r' then ['\\', 'r']
  else if c = '\t' then ['\\', 't']
  else if c.toNat < 0x20 then
    ['\\', 'u', '0', '0', hexDigit (c.toNat / 16), hexDigit (c.toNat % 16)]
  else [c]

/-- The body of a string with this meaning. -/
def escape (text : String) : String :=
  String.ofList (text.toList.flatMap escapeChar)

/-- What an escape of two characters stands for. -/
def shortEscape? : Char → Option Char
  | '"' => some '"'
  | '\\' => some '\\'
  | '/' => some '/'
  | 'b' => some '\x08'
  | 'f' => some '\x0c'
  | 'n' => some '\n'
  | 'r' => some '\r'
  | 't' => some '\t'
  | _ => none

/-- The value of a hexadecimal digit. -/
def hexValue? (c : Char) : Option Nat :=
  if '0' ≤ c && c ≤ '9' then some (c.toNat - '0'.toNat)
  else if 'a' ≤ c && c ≤ 'f' then some (c.toNat - 'a'.toNat + 10)
  else if 'A' ≤ c && c ≤ 'F' then some (c.toNat - 'A'.toNat + 10)
  else none

/-- The value of four hexadecimal digits. -/
def hexUnit? (a b c d : Char) : Option Nat := do
  let a ← hexValue? a
  let b ← hexValue? b
  let c ← hexValue? c
  let d ← hexValue? d
  return ((a * 16 + b) * 16 + c) * 16 + d

/-- Whether a unit is the first half of a surrogate pair. -/
def isHighSurrogate (unit : Nat) : Bool := 0xd800 ≤ unit && unit < 0xdc00

/-- Whether a unit is the second half of a surrogate pair. -/
def isLowSurrogate (unit : Nat) : Bool := 0xdc00 ≤ unit && unit < 0xe000

/-- The character of a surrogate pair. -/
def surrogatePair (high low : Nat) : Char :=
  Char.ofNat (0x10000 + (high - 0xd800) * 0x400 + (low - 0xdc00))

/-- Reads a string's body from where `high` waits for the second half of its pair. The characters
read so far come in the reverse of their order. Half a pair on its own has no meaning. -/
def unescapeFrom (high : Option Nat) (found : List Char) : List Char → Option (List Char)
  | [] => if high.isNone then some found.reverse else none
  | c :: rest =>
    if c ≠ '\\' then
      if high.isNone then unescapeFrom none (c :: found) rest else none
    else
      match rest with
      | [] => none
      | mark :: rest =>
        if mark = 'u' then
          match rest with
          | w :: x :: y :: z :: rest =>
            match hexUnit? w x y z, high with
            | none, _ => none
            | some unit, some high =>
              if isLowSurrogate unit then unescapeFrom none (surrogatePair high unit :: found) rest
              else none
            | some unit, none =>
              if isHighSurrogate unit then unescapeFrom (some unit) found rest
              else if isLowSurrogate unit then none
              else unescapeFrom none (Char.ofNat unit :: found) rest
          | _ => none
        else
          match shortEscape? mark, high with
          | some meant, none => unescapeFrom none (meant :: found) rest
          | _, _ => none

/-- The meaning of a string's body, unless half of a surrogate pair stands alone in it. -/
def unescape? (body : String) : Option String :=
  (unescapeFrom none [] body.toList).map String.ofList

/-- A double as a document. What is not finite has no number and becomes null. -/
def ofFloat (x : Float) : Json :=
  if x.isFinite then .number (numberLayout.numeral x) else .null

/-- The double that is nearest to a number. A number that is too large for a double is refused. -/
def float? (n : Numeral) : Option Float :=
  if n.toFloat.isFinite then some n.toFloat else none

/-- The count as a document. -/
def ofCount (n : UInt64) : Json :=
  .number ⟨false, Nat.toDigits 10 n.toNat, [], none⟩

/-- The 64-bit count that a number is: digits alone, without sign, point or power of ten. -/
def count? : Numeral → Option UInt64
  | ⟨false, digits, [], none⟩ =>
    let value := Decimal.digitsValue digits
    if value < UInt64.size then some (UInt64.ofNat value) else none
  | _ => none

end Json

/-- Values written and read in this way. -/
def JsonScalars.exact : JsonScalars where
  quote := Json.escape
  text? := Json.unescape?
  ofFloat := Json.ofFloat
  float? := Json.float?
  ofCount := Json.ofCount
  count? := Json.count?

end GraphingCalculator
