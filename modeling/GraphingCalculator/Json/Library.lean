import GraphingCalculator.Json.Basic

/-!
A library of JSON, as a parameter. How numbers and strings are written is the library's affair, and so
are the texts that it accepts. What may be assumed of it is said by `WritesJson` and `RoundTrips`.
-/

namespace GraphingCalculator

/-- How a library writes and reads the values without parts. -/
structure JsonScalars where
  /-- The body of a string with this meaning. -/
  quote : String → String
  /-- The meaning of a string's body. -/
  text? : String → Option String
  /-- The document of a double. -/
  ofFloat : Float → Json
  /-- The double that a number is read as. -/
  float? : Numeral → Option Float
  /-- The document of a count. -/
  ofCount : UInt64 → Json
  /-- The count that a number is read as. -/
  count? : Numeral → Option UInt64

namespace JsonScalars
variable (json : JsonScalars)

/-- The text that a document means, if it is a string with a meaning. -/
def toString? : Json → Option String
  | .string body => json.text? body
  | _ => none

/-- The double that a document is read as. -/
def toFloat? : Json → Option Float
  | .number n => json.float? n
  | _ => none

/-- The count that a document is read as. -/
def toCount? : Json → Option UInt64
  | .number n => json.count? n
  | _ => none

/-- The members of an object by the meaning of their keys. -/
def toMembers? : Json → Option (List (String × Json))
  | .object members => members.mapM fun (key, value) => do
    let key ← json.text? key
    return (key, value)
  | _ => none

/-- The fields of a record, in the order of `names`: the members of an object with these keys,
whatever else it has, or the items of an array, of which the last may be missing. -/
def toFields? (names : List String) : Json → Option (List (Option Json))
  | .array items =>
    if items.length ≤ names.length then
      some (items.map some ++ List.replicate (names.length - items.length) none)
    else none
  | j => do
    let members ← json.toMembers? j
    names.mapM (Json.member? members)

mutual

/-- The document of a datum. -/
def document : Datum → Json
  | .null => .null
  | .bool b => .bool b
  | .float x => json.ofFloat x
  | .count n => json.ofCount n
  | .string text => .string (json.quote text)
  | .array items => .array (documents items)
  | .object members => .object (documentsByKey members)

/-- The documents of the items of an array. -/
def documents : List Datum → List Json
  | [] => []
  | item :: rest => document item :: documents rest

/-- The documents of the members of an object, with their keys as they are written. -/
def documentsByKey : List (String × Datum) → List (String × Json)
  | [] => []
  | (key, value) :: rest => (json.quote key, document value) :: documentsByKey rest

end

end JsonScalars

/-- A library of JSON. -/
structure JsonLibrary extends JsonScalars where
  /-- The text of a datum. -/
  write? : Datum → Option String
  /-- The document that a text is. -/
  read? : String → Option Json
  /-- What the library says of a text that it does not read as what is wanted. -/
  complaint : String → String

namespace JsonLibrary

/-- Texts in which more arrays and objects than this stand in one another need not be read. -/
def depthLimit : Nat := 127

/-- Each datum that is not too deep is written as a text that is read as its document, and strings
mean what they were written for. -/
structure WritesDocuments (json : JsonLibrary) : Prop where
  exists_text {datum : Datum} : datum.Within depthLimit →
    ∃ text, json.write? datum = some text ∧ json.read? text = some (json.document datum)
  text?_quote (text : String) : json.text? (json.quote text) = some text

/-- What is written is JSON, with null for a double that is not finite. -/
structure WritesJson (json : JsonLibrary) : Prop extends WritesDocuments json where
  ofFloat_of_isFinite {x : Float} : x.isFinite → ∃ n, json.ofFloat x = .number n
  ofFloat_of_not_isFinite {x : Float} : x.isFinite = false → json.ofFloat x = .null

/-- Strings, counts and finite doubles are read as what they were written for, and a number is never
read as a double that is not finite. A library that rounds twice when it reads a number may miss the
double by its last bit; such a library is not meant. -/
structure RoundTrips (json : JsonLibrary) : Prop extends WritesDocuments json where
  toCount?_ofCount (n : UInt64) : json.toCount? (json.ofCount n) = some n
  toFloat?_ofFloat {x : Float} : x.isFinite → json.toFloat? (json.ofFloat x) = some x
  isFinite_of_float? {n : Numeral} {x : Float} : json.float? n = some x → x.isFinite

end JsonLibrary

end GraphingCalculator
