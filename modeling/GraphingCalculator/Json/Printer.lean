import GraphingCalculator.Json.Basic

/-!
The text of a JSON document, without any blanks.
-/

namespace GraphingCalculator.Json

/-- A string with its quotes. -/
def quoted (body : String) : String :=
  "\"" ++ body ++ "\""

mutual

/-- The text of a document. -/
def render : Json → String
  | .null => "null"
  | .bool b => if b then "true" else "false"
  | .number n => n.render
  | .string body => quoted body
  | .array items => "[" ++ ",".intercalate (renderItems items) ++ "]"
  | .object members => "\x7b" ++ ",".intercalate (renderMembers members) ++ "\x7d"

/-- The texts of the items of an array. -/
def renderItems : List Json → List String
  | [] => []
  | item :: rest => item.render :: renderItems rest

/-- The texts of the members of an object. -/
def renderMembers : List (String × Json) → List String
  | [] => []
  | (key, value) :: rest => (quoted key ++ ":" ++ value.render) :: renderMembers rest

end

end GraphingCalculator.Json
