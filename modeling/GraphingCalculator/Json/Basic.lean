import GraphingCalculator.Number.Numeral

/-!
JSON documents, and what documents are made from. In a document numbers and strings stay as they were
written until someone reads them: whether a number is small enough, or a string has a meaning, matters
only where its value is used.
-/

namespace GraphingCalculator

/-- A JSON document. The body of a string is what stands between its quotes. Members keep their
order and may repeat a key. -/
inductive Json where
  | null
  | bool (b : Bool)
  | number (n : Numeral)
  | string (body : String)
  | array (items : List Json)
  | object (members : List (String × Json))

namespace Json

/-- The truth value that a document is. -/
def toBool? : Json → Option Bool
  | .bool b => some b
  | _ => none

/-- Null as nothing, and all else as it is read. -/
def orNull {α : Type} (read : Json → Option α) : Json → Option (Option α)
  | .null => some none
  | j => (read j).map some

/-- The one member with this key, or nothing when there is none. It must not come twice. -/
def member? (members : List (String × Json)) (key : String) : Option (Option Json) :=
  match members.filter (·.1 = key) with
  | [] => some none
  | [(_, value)] => some (some value)
  | _ => none

end Json

/-- What can be written as a document. Numbers and texts are still values. -/
inductive Datum where
  | null
  | bool (b : Bool)
  | float (x : Float)
  | count (n : UInt64)
  | string (text : String)
  | array (items : List Datum)
  | object (members : List (String × Datum))

/-- No more than so many arrays and objects stand in one another. -/
inductive Datum.Within : Datum → Nat → Prop where
  | null {depth : Nat} : Within .null depth
  | bool {depth : Nat} (b : Bool) : Within (.bool b) depth
  | float {depth : Nat} (x : Float) : Within (.float x) depth
  | count {depth : Nat} (n : UInt64) : Within (.count n) depth
  | string {depth : Nat} (text : String) : Within (.string text) depth
  | array {depth : Nat} {items : List Datum} (each : ∀ item ∈ items, Within item depth) :
    Within (.array items) (depth + 1)
  | object {depth : Nat} {members : List (String × Datum)}
      (each : ∀ member ∈ members, Within member.2 depth) : Within (.object members) (depth + 1)

/-- The datum of a list. -/
def Datum.ofList {α : Type} (item : α → Datum) (items : List α) : Datum :=
  .array (items.map item)

end GraphingCalculator
