import GraphingCalculator.Environment
import GraphingCalculator.Service.Settings

/-!
Requests to a plotting service, and their JSON form.
-/

namespace GraphingCalculator

/-- What is asked for: one value, a line plot, or a surface plot. -/
inductive Mode where
  | scalar
  | line
  | surface
deriving DecidableEq, Repr

namespace Mode

/-- The name of the mode in JSON. -/
def name : Mode → String
  | scalar => "scalar"
  | line => "line"
  | surface => "surface"

/-- The mode of a name. -/
def ofName? : String → Option Mode
  | "scalar" => some scalar
  | "line" => some line
  | "surface" => some surface
  | _ => none

/-- The mode that a document names: by its name alone, or by an object whose one member has that
name and is null. -/
def ofJson? (json : JsonLibrary) : Json → Option Mode
  | .object [(key, .null)] => do ofName? (← json.text? key)
  | j => do ofName? (← json.toString? j)

theorem ofName?_name (mode : Mode) : ofName? mode.name = some mode := by
  cases mode <;> rfl

end Mode

/-- The ranges of a plot. A surface without a range of `y` takes the one of `x`. -/
structure Ranges where
  x : Bounds
  y : Option Bounds

namespace Ranges

/-- The ranges as they are written. -/
def toDatum (ranges : Ranges) : Datum :=
  .object <| ("x", ranges.x.toDatum) ::
    match ranges.y with
    | none => []
    | some y => [("y", y.toDatum)]

/-- The ranges that a document describes. -/
def ofJson? (json : JsonLibrary) (j : Json) : Option Ranges := do
  match ← json.toFields? ["x", "y"] j with
  | [some x, y] =>
    return ⟨← Bounds.ofJson? json x, ← y.elim (some none) (Json.orNull (Bounds.ofJson? json))⟩
  | _ => none

end Ranges

/-- A request. The environment is for single values, ranges and resolution for plots. A spoken
expression is dictated and not typed. -/
structure Request where
  expression : String
  mode : Mode := .scalar
  ranges : Option Ranges := none
  resolution : Option UInt64 := none
  environment : Environment := .empty
  spoken : Bool := false

namespace Request

/-- The environment that the members of an object make. A name that comes again has its last
value. -/
def environmentOfJson? (json : JsonLibrary) (j : Json) : Option Environment := do
  let members ← json.toMembers? j
  let pairs ← members.mapM fun (name, value) => do
    let value ← json.toFloat? value
    return (name, value)
  return Environment.ofList pairs

/-- The environment as it is written. -/
def environmentToDatum (env : Environment) : Datum :=
  .object <| env.bindings.map fun (name, value) => (name, .float value)

/-- The request as it is written. What is absent or empty is left out. -/
def toDatum (r : Request) : Datum :=
  .object <|
    [("expression", .string r.expression), ("mode", .string r.mode.name)] ++
    (r.ranges.map fun ranges => ("ranges", ranges.toDatum)).toList ++
    (r.resolution.map fun count => ("resolution", .count count)).toList ++
    (if r.environment.bindings.isEmpty then []
      else [("variables", environmentToDatum r.environment)]) ++
    [("spoken", .bool r.spoken)]

/-- The request that a document describes. Only the expression is required. -/
def ofJson? (json : JsonLibrary) (j : Json) : Option Request := do
  match ← json.toFields?
      ["expression", "mode", "ranges", "resolution", "variables", "spoken"] j with
  | [some expression, mode, ranges, resolution, environment, spoken] =>
    return {
      expression := ← json.toString? expression
      mode := ← mode.elim (some .scalar) (Mode.ofJson? json)
      ranges := ← ranges.elim (some none) (Json.orNull (Ranges.ofJson? json))
      resolution := ← resolution.elim (some none) (Json.orNull json.toCount?)
      environment := ← environment.elim (some .empty) (environmentOfJson? json)
      spoken := ← spoken.elim (some false) Json.toBool? }
  | _ => none

/-- The request that a text describes. -/
def ofText? (json : JsonLibrary) (text : String) : Option Request :=
  (json.read? text).bind (ofJson? json)

end Request

end GraphingCalculator
