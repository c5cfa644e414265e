import GraphingCalculator.Json.Library
import GraphingCalculator.Sweep.Interval

/-!
The settings of a plotting service, and their JSON form.
-/

namespace GraphingCalculator

/-- A pair of bounds as it is written. -/
def Bounds.toDatum (bounds : Bounds) : Datum :=
  .ofList .float [bounds.min, bounds.max]

/-- The pair of bounds that a document is. -/
def Bounds.ofJson? (json : JsonLibrary) : Json → Option Bounds
  | .array [min, max] => do
    let min ← json.toFloat? min
    let max ← json.toFloat? max
    return ⟨min, max⟩
  | _ => none

/-- How many texts a service remembers, what it plots when a request does not say, and how fine a
plot may be at most. -/
structure Settings where
  memoCapacity : UInt64 := 100
  lineRange : Bounds := ⟨-10, 10⟩
  lineParts : UInt64 := 100
  surfaceRange : Bounds := ⟨-5, 5⟩
  surfaceParts : UInt64 := 40
  maxLineParts : UInt64 := 10000
  maxSurfaceParts : UInt64 := 200

namespace Settings

/-- The settings of a service that was given none. -/
def default : Settings := {}

/-- The names of the settings in JSON, in the order in which they are written. -/
def fieldNames : List String :=
  ["cache_capacity", "line_range", "line_points", "surface_range", "surface_resolution",
    "max_line_points", "max_surface_resolution"]

/-- The settings as they are written. -/
def toDatum (s : Settings) : Datum :=
  .object <| fieldNames.zip
    [.count s.memoCapacity, s.lineRange.toDatum, .count s.lineParts, s.surfaceRange.toDatum,
      .count s.surfaceParts, .count s.maxLineParts, .count s.maxSurfaceParts]

/-- The settings that a document describes. What it leaves out has its default. -/
def ofJson? (json : JsonLibrary) (j : Json) : Option Settings := do
  match ← json.toFields? fieldNames j with
  | [memoCapacity, lineRange, lineParts, surfaceRange, surfaceParts, maxLineParts,
      maxSurfaceParts] =>
    return {
      memoCapacity := ← memoCapacity.elim (some default.memoCapacity) json.toCount?
      lineRange := ← lineRange.elim (some default.lineRange) (Bounds.ofJson? json)
      lineParts := ← lineParts.elim (some default.lineParts) json.toCount?
      surfaceRange := ← surfaceRange.elim (some default.surfaceRange) (Bounds.ofJson? json)
      surfaceParts := ← surfaceParts.elim (some default.surfaceParts) json.toCount?
      maxLineParts := ← maxLineParts.elim (some default.maxLineParts) json.toCount?
      maxSurfaceParts := ← maxSurfaceParts.elim (some default.maxSurfaceParts) json.toCount? }
  | _ => none

/-- The settings that a text describes. -/
def ofText? (json : JsonLibrary) (text : String) : Option Settings :=
  (json.read? text).bind (ofJson? json)

end Settings

end GraphingCalculator
