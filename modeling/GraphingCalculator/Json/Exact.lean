import GraphingCalculator.Json.Parser
import GraphingCalculator.Json.Printer

/-!
A library of JSON that reads each number as the double nearest to it.
-/

namespace GraphingCalculator

/-- The library of these functions, which says this of the texts that it cannot read. -/
def JsonLibrary.exact (complaint : String → String) : JsonLibrary where
  toJsonScalars := .exact
  write? datum := some (JsonScalars.exact.document datum).render
  read? := Json.parse?
  complaint := complaint

end GraphingCalculator
