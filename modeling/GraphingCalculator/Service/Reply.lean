import GraphingCalculator.Failure
import GraphingCalculator.Json.Basic

/-!
Replies of a plotting service, and their JSON form.
-/

namespace GraphingCalculator

/-- The reply to a request: what was asked for, or why there is none. The last case is the reply
to a text that is no request, with the complaint about it. -/
inductive Reply where
  | scalar (expression : String) (result : Except Failure Float)
  | line (result : Except Failure Line)
  | surface (result : Except Failure Surface)
  | invalidRequest (complaint : String)

namespace Reply

/-- The message of a reply that failed. -/
def error? : Reply → Option String
  | scalar _ (.error failure) => some failure.message
  | line (.error failure) => some failure.message
  | surface (.error failure) => some failure.message
  | invalidRequest complaint => some (.join ["invalid request: ", complaint])
  | _ => none

/-- Whether the reply holds what was asked for. -/
def isSuccess (reply : Reply) : Bool :=
  reply.error?.isNone

/-- The outcome at a point as it is written; a point without a value is null. -/
def outcomeToDatum : Outcome → Datum
  | .ok value => .float value
  | .error _ => .null

/-- The members that hold the values. A plot that failed has them too, without any values. -/
def payload : Reply → List (String × Datum)
  | scalar _ (.ok value) => [("value", .float value)]
  | scalar _ (.error _) => []
  | line (.ok plot) =>
    [("x", .ofList .float plot.xs), ("z", .ofList outcomeToDatum plot.outcomes)]
  | line (.error _) => [("x", .array []), ("z", .array [])]
  | surface (.ok plot) =>
    [("x", .ofList .float plot.xs), ("y", .ofList .float plot.ys),
      ("z", .ofList (.ofList outcomeToDatum) plot.outcomes)]
  | surface (.error _) => [("x", .array []), ("y", .array []), ("z", .array [])]
  | invalidRequest _ => []

/-- The text of the expression, in the replies that repeat it. -/
def expression? : Reply → Option String
  | scalar text _ => some text
  | invalidRequest _ => some ""
  | line _ | surface _ => none

/-- The members of the reply as it is written. -/
def members (reply : Reply) : List (String × Datum) :=
  (reply.expression?.map fun text => ("expression", .string text)).toList ++
    [("success", .bool reply.isSuccess)] ++ reply.payload ++
    (reply.error?.map fun message => ("error", .string message)).toList

/-- The reply as it is written. -/
def toDatum (reply : Reply) : Datum := .object reply.members

end Reply

end GraphingCalculator
