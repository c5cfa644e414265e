import GraphingCalculator.Calculator
import GraphingCalculator.Dictation
import GraphingCalculator.Service.Reply
import GraphingCalculator.Service.Request

/-!
The plotting service: it answers requests one after the other with one calculator, so that a text
that was asked about lately need not be read again.
-/

namespace GraphingCalculator

/-- The settings, and the calculator that the requests share. -/
structure Service (lru : TreeCaches) where
  settings : Settings
  calculator : Calculator lru

namespace Service
variable {lru : TreeCaches}

/-- A service that has answered nothing yet, if there can be a memo as large as the settings say. -/
def new? (lru : TreeCaches) (settings : Settings) : Option (Service lru) :=
  (Calculator.new? lru settings.memoCapacity.toNat).map fun calculator => ⟨settings, calculator⟩

/-- A plot gives values to fixed variables only. The first other one, in the order of code points,
is an error. -/
def requireWithin (allowed : List String) (e : Expr) : Except Failure Unit :=
  match e.unknowns.find? (!allowed.contains ·) with
  | some name => .error (.evaluation (.unbound name))
  | none => .ok ()

/-- A plot must not be finer than the settings allow. -/
def requireLimit (requested limit : UInt64) : Except Failure Unit :=
  if limit < requested then .error (.tooManyParts requested.toNat limit.toNat) else .ok ()

/-- The line plot that a request asks for. -/
def plotLine (settings : Settings) (request : Request) (e : Expr) : Except Failure Line := do
  requireWithin [horizontalName] e
  let range := (request.ranges.map (·.x)).getD settings.lineRange
  let parts := request.resolution.getD settings.lineParts
  requireLimit parts settings.maxLineParts
  (e.sweepLine horizontalName range parts.toNat).mapError .sweep

/-- The surface plot that a request asks for. -/
def plotSurface (settings : Settings) (request : Request) (e : Expr) :
    Except Failure Surface := do
  requireWithin [horizontalName, verticalName] e
  let xRange := (request.ranges.map (·.x)).getD settings.surfaceRange
  let yRange := (request.ranges.map fun ranges => ranges.y.getD ranges.x).getD settings.surfaceRange
  let parts := request.resolution.getD settings.surfaceParts
  requireLimit parts settings.maxSurfaceParts
  (e.sweepSurface xRange yRange parts.toNat).mapError .sweep

/-- The text that is read for a request: its expression, written out first when it is spoken. -/
def source (request : Request) : String :=
  if request.spoken then Dictation.transcribe request.expression else request.expression

/-- Answers a request. -/
def answer (service : Service lru) (request : Request) : Reply × Service lru :=
  let text := source request
  match request.mode with
  | .scalar =>
    let (result, calculator) := service.calculator.eval text request.environment
    (.scalar text result, { service with calculator })
  | .line =>
    let (result, calculator) :=
      service.calculator.ask text (plotLine service.settings request)
    (.line result, { service with calculator })
  | .surface =>
    let (result, calculator) :=
      service.calculator.ask text (plotSurface service.settings request)
    (.surface result, { service with calculator })

/-- Answers a text that should be a request in JSON; the reply is in JSON as well, if the library
writes it. -/
def answerText (json : JsonLibrary) (service : Service lru) (body : String) :
    Option String × Service lru :=
  match Request.ofText? json body with
  | some request =>
    let (reply, service) := service.answer request
    (json.write? reply.toDatum, service)
  | none => (json.write? (Reply.invalidRequest (json.complaint body)).toDatum, service)

end Service

end GraphingCalculator
