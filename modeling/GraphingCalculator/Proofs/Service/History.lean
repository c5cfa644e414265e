import GraphingCalculator.Json.Exact
import GraphingCalculator.Proofs.Calculator.History
import GraphingCalculator.Proofs.Expr.Evaluation
import GraphingCalculator.Service.Basic

/-!
What a service shows of the calls it has had, and what they leave behind in it.

A response shows nothing of them: it is made from the settings and the call alone (`call_response`),
so the responses to a list of calls are those of a new service to each of the calls
(`responses_eq_map`). What a call leaves behind is that its text has been used (`call_service`), if it
has a text and the text can be read. What can be seen of a service after a list of calls is a function
of these texts (`state_after`). All of this holds for any library of caches and any library of JSON.
-/

namespace GraphingCalculator.Service

/-- What a service can be asked: a request, or a text that should be one in JSON. -/
inductive Call where
  | ask (request : Request)
  | askText (body : String)

/-- What comes back from a call: a reply, or the text of one, if the library writes it. -/
inductive Response where
  | reply (reply : Reply)
  | text (body? : Option String)

section
variable (json : JsonLibrary)

namespace Call

/-- The request that a call makes. A text that is no request makes none. -/
def request? : Call → Option Request
  | ask request => some request
  | askText body => Request.ofText? json body

/-- The complaint about a call that makes no request. -/
def complaint : Call → String
  | ask _ => ""
  | askText body => json.complaint body

/-- A reply in the form in which the call gets it. -/
def deliver (reply : Reply) : Call → Response
  | ask _ => .reply reply
  | askText _ => .text (json.write? reply.toDatum)

/-- The text that a call leaves behind as used: the one of its request, if that text can be read. -/
def trace? (call : Call) : Option String :=
  ((call.request? json).map source).filter Calculator.readable

end Call

/-- The reply to a request when nothing is remembered. -/
def directReply (settings : Settings) (request : Request) : Reply :=
  let text := source request
  match request.mode with
  | .scalar => .scalar text (Expr.evalSource text request.environment)
  | .line => .line ((Expr.read text).bind (plotLine settings request))
  | .surface => .surface ((Expr.read text).bind (plotSurface settings request))

/-- The response to a call when nothing is remembered. -/
def directResponse (settings : Settings) (call : Call) : Response :=
  call.deliver json (((call.request? json).map (directReply settings)).getD (.invalidRequest (call.complaint json)))

variable {lru : TreeCaches}

/-- One call of a service. -/
def call (service : Service lru) : Call → Response × Service lru
  | .ask request =>
    let (reply, service) := service.answer request
    (.reply reply, service)
  | .askText body =>
    let (answer, service) := service.answerText json body
    (.text answer, service)

/-- The responses to calls that are made one after the other. -/
def responses (service : Service lru) : List Call → List Response
  | [] => []
  | call :: calls => (service.call json call).1 :: (service.call json call).2.responses calls

/-- A service after calls. -/
def after (service : Service lru) (calls : List Call) : Service lru :=
  calls.foldl (fun service call => (service.call json call).2) service

/-- A service that has used a text. -/
def useText (service : Service lru) (text : String) : Service lru :=
  { service with calculator := (service.calculator.parse text).2 }

end

/-- What can be seen of a service: its settings, and the contents of its calculator. -/
structure State where
  settings : Settings
  contents : Calculator.Contents

/-- The state after the use of a text. -/
def State.use (state : State) (text : String) : State := { state with contents := state.contents.use text }

section
variable {lru : TreeCaches} (json : JsonLibrary) (service : Service lru) (settings : Settings)

/-- What can be seen of a service. -/
def state : State := ⟨service.settings, service.calculator.contents⟩

theorem settings_of_new? {service : Service lru} {settings : Settings} (opens : new? lru settings = some service) :
    service.settings = settings := by
  obtain ⟨calculator, -, rfl⟩ := Option.map_eq_some_iff.mp opens
  rfl

/-! ### Responses -/

theorem answer_reply (request : Request) : (service.answer request).1 = directReply service.settings request := by
  unfold answer directReply
  cases request.mode with
  | scalar => exact congrArg (Reply.scalar _) (service.calculator.eval_answer _ _)
  | line => exact congrArg Reply.line (service.calculator.ask_answer _ _)
  | surface => exact congrArg Reply.surface (service.calculator.ask_answer _ _)

theorem answer_service (request : Request) : (service.answer request).2 = service.useText (source request) := by
  -- each mode asks the calculator once, before its own checks
  unfold answer
  cases request.mode <;> rfl

theorem call_response (call : Call) : (service.call json call).1 = directResponse json service.settings call := by
  cases call with
  | ask request => exact congrArg Response.reply (service.answer_reply request)
  | askText body =>
    simp only [Service.call, answerText, directResponse, Call.request?, Call.deliver]
    cases Request.ofText? json body with
    | none => rfl
    | some request =>
      exact congrArg (fun reply => Response.text (json.write? reply.toDatum)) (service.answer_reply request)

theorem call_service (call : Call) :
    (service.call json call).2 = (call.request? json).elim service fun request => service.useText (source request) := by
  cases call with
  | ask request => exact service.answer_service request
  | askText body =>
    simp only [Service.call, answerText, Call.request?]
    cases Request.ofText? json body with
    | none => rfl
    | some request => exact service.answer_service request

theorem settings_call (call : Call) : (service.call json call).2.settings = service.settings := by
  rw [call_service]
  cases call.request? json <;> rfl

theorem after_cons (call : Call) (calls : List Call) :
    service.after json (call :: calls) = (service.call json call).2.after json calls := rfl

theorem responses_eq_map (calls : List Call) :
    service.responses json calls = calls.map (directResponse json service.settings) := by
  induction calls generalizing service with
  | nil => rfl
  | cons call calls ih => rw [responses, ih, settings_call, call_response, List.map_cons]

/-- How much a service may remember shows in no response. -/
theorem directResponse_memoCapacity (capacity : UInt64) (call : Call) :
    directResponse json { settings with memoCapacity := capacity } call = directResponse json settings call := rfl

variable {settings} {service} {capacity : UInt64} {fresh : Service lru}

/-- Responses do not depend on history. Each of them is the one that a new service gives, which may remember
any number of texts, so a call is answered in the same way wherever it stands among other calls; and a single
value is the one that the text has by itself, in whatever order the request lists the variables. -/
theorem responses_independent_of_history (opens : new? lru settings = some service)
    (freshOpens : new? lru { settings with memoCapacity := capacity } = some fresh) :
    (∀ calls, service.responses json calls = calls.map fun call => (fresh.call json call).1) ∧
    (∀ (calls others : List Call) (i j : Nat), calls[i]? = others[j]? →
      (service.responses json calls)[i]? = (service.responses json others)[j]?) ∧
    ∀ before call request env, call.request? json = some request → request.mode = .scalar →
      env.bindings.Perm request.environment.bindings →
      ((service.after json before).call json call).1 =
        call.deliver json (.scalar (source request) (Expr.evalSource (source request) env)) := by
  refine ⟨fun calls => ?_, fun calls others i j same => ?_, fun before call request env asks scalar perm => ?_⟩
  · rw [responses_eq_map, settings_of_new? opens]
    refine List.map_congr_left fun call _ => ?_
    rw [call_response, settings_of_new? freshOpens]
    exact (directResponse_memoCapacity json settings capacity call).symm
  · rw [responses_eq_map, responses_eq_map, List.getElem?_map, List.getElem?_map, same]
  · have reordered : Expr.evalSource (source request) env = Expr.evalSource (source request) request.environment := by
      unfold Expr.evalSource
      simp only [Expr.eval_eq_of_perm _ perm]
    rw [call_response, directResponse, asks, Option.map_some, Option.getD_some, directReply, scalar, reordered]

/-- A product has its value also after a text that is no request and one that cannot be read. -/
theorem responses_independent_of_history_product :
    let json := JsonLibrary.exact fun _ => "EOF while parsing a list at line 1 column 1"
    let request : Request := { expression := "2x", environment := .ofList [("x", 3), ("y", 1)] }
    ∃ service : Service (RecentList.library String Parsed), new? _ .default = some service ∧
      (service.responses json [.askText "[", .ask { expression := "2+" }, .ask request])[2]? =
        some (.reply (.scalar "2x" (.ok 6))) := by
  intro json request
  obtain ⟨service, opens⟩ : ∃ service, new? (RecentList.library String Parsed) .default = some service := ⟨_, rfl⟩
  obtain ⟨fresh, freshOpens⟩ : ∃ fresh,
    new? (RecentList.library String Parsed) { Settings.default with memoCapacity := 0 } = some fresh := ⟨_, rfl⟩
  let reordered : Environment := .ofList [("y", 1), ("x", 3)]
  have perm : reordered.bindings.Perm request.environment.bindings := by decide +kernel
  have value : (Expr.evalSource "2x" reordered).toOption = some 6 := by decide +kernel
  obtain ⟨-, moved, single⟩ := responses_independent_of_history json opens freshOpens
  refine ⟨service, opens, ?_⟩
  rw [moved _ [.ask request] 2 0 rfl]
  refine congrArg some ((single [] (.ask request) request reordered rfl rfl perm).trans ?_)
  show Response.reply (.scalar "2x" (Expr.evalSource "2x" reordered)) = _
  cases evaluated : Expr.evalSource "2x" reordered with
  | error failure => simp [evaluated, Except.toOption] at value
  | ok result =>
    obtain rfl : result = 6 := by simpa [evaluated, Except.toOption] using value
    rfl

end

/-! ### What calls leave behind -/

section
variable {lru : TreeCaches} (json : JsonLibrary) (service : Service lru)

theorem state_useText (text : String) : (service.useText text).state = service.state.use text :=
  congrArg (State.mk service.settings) (service.calculator.contents_parse text)

theorem state_useText_of_read_error {text : String} {failure : Failure} (fails : Expr.read text = .error failure) :
    (service.useText text).state = service.state := by
  have missing : text ∉ service.calculator.contents.sources := fun member => by
    obtain ⟨⟨text, parsed⟩, held, rfl⟩ := List.mem_map.mp member
    rw [Calculator.read_of_mem_entries held] at fails
    cases fails
  rw [state_useText]
  exact congrArg (State.mk service.settings) (Calculator.Contents.use_of_read_error missing fails)

theorem state_call (call : Call) :
    (service.call json call).2.state = (call.trace? json).elim service.state service.state.use := by
  rw [call_service, Call.trace?]
  cases call.request? json with
  | none => rfl
  | some request =>
    rw [Option.elim_some, Option.map_some, Option.filter_some]
    cases read : Expr.read (source request) with
    | error failure =>
      rw [Calculator.readable_of_read_error read]
      exact service.state_useText_of_read_error read
    | ok tree =>
      rw [Calculator.readable_of_read_ok read]
      exact service.state_useText _

theorem state_after (calls : List Call) :
    (service.after json calls).state = (calls.filterMap (Call.trace? json)).foldl State.use service.state := by
  induction calls generalizing service with
  | nil => rfl
  | cons call calls ih =>
    rw [after_cons, ih, state_call]
    cases trace : call.trace? json <;> simp [trace]

/-- A request that fails leaves no trace but its text. A call that makes no request changes nothing, and one whose
text cannot be read changes nothing that can be seen; two requests with the same text change the same, whatever else
they ask for and whatever comes of it; and so the state after any calls is decided by the texts that could be read. -/
theorem state_depends_on_read_texts :
    (∀ call, call.request? json = none → (service.call json call).2 = service) ∧
    (∀ call request failure, call.request? json = some request → Expr.read (source request) = .error failure →
      (service.call json call).2.state = service.state) ∧
    (∀ call other request otherRequest, call.request? json = some request → other.request? json = some otherRequest →
      source request = source otherRequest → (service.call json call).2 = (service.call json other).2) ∧
    ∀ calls others, calls.filterMap (Call.trace? json) = others.filterMap (Call.trace? json) →
      (service.after json calls).state = (service.after json others).state := by
  refine ⟨fun call malformed => ?_, fun call request failure asks fails => ?_,
    fun call other request otherRequest asks otherAsks same => ?_, fun calls others same => ?_⟩
  · rw [call_service, malformed, Option.elim_none]
  · rw [call_service, asks, Option.elim_some, service.state_useText_of_read_error fails]
  · rw [call_service, call_service, asks, otherAsks, Option.elim_some, Option.elim_some, same]
  · rw [state_after, state_after, same]

/-- A text that is no request and a sum without its second term change nothing, and a line in no parts changes
what a dictated value of the same text changes. -/
theorem state_depends_on_read_texts_rejected_line :
    let json := JsonLibrary.exact fun _ => "EOF while parsing a list at line 1 column 1"
    let line : Call := .ask { expression := "x", mode := .line, resolution := some 0 }
    let spoken : Call := .ask { expression := "X", spoken := true }
    ∃ service : Service (RecentList.library String Parsed), new? _ .default = some service ∧
      (service.call json (.askText "[")).2 = service ∧
      (service.call json (.ask { expression := "2+" })).2.state = service.state ∧
      (service.call json line).2 = (service.call json spoken).2 ∧
      (service.after json [.askText "[", line]).state = (service.after json [spoken]).state := by
  intro json line spoken
  obtain ⟨service, opens⟩ : ∃ service, new? (RecentList.library String Parsed) .default = some service := ⟨_, rfl⟩
  obtain ⟨malformed, unreadable, alike, traced⟩ := state_depends_on_read_texts json service
  have noRequest : (Call.askText "[").request? json = none := Option.isNone_iff_eq_none.mp (by decide +kernel)
  have transcribed : Dictation.transcribe "X" = "x" := by decide +kernel
  refine ⟨service, opens, malformed _ noRequest, ?_, alike line spoken _ _ rfl rfl transcribed.symm,
    traced _ _ (by decide +kernel)⟩
  cases read : Expr.read "2+" with
  | error failure => exact unreadable _ _ failure rfl read
  | ok tree =>
    have fails : (Expr.read "2+").isOk = false := by decide +kernel
    simp [read, Except.isOk, Except.toBool] at fails

end

end GraphingCalculator.Service
