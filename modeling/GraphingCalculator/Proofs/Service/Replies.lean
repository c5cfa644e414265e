import GraphingCalculator.Proofs.Service.Agreement
import GraphingCalculator.Proofs.Service.Documents

/-!
What stands in the answer to a text. Every reply says whether it is a success (`Reply.reports`), and the rest of its
shape follows the mode that was asked for. A library that writes JSON, with null for what is not finite, is read
in the same shape (`every_text_is_answered`).
-/

namespace GraphingCalculator

/-- A member with this key is there. -/
def HasKey (members : List (String × Json)) (key : String) : Prop :=
  key ∈ members.map (·.1)

/-- The members say once whether they are those of a success, and give an error if and only if they are not. -/
structure Reports (members : List (String × Json)) (success : Bool) : Prop where
  nodup : (members.map (·.1)).Nodup
  flag : ("success", .bool success) ∈ members
  error : HasKey members "error" ↔ success = false

/-- The members of the answer to a text that asks for one value, or is no request. The value is null if and only if
it is no number or infinite. -/
structure ScalarShape (members : List (String × Json)) (success : Bool) (result : Option Float) : Prop where
  expression : HasKey members "expression"
  value : HasKey members "value" ↔ success = true
  null : ("value", .null) ∈ members ↔ ∃ value ∈ result, value.isNaN ∨ value.isInf

section
variable (json : JsonLibrary)

/-- The members of the answer to a text that asks for a line: with each coordinate stands an entry, which in a success
is null if and only if the value there is no number or infinite. The coordinates of a success are those of the plot. -/
def LineShape (members : List (String × Json)) (success : Bool) (plot? : Option Line)
    (value : Float → Except Failure Float) : Prop :=
  ∃ (xs : List Float) (zs : List Json), ("x", .array (xs.map json.ofFloat)) ∈ members ∧ ("z", .array zs) ∈ members ∧
    ¬ HasKey members "y" ∧ zs.length = xs.length ∧
    (success = true → (∃ plot ∈ plot?, plot.xs = xs) ∧ ∀ (i : Nat) (x : Float), xs[i]? = some x →
      ∃ z, value x = .ok z ∧ (zs[i]? = some .null ↔ z.isNaN ∨ z.isInf))

/-- The members of the answer to a text that asks for a surface: with each coordinate of `y` stands a row, in which an
entry stands with each coordinate of `x`. -/
def SurfaceShape (members : List (String × Json)) (success : Bool) (plot? : Option Surface)
    (value : Float → Float → Except Failure Float) : Prop :=
  ∃ (xs ys : List Float) (rows : List (List Json)), ("x", .array (xs.map json.ofFloat)) ∈ members ∧
    ("y", .array (ys.map json.ofFloat)) ∈ members ∧ ("z", .array (rows.map .array)) ∈ members ∧
    rows.length = ys.length ∧ (∀ row ∈ rows, row.length = xs.length) ∧
    (success = true → (∃ plot ∈ plot?, plot.xs = xs ∧ plot.ys = ys) ∧
      ∀ (i j : Nat) (x y : Float), ys[i]? = some y → xs[j]? = some x →
        ∃ row z, rows[i]? = some row ∧ value x y = .ok z ∧ (row[j]? = some .null ↔ z.isNaN ∨ z.isInf))

/-- The members say this of an error. -/
def SaysError (members : List (String × Json)) (message : String) : Prop :=
  ∃ j, ("error", j) ∈ members ∧ json.toString? j = some message

end

namespace Reply

/-! ### Members -/

/-- The keys of a reply in their order. -/
def keys : Reply → List String
  | scalar _ (.ok _) => ["expression", "success", "value"]
  | scalar _ (.error _) | invalidRequest _ => ["expression", "success", "error"]
  | line (.ok _) => ["success", "x", "z"]
  | line (.error _) => ["success", "x", "z", "error"]
  | surface (.ok _) => ["success", "x", "y", "z"]
  | surface (.error _) => ["success", "x", "y", "z", "error"]

theorem map_fst_members (reply : Reply) : reply.members.map (·.1) = reply.keys := by
  cases reply with
  | scalar _ result | line result | surface result => cases result <;> rfl
  | invalidRequest => rfl

theorem within_outcomeToDatum (outcome : Outcome) {depth : Nat} : (outcomeToDatum outcome).Within depth := by
  cases outcome with
  | ok value => exact .float value
  | error => exact .null

theorem within_of_mem_members {reply : Reply} {depth : Nat} :
    ∀ member ∈ reply.members, member.2.Within (depth + 2) := by
  have floats (xs : List Float) : (Datum.ofList .float xs).Within (depth + 2) := Datum.within_ofList .float xs
  have points (outcomes : List Outcome) {depth : Nat} : (Datum.ofList outcomeToDatum outcomes).Within (depth + 1) :=
    Datum.within_ofList (fun outcome => within_outcomeToDatum outcome) outcomes
  have rows (outcomes : List (List Outcome)) : (Datum.ofList (.ofList outcomeToDatum) outcomes).Within (depth + 2) :=
    Datum.within_ofList (fun row => points row) outcomes
  have empty : (Datum.array []).Within (depth + 2) := .array (by simp)
  cases reply with
  | scalar _ result | line result | surface result =>
    cases result <;> simp [members, expression?, payload, error?, Datum.Within.string, Datum.Within.bool,
      Datum.Within.float, floats, points, rows, empty]
  | invalidRequest => simp [members, expression?, payload, error?, Datum.Within.string, Datum.Within.bool]

theorem within_toDatum (reply : Reply) : reply.toDatum.Within JsonLibrary.depthLimit :=
  .object within_of_mem_members

section
variable {json : JsonLibrary}

/-- The members of a reply as they are read. -/
def written (json : JsonLibrary) (reply : Reply) : List (String × Json) :=
  reply.members.map fun member => (member.1, json.document member.2)

theorem hasKey_written_iff {reply : Reply} {key : String} : HasKey (reply.written json) key ↔ key ∈ reply.keys := by
  rw [HasKey, written, List.map_map, ← map_fst_members]
  rfl

theorem mem_written {reply : Reply} {key : String} (datum : Datum) (member : (key, datum) ∈ reply.members) :
    (key, json.document datum) ∈ reply.written json :=
  List.mem_map_of_mem (f := fun member => (member.1, json.document member.2)) member

theorem reports (reply : Reply) : Reports (reply.written json) reply.isSuccess where
  nodup := by
    rw [written, List.map_map]
    show (reply.members.map (·.1)).Nodup
    rw [map_fst_members]
    unfold keys
    split <;> decide
  flag := mem_written (.bool reply.isSuccess) (by simp [members])
  error := by
    rw [hasKey_written_iff]
    cases reply with
    | scalar _ result | line result | surface result => cases result <;> simp [keys, isSuccess, error?]
    | invalidRequest => simp [keys, isSuccess, error?]

/-! ### Shapes -/

theorem ofFloat_eq_null_iff (writes : json.WritesJson) {x : Float} : json.ofFloat x = .null ↔ x.isNaN ∨ x.isInf := by
  rw [← Binary64.isFinite_eq_false_iff]
  cases finite : x.isFinite with
  | true =>
    obtain ⟨n, number⟩ := writes.ofFloat_of_isFinite finite
    simp [number]
  | false => simp [writes.ofFloat_of_not_isFinite finite]

theorem scalarShape (writes : json.WritesJson) (text : String) (result : Except Failure Float) :
    ScalarShape ((scalar text result).written json) (scalar text result).isSuccess result.toOption where
  expression := by
    rw [hasKey_written_iff]
    cases result <;> simp [keys]
  value := by
    rw [hasKey_written_iff]
    cases result <;> simp [keys, isSuccess, error?]
  null := by
    cases result with
    | error failure => simp [written, members, expression?, payload, error?, Except.toOption]
    | ok value =>
      have here : ("value", .null) ∈ (scalar text (.ok value)).written json ↔ .null = json.ofFloat value := by
        simp [written, members, expression?, payload, error?, JsonScalars.document]
      rw [here, eq_comm, ofFloat_eq_null_iff writes]
      simp [Except.toOption]

theorem scalarShape_invalidRequest (complaint : String) :
    ScalarShape ((invalidRequest complaint).written json) (invalidRequest complaint).isSuccess none where
  expression := by simp [hasKey_written_iff, keys]
  value := by simp [hasKey_written_iff, keys, isSuccess, error?]
  null := by simp [written, members, expression?, payload, error?]

theorem saysError_invalidRequest (writes : json.WritesJson) (complaint : String) :
    SaysError json ((invalidRequest complaint).written json) ("invalid request: " ++ complaint) := by
  refine ⟨_, mem_written (.string ("invalid request: " ++ complaint)) ?_, writes.text?_quote _⟩
  simp [members, error?, String.join]

theorem lineShape_error (failure : Failure) (value : Float → Except Failure Float) :
    LineShape json ((line (.error failure)).written json) (line (.error failure)).isSuccess none value :=
  ⟨[], [], mem_written (.array []) (by simp [members, payload]),
    mem_written (.array []) (by simp [members, payload]), by simp [hasKey_written_iff, keys], rfl, nofun⟩

theorem surfaceShape_error (failure : Failure) (value : Float → Float → Except Failure Float) :
    SurfaceShape json ((surface (.error failure)).written json) (surface (.error failure)).isSuccess none value :=
  ⟨[], [], [], mem_written (.array []) (by simp [members, payload]),
    mem_written (.array []) (by simp [members, payload]),
    mem_written (.array []) (by simp [members, payload]), rfl, by simp, nofun⟩

theorem document_floats (xs : List Float) : json.document (.ofList .float xs) = .array (xs.map json.ofFloat) :=
  json.document_ofList .float xs

/-- A line with a value at each point has the shape of one. -/
theorem lineShape_ok (writes : json.WritesJson) {plot : Line} {value : Float → Except Failure Float} {z : Float → Float}
    (values : ∀ x, value x = .ok (z x)) (outcomes : plot.outcomes = (plot.xs.map z).map .ok) :
    LineShape json ((line (.ok plot)).written json) (line (.ok plot)).isSuccess (some plot) value := by
  refine ⟨plot.xs, plot.outcomes.map fun outcome => json.document (outcomeToDatum outcome), ?_, ?_,
    by simp [hasKey_written_iff, keys], by simp [outcomes],
    fun _ => ⟨⟨plot, rfl, rfl⟩, fun i x here => ⟨z x, values x, ?_⟩⟩⟩
  · rw [← document_floats]
    exact mem_written _ (by simp [members, payload])
  · rw [← JsonScalars.document_ofList]
    exact mem_written _ (by simp [members, payload])
  · simp [outcomes, here, outcomeToDatum, JsonScalars.document, ofFloat_eq_null_iff writes]

/-- A surface with a value at each point has the shape of one. -/
theorem surfaceShape_ok (writes : json.WritesJson) {plot : Surface} {value : Float → Float → Except Failure Float}
    {z : Float → Float → Float} (values : ∀ x y, value x y = .ok (z x y))
    (outcomes : plot.outcomes = (plot.ys.map fun y => plot.xs.map fun x => z x y).map (·.map .ok)) :
    SurfaceShape json ((surface (.ok plot)).written json) (surface (.ok plot)).isSuccess (some plot) value := by
  refine ⟨plot.xs, plot.ys, plot.outcomes.map (·.map fun outcome => json.document (outcomeToDatum outcome)), ?_, ?_, ?_,
    by simp [outcomes], ?_, fun _ => ⟨⟨plot, rfl, rfl, rfl⟩, fun i j x y atY atX => ?_⟩⟩
  · rw [← document_floats]
    exact mem_written _ (by simp [members, payload])
  · rw [← document_floats]
    exact mem_written _ (by simp [members, payload])
  · have rows : json.document (.ofList (.ofList outcomeToDatum) plot.outcomes) = .array
        ((plot.outcomes.map (·.map fun outcome => json.document (outcomeToDatum outcome))).map .array) := by
      rw [JsonScalars.document_ofList, List.map_map]
      simp only [JsonScalars.document_ofList, Function.comp_def]
    rw [← rows]
    exact mem_written _ (by simp [members, payload])
  · simp [outcomes]
  · refine ⟨plot.xs.map fun x => json.ofFloat (z x y), z x y, ?_, values x y, ?_⟩
    · simp [outcomes, atY, outcomeToDatum, JsonScalars.document]
    · simp [atX, ofFloat_eq_null_iff writes]

end

end Reply

namespace Service
variable {json : JsonLibrary} {lru : TreeCaches} {service : Service lru} {r : Request}

/-! ### Answers -/

/-- The value of the text of a request in an environment. -/
def valueIn (r : Request) (env : Environment) : Except Failure Float :=
  Expr.evalSource (source r) env

theorem valueIn_eq_ok {tree : Expr} {env : Environment} {value : Float} (reads : Expr.read (source r) = .ok tree)
    (evaluates : tree.eval env = .ok value) : valueIn r env = .ok value := by
  rw [valueIn, Expr.evalSource, reads]
  show (tree.eval env).mapError Failure.evaluation = _
  rw [evaluates]
  rfl

/-- The members of the answer to a request with this reply. -/
def HasShapeOf (json : JsonLibrary) (r : Request) (reply : Reply) (members : List (String × Json)) (success : Bool) :
    Prop :=
  match r.mode with
  | .scalar => ScalarShape members success (valueIn r r.environment).toOption
  | .line => LineShape json members success reply.line? fun x => valueIn r (Environment.empty.bind "x" x)
  | .surface =>
    SurfaceShape json members success reply.surface? fun x y => valueIn r ((Environment.empty.bind "x" x).bind "y" y)

theorem scalarShape_answer (writes : json.WritesJson) (mode : r.mode = .scalar) :
    ScalarShape ((service.answer r).1.written json) (service.answer r).1.isSuccess
      (valueIn r r.environment).toOption := by
  have reply : (service.answer r).1 = .scalar (source r) (valueIn r r.environment) := by
    rw [answer_reply, directReply, mode]
    rfl
  rw [reply]
  exact Reply.scalarShape writes _ _

theorem lineShape_answer (writes : json.WritesJson) (mode : r.mode = .line) :
    LineShape json ((service.answer r).1.written json) (service.answer r).1.isSuccess (service.answer r).1.line?
      fun x => valueIn r (Environment.empty.bind "x" x) := by
  obtain ⟨result, reply⟩ : ∃ result, (service.answer r).1 = .line result := by
    rw [answer_reply, directReply, mode]
    exact ⟨_, rfl⟩
  cases result with
  | error failure =>
    rw [reply]
    exact Reply.lineShape_error failure _
  | ok plot =>
    obtain ⟨tree, reads, covers, swept⟩ := swept_of_line? (Reply.line?_eq_some_iff.mpr reply)
    obtain ⟨z, evaluates, outcomes⟩ := exists_values_of_sweepLine covers swept
    rw [reply]
    exact Reply.lineShape_ok writes (fun x => valueIn_eq_ok reads (evaluates x)) outcomes

theorem surfaceShape_answer (writes : json.WritesJson) (mode : r.mode = .surface) :
    SurfaceShape json ((service.answer r).1.written json) (service.answer r).1.isSuccess (service.answer r).1.surface?
      fun x y => valueIn r ((Environment.empty.bind "x" x).bind "y" y) := by
  obtain ⟨result, reply⟩ : ∃ result, (service.answer r).1 = .surface result := by
    rw [answer_reply, directReply, mode]
    exact ⟨_, rfl⟩
  cases result with
  | error failure =>
    rw [reply]
    exact Reply.surfaceShape_error failure _
  | ok plot =>
    obtain ⟨tree, reads, covers, swept⟩ := swept_of_surface? (Reply.surface?_eq_some_iff.mpr reply)
    obtain ⟨z, evaluates, outcomes⟩ := exists_values_of_sweepSurface covers swept
    rw [reply]
    exact Reply.surfaceShape_ok writes (fun x y => valueIn_eq_ok reads (evaluates x y)) outcomes

theorem hasShapeOf_answer (writes : json.WritesJson) (service : Service lru) (r : Request) :
    HasShapeOf json r (service.answer r).1 ((service.answer r).1.written json) (service.answer r).1.isSuccess := by
  unfold HasShapeOf
  cases mode : r.mode with
  | scalar => exact scalarShape_answer writes mode
  | line => exact lineShape_answer writes mode
  | surface => exact surfaceShape_answer writes mode

theorem exists_text_of_reply (writes : json.WritesJson) (reply : Reply) :
    ∃ text document, json.write? reply.toDatum = some text ∧ json.read? text = some document ∧
      json.toMembers? document = some (reply.written json) := by
  obtain ⟨text, written, read⟩ := writes.exists_text reply.within_toDatum
  exact ⟨text, _, written, read, JsonScalars.toMembers?_document writes.text?_quote reply.members⟩

/-- Every text is answered with the text of an object, which says whether it is a success. To a text that is no
request this is a failure in the shape of a single value, with the complaint of the library as its error; otherwise
the shape follows the mode of the request. -/
theorem every_text_is_answered (writes : json.WritesJson) (service : Service lru) (body : String) :
    ∃ text document members success, (service.answerText json body).1 = some text ∧
      json.read? text = some document ∧ json.toMembers? document = some members ∧ Reports members success ∧
      (Request.ofText? json body = none → success = false ∧ ScalarShape members success none ∧
        SaysError json members ("invalid request: " ++ json.complaint body)) ∧
      ∀ r, Request.ofText? json body = some r → HasShapeOf json r (service.answer r).1 members success := by
  unfold answerText
  cases Request.ofText? json body with
  | none =>
    obtain ⟨text, document, written, read, members⟩ :=
      exists_text_of_reply writes (.invalidRequest (json.complaint body))
    exact ⟨text, document, _, _, written, read, members, Reply.reports _,
      fun _ => ⟨rfl, Reply.scalarShape_invalidRequest _, Reply.saysError_invalidRequest writes _⟩, nofun⟩
  | some r =>
    obtain ⟨text, document, written, read, members⟩ := exists_text_of_reply writes (service.answer r).1
    refine ⟨text, document, _, _, written, read, members, Reply.reports _, nofun, ?_⟩
    rintro other ⟨⟩
    exact hasShapeOf_answer writes service r

/-- A text that ends too early is answered with the complaint about it, and a quotient without a finite value with
null. -/
theorem every_text_is_answered_quotient :
    let json := JsonLibrary.exact fun _ => "EOF while parsing a list at line 1 column 1"
    ∃ service : Service (RecentList.library String Parsed), new? _ .default = some service ∧ json.WritesJson ∧
      (∃ text document members, (service.answerText json "[").1 = some text ∧ json.read? text = some document ∧
        json.toMembers? document = some members ∧ Reports members false ∧
        SaysError json members "invalid request: EOF while parsing a list at line 1 column 1") ∧
      ∃ text document members success,
        (service.answerText json "\x7b\"expression\":\"1/0\"\x7d").1 = some text ∧
        json.read? text = some document ∧ json.toMembers? document = some members ∧ Reports members success ∧
        ("value", .null) ∈ members := by
  intro json
  obtain ⟨service, opens⟩ : ∃ service, new? (RecentList.library String Parsed) .default = some service := ⟨_, rfl⟩
  have writes : json.WritesJson := JsonLibrary.writesJson_exact _
  refine ⟨service, opens, writes, ?_, ?_⟩
  · have malformed : Request.ofText? json "[" = none := Option.isNone_iff_eq_none.mp (by decide +kernel)
    obtain ⟨text, document, members, success, written, read, here, reports, shape, -⟩ :=
      every_text_is_answered writes service "["
    obtain ⟨rfl, -, error⟩ := shape malformed
    exact ⟨text, document, members, written, read, here, reports, error⟩
  · have outcome : (Request.ofText? json "\x7b\"expression\":\"1/0\"\x7d").map
        (fun r => (r.mode, (valueIn r r.environment).toOption.map Float.isInf)) = some (.scalar, some true) := by
      decide +kernel
    obtain ⟨r, readsRequest, outcome⟩ := Option.map_eq_some_iff.mp outcome
    obtain ⟨mode, infinite⟩ := Prod.mk.inj outcome
    obtain ⟨value, evaluates, infinite⟩ := Option.map_eq_some_iff.mp infinite
    obtain ⟨text, document, members, success, written, read, here, reports, -, shape⟩ :=
      every_text_is_answered writes service "\x7b\"expression\":\"1/0\"\x7d"
    have shape := shape r readsRequest
    rw [HasShapeOf, mode] at shape
    exact ⟨text, document, members, success, written, read, here, reports,
      shape.null.mpr ⟨value, evaluates, .inr infinite⟩⟩

end Service

end GraphingCalculator
