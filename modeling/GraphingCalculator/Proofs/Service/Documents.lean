import GraphingCalculator.Proofs.Json.Exact
import GraphingCalculator.Proofs.Service.History

/-!
Requests and settings as JSON texts. With a library that knows its own strings, counts and finite doubles again,
those with finite numbers are read as what they were written for, in whatever order the names of a request are
written, and no others are ever read (`documents_read_back`).
-/

namespace GraphingCalculator

/-! ### Environments -/

namespace Environment

theorem assign_of_fresh {name : String} {bindings : List (String × Float)} (fresh : name ∉ bindings.map (·.1))
    (value : Float) : assign name value bindings = bindings ++ [(name, value)] := by
  induction bindings with
  | nil => rfl
  | cons first rest ih =>
    simp only [List.map_cons, List.mem_cons, not_or] at fresh
    rw [assign, if_neg (Ne.symm fresh.1), ih fresh.2, List.cons_append]

theorem bindings_foldl_bind (pairs : List (String × Float)) (env : Environment)
    (nodup : ((env.bindings ++ pairs).map (·.1)).Nodup) :
    (pairs.foldl (fun env pair => env.bind pair.1 pair.2) env).bindings = env.bindings ++ pairs := by
  induction pairs generalizing env with
  | nil => simp
  | cons pair pairs ih =>
    have fresh : pair.1 ∉ env.bindings.map (·.1) := by
      intro old
      rw [List.map_append, List.map_cons] at nodup
      exact List.disjoint_of_nodup_append nodup old (by simp)
    have bound : (env.bind pair.1 pair.2).bindings = env.bindings ++ [pair] := assign_of_fresh fresh pair.2
    rw [List.foldl_cons, ih (env.bind pair.1 pair.2) (by rw [bound]; simpa using nodup), bound]
    simp

/-- The bindings of an environment make this environment. -/
theorem ofList_bindings (env : Environment) : ofList env.bindings = env := by
  obtain ⟨bindings, nodup⟩ := env
  have same : (ofList bindings).bindings = bindings := bindings_foldl_bind bindings empty (by simpa [empty] using nodup)
  cases built : ofList bindings
  simp [built] at same
  simp [same]

theorem mem_assign {name : String} {value : Float} {bindings : List (String × Float)} {pair : String × Float}
    (inside : pair ∈ assign name value bindings) : pair = (name, value) ∨ pair ∈ bindings := by
  induction bindings with
  | nil => exact .inl (List.mem_singleton.mp inside)
  | cons first rest ih =>
    obtain ⟨bound, old⟩ := first
    by_cases same : bound = name
    · rw [assign, if_pos same] at inside
      exact (List.mem_cons.mp inside).imp (fun here => same ▸ here) (List.mem_cons_of_mem _)
    · rw [assign, if_neg same] at inside
      rcases List.mem_cons.mp inside with here | behind
      · exact .inr (by simp [here])
      · exact (ih behind).imp_right (List.mem_cons_of_mem _)

theorem mem_bindings_foldl_bind {pairs : List (String × Float)} {env : Environment} {pair : String × Float}
    (inside : pair ∈ (pairs.foldl (fun env pair => env.bind pair.1 pair.2) env).bindings) :
    pair ∈ env.bindings ∨ pair ∈ pairs := by
  induction pairs generalizing env with
  | nil => exact .inl inside
  | cons first pairs ih =>
    rcases ih inside with bound | later
    · exact (mem_assign bound).symm.imp_right fun here => by simp [here]
    · exact .inr (List.mem_cons_of_mem _ later)

/-- An environment binds no values but the ones it was made of. -/
theorem mem_bindings_ofList {pairs : List (String × Float)} {pair : String × Float}
    (inside : pair ∈ (ofList pairs).bindings) : pair ∈ pairs :=
  (mem_bindings_foldl_bind inside).resolve_left (by simp [empty])

end Environment

/-! ### Values -/

namespace JsonLibrary
variable {json : JsonLibrary}

/-- What a document is read as, the text that is written for it is read as. -/
theorem WritesDocuments.exists_text_of_read (writes : json.WritesDocuments) {α : Type} {datum : Datum}
    {read : Json → Option α} {a : α} (within : datum.Within depthLimit) (reads : read (json.document datum) = some a) :
    ∃ text, json.write? datum = some text ∧ (json.read? text).bind read = some a := by
  obtain ⟨text, written, isRead⟩ := writes.exists_text within
  exact ⟨text, written, by rw [isRead, Option.bind_some, reads]⟩

namespace RoundTrips

theorem isFinite_of_toFloat? (trips : json.RoundTrips) {j : Json} {x : Float} (read : json.toFloat? j = some x) :
    x.isFinite := by
  cases j with
  | number n => exact trips.isFinite_of_float? read
  | _ => cases read

theorem ofCount_ne_null (trips : json.RoundTrips) (n : UInt64) : json.ofCount n ≠ .null := by
  intro null
  have read := trips.toCount?_ofCount n
  rw [null] at read
  cases read

end RoundTrips

end JsonLibrary

/-! ### Ranges -/

namespace Bounds
variable {json : JsonLibrary} {bounds : Bounds} {j : Json}

structure IsFinite (bounds : Bounds) : Prop where
  min : bounds.min.isFinite
  max : bounds.max.isFinite

theorem within_toDatum (bounds : Bounds) {depth : Nat} : bounds.toDatum.Within (depth + 1) :=
  Datum.within_ofList .float _

theorem ofJson?_document (trips : json.RoundTrips) (finite : bounds.IsFinite) :
    ofJson? json (json.document bounds.toDatum) = some bounds := by
  rw [toDatum, JsonScalars.document_ofList]
  simp [ofJson?, JsonScalars.document, trips.toFloat?_ofFloat finite.min, trips.toFloat?_ofFloat finite.max]

theorem isFinite_of_ofJson? (trips : json.RoundTrips) (read : ofJson? json j = some bounds) : bounds.IsFinite := by
  unfold ofJson? at read
  split at read
  case h_1 =>
    simp only [Option.bind_eq_bind, Option.bind_eq_some_iff, Option.pure_def, Option.some.injEq] at read
    obtain ⟨min, readMin, max, readMax, rfl⟩ := read
    exact ⟨trips.isFinite_of_toFloat? readMin, trips.isFinite_of_toFloat? readMax⟩
  case h_2 => cases read

end Bounds

namespace Ranges
variable {json : JsonLibrary} {ranges : Ranges} {j : Json}

structure IsFinite (ranges : Ranges) : Prop where
  x : ranges.x.IsFinite
  y : ∀ y ∈ ranges.y, y.IsFinite

/-- The names of the ranges in JSON. -/
def fieldNames : List String := ["x", "y"]

theorem toDatum_eq_present (ranges : Ranges) :
    ranges.toDatum = .object (Json.present fieldNames [some ranges.x.toDatum, ranges.y.map Bounds.toDatum]) := by
  obtain ⟨x, y⟩ := ranges
  cases y <;> rfl

theorem within_toDatum (ranges : Ranges) {depth : Nat} : ranges.toDatum.Within (depth + 2) := by
  rw [toDatum_eq_present]
  refine Json.within_object_present fun value member => ?_
  simp only [List.mem_cons, Option.some.injEq, List.not_mem_nil, or_false] at member
  obtain rfl | member := member
  · exact ranges.x.within_toDatum
  · obtain ⟨y, -, rfl⟩ := Option.map_eq_some_iff.mp member.symm
    exact y.within_toDatum

theorem ofJson?_document (trips : json.RoundTrips) (finite : ranges.IsFinite) :
    ofJson? json (json.document ranges.toDatum) = some ranges := by
  have fields : json.toFields? ["x", "y"] (json.document ranges.toDatum) =
      some ([some ranges.x.toDatum, ranges.y.map Bounds.toDatum].map (·.map json.document)) := by
    rw [toDatum_eq_present]
    exact JsonScalars.toFields?_present trips.text?_quote (by decide) rfl
  have y : (ranges.y.map fun y => json.document y.toDatum).elim (some none) (Json.orNull (Bounds.ofJson? json)) =
      some ranges.y :=
    Json.elim_orNull_map nofun fun y member => Bounds.ofJson?_document trips (finite.y y member)
  simp [ofJson?, fields, Bounds.ofJson?_document trips finite.x, Function.comp_def, y]

theorem isFinite_of_ofJson? (trips : json.RoundTrips) (read : ofJson? json j = some ranges) : ranges.IsFinite := by
  simp only [ofJson?, Option.bind_eq_bind, Option.bind_eq_some_iff] at read
  obtain ⟨fields, -, read⟩ := read
  split at read
  case h_1 x y =>
    simp only [Option.bind_eq_some_iff, Option.pure_def, Option.some.injEq] at read
    obtain ⟨bounds, readX, other, readY, rfl⟩ := read
    refine ⟨Bounds.isFinite_of_ofJson? trips readX, fun y member => ?_⟩
    obtain ⟨j, readJ⟩ := Json.exists_read_of_elim_orNull readY y member
    exact Bounds.isFinite_of_ofJson? trips readJ
  case h_2 => cases read

end Ranges

/-! ### Requests -/

theorem Mode.ofJson?_document {json : JsonLibrary} (trips : json.RoundTrips) (mode : Mode) :
    ofJson? json (json.document (.string mode.name)) = some mode := by
  show (json.text? (json.quote mode.name)).bind ofName? = some mode
  rw [trips.text?_quote]
  exact ofName?_name mode

namespace Request
variable {json : JsonLibrary} {r : Request} {env : Environment} {j : Json}

structure IsFinite (r : Request) : Prop where
  ranges : ∀ ranges ∈ r.ranges, ranges.IsFinite
  values : ∀ binding ∈ r.environment.bindings, binding.2.isFinite

theorem environmentOfJson?_eq_some_iff : environmentOfJson? json j = some env ↔
    ∃ members pairs, json.toMembers? j = some members ∧
      List.Forall₂ (fun member pair => member.1 = pair.1 ∧ json.toFloat? member.2 = some pair.2) members pairs ∧
      Environment.ofList pairs = env := by
  have value (member : String × Json) (pair : String × Float) :
      ((json.toFloat? member.2).bind fun value => some (member.1, value)) = some pair ↔
        member.1 = pair.1 ∧ json.toFloat? member.2 = some pair.2 := by
    simp [Option.bind_eq_some_iff, Prod.ext_iff, and_comm]
  show ((json.toMembers? j).bind fun members => (members.mapM fun member : String × Json =>
    (json.toFloat? member.2).bind fun value => some (member.1, value)).bind fun pairs =>
      some (Environment.ofList pairs)) = some env ↔ _
  simp [Option.bind_eq_some_iff, Json.mapM_eq_some_iff, value]

theorem environmentOfJson?_document (trips : json.RoundTrips) (finite : ∀ binding ∈ env.bindings, binding.2.isFinite) :
    environmentOfJson? json (json.document (environmentToDatum env)) = some env := by
  rw [environmentOfJson?_eq_some_iff]
  refine ⟨_, env.bindings, JsonScalars.toMembers?_document trips.text?_quote _, ?_, env.ofList_bindings⟩
  rw [List.map_map]
  refine List.forall₂_map_left_iff.mpr (List.forall₂_same.mpr fun binding member => ⟨rfl, ?_⟩)
  exact trips.toFloat?_ofFloat (finite binding member)

theorem isFinite_of_environmentOfJson? (trips : json.RoundTrips) (read : environmentOfJson? json j = some env) :
    ∀ binding ∈ env.bindings, binding.2.isFinite := by
  obtain ⟨members, pairs, -, values, rfl⟩ := environmentOfJson?_eq_some_iff.mp read
  have finite : ∀ pair ∈ pairs, pair.2.isFinite := by
    clear read
    induction values with
    | nil => simp
    | cons value _ ih => exact List.forall_mem_cons.mpr ⟨trips.isFinite_of_toFloat? value.2, ih⟩
  exact fun binding inside => finite binding (Environment.mem_bindings_ofList inside)

/-- The values of the names, unless there are none. -/
def variablesToDatum? (env : Environment) : Option Datum :=
  if env.bindings.isEmpty then none else some (environmentToDatum env)

theorem elim_variablesToDatum? (trips : json.RoundTrips) (finite : ∀ binding ∈ env.bindings, binding.2.isFinite) :
    ((variablesToDatum? env).map json.document).elim (some .empty) (environmentOfJson? json) = some env := by
  unfold variablesToDatum?
  split
  case isTrue empty =>
    obtain ⟨bindings, nodup⟩ := env
    obtain rfl : bindings = [] := List.isEmpty_iff.mp empty
    rfl
  case isFalse => exact environmentOfJson?_document trips finite

/-- The names of the parts of a request in JSON. -/
def fieldNames : List String :=
  ["expression", "mode", "ranges", "resolution", "variables", "spoken"]

/-- The values of the parts of a request in JSON, with none for what is left out. -/
def fieldValues (r : Request) : List (Option Datum) :=
  [some (.string r.expression), some (.string r.mode.name), r.ranges.map Ranges.toDatum, r.resolution.map .count,
    variablesToDatum? r.environment, some (.bool r.spoken)]

theorem toDatum_eq_present (r : Request) : r.toDatum = .object (Json.present fieldNames r.fieldValues) := by
  obtain ⟨expression, mode, ranges, resolution, env, spoken⟩ := r
  simp only [toDatum, fieldNames, fieldValues, variablesToDatum?]
  cases ranges <;> cases resolution <;> cases env.bindings.isEmpty <;> rfl

theorem within_toDatum (r : Request) : r.toDatum.Within JsonLibrary.depthLimit := by
  rw [toDatum_eq_present]
  refine Json.within_object_present fun value member => ?_
  simp only [fieldValues, variablesToDatum?, List.mem_cons, Option.some.injEq, List.not_mem_nil, or_false] at member
  rcases member with rfl | rfl | ranges | resolution | env | rfl
  · exact .string _
  · exact .string _
  · obtain ⟨found, -, rfl⟩ := Option.map_eq_some_iff.mp ranges.symm
    exact found.within_toDatum
  · obtain ⟨count, -, rfl⟩ := Option.map_eq_some_iff.mp resolution.symm
    exact .count count
  · split at env
    · cases env
    · cases env
      exact .object (List.forall_mem_map.mpr fun binding _ => .float binding.2)
  · exact .bool _

/-- A request with finite numbers is read from the document that it becomes. -/
theorem ofJson?_document (trips : json.RoundTrips) (finite : r.IsFinite) :
    ofJson? json (json.document r.toDatum) = some r := by
  have fields : json.toFields? ["expression", "mode", "ranges", "resolution", "variables", "spoken"]
      (json.document r.toDatum) = some (r.fieldValues.map (·.map json.document)) := by
    rw [toDatum_eq_present]
    exact JsonScalars.toFields?_present trips.text?_quote (by decide) rfl
  have expression : json.toString? (json.document (.string r.expression)) = some r.expression :=
    trips.text?_quote r.expression
  have ranges : (r.ranges.map fun ranges => json.document ranges.toDatum).elim (some none)
      (Json.orNull (Ranges.ofJson? json)) = some r.ranges :=
    Json.elim_orNull_map nofun fun ranges member => Ranges.ofJson?_document trips (finite.ranges ranges member)
  have resolution : (r.resolution.map fun count => json.document (.count count)).elim (some none)
      (Json.orNull json.toCount?) = some r.resolution :=
    Json.elim_orNull_map trips.ofCount_ne_null fun count _ => trips.toCount?_ofCount count
  have env := elim_variablesToDatum? trips finite.values
  have spoken : Json.toBool? (json.document (.bool r.spoken)) = some r.spoken := rfl
  simp [ofJson?, fields, fieldValues, expression, Mode.ofJson?_document trips, Function.comp_def, ranges, resolution,
    env, spoken]

theorem isFinite_of_ofJson? (trips : json.RoundTrips) (read : ofJson? json j = some r) : r.IsFinite := by
  simp only [ofJson?, Option.bind_eq_bind, Option.bind_eq_some_iff] at read
  obtain ⟨fields, -, read⟩ := read
  split at read
  case h_1 =>
    simp only [Option.bind_eq_some_iff, Option.pure_def, Option.some.injEq] at read
    obtain ⟨expression, -, mode, -, ranges, readRanges, resolution, -, env, readEnv, spoken, -, rfl⟩ := read
    refine ⟨fun ranges member => ?_, fun binding member => ?_⟩
    · obtain ⟨j, readJ⟩ := Json.exists_read_of_elim_orNull readRanges ranges member
      exact Ranges.isFinite_of_ofJson? trips readJ
    · obtain rfl | ⟨j, readJ⟩ := Json.eq_or_exists_read_of_elim readEnv
      · cases member
      · exact isFinite_of_environmentOfJson? trips readJ binding member
  case h_2 => cases read

end Request

/-! ### Settings -/

namespace Settings
variable {json : JsonLibrary} {settings : Settings} {j : Json}

structure IsFinite (settings : Settings) : Prop where
  lineRange : settings.lineRange.IsFinite
  surfaceRange : settings.surfaceRange.IsFinite

theorem isFinite_default : default.IsFinite where
  lineRange := ⟨by decide +kernel, by decide +kernel⟩
  surfaceRange := ⟨by decide +kernel, by decide +kernel⟩

/-- The values of the settings in JSON, in the order of their names. -/
def fieldValues (settings : Settings) : List (Option Datum) :=
  [some (.count settings.memoCapacity), some settings.lineRange.toDatum, some (.count settings.lineParts),
    some settings.surfaceRange.toDatum, some (.count settings.surfaceParts), some (.count settings.maxLineParts),
    some (.count settings.maxSurfaceParts)]

theorem toDatum_eq_present (settings : Settings) :
    settings.toDatum = .object (Json.present fieldNames settings.fieldValues) := rfl

theorem within_toDatum (settings : Settings) : settings.toDatum.Within JsonLibrary.depthLimit := by
  rw [toDatum_eq_present]
  refine Json.within_object_present fun value member => ?_
  simp only [fieldValues, List.mem_cons, Option.some.injEq, List.not_mem_nil, or_false] at member
  rcases member with rfl | rfl | rfl | rfl | rfl | rfl | rfl
  case inr.inl | inr.inr.inr.inl => exact Bounds.within_toDatum _
  all_goals exact .count _

/-- Settings with finite ranges are read from the document that they become. -/
theorem ofJson?_document (trips : json.RoundTrips) (finite : settings.IsFinite) :
    ofJson? json (json.document settings.toDatum) = some settings := by
  have fields : json.toFields? fieldNames (json.document settings.toDatum) =
      some (settings.fieldValues.map (·.map json.document)) := by
    rw [toDatum_eq_present]
    exact JsonScalars.toFields?_present trips.text?_quote (by decide) rfl
  have count (n : UInt64) : json.toCount? (json.document (.count n)) = some n := trips.toCount?_ofCount n
  simp only [ofJson?, fields, fieldValues, List.map_cons, List.map_nil, Option.map_some, Option.bind_eq_bind,
    Option.bind_some, Option.elim_some, count, Bounds.ofJson?_document trips finite.lineRange,
    Bounds.ofJson?_document trips finite.surfaceRange, Option.pure_def]

theorem isFinite_of_ofJson? (trips : json.RoundTrips) (read : ofJson? json j = some settings) : settings.IsFinite := by
  simp only [ofJson?, Option.bind_eq_bind, Option.bind_eq_some_iff] at read
  obtain ⟨fields, -, read⟩ := read
  split at read
  case h_1 =>
    simp only [Option.bind_eq_some_iff, Option.pure_def, Option.some.injEq] at read
    obtain ⟨memo, -, lineRange, readLine, lineParts, -, surfaceRange, readSurface, -, -, -, -, -, -, rfl⟩ := read
    constructor
    · obtain rfl | ⟨j, readJ⟩ := Json.eq_or_exists_read_of_elim readLine
      · exact isFinite_default.lineRange
      · exact Bounds.isFinite_of_ofJson? trips readJ
    · obtain rfl | ⟨j, readJ⟩ := Json.eq_or_exists_read_of_elim readSurface
      · exact isFinite_default.surfaceRange
      · exact Bounds.isFinite_of_ofJson? trips readJ
  case h_2 => cases read

/-- The text that is written for settings with finite ranges is read as them. -/
theorem exists_text_of_isFinite (trips : json.RoundTrips) (finite : settings.IsFinite) :
    ∃ text, json.write? settings.toDatum = some text ∧ ofText? json text = some settings :=
  trips.exists_text_of_read settings.within_toDatum (ofJson?_document trips finite)

theorem isFinite_of_ofText? (trips : json.RoundTrips) {text : String} (read : ofText? json text = some settings) :
    settings.IsFinite := by
  obtain ⟨j, -, readJ⟩ := Option.bind_eq_some_iff.mp read
  exact isFinite_of_ofJson? trips readJ

end Settings

/-! ### Texts -/

namespace Request
variable {json : JsonLibrary} {r written : Request}

/-- The text that is written for a request with finite numbers is read as it. -/
theorem exists_text_of_isFinite (trips : json.RoundTrips) (finite : r.IsFinite) :
    ∃ text, json.write? r.toDatum = some text ∧ ofText? json text = some r :=
  trips.exists_text_of_read r.within_toDatum (ofJson?_document trips finite)

theorem isFinite_of_ofText? (trips : json.RoundTrips) {text : String} (read : ofText? json text = some r) :
    r.IsFinite := by
  obtain ⟨j, -, readJ⟩ := Option.bind_eq_some_iff.mp read
  exact isFinite_of_ofJson? trips readJ

/-- Equal requests: the order in which the names are bound makes no difference between them. -/
structure SameAs (r other : Request) : Prop where
  expression : r.expression = other.expression
  mode : r.mode = other.mode
  ranges : r.ranges = other.ranges
  resolution : r.resolution = other.resolution
  bindings : r.environment.bindings.Perm other.environment.bindings
  spoken : r.spoken = other.spoken

theorem SameAs.isFinite (same : written.SameAs r) (finite : r.IsFinite) : written.IsFinite where
  ranges := same.ranges ▸ finite.ranges
  values binding member := finite.values binding (same.bindings.mem_iff.mp member)

end Request

namespace Service
variable {lru : TreeCaches} {service : Service lru} {r written : Request}

/-- Equal requests are answered in the same way. -/
theorem answer_eq_of_sameAs (same : written.SameAs r) : service.answer written = service.answer r := by
  obtain ⟨expression, mode, ranges, resolution, env, spoken⟩ := r
  obtain ⟨otherExpression, otherMode, otherRanges, otherResolution, otherEnv, otherSpoken⟩ := written
  obtain ⟨rfl, rfl, rfl, rfl, bindings, rfl⟩ := same
  refine Prod.ext ?_ ?_
  · rw [answer_reply, answer_reply]
    cases otherMode with
    | scalar => simp only [directReply, source, Expr.evalSource, Expr.eval_eq_of_perm _ bindings]
    | line | surface => rfl
  · rw [answer_service, answer_service]
    rfl

/-- A text that is read as a request is answered with the text of the reply to any equal one. -/
theorem answerText_of_ofText? {json : JsonLibrary} {text : String} (read : Request.ofText? json text = some written)
    (same : written.SameAs r) :
    service.answerText json text = (json.write? (service.answer r).1.toDatum, (service.answer r).2) := by
  simp only [answerText, read, answer_eq_of_sameAs same]

end Service

/-- Requests and settings with finite numbers survive JSON. Any text that is written for a request is read as an
equal one, and answered with the text of the reply to it; the text that is written for settings is read as them.
So what a text has been read as is what it is read as again when it has been written. -/
theorem documents_read_back {json : JsonLibrary} (trips : json.RoundTrips) :
    (∀ r written : Request, r.IsFinite → written.SameAs r →
      ∃ text, json.write? written.toDatum = some text ∧ Request.ofText? json text = some written ∧
        ∀ (lru : TreeCaches) (service : Service lru), service.answerText json text =
          (json.write? (service.answer r).1.toDatum, (service.answer r).2)) ∧
    (∀ settings : Settings, settings.IsFinite →
      ∃ text, json.write? settings.toDatum = some text ∧ Settings.ofText? json text = some settings) ∧
    (∀ (text : String) (r written : Request), Request.ofText? json text = some r → written.SameAs r →
      ∃ again, json.write? written.toDatum = some again ∧ Request.ofText? json again = some written) ∧
    ∀ (text : String) (settings : Settings), Settings.ofText? json text = some settings →
      ∃ again, json.write? settings.toDatum = some again ∧ Settings.ofText? json again = some settings := by
  refine ⟨fun r written finite same => ?_, fun settings => Settings.exists_text_of_isFinite trips,
    fun text r written read same => ?_, fun text settings read => ?_⟩
  · obtain ⟨text, writes, read⟩ := Request.exists_text_of_isFinite trips (same.isFinite finite)
    exact ⟨text, writes, read, fun lru service => Service.answerText_of_ofText? read same⟩
  · exact Request.exists_text_of_isFinite trips (same.isFinite (Request.isFinite_of_ofText? trips read))
  · exact Settings.exists_text_of_isFinite trips (Settings.isFinite_of_ofText? trips read)

/-- A request for a quoted name, with a range and two variables that are written in the other order. -/
theorem documents_read_back_quoted_name :
    let json := JsonLibrary.exact fun _ => "EOF while parsing a list at line 1 column 1"
    let r : Request :=
      { expression := "a \"b\"", ranges := some ⟨⟨-1, 1⟩, none⟩, resolution := some 3,
        environment := ⟨[("a", 0.5), ("b", -2)], by decide⟩ }
    let written : Request := { r with environment := ⟨[("b", -2), ("a", 0.5)], by decide⟩ }
    r.IsFinite ∧ written.SameAs r ∧
      ∃ text, json.write? written.toDatum = some text ∧ Request.ofText? json text = some written ∧
        ∀ (lru : TreeCaches) (service : Service lru), service.answerText json text =
          (json.write? (service.answer r).1.toDatum, (service.answer r).2) := by
  intro json r written
  have range : (⟨-1, 1⟩ : Bounds).IsFinite := ⟨by decide +kernel, by decide +kernel⟩
  have finite : r.IsFinite := by
    refine ⟨?_, List.forall_mem_cons.mpr ⟨by decide +kernel, List.forall_mem_singleton.mpr (by decide +kernel)⟩⟩
    rintro ranges ⟨⟩
    exact ⟨range, nofun⟩
  have same : written.SameAs r := ⟨rfl, rfl, rfl, rfl, .swap _ _ _, rfl⟩
  exact ⟨finite, same, (documents_read_back (JsonLibrary.roundTrips_exact _)).1 r written finite same⟩

end GraphingCalculator
