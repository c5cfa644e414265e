import GraphingCalculator.Proofs.Service.Plotting

/-!
The points of a plot against single values. What a plot shows at a point is what the same expression is
worth there when it is asked for by itself, with the coordinates as the values of the variables, and
whatever is asked in between. Both come from the tree of the one text (`swept_of_line?`,
`swept_of_surface?`, `AsksValue.answer_eq`), and the tree reads nothing but its variables.
-/

namespace GraphingCalculator

namespace Reply

/-- The line in a reply to a request for one that has succeeded. -/
def line? : Reply → Option Line
  | line (.ok plot) => some plot
  | _ => none

/-- The surface in a reply to a request for one that has succeeded. -/
def surface? : Reply → Option Surface
  | surface (.ok plot) => some plot
  | _ => none

theorem line?_eq_some_iff {reply : Reply} {plot : Line} : reply.line? = some plot ↔ reply = .line (.ok plot) := by
  cases reply with
  | line result => cases result <;> simp [line?]
  | _ => simp [line?]

theorem surface?_eq_some_iff {reply : Reply} {plot : Surface} :
    reply.surface? = some plot ↔ reply = .surface (.ok plot) := by
  cases reply with
  | surface result => cases result <;> simp [surface?]
  | _ => simp [surface?]

end Reply

namespace Service

/-- A request for one value of the expression that another request is about, with these values among
those of the variables. -/
structure AsksValue (request point : Request) (coordinates : List (String × Float)) : Prop where
  mode : point.mode = .scalar
  expression : point.expression = request.expression
  spoken : point.spoken = request.spoken
  bound : ∀ coordinate ∈ coordinates, point.environment.get? coordinate.1 = some coordinate.2

section
variable {lru : TreeCaches} {service : Service lru} {request point : Request} {coordinates : List (String × Float)}

/-- A single value is the one of the tree of the text, wherever in the history it is asked for. -/
theorem AsksValue.answer_eq (asks : AsksValue request point coordinates) {tree : Expr} {env : Environment}
    {value : Float} (reads : Expr.read (source request) = .ok tree)
    (agree : ∀ name ∈ tree.names, env.get? name = point.environment.get? name)
    (evaluates : tree.eval env = .ok value) :
    (service.answer point).1 = .scalar (source point) (.ok value) := by
  have same : source point = source request := by rw [source, source, asks.expression, asks.spoken]
  rw [answer_reply, directReply, asks.mode, same, Expr.evalSource, reads]
  show Reply.scalar _ ((tree.eval point.environment).mapError .evaluation) = _
  rw [← Expr.eval_congr agree, evaluates]
  rfl

theorem swept_of_line? {plot : Line} (shown : (service.answer request).1.line? = some plot) :
    ∃ tree, Expr.read (source request) = .ok tree ∧ (lineTask service.settings request).Covers tree ∧
      tree.sweepLine "x" (lineRange service.settings request) (lineTask service.settings request).parts = .ok plot := by
  rw [Reply.line?_eq_some_iff, answer_reply, directReply] at shown
  cases mode : request.mode with
  | scalar => simp [mode] at shown
  | surface => simp [mode] at shown
  | line =>
    simp only [mode, Reply.line.injEq, plotLine_eq_guard, PlotTask.bind_guard_eq_ok_iff] at shown
    obtain ⟨tree, reads, covers, -, swept⟩ := shown
    exact ⟨tree, reads, covers, swept⟩

theorem swept_of_surface? {plot : Surface} (shown : (service.answer request).1.surface? = some plot) :
    ∃ tree, Expr.read (source request) = .ok tree ∧ (surfaceTask service.settings request).Covers tree ∧
      tree.sweepSurface (surfaceRanges service.settings request).1 (surfaceRanges service.settings request).2
        (surfaceTask service.settings request).parts = .ok plot := by
  rw [Reply.surface?_eq_some_iff, answer_reply, directReply] at shown
  cases mode : request.mode with
  | scalar => simp [mode] at shown
  | line => simp [mode] at shown
  | surface =>
    simp only [mode, Reply.surface.injEq, plotSurface_eq_guard, PlotTask.bind_guard_eq_ok_iff] at shown
    obtain ⟨tree, reads, covers, -, swept⟩ := shown
    exact ⟨tree, reads, covers, swept⟩

/-- A plot shows at each point the value that its expression has there by itself, whatever is asked between the
plot and the value: at the place `i` of a line, and in the row `i` and the column `j` of a surface. -/
theorem points_agree_with_values (json : JsonLibrary) (service : Service lru) (request : Request)
    (between : List Call) :
    let reply := (service.answer request).1
    let later := (service.answer request).2.after json between
    (∀ plot, reply.line? = some plot → ∀ (i : Nat) (x : Float), plot.xs[i]? = some x →
      ∃ z, plot.outcomes[i]? = some (.ok z) ∧
        ∀ point, AsksValue request point [("x", x)] → (later.answer point).1 = .scalar (source point) (.ok z)) ∧
    ∀ plot, reply.surface? = some plot → ∀ (i j : Nat) (x y : Float), plot.xs[j]? = some x → plot.ys[i]? = some y →
      ∃ row z, plot.outcomes[i]? = some row ∧ row[j]? = some (.ok z) ∧
        ∀ point, AsksValue request point [("x", x), ("y", y)] →
          (later.answer point).1 = .scalar (source point) (.ok z) := by
  intro reply later
  constructor
  · intro plot shown i x at_i
    obtain ⟨tree, reads, covers, swept⟩ := swept_of_line? shown
    obtain ⟨value, evaluates, outcomes⟩ := exists_values_of_sweepLine covers swept
    refine ⟨value x, by simp [outcomes, at_i], fun point asks => ?_⟩
    refine asks.answer_eq reads (fun name occurs => ?_) (evaluates x)
    -- `x` is the only name that can occur, and the plot and the request give it the same value
    obtain rfl : name = "x" := by simpa [lineTask] using covers name occurs
    rw [asks.bound ("x", x) (by simp), Environment.get?_bind, if_pos rfl]
  · intro plot shown i j x y at_j at_i
    obtain ⟨tree, reads, covers, swept⟩ := swept_of_surface? shown
    obtain ⟨value, evaluates, outcomes⟩ := exists_values_of_sweepSurface covers swept
    refine ⟨plot.xs.map fun x => .ok (value x y), value x y, by simp [outcomes, at_i], by simp [at_j],
      fun point asks => ?_⟩
    refine asks.answer_eq reads (fun name occurs => ?_) (evaluates x y)
    obtain rfl | rfl : name = "x" ∨ name = "y" := by simpa [surfaceTask] using covers name occurs
    · rw [asks.bound ("x", x) (by simp)]
      simp [Environment.get?_bind]
    · rw [asks.bound ("y", y) (by simp), Environment.get?_bind, if_pos rfl]

/-- A line and a surface, each with the value at one of its points, after a text that cannot be read. -/
theorem points_agree_with_values_difference :
    let json := JsonLibrary.exact fun _ => "EOF while parsing a list at line 1 column 1"
    let line : Request := { expression := "2x", mode := .line, ranges := some ⟨⟨0, 1⟩, none⟩, resolution := some 1 }
    let surface : Request :=
      { expression := "x-y", mode := .surface, ranges := some ⟨⟨0, 1⟩, some ⟨0, 2⟩⟩, resolution := some 1 }
    let onLine : Request := { expression := "2x", environment := .ofList [("x", 1)] }
    let onSurface : Request := { expression := "x-y", environment := .ofList [("y", 0), ("x", 1)] }
    let between : List Call := [.ask { expression := "2+" }, .askText "["]
    ∃ service : Service (RecentList.library String Parsed), new? _ .default = some service ∧
      (∃ plot z, (service.answer line).1.line? = some plot ∧ plot.outcomes[1]? = some (.ok z) ∧
        (((service.answer line).2.after json between).answer onLine).1 = .scalar "2x" (.ok z)) ∧
      ∃ plot row z, (service.answer surface).1.surface? = some plot ∧ plot.outcomes[0]? = some row ∧
        row[1]? = some (.ok z) ∧
        (((service.answer surface).2.after json between).answer onSurface).1 = .scalar "x-y" (.ok z) := by
  intro json line surface onLine onSurface between
  obtain ⟨service, opens⟩ : ∃ service, new? (RecentList.library String Parsed) .default = some service := ⟨_, rfl⟩
  refine ⟨service, opens, ?_, ?_⟩
  · have places : (service.answer line).1.line?.map (·.xs[1]?) = some (some 1) := by
      rw [answer_reply, settings_of_new? opens]
      decide +kernel
    obtain ⟨plot, shown, at_x⟩ := Option.map_eq_some_iff.mp places
    obtain ⟨agree, -⟩ := points_agree_with_values json service line between
    obtain ⟨z, outcome, agree⟩ := agree plot shown 1 1 at_x
    exact ⟨plot, z, shown, outcome, agree onLine ⟨rfl, rfl, rfl, by decide +kernel⟩⟩
  · have places : (service.answer surface).1.surface?.map (fun plot => (plot.xs[1]?, plot.ys[0]?)) =
        some (some 1, some 0) := by
      rw [answer_reply, settings_of_new? opens]
      decide +kernel
    obtain ⟨plot, shown, at_point⟩ := Option.map_eq_some_iff.mp places
    obtain ⟨at_x, at_y⟩ := Prod.mk.inj at_point
    obtain ⟨-, agree⟩ := points_agree_with_values json service surface between
    obtain ⟨row, z, at_row, outcome, agree⟩ := agree plot shown 0 1 1 0 at_x at_y
    exact ⟨plot, row, z, shown, at_row, outcome, agree onSurface ⟨rfl, rfl, rfl, by decide +kernel⟩⟩

end

end Service

end GraphingCalculator
