import GraphingCalculator.Proofs.Service.History
import GraphingCalculator.Proofs.Sweep.Points

/-!
When a plot request succeeds, and why it fails if it does not.

A plot request stands for a task: variables to sweep, a range for each, and a number of parts with its
limit (`lineTask`, `surfaceTask`). The checks of a task have an order, and a plot fails with the first
one that it does not pass (`PlotTask.Rejects`). A plot that passes them all has a value at each of its
points (`exists_values_of_sweepLine`, `exists_values_of_sweepSurface`).
-/

namespace GraphingCalculator.Service

/-- What a plot request asks for, with the settings in the place of what it leaves open: the variables
that are swept with their ranges, the number of parts, and the limit for that number. -/
structure PlotTask where
  names : List String
  ranges : List Bounds
  parts : Nat
  limit : Nat

/-- The range of a line plot. -/
def lineRange (settings : Settings) (request : Request) : Bounds :=
  match request.ranges with
  | none => settings.lineRange
  | some ranges => ranges.x

/-- The ranges of a surface plot. The one of `x` stands in for a missing one of `y`. -/
def surfaceRanges (settings : Settings) (request : Request) : Bounds × Bounds :=
  match request.ranges with
  | none => (settings.surfaceRange, settings.surfaceRange)
  | some ⟨x, none⟩ => (x, x)
  | some ⟨x, some y⟩ => (x, y)

/-- The task of a line plot. -/
def lineTask (settings : Settings) (request : Request) : PlotTask where
  names := ["x"]
  ranges := [lineRange settings request]
  parts := (request.resolution.getD settings.lineParts).toNat
  limit := settings.maxLineParts.toNat

/-- The task of a surface plot. -/
def surfaceTask (settings : Settings) (request : Request) : PlotTask where
  names := ["x", "y"]
  ranges := [(surfaceRanges settings request).1, (surfaceRanges settings request).2]
  parts := (request.resolution.getD settings.surfaceParts).toNat
  limit := settings.maxSurfaceParts.toNat

/-- The task of a request that asks for a plot. -/
def plotTask (settings : Settings) (request : Request) : PlotTask :=
  match request.mode with
  | .surface => surfaceTask settings request
  | .scalar | .line => lineTask settings request

namespace PlotTask

/-- The expression has no other variables than the swept ones. -/
def Covers (task : PlotTask) (e : Expr) : Prop :=
  ∀ name ∈ e.names, name ∈ task.names

/-- The variable is not swept, and of all such variables it comes first in the order of code points. -/
structure IsFirstForeign (task : PlotTask) (e : Expr) (name : String) : Prop where
  mem : name ∈ e.names
  notMem : name ∉ task.names
  least : ∀ other ∈ e.names, other ∉ task.names → name ≤ other

/-- The expression can be plotted. -/
structure Admits (task : PlotTask) (e : Expr) : Prop where
  covers : task.Covers e
  one_le : 1 ≤ task.parts
  le_limit : task.parts ≤ task.limit
  ranges : ∀ range ∈ task.ranges, range.IsRange

/-- The text can be read and plotted. -/
def Accepts (task : PlotTask) (text : String) : Prop :=
  ∃ tree, Expr.read text = .ok tree ∧ task.Admits tree

/-- What fails first when the text cannot be plotted. -/
inductive Rejects (task : PlotTask) (text : String) : Failure → Prop
  | text {failure : Failure} (fails : Expr.read text = .error failure) : Rejects task text failure
  | names {tree : Expr} {name : String} (reads : Expr.read text = .ok tree)
    (first : task.IsFirstForeign tree name) : Rejects task text (.evaluation (.unbound name))
  | limit {tree : Expr} (reads : Expr.read text = .ok tree) (covers : task.Covers tree)
    (exceeds : task.limit < task.parts) : Rejects task text (.tooManyParts task.parts task.limit)
  | sweep {tree : Expr} {error : SweepError} (reads : Expr.read text = .ok tree) (covers : task.Covers tree)
    (within : task.parts ≤ task.limit) (rejects : RejectsSweep task.ranges task.parts error) :
    Rejects task text (.sweep error)

section
variable {task : PlotTask} {text : String} {e : Expr}

theorem isFirstForeign_iff {name : String} :
    task.IsFirstForeign e name ↔ e.unknowns.find? (!task.names.contains ·) = some name := by
  rw [Expr.find?_unknowns_eq_some_iff]
  simp only [Bool.not_eq_true', List.contains_eq_mem, decide_eq_false_iff_not]
  constructor
  · rintro ⟨mem, notMem, least⟩
    exact ⟨mem, notMem, least⟩
  · rintro ⟨mem, notMem, least⟩
    exact ⟨mem, notMem, least⟩

theorem covers_iff : task.Covers e ↔ e.unknowns.find? (!task.names.contains ·) = none := by
  simp [Covers]

theorem exists_isFirstForeign (foreign : ¬task.Covers e) : ∃ name, task.IsFirstForeign e name := by
  rw [covers_iff, ← ne_eq, Option.ne_none_iff_exists'] at foreign
  exact foreign.imp fun name found => isFirstForeign_iff.mpr found

/-- One of the checks fails first, or all are passed. -/
theorem accepts_or_rejects (task : PlotTask) (text : String) :
    task.Accepts text ∨ ∃ failure, task.Rejects text failure := by
  -- each check is tried only once those before it are passed, as its case of `Rejects` asks
  cases reads : Expr.read text with
  | error failure => exact .inr ⟨failure, .text reads⟩
  | ok tree =>
    by_cases covers : task.Covers tree
    case neg =>
      obtain ⟨name, first⟩ := exists_isFirstForeign covers
      exact .inr ⟨_, .names reads first⟩
    by_cases within : task.parts ≤ task.limit
    case neg => exact .inr ⟨_, .limit reads covers (by omega)⟩
    rcases rejects_or_valid task.ranges task.parts with ⟨error, rejects⟩ | ⟨ranges, divided⟩
    · exact .inr ⟨_, .sweep reads covers within rejects⟩
    · exact .inl ⟨tree, reads, covers, Nat.one_le_iff_ne_zero.mpr divided, within, ranges⟩

end

end PlotTask

/-! ### The checks as they are made -/

section
variable {task : PlotTask} {text : String} {e : Expr}

theorem requireWithin_of_isFirstForeign {name : String} (first : task.IsFirstForeign e name) :
    requireWithin task.names e = .error (.evaluation (.unbound name)) := by
  rw [requireWithin, PlotTask.isFirstForeign_iff.mp first]

@[simp]
theorem requireWithin_eq_ok_iff : requireWithin task.names e = .ok () ↔ task.Covers e := by
  rw [requireWithin, PlotTask.covers_iff]
  cases e.unknowns.find? (!task.names.contains ·) <;> simp

/-- The limit of a task, checked. -/
def PlotTask.requireLimit (task : PlotTask) : Except Failure Unit :=
  if task.limit < task.parts then .error (.tooManyParts task.parts task.limit) else .ok ()

@[simp]
theorem PlotTask.requireLimit_eq_ok_iff : task.requireLimit = .ok () ↔ task.parts ≤ task.limit := by
  simp [requireLimit]

theorem requireLimit_eq (requested limit : UInt64) :
    requireLimit requested limit =
      if limit.toNat < requested.toNat then .error (.tooManyParts requested.toNat limit.toNat) else .ok () := by
  simp only [requireLimit, UInt64.lt_iff_toNat_lt]

/-- A sweep behind the checks of its task. -/
def PlotTask.guard {α : Type} (task : PlotTask) (sweep : Expr → Except SweepError α) (e : Expr) : Except Failure α := do
  requireWithin task.names e
  task.requireLimit
  (sweep e).mapError .sweep

theorem PlotTask.guard_eq_ok_iff {α : Type} {sweep : Expr → Except SweepError α} {plot : α} :
    task.guard sweep e = .ok plot ↔ task.Covers e ∧ task.parts ≤ task.limit ∧ sweep e = .ok plot := by
  simp [guard, Unique.exists_iff]

theorem PlotTask.bind_guard_eq_ok_iff {α : Type} {sweep : Expr → Except SweepError α} {plot : α} :
    (Expr.read text).bind (task.guard sweep) = .ok plot ↔
      ∃ tree, Expr.read text = .ok tree ∧ task.Covers tree ∧ task.parts ≤ task.limit ∧ sweep tree = .ok plot := by
  simp only [← guard_eq_ok_iff]
  exact Outcome.bind_eq_ok_iff

/-- A task fails with the check that fails first, if the sweep makes its own checks in order. -/
theorem PlotTask.Rejects.guard_eq {α : Type} {failure : Failure} {sweep : Expr → Except SweepError α}
    (rejects : task.Rejects text failure)
    (ordered : ∀ tree error, RejectsSweep task.ranges task.parts error → sweep tree = .error error) :
    (Expr.read text).bind (task.guard sweep) = .error failure := by
  -- the checks before the one that fails are passed, so the run comes as far as that one
  cases rejects with
  | text fails =>
    rw [fails]
    rfl
  | names reads first =>
    rw [reads]
    show task.guard sweep _ = _
    rw [guard, requireWithin_of_isFirstForeign first]
    rfl
  | limit reads covers exceeds =>
    rw [reads]
    show task.guard sweep _ = _
    rw [guard, requireWithin_eq_ok_iff.mpr covers, requireLimit, if_pos exceeds]
    rfl
  | sweep reads covers within rejects =>
    rw [reads]
    show task.guard sweep _ = _
    rw [guard, requireWithin_eq_ok_iff.mpr covers, requireLimit_eq_ok_iff.mpr within, ordered _ _ rejects]
    rfl

variable (settings : Settings) (request : Request)

theorem plotLine_eq_guard :
    plotLine settings request = (lineTask settings request).guard fun tree =>
      tree.sweepLine "x" (lineRange settings request) (lineTask settings request).parts := by
  have range : (request.ranges.map (·.x)).getD settings.lineRange = lineRange settings request := by
    unfold lineRange
    cases request.ranges <;> rfl
  funext tree
  simp only [plotLine, requireLimit_eq, range]
  rfl

theorem plotSurface_eq_guard :
    plotSurface settings request = (surfaceTask settings request).guard fun tree =>
      tree.sweepSurface (surfaceRanges settings request).1 (surfaceRanges settings request).2
        (surfaceTask settings request).parts := by
  have ranges : (request.ranges.map (·.x)).getD settings.surfaceRange = (surfaceRanges settings request).1 ∧
      (request.ranges.map fun ranges => ranges.y.getD ranges.x).getD settings.surfaceRange =
        (surfaceRanges settings request).2 := by
    unfold surfaceRanges
    split <;> simp [*]
  funext tree
  simp only [plotSurface, requireLimit_eq, ranges]
  rfl

/-! ### Points -/

variable {settings request}

/-- Without foreign variables there is no point of a sweep at which the expression has no value. -/
theorem exists_values_of_sweepLine {bounds : Bounds} {parts : Nat} {plot : Line}
    (covers : (lineTask settings request).Covers e) (swept : e.sweepLine "x" bounds parts = .ok plot) :
    ∃ value : Float → Float, (∀ x, e.eval (Environment.empty.bind "x" x) = .ok (value x)) ∧
      plot.outcomes = (plot.xs.map value).map .ok := by
  have bound : ∀ x, ∃ value, e.eval (Environment.empty.bind "x" x) = .ok value := by
    intro x
    exact (Environment.bindsJust_empty.bind "x" x).exists_eval_eq_ok covers
  choose value value_eq using bound
  refine ⟨value, value_eq, ?_⟩
  rw [Expr.outcomes_of_sweepLine swept, List.map_map]
  exact List.map_congr_left fun x _ => value_eq x

theorem exists_values_of_sweepSurface {xBounds yBounds : Bounds} {parts : Nat} {plot : Surface}
    (covers : (surfaceTask settings request).Covers e) (swept : e.sweepSurface xBounds yBounds parts = .ok plot) :
    ∃ value : Float → Float → Float,
      (∀ x y, e.eval ((Environment.empty.bind "x" x).bind "y" y) = .ok (value x y)) ∧
      plot.outcomes = (plot.ys.map fun y => plot.xs.map fun x => value x y).map (·.map .ok) := by
  have bound : ∀ x y, ∃ value, e.eval ((Environment.empty.bind "x" x).bind "y" y) = .ok value := by
    intro x y
    exact ((Environment.bindsJust_empty.bind "x" x).bind "y" y).exists_eval_eq_ok covers
  choose value value_eq using bound
  refine ⟨value, value_eq, ?_⟩
  rw [Expr.outcomes_of_sweepSurface swept, List.map_map]
  refine List.map_congr_left fun y _ => ?_
  rw [Function.comp_apply, List.map_map]
  exact List.map_congr_left fun x _ => value_eq x y

/-- A reply with a plot in so many parts, which has a value at each point. -/
def HasPoints (parts : Nat) : Mode → Reply → Prop
  | .line, .line (.ok plot) =>
    plot.xs.length = parts + 1 ∧ ∃ zs : List Float, zs.length = parts + 1 ∧ plot.outcomes = zs.map .ok ∧
      (Reply.line (.ok plot)).payload = [("x", .ofList .float plot.xs), ("z", .ofList .float zs)]
  | .surface, .surface (.ok plot) =>
    plot.xs.length = parts + 1 ∧ plot.ys.length = parts + 1 ∧
      ∃ rows : List (List Float), rows.length = parts + 1 ∧ (∀ row ∈ rows, row.length = parts + 1) ∧
        plot.outcomes = rows.map (·.map .ok) ∧
        (Reply.surface (.ok plot)).payload = [("x", .ofList .float plot.xs), ("y", .ofList .float plot.ys),
          ("z", .ofList (.ofList .float) rows)]
  | _, _ => False

/-- The members for the points in a reply that has none. -/
def noPoints : Mode → List (String × Datum)
  | .surface => [("x", .array []), ("y", .array []), ("z", .array [])]
  | .scalar | .line => [("x", .array []), ("z", .array [])]

theorem exists_plotLine_eq_ok (admits : (lineTask settings request).Admits e) :
    ∃ plot, plotLine settings request e = .ok plot ∧
      HasPoints (lineTask settings request).parts .line (.line (.ok plot)) := by
  have valid : (lineRange settings request).IsRange := admits.ranges _ (by simp [lineTask])
  obtain ⟨plot, swept⟩ : ∃ plot, e.sweepLine "x" (lineRange settings request) (lineTask settings request).parts = .ok plot :=
    Expr.exists_sweepLine_eq_ok valid (Nat.ne_of_gt admits.one_le)
  have length := Expr.length_xs_of_sweepLine swept
  obtain ⟨value, -, outcomes⟩ := exists_values_of_sweepLine admits.covers swept
  refine ⟨plot, ?_, length, plot.xs.map value, by simp [length], outcomes, ?_⟩
  · rw [plotLine_eq_guard]
    exact PlotTask.guard_eq_ok_iff.mpr ⟨admits.covers, admits.le_limit, swept⟩
  · simp [Reply.payload, outcomes, Datum.ofList, Reply.outcomeToDatum]

theorem exists_plotSurface_eq_ok (admits : (surfaceTask settings request).Admits e) :
    ∃ plot, plotSurface settings request e = .ok plot ∧
      HasPoints (surfaceTask settings request).parts .surface (.surface (.ok plot)) := by
  have xValid : (surfaceRanges settings request).1.IsRange := admits.ranges _ (by simp [surfaceTask])
  have yValid : (surfaceRanges settings request).2.IsRange := admits.ranges _ (by simp [surfaceTask])
  obtain ⟨plot, swept⟩ := Expr.exists_sweepSurface_eq_ok (e := e) xValid yValid (Nat.ne_of_gt admits.one_le)
  obtain ⟨xLength, yLength⟩ := Expr.length_axes_of_sweepSurface swept
  obtain ⟨value, -, outcomes⟩ := exists_values_of_sweepSurface admits.covers swept
  refine ⟨plot, ?_, xLength, yLength, plot.ys.map fun y => plot.xs.map fun x => value x y, by simp [yLength],
    by simp [xLength], outcomes, ?_⟩
  · rw [plotSurface_eq_guard]
    exact PlotTask.guard_eq_ok_iff.mpr ⟨admits.covers, admits.le_limit, swept⟩
  · simp [Reply.payload, outcomes, Datum.ofList, Reply.outcomeToDatum]

/-! ### Replies -/

variable {lru : TreeCaches} {service : Service lru}

theorem hasPoints_of_accepts (plots : request.mode ≠ .scalar)
    (accepts : (plotTask service.settings request).Accepts (source request)) :
    HasPoints (plotTask service.settings request).parts request.mode (service.answer request).1 := by
  obtain ⟨tree, reads, admits⟩ := accepts
  rw [answer_reply]
  cases mode : request.mode with
  | scalar => exact absurd mode plots
  | line =>
    simp only [plotTask, directReply, mode, reads] at admits ⊢
    obtain ⟨plot, plotted, points⟩ := exists_plotLine_eq_ok admits
    rwa [Except.bind, plotted]
  | surface =>
    simp only [plotTask, directReply, mode, reads] at admits ⊢
    obtain ⟨plot, plotted, points⟩ := exists_plotSurface_eq_ok admits
    rwa [Except.bind, plotted]

theorem isSuccess_of_hasPoints {parts : Nat} {mode : Mode} {reply : Reply} (points : HasPoints parts mode reply) :
    reply.isSuccess = true := by
  unfold HasPoints at points
  split at points
  · rfl
  · rfl
  · exact points.elim

theorem error?_of_rejects {failure : Failure} (plots : request.mode ≠ .scalar)
    (rejects : (plotTask service.settings request).Rejects (source request) failure) :
    (service.answer request).1.error? = some failure.message ∧
      (service.answer request).1.payload = noPoints request.mode := by
  rw [answer_reply]
  cases mode : request.mode with
  | scalar => exact absurd mode plots
  | line =>
    simp only [plotTask, directReply, mode, plotLine_eq_guard] at rejects ⊢
    rw [rejects.guard_eq fun tree error => Expr.sweepLine_of_rejects]
    exact ⟨rfl, rfl⟩
  | surface =>
    simp only [plotTask, directReply, mode, plotSurface_eq_guard] at rejects ⊢
    rw [rejects.guard_eq fun tree error => Expr.sweepSurface_of_rejects]
    exact ⟨rfl, rfl⟩

/-- A plot request succeeds if and only if its text can be read and plotted, and then there is a value at each
point. Otherwise there is a check that fails first, its message is the error, and there are no points. -/
theorem plot_succeeds_iff_accepted (service : Service lru) (request : Request) (plots : request.mode ≠ .scalar) :
    let task := plotTask service.settings request
    let reply := (service.answer request).1
    (reply.isSuccess = true ↔ task.Accepts (source request)) ∧
    (reply.isSuccess = true → HasPoints task.parts request.mode reply) ∧
    (reply.isSuccess = false → ∃ failure, task.Rejects (source request) failure) ∧
    ∀ failure, task.Rejects (source request) failure →
      reply.isSuccess = false ∧ reply.error? = some failure.message ∧ reply.payload = noPoints request.mode := by
  intro task reply
  have fails : ∀ failure, task.Rejects (source request) failure →
      reply.isSuccess = false ∧ reply.error? = some failure.message ∧ reply.payload = noPoints request.mode := by
    intro failure rejects
    obtain ⟨error, payload⟩ := error?_of_rejects plots rejects
    exact ⟨by simp [reply, Reply.isSuccess, error], error, payload⟩
  rcases task.accepts_or_rejects (source request) with accepts | ⟨failure, rejects⟩
  · have points := hasPoints_of_accepts plots accepts
    have success : reply.isSuccess = true := isSuccess_of_hasPoints points
    exact ⟨iff_of_true success accepts, fun _ => points, by simp [success], fails⟩
  · have failed := (fails failure rejects).1
    refine ⟨iff_of_false (by simp [failed]) fun accepts => ?_, by simp [failed], fun _ => ⟨failure, rejects⟩, fails⟩
    have success : reply.isSuccess = true := isSuccess_of_hasPoints (hasPoints_of_accepts plots accepts)
    simp [failed] at success

/-- Of two foreign variables the lesser one is the error, before a resolution that is too high. -/
theorem plot_succeeds_iff_accepted_two_foreign :
    let request : Request := { expression := "b+a", mode := .surface, resolution := some 1000 }
    ∃ service : Service (RecentList.library String Parsed), new? _ .default = some service ∧
      request.mode ≠ .scalar ∧ (service.answer request).1.error? = some "unbound variable 'a'" := by
  intro request
  obtain ⟨service, opens⟩ : ∃ service, new? (RecentList.library String Parsed) .default = some service := ⟨_, rfl⟩
  have plots : request.mode ≠ .scalar := by decide
  obtain ⟨-, -, -, fails⟩ := plot_succeeds_iff_accepted service request plots
  have least : (Expr.read "b+a").toOption.bind (·.unknowns.find? fun name => !List.contains ["x", "y"] name) =
      some "a" := by decide +kernel
  cases reads : Expr.read "b+a" with
  | error failure => simp [reads, Except.toOption] at least
  | ok tree =>
    rw [reads] at least
    exact ⟨service, opens, plots, (fails _ (.names reads (PlotTask.isFirstForeign_iff.mpr least))).2.1⟩

end

end GraphingCalculator.Service
