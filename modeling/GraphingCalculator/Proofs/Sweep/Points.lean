import GraphingCalculator.Proofs.Expr.Evaluation
import GraphingCalculator.Sweep.Surface

/-!
When a sweep starts, and what stands at its points. The ranges are checked one after the other and
the number of parts after them (`RejectsSweep`); a sweep that passes has the value of the expression
at each of its coordinates, in an environment that binds the swept variables only
(`Expr.sweepLine_eq_ok_iff`, `Expr.sweepSurface_eq_ok_iff`).

The points of a sweep are therefore as many evaluations apart from each other (`Line.IsPointwise`,
`Surface.IsPointwise`), although the sweep itself hands one environment on from point to point.
-/

namespace GraphingCalculator

/-- Bounds that a sweep can run between: both are finite and the lower one is the lesser. -/
def Bounds.IsRange (bounds : Bounds) : Prop :=
  bounds.min.isFinite = true ∧ bounds.max.isFinite = true ∧ bounds.min < bounds.max

instance (bounds : Bounds) : Decidable bounds.IsRange :=
  inferInstanceAs (Decidable (_ ∧ _ ∧ _))

theorem Interval.ofBounds_of_isRange {bounds : Bounds} (valid : bounds.IsRange) :
    ofBounds bounds = .ok ⟨bounds.min, bounds.max, valid.1, valid.2.1, valid.2.2⟩ :=
  dif_pos valid

theorem Interval.ofBounds_of_not_isRange {bounds : Bounds} (invalid : ¬bounds.IsRange) :
    ofBounds bounds = .error (.invalidRange bounds) :=
  dif_neg invalid

/-- Why a sweep into `parts` parts of these ranges does not start: the first of the ranges that is
none, or else that there are no parts. -/
inductive RejectsSweep (ranges : List Bounds) (parts : Nat) : SweepError → Prop
  | range {bounds : Bounds} (first : ranges.find? (¬·.IsRange) = some bounds) :
    RejectsSweep ranges parts (.invalidRange bounds)
  | parts (valid : ∀ range ∈ ranges, range.IsRange) (empty : parts = 0) :
    RejectsSweep ranges parts .noIntervals

/-- One of the checks fails first, or all are passed. -/
theorem rejects_or_valid (ranges : List Bounds) (parts : Nat) :
    (∃ error, RejectsSweep ranges parts error) ∨ ((∀ range ∈ ranges, range.IsRange) ∧ parts ≠ 0) := by
  cases invalid : ranges.find? (¬·.IsRange) with
  | some bounds => exact .inl ⟨_, .range invalid⟩
  | none =>
    have valid : ∀ range ∈ ranges, range.IsRange := by simpa using invalid
    by_cases empty : parts = 0
    · exact .inl ⟨_, .parts valid empty⟩
    · exact .inr ⟨valid, empty⟩

/-- A run that fails with the check that fails first, and not at all when all are passed, fails in no other way. -/
theorem RejectsSweep.eq_error_iff {α : Type} {ranges : List Bounds} {parts : Nat} {run : Except SweepError α}
    (ordered : ∀ error, RejectsSweep ranges parts error → run = .error error)
    (passes : (∀ range ∈ ranges, range.IsRange) → parts ≠ 0 → ∃ result, run = .ok result) (error : SweepError) :
    run = .error error ↔ RejectsSweep ranges parts error := by
  refine ⟨fun failed => ?_, ordered error⟩
  rcases rejects_or_valid ranges parts with ⟨first, rejects⟩ | ⟨valid, divided⟩
  · have same := failed.symm.trans (ordered first rejects)
    cases same
    exact rejects
  · obtain ⟨result, passed⟩ := passes valid divided
    rw [passed] at failed
    cases failed

theorem Interval.eq_of_ofBounds {bounds : Bounds} {interval : Interval} (made : ofBounds bounds = .ok interval) :
    interval.min = bounds.min ∧ interval.max = bounds.max := by
  by_cases valid : bounds.IsRange
  · rw [ofBounds_of_isRange valid] at made
    cases made
    exact ⟨rfl, rfl⟩
  · rw [ofBounds_of_not_isRange valid] at made
    cases made

/-- The last coordinate is the upper bound itself. -/
theorem Interval.last_coordinates (interval : Interval) (count : Nat) :
    (interval.coordinates count)[count]? = some interval.max := by
  simp [coordinates, coordinate]

namespace Expr
variable {e : Expr} {name : String} {bounds xBounds yBounds : Bounds} {count : Nat}

theorem sweepLine_of_rejects {error : SweepError} (rejects : RejectsSweep [bounds] count error) :
    e.sweepLine name bounds count = .error error := by
  cases rejects with
  | range first =>
    obtain ⟨invalid, rfl⟩ : ¬bounds.IsRange ∧ bounds = _ := by simpa [List.find?_cons_eq_some] using first
    rw [sweepLine, Interval.ofBounds_of_not_isRange invalid]
    rfl
  | parts valid empty =>
    rw [sweepLine, Interval.ofBounds_of_isRange (valid bounds (by simp)), empty]
    rfl

theorem sweepSurface_of_rejects {error : SweepError} (rejects : RejectsSweep [xBounds, yBounds] count error) :
    e.sweepSurface xBounds yBounds count = .error error := by
  cases rejects with
  | range first =>
    by_cases valid : xBounds.IsRange
    · obtain ⟨invalid, rfl⟩ : ¬yBounds.IsRange ∧ yBounds = _ := by simpa [valid] using first
      rw [sweepSurface, Interval.ofBounds_of_isRange valid, Interval.ofBounds_of_not_isRange invalid]
      rfl
    · obtain rfl : xBounds = _ := by simpa [valid] using first
      rw [sweepSurface, Interval.ofBounds_of_not_isRange valid]
      rfl
  | parts valid empty =>
    rw [sweepSurface, Interval.ofBounds_of_isRange (valid xBounds (by simp)),
      Interval.ofBounds_of_isRange (valid yBounds (by simp)), empty]
    rfl

/-- A point shows nothing of the values that its variable had at the points before it. -/
theorem along_eq_map (e : Expr) (name : String) (env : Environment) (xs : List Float) :
    e.along name env xs = xs.map fun x => (x, e.eval (env.bind name x)) := by
  induction xs generalizing env with
  | nil => rfl
  | cons x xs ih => simp [along, ih, Environment.bind_bind]

/-- The points of a sweep along a line. -/
theorem sweepLine_eq_ok_iff {line : Line} :
    e.sweepLine name bounds count = .ok line ↔
      ∃ interval, Interval.ofBounds bounds = .ok interval ∧ count ≠ 0 ∧
        line = ⟨name, (interval.coordinates count).map fun x => (x, e.eval (Environment.empty.bind name x))⟩ := by
  rw [sweepLine]
  by_cases empty : count = 0
  · simp [empty]
  · simp [empty, along_eq_map, Environment.bind_bind, @eq_comm _ line]

theorem bind_within_row (first x y : Float) :
    ((Environment.empty.bind horizontalName first).bind verticalName y).bind horizontalName x =
      (Environment.empty.bind horizontalName x).bind verticalName y := by
  simp [Environment.bind, Environment.empty, Environment.assign, horizontalName, verticalName]

/-- The cells of a sweep over a grid. -/
theorem sweepSurface_eq_ok_iff {surface : Surface} :
    e.sweepSurface xBounds yBounds count = .ok surface ↔
      ∃ xInterval yInterval, Interval.ofBounds xBounds = .ok xInterval ∧ Interval.ofBounds yBounds = .ok yInterval ∧
        count ≠ 0 ∧ surface.xs = xInterval.coordinates count ∧
        surface.rows = (yInterval.coordinates count).map fun y =>
          (y, (xInterval.coordinates count).map fun x =>
            e.eval ((Environment.empty.bind horizontalName x).bind verticalName y)) := by
  rw [sweepSurface]
  by_cases empty : count = 0
  · simp [empty]
  · obtain ⟨xs, rows, rectangular⟩ := surface
    simp [empty, along_eq_map, bind_within_row, Function.comp_def, @eq_comm _ xs, @eq_comm _ rows]

theorem exists_sweepLine_eq_ok (valid : bounds.IsRange) (divided : count ≠ 0) :
    ∃ line, e.sweepLine name bounds count = .ok line :=
  ⟨_, sweepLine_eq_ok_iff.mpr ⟨_, Interval.ofBounds_of_isRange valid, divided, rfl⟩⟩

theorem exists_sweepSurface_eq_ok (xValid : xBounds.IsRange) (yValid : yBounds.IsRange) (divided : count ≠ 0) :
    ∃ surface, e.sweepSurface xBounds yBounds count = .ok surface :=
  ⟨⟨_, _, by simp⟩, sweepSurface_eq_ok_iff.mpr ⟨_, _, Interval.ofBounds_of_isRange xValid,
    Interval.ofBounds_of_isRange yValid, divided, rfl, rfl⟩⟩

theorem length_xs_of_sweepLine {line : Line} (swept : e.sweepLine name bounds count = .ok line) :
    line.xs.length = count + 1 := by
  obtain ⟨interval, -, -, rfl⟩ := sweepLine_eq_ok_iff.mp swept
  simp [Line.xs]

theorem outcomes_of_sweepLine {line : Line} (swept : e.sweepLine name bounds count = .ok line) :
    line.outcomes = line.xs.map fun x => e.eval (Environment.empty.bind name x) := by
  obtain ⟨interval, -, -, rfl⟩ := sweepLine_eq_ok_iff.mp swept
  simp [Line.xs, Line.outcomes]

/-- A line has one point more than there are parts. -/
theorem size_of_sweepLine {line : Line} (swept : e.sweepLine name bounds count = .ok line) : line.size = count + 1 := by
  rw [← length_xs_of_sweepLine swept, Line.xs, List.length_map, Line.size]

theorem length_axes_of_sweepSurface {surface : Surface} (swept : e.sweepSurface xBounds yBounds count = .ok surface) :
    surface.xs.length = count + 1 ∧ surface.ys.length = count + 1 := by
  obtain ⟨xInterval, yInterval, -, -, -, xs_eq, rows_eq⟩ := sweepSurface_eq_ok_iff.mp swept
  simp [Surface.ys, xs_eq, rows_eq]

/-- A grid has one row and one column more than there are parts. -/
theorem size_of_sweepSurface {surface : Surface} (swept : e.sweepSurface xBounds yBounds count = .ok surface) :
    surface.size = (count + 1) * (count + 1) := by
  obtain ⟨xLength, yLength⟩ := length_axes_of_sweepSurface swept
  rw [Surface.ys, List.length_map] at yLength
  rw [Surface.size, xLength, yLength]

theorem outcomes_of_sweepSurface {surface : Surface} (swept : e.sweepSurface xBounds yBounds count = .ok surface) :
    surface.outcomes = surface.ys.map fun y => surface.xs.map fun x =>
      e.eval ((Environment.empty.bind horizontalName x).bind verticalName y) := by
  obtain ⟨xInterval, yInterval, -, -, -, xs_eq, rows_eq⟩ := sweepSurface_eq_ok_iff.mp swept
  simp [Surface.ys, Surface.outcomes, xs_eq, rows_eq]

/-- The coordinates of a line are those of its range, whatever is evaluated there. -/
theorem xs_of_sweepLine {line : Line} {interval : Interval} (made : Interval.ofBounds bounds = .ok interval)
    (swept : e.sweepLine name bounds count = .ok line) : line.xs = interval.coordinates count := by
  obtain ⟨other, same, -, rfl⟩ := sweepLine_eq_ok_iff.mp swept
  rw [made] at same
  cases same
  simp [Line.xs, Function.comp_def]

end Expr

/-! ### Each point by itself -/

/-- A line into `count` parts: one point more than there are parts, the last at the upper bound, and at each of them
what the expression is worth when the value of the variable there is all that is bound. -/
structure Line.IsPointwise (line : Line) (e : Expr) (name : String) (bounds : Bounds) (count : Nat) : Prop where
  axis : line.axis = name
  length_xs : line.xs.length = count + 1
  last_xs : line.xs[count]? = some bounds.max
  length_outcomes : line.outcomes.length = count + 1
  outcome : ∀ (i : Nat) (x : Float), line.xs[i]? = some x → line.outcomes[i]? = some (e.eval (.ofList [(name, x)]))

/-- A grid of `count` parts each way: as many rows as a line along `y` has points and as many columns as one along
`x`, and in each cell what the expression is worth when the values of `x` and `y` there are all that is bound.
Outside there is nothing. -/
structure Surface.IsPointwise (surface : Surface) (e : Expr) (xBounds yBounds : Bounds) (count : Nat) : Prop where
  length_outcomes : surface.outcomes.length = count + 1
  length_row : ∀ row ∈ surface.outcomes, row.length = count + 1
  xs : ∀ (other : Expr) (name : String) (line : Line),
    other.sweepLine name xBounds count = .ok line → surface.xs = line.xs
  ys : ∀ (other : Expr) (name : String) (line : Line),
    other.sweepLine name yBounds count = .ok line → surface.ys = line.xs
  cell : ∀ i ≤ count, ∀ j ≤ count, ∃ x y row, surface.xs[j]? = some x ∧ surface.ys[i]? = some y ∧
    surface.outcomes[i]? = some row ∧ row[j]? = some (e.eval (.ofList [("x", x), ("y", y)])) ∧
    surface.get? i j = some (e.eval (.ofList [("x", x), ("y", y)]))
  outside : ∀ i j, ¬(i ≤ count ∧ j ≤ count) → surface.get? i j = none

namespace Surface

/-- A cell is looked up in its row. -/
theorem get?_eq_bind (surface : Surface) (i j : Nat) : surface.get? i j = surface.outcomes[i]?.bind (·[j]?) := by
  rw [get?, outcomes, List.getElem?_map]
  cases surface.rows[i]? <;> rfl

end Surface

namespace Expr
variable {e : Expr} {name : String} {bounds xBounds yBounds : Bounds} {count : Nat}

theorem isPointwise_of_sweepLine {line : Line} (swept : e.sweepLine name bounds count = .ok line) :
    line.IsPointwise e name bounds count := by
  obtain ⟨interval, made, -, line_eq⟩ := sweepLine_eq_ok_iff.mp swept
  have xs_eq : line.xs = interval.coordinates count := xs_of_sweepLine made swept
  have outcomes_eq := outcomes_of_sweepLine swept
  refine ⟨?_, ?_, ?_, ?_, ?_⟩
  · rw [line_eq]
  · rw [xs_eq, Interval.length_coordinates]
  · rw [xs_eq, Interval.last_coordinates, (Interval.eq_of_ofBounds made).2]
  · rw [outcomes_eq, List.length_map, xs_eq, Interval.length_coordinates]
  · intro i x at_i
    rw [outcomes_eq, List.getElem?_map, at_i]
    rfl

theorem isPointwise_of_sweepSurface {surface : Surface} (swept : e.sweepSurface xBounds yBounds count = .ok surface) :
    surface.IsPointwise e xBounds yBounds count := by
  obtain ⟨xInterval, yInterval, xMade, yMade, -, xs_eq, rows_eq⟩ := sweepSurface_eq_ok_iff.mp swept
  have ys_eq : surface.ys = yInterval.coordinates count := by simp [Surface.ys, rows_eq, Function.comp_def]
  have outcomes_eq := outcomes_of_sweepSurface swept
  obtain ⟨xLength, yLength⟩ := length_axes_of_sweepSurface swept
  have rowLength : ∀ row ∈ surface.outcomes, row.length = count + 1 := by
    intro row member
    rw [outcomes_eq, List.mem_map] at member
    obtain ⟨y, -, rfl⟩ := member
    rw [List.length_map, xLength]
  refine ⟨?_, rowLength, ?_, ?_, ?_, ?_⟩
  · rw [outcomes_eq, List.length_map, yLength]
  · intro other name line along
    rw [xs_eq, xs_of_sweepLine xMade along]
  · intro other name line along
    rw [ys_eq, xs_of_sweepLine yMade along]
  · intro i row_i j column_j
    obtain ⟨x, at_j⟩ : ∃ x, surface.xs[j]? = some x := ⟨_, List.getElem?_eq_getElem (by omega)⟩
    obtain ⟨y, at_i⟩ : ∃ y, surface.ys[i]? = some y := ⟨_, List.getElem?_eq_getElem (by omega)⟩
    let row : List Outcome := surface.xs.map fun x => e.eval (.ofList [("x", x), ("y", y)])
    have row_eq : surface.outcomes[i]? = some row := by
      rw [outcomes_eq, List.getElem?_map, at_i]
      rfl
    have cell_eq : row[j]? = some (e.eval (.ofList [("x", x), ("y", y)])) := by
      rw [List.getElem?_map, at_j]
      rfl
    refine ⟨x, y, row, at_j, at_i, row_eq, cell_eq, ?_⟩
    rw [Surface.get?_eq_bind, row_eq]
    exact cell_eq
  · intro i j outside
    rw [Surface.get?_eq_bind]
    cases at_i : surface.outcomes[i]? with
    | none => rfl
    | some row =>
      have inside : i < surface.outcomes.length := (List.getElem?_eq_some_iff.mp at_i).1
      have width := rowLength row (List.mem_of_getElem? at_i)
      rw [outcomes_eq, List.length_map, yLength] at inside
      exact List.getElem?_eq_none (by omega)

/-- A sweep fails if and only if a check fails, with the first one that does: a range is none, `x` before `y`, or
else there are no parts. If all are passed, each of its points has the value of the expression in an environment of
its own. -/
theorem sweeps_are_pointwise (e : Expr) (count : Nat) :
    (∀ name bounds,
      (∀ error, e.sweepLine name bounds count = .error error ↔ RejectsSweep [bounds] count error) ∧
      (bounds.IsRange → count ≠ 0 →
        ∃ line, e.sweepLine name bounds count = .ok line ∧ line.IsPointwise e name bounds count)) ∧
    ∀ xBounds yBounds,
      (∀ error, e.sweepSurface xBounds yBounds count = .error error ↔ RejectsSweep [xBounds, yBounds] count error) ∧
      (xBounds.IsRange → yBounds.IsRange → count ≠ 0 →
        ∃ surface, e.sweepSurface xBounds yBounds count = .ok surface ∧
          surface.IsPointwise e xBounds yBounds count) := by
  constructor
  · intro name bounds
    refine ⟨RejectsSweep.eq_error_iff (fun _ => sweepLine_of_rejects) fun valid divided => ?_, fun valid divided => ?_⟩
    · exact exists_sweepLine_eq_ok (valid bounds (by simp)) divided
    · obtain ⟨line, swept⟩ : ∃ line, e.sweepLine name bounds count = .ok line :=
        exists_sweepLine_eq_ok valid divided
      exact ⟨line, swept, isPointwise_of_sweepLine swept⟩
  · intro xBounds yBounds
    refine ⟨RejectsSweep.eq_error_iff (fun _ => sweepSurface_of_rejects) fun valid divided => ?_,
      fun xValid yValid divided => ?_⟩
    · exact exists_sweepSurface_eq_ok (valid xBounds (by simp)) (valid yBounds (by simp)) divided
    · obtain ⟨surface, swept⟩ := exists_sweepSurface_eq_ok (e := e) xValid yValid divided
      exact ⟨surface, swept, isPointwise_of_sweepSurface swept⟩

/-- The grid of `x - y` over `[0, 1]` and `[0, 2]` in two parts each way, and the two reasons for which a sweep of it
would not start when neither the range of `y` nor the number of parts will do. -/
theorem sweeps_are_pointwise_difference :
    let e : Expr := .binary .subtract (.var "x") (.var "y")
    let xBounds : Bounds := ⟨0, 1⟩
    let yBounds : Bounds := ⟨0, 2⟩
    xBounds.IsRange ∧ yBounds.IsRange ∧
      (∃ surface, e.sweepSurface xBounds yBounds 2 = .ok surface ∧ surface.IsPointwise e xBounds yBounds 2) ∧
      e.sweepSurface xBounds ⟨2, 2⟩ 0 = .error (.invalidRange ⟨2, 2⟩) := by
  intro e xBounds yBounds
  have xValid : xBounds.IsRange := by decide +kernel
  have yValid : yBounds.IsRange := by decide +kernel
  obtain ⟨-, surface⟩ := sweeps_are_pointwise e 2
  obtain ⟨-, grid⟩ := surface xBounds yBounds
  obtain ⟨-, empty⟩ := sweeps_are_pointwise e 0
  have noRange : ¬(⟨2, 2⟩ : Bounds).IsRange := by decide +kernel
  refine ⟨xValid, yValid, grid xValid yValid (by decide), ?_⟩
  exact ((empty xBounds ⟨2, 2⟩).1 _).mpr (.range (by simp [xValid, noRange]))

end Expr

end GraphingCalculator
