import GraphingCalculator.Proofs.Sweep.Points

/-!
Slices of a surface. A row is a line along `x` and a column is one along `y`, both of the expression with
the other variable replaced by its value there (`Expr.surface_is_stack_of_lines`). For a number in the
place of a variable does the same as binding the variable to it, also when another variable keeps the
expression from having a value (`Expr.eval_subst`), and it is all the same which of two variables is bound
first (`Expr.eval_bind_comm`).
-/

namespace GraphingCalculator.Expr

/-- The expression with a number in the place of a variable, wherever it occurs. -/
def subst (name : String) (value : Float) : Expr → Expr
  | literal number => literal number
  | var other => if other = name then literal value else var other
  | constant c => constant c
  | negate operand => negate (operand.subst name value)
  | binary op left right => binary op (left.subst name value) (right.subst name value)
  | call f argument => call f (argument.subst name value)

variable {e : Expr} {env : Environment} {name other : String} {value : Float}

/-- A number in the place of a variable counts as the value of the variable, whatever that was before. -/
theorem eval_subst : (e.subst name value).eval env = e.eval (env.bind name value) := by
  induction e with
  | literal | constant => rfl
  | var occurring =>
    by_cases here : occurring = name
    · simp [subst, eval, here, Environment.get?_bind]
    · simp [subst, eval, here, Environment.get?_bind]
  | negate operand ih | call f operand ih => simp only [subst, eval, ih]
  | binary op left right ihLeft ihRight => simp only [subst, eval, ihLeft, ihRight]

/-- An expression does not show which of two variables has been bound first. -/
theorem eval_bind_comm (apart : name ≠ other) (e : Expr) (env : Environment) (value otherValue : Float) :
    e.eval ((env.bind name value).bind other otherValue) = e.eval ((env.bind other otherValue).bind name value) := by
  refine eval_congr fun occurring _ => ?_
  simp only [Environment.get?_bind]
  by_cases first : occurring = name
  · simp [first, apart]
  · simp [first]

section
variable {bounds xBounds yBounds : Bounds} {count : Nat}

/-- Between bounds that have passed their check every expression has a line. -/
theorem exists_line_of_ofBounds {interval : Interval} (e : Expr) (name : String)
    (made : Interval.ofBounds bounds = .ok interval) (divided : count ≠ 0) :
    ∃ line, e.sweepLine name bounds count = .ok line ∧
      line.outcomes = (interval.coordinates count).map fun x => e.eval (Environment.empty.bind name x) := by
  refine ⟨_, sweepLine_eq_ok_iff.mpr ⟨interval, made, divided, rfl⟩, ?_⟩
  simp [Line.outcomes, Function.comp_def]

/-- A row of a surface is the line of the expression with the value of `y` there. -/
theorem exists_line_of_row {surface : Surface} {i : Nat} {y : Float}
    (swept : e.sweepSurface xBounds yBounds count = .ok surface) (at_i : surface.ys[i]? = some y) :
    ∃ line, (e.subst "y" y).sweepLine "x" xBounds count = .ok line ∧ surface.outcomes[i]? = some line.outcomes := by
  obtain ⟨xInterval, yInterval, xMade, -, divided, xs_eq, -⟩ := sweepSurface_eq_ok_iff.mp swept
  obtain ⟨line, along, outcomes_eq⟩ := exists_line_of_ofBounds (e.subst "y" y) "x" xMade divided
  refine ⟨line, along, ?_⟩
  rw [outcomes_of_sweepSurface swept, List.getElem?_map, at_i, outcomes_eq, xs_eq]
  refine congrArg some (List.map_congr_left fun x _ => ?_)
  exact eval_subst.symm

/-- A column of a surface is the line of the expression with the value of `x` there. -/
theorem exists_line_of_column {surface : Surface} {j : Nat} {x : Float}
    (swept : e.sweepSurface xBounds yBounds count = .ok surface) (at_j : surface.xs[j]? = some x) :
    ∃ line, (e.subst "x" x).sweepLine "y" yBounds count = .ok line ∧
      surface.outcomes.map (·[j]?) = line.outcomes.map some := by
  obtain ⟨xInterval, yInterval, -, yMade, divided, -, rows_eq⟩ := sweepSurface_eq_ok_iff.mp swept
  obtain ⟨line, along, outcomes_eq⟩ := exists_line_of_ofBounds (e.subst "x" x) "y" yMade divided
  have ys_eq : surface.ys = yInterval.coordinates count := by simp [Surface.ys, rows_eq, Function.comp_def]
  refine ⟨line, along, ?_⟩
  rw [outcomes_of_sweepSurface swept, outcomes_eq, ys_eq, List.map_map, List.map_map]
  refine List.map_congr_left fun y _ => ?_
  rw [Function.comp_apply, List.getElem?_map, at_j]
  -- the row binds `x` before `y`, and the line along `y` comes to `x` only after `y`
  calc
    some (e.eval ((Environment.empty.bind "x" x).bind "y" y))
      = some (e.eval ((Environment.empty.bind "y" y).bind "x" x)) := by rw [eval_bind_comm (by decide)]
    _ = some ((e.subst "x" x).eval (Environment.empty.bind "y" y)) := by rw [eval_subst]

/-- Each row of a surface is a line along `x`, of the expression with a number for `y`, and each column is one along
`y`, of the expression with a number for `x`, with all their errors. -/
theorem surface_is_stack_of_lines (e : Expr) (xBounds yBounds : Bounds) (count : Nat) (xValid : xBounds.IsRange)
    (yValid : yBounds.IsRange) (divided : 1 ≤ count) :
    ∃ surface, e.sweepSurface xBounds yBounds count = .ok surface ∧
      (∀ i ≤ count, ∃ y line, surface.ys[i]? = some y ∧ (e.subst "y" y).sweepLine "x" xBounds count = .ok line ∧
        surface.outcomes[i]? = some line.outcomes) ∧
      ∀ j ≤ count, ∃ x line, surface.xs[j]? = some x ∧ (e.subst "x" x).sweepLine "y" yBounds count = .ok line ∧
        surface.outcomes.map (·[j]?) = line.outcomes.map some := by
  obtain ⟨surface, swept⟩ := exists_sweepSurface_eq_ok (e := e) xValid yValid (Nat.ne_of_gt divided)
  obtain ⟨xLength, yLength⟩ := length_axes_of_sweepSurface swept
  refine ⟨surface, swept, ?_, ?_⟩
  · intro i within
    obtain ⟨y, at_i⟩ : ∃ y, surface.ys[i]? = some y := ⟨_, List.getElem?_eq_getElem (by omega)⟩
    obtain ⟨line, along, row⟩ := exists_line_of_row swept at_i
    exact ⟨y, line, at_i, along, row⟩
  · intro j within
    obtain ⟨x, at_j⟩ : ∃ x, surface.xs[j]? = some x := ⟨_, List.getElem?_eq_getElem (by omega)⟩
    obtain ⟨line, along, column⟩ := exists_line_of_column swept at_j
    exact ⟨x, line, at_j, along, column⟩

/-- The row in the middle of the grid of `x - y` over `[0, 1]` and `[0, 2]` is the line of `x - 1`. -/
theorem surface_is_stack_of_lines_difference :
    let e : Expr := .binary .subtract (.var "x") (.var "y")
    let xBounds : Bounds := ⟨0, 1⟩
    let yBounds : Bounds := ⟨0, 2⟩
    xBounds.IsRange ∧ yBounds.IsRange ∧ ∃ surface line, e.sweepSurface xBounds yBounds 2 = .ok surface ∧
      Expr.sweepLine (.binary .subtract (.var "x") (.literal 1)) "x" xBounds 2 = .ok line ∧
      surface.outcomes[1]? = some line.outcomes := by
  intro e xBounds yBounds
  have xValid : xBounds.IsRange := by decide +kernel
  have yValid : yBounds.IsRange := by decide +kernel
  have middle : (e.sweepSurface xBounds yBounds 2).toOption.map (·.ys[1]?) = some (some 1) := by decide +kernel
  obtain ⟨surface, swept, rows, -⟩ := surface_is_stack_of_lines e xBounds yBounds 2 xValid yValid (by decide)
  obtain ⟨y, line, at_row, along, row⟩ := rows 1 (by decide)
  rw [swept] at middle
  obtain rfl : y = 1 := Option.some.inj (at_row.symm.trans (Option.some.inj middle))
  exact ⟨xValid, yValid, surface, line, swept, along, row⟩

end

end GraphingCalculator.Expr
