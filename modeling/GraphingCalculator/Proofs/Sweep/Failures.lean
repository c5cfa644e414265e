import GraphingCalculator.Proofs.Sweep.Points

/-!
How many points of a sweep fail: none of them or all (`Expr.sweep_fails_everywhere_or_nowhere`). Each point
binds the swept variables and nothing else, and whether an expression has a value then, and which name is
reported if it has none, does not depend on what they are bound to (`failsAsOne_of_evaluated`).
-/

namespace GraphingCalculator

/-- Of so many points of a sweep over these variables so many fail. If the expression has no other variables, none
does. If it has, all do, and for one name: the first foreign one from the left, which is reported whenever the swept
variables are all that is bound. -/
structure FailsAsOne (e : Expr) (swept : List String) (outcomes : List Outcome) (failures size : Nat) : Prop where
  length_outcomes : outcomes.length = size
  size_pos : 0 < size
  nowhere : (∀ name ∈ e.unknowns, name ∈ swept) → failures = 0
  everywhere : ¬(∀ name ∈ e.unknowns, name ∈ swept) → failures = size ∧
    ∃ name, e.names.find? (· ∉ swept) = some name ∧
      (∀ env : Environment, env.BindsJust swept → e.eval env = .error (.unbound name)) ∧
      ∀ outcome ∈ outcomes, outcome = .error (.unbound name)
  not_between : ¬(0 < failures ∧ failures < size)

section
variable {e : Expr} {swept : List String} {outcomes : List Outcome}

theorem countP_isFailure_of_covered (covered : ∀ name ∈ e.unknowns, name ∈ swept)
    (evaluated : ∀ outcome ∈ outcomes, ∃ env : Environment, env.BindsJust swept ∧ outcome = e.eval env) :
    outcomes.countP Outcome.isFailure = 0 := by
  refine List.countP_eq_zero.mpr fun outcome member => ?_
  obtain ⟨env, just, rfl⟩ := evaluated outcome member
  obtain ⟨value, has⟩ := just.exists_eval_eq_ok fun name occurs => covered name (Expr.mem_unknowns.mpr occurs)
  simp [has, Outcome.isFailure]

theorem exists_first_foreign (foreign : ¬∀ name ∈ e.unknowns, name ∈ swept) :
    ∃ name, e.names.find? (· ∉ swept) = some name := by
  cases found : e.names.find? (· ∉ swept) with
  | some name => exact ⟨name, rfl⟩
  | none =>
    refine absurd (fun name occurs => ?_) foreign
    have within := List.find?_eq_none.mp found name (Expr.mem_unknowns.mp occurs)
    simpa using within

/-- Evaluations that bind the same names fail together and for one name. -/
theorem failsAsOne_of_evaluated (points : 0 < outcomes.length)
    (evaluated : ∀ outcome ∈ outcomes, ∃ env : Environment, env.BindsJust swept ∧ outcome = e.eval env) :
    FailsAsOne e swept outcomes (outcomes.countP Outcome.isFailure) outcomes.length := by
  by_cases covered : ∀ name ∈ e.unknowns, name ∈ swept
  · have none_fails := countP_isFailure_of_covered covered evaluated
    refine ⟨rfl, points, fun _ => none_fails, fun foreign => absurd covered foreign, ?_⟩
    rw [none_fails]
    exact fun between => Nat.lt_irrefl 0 between.1
  · obtain ⟨name, first⟩ := exists_first_foreign covered
    have reports : ∀ env : Environment, env.BindsJust swept → e.eval env = .error (.unbound name) :=
      fun env just => just.eval_eq_error_iff.mpr first
    have same : ∀ outcome ∈ outcomes, outcome = .error (.unbound name) := by
      intro outcome member
      obtain ⟨env, just, rfl⟩ := evaluated outcome member
      exact reports env just
    have all_fail : outcomes.countP Outcome.isFailure = outcomes.length := by
      refine List.countP_eq_length.mpr fun outcome member => ?_
      rw [same outcome member]
      rfl
    refine ⟨rfl, points, fun within => absurd within covered, fun _ => ⟨all_fail, name, first, reports, same⟩, ?_⟩
    rw [all_fail]
    exact fun between => Nat.lt_irrefl _ between.2

end

namespace Expr
variable {e : Expr} {name : String} {bounds xBounds yBounds : Bounds} {count : Nat}

theorem failsAsOne_of_sweepLine {line : Line} (swept : e.sweepLine name bounds count = .ok line) :
    FailsAsOne e [name] line.outcomes line.failures line.size := by
  have outcomes_eq := outcomes_of_sweepLine swept
  have length_eq : line.outcomes.length = line.size := by rw [Line.outcomes, List.length_map, Line.size]
  rw [← length_eq]
  refine failsAsOne_of_evaluated ?_ fun outcome member => ?_
  · rw [length_eq, size_of_sweepLine swept]
    exact Nat.succ_pos count
  · rw [outcomes_eq, List.mem_map] at member
    obtain ⟨x, -, rfl⟩ := member
    exact ⟨_, Environment.bindsJust_empty.bind name x, rfl⟩

theorem failsAsOne_of_sweepSurface {surface : Surface} (swept : e.sweepSurface xBounds yBounds count = .ok surface) :
    FailsAsOne e ["x", "y"] surface.outcomes.flatten surface.failures surface.size := by
  have outcomes_eq := outcomes_of_sweepSurface swept
  have length_eq : surface.outcomes.flatten.length = surface.size := by
    obtain ⟨xLength, yLength⟩ := length_axes_of_sweepSurface swept
    rw [outcomes_eq, size_of_sweepSurface swept]
    simp [List.length_flatten, Function.comp_def, xLength, yLength]
  rw [← length_eq]
  refine failsAsOne_of_evaluated ?_ fun outcome member => ?_
  · rw [length_eq, size_of_sweepSurface swept]
    exact Nat.mul_pos (Nat.succ_pos count) (Nat.succ_pos count)
  · rw [outcomes_eq, List.mem_flatten] at member
    obtain ⟨row, member, inRow⟩ := member
    obtain ⟨y, -, rfl⟩ := List.mem_map.mp member
    obtain ⟨x, -, rfl⟩ := List.mem_map.mp inRow
    exact ⟨_, (Environment.bindsJust_empty.bind "x" x).bind "y" y, rfl⟩

/-- No point of a sweep fails if the expression has no other variables than the swept ones, and else all of them do,
for the same name. -/
theorem sweep_fails_everywhere_or_nowhere (e : Expr) :
    (∀ name bounds count line, e.sweepLine name bounds count = .ok line →
      FailsAsOne e [name] line.outcomes line.failures line.size) ∧
    ∀ xBounds yBounds count surface, e.sweepSurface xBounds yBounds count = .ok surface →
      FailsAsOne e ["x", "y"] surface.outcomes.flatten surface.failures surface.size := by
  constructor
  · intro name bounds count line swept
    exact failsAsOne_of_sweepLine swept
  · intro xBounds yBounds count surface swept
    exact failsAsOne_of_sweepSurface swept

/-- `z + x + y` fails for `z` at the five points of a line along `x` and in the nine cells of a surface. -/
theorem sweep_fails_everywhere_or_nowhere_sum :
    let e : Expr := .binary .add (.binary .add (.var "z") (.var "x")) (.var "y")
    let unit : Bounds := ⟨0, 1⟩
    unit.IsRange ∧
      (∃ line, e.sweepLine "x" unit 4 = .ok line ∧ line.failures = 5 ∧
        ∀ outcome ∈ line.outcomes, outcome = .error (.unbound "z")) ∧
      ∃ surface, e.sweepSurface unit unit 2 = .ok surface ∧ surface.failures = 9 := by
  intro e unit
  have valid : unit.IsRange := by decide +kernel
  obtain ⟨lines, surfaces⟩ := sweep_fails_everywhere_or_nowhere e
  obtain ⟨line, along⟩ : ∃ line, e.sweepLine "x" unit 4 = .ok line := exists_sweepLine_eq_ok valid (by decide)
  obtain ⟨surface, spread⟩ : ∃ surface, e.sweepSurface unit unit 2 = .ok surface :=
    exists_sweepSurface_eq_ok valid valid (by decide)
  obtain ⟨fail, name, first, -, same⟩ := (lines "x" unit 4 line along).everywhere (by decide)
  obtain ⟨fill, -⟩ := (surfaces unit unit 2 surface spread).everywhere (by decide)
  obtain rfl : name = "z" := Option.some.inj (first.symm.trans (by decide))
  refine ⟨valid, ⟨line, along, ?_, same⟩, surface, spread, ?_⟩
  · rw [fail, size_of_sweepLine along]
  · rw [fill, size_of_sweepSurface spread]

end Expr

end GraphingCalculator
