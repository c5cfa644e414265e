import GraphingCalculator.Expr.Eval
import Mathlib.Data.List.Nodup

/-!
What the value of an expression depends on. An expression reads nothing of an environment but the
values of its own names (`Expr.eval_congr`), so the order in which names were bound shows nowhere
(`Expr.eval_eq_of_perm`), and it has a value as soon as all of them are bound
(`Expr.exists_eval_eq_ok_iff`).

The unknowns of an expression are its names in increasing order (`Expr.mem_unknowns`,
`Expr.pairwise_unknowns`), so the first of them with some property is the least one
(`Expr.find?_unknowns_eq_some_iff`). The evaluation itself goes through the names from left to right
and reports the first of those without a value, which need not be the least (`Expr.eval_eq_error_iff`). Which
one that is shows nothing of the values that are bound (`Environment.BindsJust.eval_eq_error_iff`).
-/

namespace GraphingCalculator

/-! ### Steps that can fail -/

namespace Outcome
variable {ε ε' α β : Type}

@[simp]
theorem bind_eq_ok_iff {outcome : Except ε α} {next : α → Except ε β} {result : β} :
    outcome >>= next = .ok result ↔ ∃ value, outcome = .ok value ∧ next value = .ok result := by
  cases outcome <;> simp [bind, Except.bind]

@[simp]
theorem map_eq_ok_iff {f : α → β} {outcome : Except ε α} {result : β} :
    f <$> outcome = .ok result ↔ ∃ value, outcome = .ok value ∧ f value = result := by
  cases outcome <;> simp

@[simp]
theorem bind_eq_error_iff {outcome : Except ε α} {next : α → Except ε β} {error : ε} :
    outcome >>= next = .error error ↔
      outcome = .error error ∨ ∃ value, outcome = .ok value ∧ next value = .error error := by
  cases outcome <;> simp [bind, Except.bind]

@[simp]
theorem map_eq_error_iff {f : α → β} {outcome : Except ε α} {error : ε} :
    f <$> outcome = .error error ↔ outcome = .error error := by
  cases outcome <;> simp

@[simp]
theorem mapError_eq_ok_iff {outcome : Except ε α} {f : ε → ε'} {result : α} :
    outcome.mapError f = .ok result ↔ outcome = .ok result := by
  cases outcome <;> simp [Except.mapError]

@[simp]
theorem throw_ne_ok {error : ε} {result : α} : (throw error : Except ε α) ≠ .ok result := by
  simp [throw, throwThe, MonadExceptOf.throw]

end Outcome

/-! ### Values -/

namespace Environment
variable {env other : Environment} {name : String}

theorem get?_eq_some_iff {value : Float} : env.get? name = some value ↔ (name, value) ∈ env.bindings := by
  obtain ⟨bindings, nodup⟩ := env
  simp only [get?]
  induction bindings with
  | nil => simp
  | cons first rest ih =>
    obtain ⟨bound, old⟩ := first
    simp only [List.map_cons, List.nodup_cons] at nodup
    by_cases here : name = bound
    · subst here
      have fresh : (name, value) ∉ rest := fun member => nodup.1 (List.mem_map_of_mem member)
      simp [fresh, eq_comm]
    · have apart : (name == bound) = false := beq_false_of_ne here
      simp [List.lookup_cons, apart, here, ih nodup.2]

/-- The values of the names do not show in which order the names were bound. -/
theorem get?_eq_of_perm (same : env.bindings.Perm other.bindings) (name : String) :
    env.get? name = other.get? name := by
  refine Option.ext fun value => ?_
  rw [get?_eq_some_iff, get?_eq_some_iff, same.mem_iff]

end Environment

namespace Expr
variable {env other : Environment} {e : Expr}

/-- The names of an expression are all that it reads of an environment. -/
theorem eval_congr (agree : ∀ name ∈ e.names, env.get? name = other.get? name) :
    e.eval env = e.eval other := by
  induction e with
  | literal | constant => rfl
  | var name => simp only [eval, agree name (List.mem_singleton_self name)]
  | negate operand ih | call f operand ih => simp only [eval, ih agree]
  | binary op left right ihLeft ihRight =>
    simp only [eval, ihLeft fun name member => agree name (List.mem_append_left _ member),
      ihRight fun name member => agree name (List.mem_append_right _ member)]

theorem eval_eq_of_perm (e : Expr) (same : env.bindings.Perm other.bindings) : e.eval env = e.eval other :=
  eval_congr fun name _ => Environment.get?_eq_of_perm same name

/-- Only a name that is not bound keeps an expression from having a value. -/
theorem exists_eval_eq_ok_iff : (∃ value, e.eval env = .ok value) ↔ ∀ name ∈ e.names, env.isBound name = true := by
  induction e with
  | literal | constant => simp [eval, names]
  | var name =>
    cases bound : env.get? name <;> simp [eval, names, bound, Environment.isBound]
  | negate operand ih | call f operand ih => simp [eval, names, ← ih]
  | binary op left right ihLeft ihRight => simp [eval, names, or_imp, forall_and, ← ihLeft, ← ihRight]

end Expr

/-! ### Names in order -/

theorem mem_insertName {name other : String} {sorted : List String} :
    other ∈ insertName name sorted ↔ other = name ∨ other ∈ sorted := by
  induction sorted with
  | nil => simp [insertName]
  | cons first rest ih =>
    simp only [insertName]
    split_ifs with before same
    · simp
    · simp [same]
    · simp [ih, or_left_comm]

theorem pairwise_insertName (name : String) {sorted : List String} (increasing : sorted.Pairwise (· < ·)) :
    (insertName name sorted).Pairwise (· < ·) := by
  induction sorted with
  | nil => simp [insertName]
  | cons first rest ih =>
    obtain ⟨least, increasingRest⟩ := List.pairwise_cons.mp increasing
    simp only [insertName]
    split_ifs with before same
    · refine List.pairwise_cons.mpr ⟨fun other member => ?_, increasing⟩
      rcases List.mem_cons.mp member with rfl | member
      · exact before
      · exact String.lt_trans before (least other member)
    · exact increasing
    · refine List.pairwise_cons.mpr ⟨fun other member => ?_, ih increasingRest⟩
      rcases mem_insertName.mp member with rfl | member
      · refine String.not_le.mp fun atMost => same ?_
        exact String.le_antisymm atMost (String.not_lt.mp before)
      · exact least other member

/-- Putting names in one after the other keeps the list in order and adds just these names to it. -/
theorem foldl_insertName (names : List String) {sorted : List String} (increasing : sorted.Pairwise (· < ·)) :
    (names.foldl (fun sorted name => insertName name sorted) sorted).Pairwise (· < ·) ∧
    ∀ name, name ∈ names.foldl (fun sorted name => insertName name sorted) sorted ↔ name ∈ names ∨ name ∈ sorted := by
  induction names generalizing sorted with
  | nil => simpa using increasing
  | cons first rest ih =>
    obtain ⟨increasing, members⟩ := ih (pairwise_insertName first increasing)
    refine ⟨increasing, fun name => ?_⟩
    rw [List.foldl_cons, members, mem_insertName, List.mem_cons, or_left_comm, or_assoc]

/-- In an increasing list the first name with some property is the least one. -/
theorem find?_eq_some_iff_of_pairwise {p : String → Bool} {name : String} {sorted : List String}
    (increasing : sorted.Pairwise (· < ·)) :
    sorted.find? p = some name ↔
      name ∈ sorted ∧ p name = true ∧ ∀ other ∈ sorted, p other = true → name ≤ other := by
  induction sorted with
  | nil => simp
  | cons first rest ih =>
    obtain ⟨least, increasingRest⟩ := List.pairwise_cons.mp increasing
    cases holds : p first with
    | false =>
      have other : p name = true → name ≠ first := by
        rintro found rfl
        simp [holds] at found
      rw [List.find?_cons_of_neg (by simp [holds]), ih increasingRest]
      simp only [List.mem_cons, forall_eq_or_imp, holds, Bool.false_eq_true, false_implies, true_and]
      exact and_congr_left fun found => (or_iff_right (other found.1)).symm
    | true =>
      rw [List.find?_cons_of_pos holds]
      constructor
      · rintro ⟨⟩
        refine ⟨List.mem_cons_self, holds, fun other member _ => ?_⟩
        rcases List.mem_cons.mp member with rfl | member
        · exact String.le_refl _
        · exact String.not_lt.mp (String.lt_asymm (least other member))
      · rintro ⟨member, -, atMost⟩
        rcases List.mem_cons.mp member with rfl | member
        · rfl
        · exact absurd (least name member) (String.not_lt.mpr (atMost first List.mem_cons_self holds))

namespace Expr

theorem pairwise_unknowns (e : Expr) : e.unknowns.Pairwise (· < ·) :=
  (foldl_insertName e.names .nil).1

@[simp]
theorem mem_unknowns {e : Expr} {name : String} : name ∈ e.unknowns ↔ name ∈ e.names :=
  ((foldl_insertName e.names .nil).2 name).trans (by simp)

/-- The search among the unknowns finds the least name with some property. -/
theorem find?_unknowns_eq_some_iff {e : Expr} {p : String → Bool} {name : String} :
    e.unknowns.find? p = some name ↔
      name ∈ e.names ∧ p name = true ∧ ∀ other ∈ e.names, p other = true → name ≤ other := by
  simpa using find?_eq_some_iff_of_pairwise e.pairwise_unknowns

/-! ### The name that is reported -/

/-- The first name from the left without a value. -/
def firstUnbound? (env : Environment) (e : Expr) : Option String :=
  e.names.find? fun name => !env.isBound name

section
variable {env : Environment} {e : Expr} {name : String}

theorem firstUnbound?_eq_none_iff : e.firstUnbound? env = none ↔ ∃ value, e.eval env = .ok value := by
  rw [firstUnbound?, exists_eval_eq_ok_iff]
  simp

theorem firstUnbound?_binary (op : Operator) (left right : Expr) :
    (binary op left right).firstUnbound? env = (left.firstUnbound? env).or (right.firstUnbound? env) :=
  List.find?_append

/-- Operands are evaluated from left to right, and the first name without a value ends the evaluation. -/
theorem eval_eq_error_iff : e.eval env = .error (.unbound name) ↔ e.firstUnbound? env = some name := by
  induction e with
  | literal | constant => simp [eval, firstUnbound?, names]
  | var variableName =>
    cases bound : env.get? variableName <;> simp [eval, firstUnbound?, names, Environment.isBound, bound]
  | negate operand ih | call f operand ih =>
    simp only [eval, bind_pure_comp, Outcome.map_eq_error_iff]
    exact ih
  | binary op left right ihLeft ihRight =>
    -- the right operand counts only when the left one has a value
    rw [firstUnbound?_binary, Option.or_eq_some_iff, firstUnbound?_eq_none_iff]
    simp [eval, ihLeft, ihRight]

end

end Expr

/-! ### Names without their values -/

namespace Environment

/-- The environment has values for these names and for no others. -/
def BindsJust (env : Environment) (swept : List String) : Prop :=
  ∀ name, env.isBound name = true ↔ name ∈ swept

section
variable {env : Environment} {swept : List String}

theorem bindsJust_empty : empty.BindsJust [] := by
  intro name
  simp [isBound]

theorem BindsJust.bind (just : env.BindsJust swept) (name : String) (value : Float) :
    (env.bind name value).BindsJust (swept ++ [name]) := by
  intro other
  rw [isBound, get?_bind]
  by_cases here : other = name
  · simp [here]
  · have before : (env.get? other).isSome = true ↔ other ∈ swept := just other
    simp [here, before]

theorem BindsJust.exists_eval_eq_ok (just : env.BindsJust swept) {e : Expr} (covered : ∀ name ∈ e.names, name ∈ swept) :
    ∃ value, e.eval env = .ok value := by
  refine Expr.exists_eval_eq_ok_iff.mpr fun name occurs => ?_
  exact (just name).mpr (covered name occurs)

/-- With the same names bound to whatever values, an expression fails for the same name: for the first of its names
from the left that is not among them. -/
theorem BindsJust.eval_eq_error_iff (just : env.BindsJust swept) {e : Expr} {name : String} :
    e.eval env = .error (.unbound name) ↔ e.names.find? (· ∉ swept) = some name := by
  have unbound : (fun name => !env.isBound name) = fun name => decide (name ∉ swept) := by
    funext name
    by_cases bound : env.isBound name = true
    · simp [bound, (just name).mp bound]
    · have foreign : name ∉ swept := fun member => bound ((just name).mpr member)
      simp [bound, foreign]
  rw [Expr.eval_eq_error_iff, Expr.firstUnbound?, unbound]

end

end Environment

namespace Expr

/-- An expression has a value exactly when all its variables have one. If not, the error names the first variable
from the left that has none. And of the environment it reads nothing but its own variables. -/
theorem eval_depends_on_unknowns (env : Environment) (e : Expr) :
    ((∃ value, e.eval env = .ok value) ↔ ∀ name ∈ e.unknowns, env.isBound name = true) ∧
    (∀ name, e.eval env = .error (.unbound name) ↔ e.firstUnbound? env = some name) ∧
    ∀ other : Environment, (∀ name ∈ e.unknowns, env.get? name = other.get? name) → e.eval env = e.eval other := by
  refine ⟨?_, fun name => eval_eq_error_iff, fun other agree => ?_⟩
  · simp only [mem_unknowns, exists_eval_eq_ok_iff]
  · exact eval_congr fun name member => agree name (mem_unknowns.mpr member)

/-- `(z + x) * y` without values for `z` and `y` fails for `z`, whatever else is bound. -/
theorem eval_depends_on_unknowns_product :
    let e : Expr := .binary .multiply (.binary .add (.var "z") (.var "x")) (.var "y")
    let env := Environment.ofList [("x", 1)]
    let other := Environment.ofList [("w", 2), ("x", 1)]
    (∀ name ∈ e.unknowns, env.get? name = other.get? name) ∧ e.firstUnbound? env = some "z" ∧
      e.eval env = .error (.unbound "z") ∧ e.eval env = e.eval other := by
  intro e env other
  have agree : ∀ name ∈ e.unknowns, env.get? name = other.get? name := by
    have unknowns : e.unknowns = ["x", "y", "z"] := by decide
    rw [unknowns]
    simp [env, other, Environment.ofList, Environment.get?_bind]
  have first : e.firstUnbound? env = some "z" := by decide
  obtain ⟨-, reports, reads⟩ := eval_depends_on_unknowns env e
  exact ⟨agree, first, (reports "z").mpr first, reads other agree⟩

end Expr

end GraphingCalculator
