/-!
Environments: which names have a value, in the order in which they were first bound. Main
statements: binding a name gives it its value and changes no other (`get?_bind`), and adds it behind
the others unless it was bound before (`names_bind`).
-/

namespace GraphingCalculator

/-- Names with their values, each name once. -/
structure Environment where
  bindings : List (String × Float)
  nodup : (bindings.map (·.1)).Nodup

namespace Environment

/-- Nothing is bound. -/
def empty : Environment := ⟨[], .nil⟩

/-- The bindings with the value of `name` overwritten in its place, or added at the end. -/
def assign (name : String) (value : Float) : List (String × Float) → List (String × Float)
  | [] => [(name, value)]
  | (bound, old) :: rest =>
    if bound = name then (bound, value) :: rest else (bound, old) :: assign name value rest

theorem map_fst_assign (name : String) (value : Float) (bindings : List (String × Float)) :
    (assign name value bindings).map (·.1) =
      if name ∈ bindings.map (·.1) then bindings.map (·.1) else bindings.map (·.1) ++ [name] := by
  induction bindings with
  | nil => simp [assign]
  | cons first rest ih =>
    by_cases same : first.1 = name
    · simp [assign, same]
    · have other : name ≠ first.1 := fun h => same h.symm
      by_cases later : name ∈ rest.map (·.1) <;> simp_all [assign]

theorem nodup_assign {name : String} {value : Float} {bindings : List (String × Float)}
    (nodup : (bindings.map (·.1)).Nodup) : ((assign name value bindings).map (·.1)).Nodup := by
  rw [map_fst_assign]
  split
  · exact nodup
  · next fresh =>
    refine List.nodup_append.mpr ⟨nodup, by simp, ?_⟩
    intro bound old added new same
    rw [List.mem_singleton.mp new] at same
    exact fresh (same ▸ old)

/-- Binds a name. A name that is bound already gets the new value and keeps its place. -/
def bind (env : Environment) (name : String) (value : Float) : Environment :=
  ⟨assign name value env.bindings, nodup_assign env.nodup⟩

/-- Binds the pairs one after the other. -/
def ofList (pairs : List (String × Float)) : Environment :=
  pairs.foldl (fun env pair => env.bind pair.1 pair.2) empty

/-- The value of a name. -/
def get? (env : Environment) (name : String) : Option Float :=
  env.bindings.lookup name

/-- Whether a name has a value. -/
def isBound (env : Environment) (name : String) : Bool :=
  (env.get? name).isSome

/-- The bound names, first bound first. -/
def names (env : Environment) : List String :=
  env.bindings.map (·.1)

theorem lookup_assign (name other : String) (value : Float) (bindings : List (String × Float)) :
    (assign name value bindings).lookup other =
      if other = name then some value else bindings.lookup other := by
  induction bindings with
  | nil =>
    by_cases same : other = name
    · simp [assign, same]
    · have apart : (other == name) = false := beq_false_of_ne same
      simp [assign, List.lookup_cons, same, apart]
  | cons first rest ih =>
    obtain ⟨bound, old⟩ := first
    by_cases here : bound = name
    · subst here
      by_cases same : other = bound
      · simp [assign, same]
      · have apart : (other == bound) = false := beq_false_of_ne same
        simp [assign, List.lookup_cons, same, apart]
    · by_cases same : other = name
      · subst same
        have apart : (other == bound) = false := beq_false_of_ne fun h => here h.symm
        simp [assign, here, List.lookup_cons, apart, ih]
      · simp [assign, here, List.lookup_cons, ih, same]

theorem assign_assign (name : String) (old value : Float) (bindings : List (String × Float)) :
    assign name value (assign name old bindings) = assign name value bindings := by
  induction bindings with
  | nil => simp [assign]
  | cons first rest ih =>
    by_cases here : first.1 = name <;> simp [assign, here, ih]

@[simp]
theorem get?_empty (name : String) : empty.get? name = none := rfl

/-- Binding a name gives it its value and changes no other name. -/
theorem get?_bind (env : Environment) (name other : String) (value : Float) :
    (env.bind name value).get? other = if other = name then some value else env.get? other :=
  lookup_assign name other value env.bindings

/-- Of two values for one name the later one counts. -/
theorem bind_bind (env : Environment) (name : String) (old value : Float) :
    (env.bind name old).bind name value = env.bind name value := by
  simp [bind, assign_assign]

/-- A name that is new comes behind the others; one that is bound keeps its place. -/
theorem names_bind (env : Environment) (name : String) (value : Float) :
    (env.bind name value).names = if name ∈ env.names then env.names else env.names ++ [name] :=
  map_fst_assign name value env.bindings

end Environment

end GraphingCalculator
