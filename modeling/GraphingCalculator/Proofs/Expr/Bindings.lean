import GraphingCalculator.Proofs.Expr.Evaluation
import Mathlib.Data.List.Perm.Basic

/-!
What an environment keeps of the pairs that have been bound: each name once, in the order in which the names were
first bound, with the last value that it was given (`Environment.Keeps`). One more binding keeps this
(`Keeps.bind`), and so does any number of them (`Keeps.bindAll`). When no name comes twice, the order of the pairs
shows neither in a value nor in the outcome of an expression (`bindings_in_any_order`).
-/

namespace GraphingCalculator

namespace Environment

/-- Binds the pairs one after the other, on top of what is bound already. -/
def bindAll (env : Environment) (pairs : List (String × Float)) : Environment :=
  pairs.foldl (fun env pair => env.bind pair.1 pair.2) env

/-- What an environment keeps of pairs that have been bound one after the other: the names, each once and in the
order of the first pairs with them, and for each name the value in the last pair with it. -/
structure Keeps (env : Environment) (pairs : List (String × Float)) : Prop where
  nodup_names : env.names.Nodup
  mem_names : ∀ name, name ∈ env.names ↔ name ∈ pairs.map (·.1)
  order_names : env.names.Pairwise fun earlier later =>
    (pairs.map (·.1)).idxOf earlier < (pairs.map (·.1)).idxOf later
  get?_eq : ∀ name, env.get? name = pairs.reverse.lookup name

variable {env : Environment} {pairs : List (String × Float)}

theorem keeps_empty : empty.Keeps [] where
  nodup_names := .nil
  mem_names _ := .rfl
  order_names := .nil
  get?_eq _ := rfl

/-- Behind names that are there already, the places of the first ones stay as they are. -/
theorem Keeps.order_names_append (keeps : env.Keeps pairs) (more : List String) :
    env.names.Pairwise fun earlier later =>
      (pairs.map (·.1) ++ more).idxOf earlier < (pairs.map (·.1) ++ more).idxOf later := by
  refine keeps.order_names.imp_of_mem fun {earlier later} inEarlier inLater before => ?_
  rw [List.idxOf_append_of_mem ((keeps.mem_names earlier).mp inEarlier),
    List.idxOf_append_of_mem ((keeps.mem_names later).mp inLater)]
  exact before

theorem Keeps.bind (keeps : env.Keeps pairs) (name : String) (value : Float) :
    (env.bind name value).Keeps (pairs ++ [(name, value)]) where
  nodup_names := (env.bind name value).nodup
  mem_names other := by
    have before := keeps.mem_names other
    rw [names_bind]
    split
    case isTrue bound =>
      have known : name ∈ pairs.map (·.1) := (keeps.mem_names name).mp bound
      simp only [List.map_append, List.mem_append, List.map_cons, List.map_nil, List.mem_singleton, ← before]
      exact ⟨.inl, fun either => either.elim id fun same => same ▸ bound⟩
    case isFalse => simp only [List.map_append, List.mem_append, List.map_cons, List.map_nil, before]
  order_names := by
    have first := keeps.order_names_append [name]
    rw [names_bind, List.map_append]
    split
    case isTrue => exact first
    case isFalse fresh =>
      refine List.pairwise_append.mpr ⟨first, List.pairwise_singleton _ _, fun earlier inside later last => ?_⟩
      obtain rfl := List.mem_singleton.mp last
      have known := (keeps.mem_names earlier).mp inside
      have new : later ∉ pairs.map (·.1) := fun old => fresh ((keeps.mem_names later).mpr old)
      -- the new name has its first place behind all the old ones
      calc (pairs.map (·.1) ++ [later]).idxOf earlier = (pairs.map (·.1)).idxOf earlier := List.idxOf_append_of_mem known
        _ < (pairs.map (·.1)).length := List.idxOf_lt_length_of_mem known
        _ ≤ (pairs.map (·.1) ++ [later]).idxOf later := by simp [List.idxOf_append_of_notMem new]
  get?_eq other := by
    rw [get?_bind, List.reverse_append, List.reverse_singleton, List.singleton_append, List.lookup_cons]
    by_cases same : other = name
    · simp [same]
    · rw [if_neg same, beq_false_of_ne same]
      exact keeps.get?_eq other

theorem Keeps.bindAll (keeps : env.Keeps pairs) (steps : List (String × Float)) :
    (env.bindAll steps).Keeps (pairs ++ steps) := by
  induction steps generalizing env pairs with
  | nil => rwa [List.append_nil]
  | cons step steps ih =>
    have bound := ih (keeps.bind step.1 step.2)
    rwa [List.append_assoc] at bound

theorem keeps_ofList (pairs : List (String × Float)) : (ofList pairs).Keeps pairs := keeps_empty.bindAll pairs

/-- Pairs that hold no name twice give each name its value in whatever order they come. -/
theorem get?_ofList_of_perm {others : List (String × Float)} (distinct : (pairs.map (·.1)).Nodup)
    (same : others.Perm pairs) (name : String) : (ofList others).get? name = (ofList pairs).get? name := by
  have distinctToo : (others.map (·.1)).Nodup := (same.map _).nodup_iff.mpr distinct
  -- the pairs are the bindings of an environment themselves, also from the last one to the first
  let forward : Environment := ⟨pairs.reverse, by rwa [List.map_reverse, List.nodup_reverse]⟩
  let other : Environment := ⟨others.reverse, by rwa [List.map_reverse, List.nodup_reverse]⟩
  have reversed : other.bindings.Perm forward.bindings :=
    (List.reverse_perm others).trans (same.trans (List.reverse_perm pairs).symm)
  rw [(keeps_ofList others).get?_eq, (keeps_ofList pairs).get?_eq]
  exact get?_eq_of_perm reversed name

/-- An environment that has been made of pairs and then bound further keeps of all these bindings the names in the
order of their first ones, each with its last value, and one more binding changes the value of no other name. Made of
pairs that hold no name twice, it has the same values in whatever order they come, and so every expression has the
same outcome in it. -/
theorem bindings_in_any_order (pairs steps : List (String × Float)) :
    ((ofList pairs).bindAll steps).Keeps (pairs ++ steps) ∧
    (∀ name value other, other ≠ name →
      (((ofList pairs).bindAll steps).bind name value).get? other = ((ofList pairs).bindAll steps).get? other) ∧
    ∀ others : List (String × Float), (pairs.map (·.1)).Nodup → others.Perm pairs →
      (∀ name, (ofList others).get? name = (ofList pairs).get? name) ∧
        ∀ e : Expr, e.eval (ofList others) = e.eval (ofList pairs) := by
  refine ⟨(keeps_ofList pairs).bindAll steps, fun name value other apart => ?_, fun others distinct same => ?_⟩
  · rw [get?_bind, if_neg apart]
  · have values := get?_ofList_of_perm distinct same
    exact ⟨values, fun e => Expr.eval_congr fun name _ => values name⟩

/-- Bound again, `x` keeps its place in front of `y`; and `x / z` lacks `z`, whichever of the two was bound first. -/
theorem bindings_in_any_order_rebound :
    let pairs : List (String × Float) := [("x", 1), ("y", 2)]
    let steps : List (String × Float) := [("x", 3)]
    let swapped : List (String × Float) := [("y", 2), ("x", 1)]
    let e : Expr := .binary .divide (.var "x") (.var "z")
    ((ofList pairs).bindAll steps).Keeps (pairs ++ steps) ∧
      ((ofList pairs).bindAll steps).names = ["x", "y"] ∧ ((ofList pairs).bindAll steps).get? "x" = some 3 ∧
      (pairs.map (·.1)).Nodup ∧ swapped.Perm pairs ∧
      e.eval (ofList swapped) = e.eval (ofList pairs) ∧ e.eval (ofList swapped) = .error (.unbound "z") := by
  intro pairs steps swapped e
  obtain ⟨keeps, -, order⟩ := bindings_in_any_order pairs steps
  have distinct : (pairs.map (·.1)).Nodup := by decide
  have same : swapped.Perm pairs := .swap ("x", 1) ("y", 2) []
  obtain ⟨-, outcomes⟩ := order swapped distinct same
  have last : ((ofList pairs).bindAll steps).get? "x" = some 3 := (keeps.get?_eq "x").trans rfl
  exact ⟨keeps, rfl, last, distinct, same, outcomes e, rfl⟩

end Environment

end GraphingCalculator
