import GraphingCalculator.Proofs.Grammar.Depth

/-!
The highest expressions. A tower of so many levels is the power of a call, whose argument is the tower
of one level less, at the front of a product with as many further factors as there are levels, and that
at the front of a sum with as many further terms. A chain gives its levels back before the next one takes
them, so each of the two is as long as the levels allow (`derives_tower`), and the way down to the
innermost `x` goes through all of them (`towerWay_mem_ways`). No accepted expression is higher
(`ways_within_square`).
-/

namespace GraphingCalculator.Grammar
open GraphingCalculator.Parser

/-- The tokens `sin(…)^x*x*…*x+x+…+x` with a lower tower in the parentheses. -/
def tower : Nat → List PlacedToken
  | 0 => [⟨.identifier "x", 0⟩]
  | levels + 1 =>
    (⟨.identifier "sin", 0⟩ :: ⟨.leftParen, 0⟩ :: (tower levels ++ [⟨.rightParen, 0⟩])) ++
      ⟨.operator .power, 0⟩ :: [⟨.identifier "x", 0⟩] ++ links .multiply 0 (levels + 1) ++
      links .add 0 (levels + 1)

/-- The expression that a tower stands for. -/
def towerTree : Nat → Expr
  | 0 => .var "x"
  | levels + 1 =>
    let base : Expr := .call .sin (towerTree levels)
    let product := linked .multiply (.binary .power base (.var "x")) (levels + 1)
    linked .add product (levels + 1)

/-- The way down to the innermost `x` of a tower: past the terms, past the factors, to the base of the
power and into the argument of the call, on every level. -/
def towerWay : Nat → List Turn
  | 0 => []
  | levels + 1 =>
    .replicate (levels + 1) .left ++
      (.replicate (levels + 1) .left ++ .left :: .argument :: towerWay levels)

theorem derives_tower (levels : Nat) : Derives .expression levels (tower levels) (towerTree levels) := by
  induction levels with
  | zero => exact .sum (.product (.unsigned (.base derives_x)) .lastFactor) .lastTerm
  | succ levels ih =>
    have call : Derives .primary (levels + 1)
        (⟨.identifier "sin", 0⟩ :: ⟨.leftParen, 0⟩ :: (tower levels ++ [⟨.rightParen, 0⟩]))
        (.call .sin (towerTree levels)) := .call rfl ih
    have exponent : Derives .unary levels [⟨.identifier "x", 0⟩] (.var "x") := .unsigned (.base derives_x)
    have raised : Derives .power (levels + 1) (_ ++ ⟨.operator .power, 0⟩ :: _) _ := .raised call exponent
    -- the power has given its levels back, so each of the chains can take all of them again
    have product := Derives.product (.unsigned raised) (derives_links_multiply 0 _ le_rfl)
    exact .sum product (derives_links_add 0 _ le_rfl)

theorem harmless_tower (levels : Nat) : Harmless (tower levels) := by
  induction levels with
  | zero => exact harmless_x 0
  | succ levels ih =>
    have sine : ∀ next, ¬ UnknownCall ⟨.identifier "sin", 0⟩ next := not_unknownCall_of_known (.inl (by decide))
    have closing : Harmless [⟨.rightParen, 0⟩] := .cons (not_unknownCall (by simp)) harmless_nil
    have group : Harmless (⟨.leftParen, 0⟩ :: (tower levels ++ [⟨.rightParen, 0⟩])) :=
      .cons (not_unknownCall (by simp)) (ih.append closing)
    have power : Harmless [⟨.operator .power, 0⟩, ⟨.identifier "x", 0⟩] :=
      .cons (not_unknownCall (by simp)) (harmless_x 0)
    exact (((Harmless.cons sine group).append power).append harmless_links).append harmless_links

theorem towerWay_mem_ways (levels : Nat) : towerWay levels ∈ (towerTree levels).ways := by
  induction levels with
  | zero => exact List.mem_singleton_self []
  | succ levels ih =>
    refine mem_ways_linked (mem_ways_linked ?_)
    simp [Expr.ways, ih]

theorem length_towerWay (levels : Nat) : (towerWay levels).length = levels * (levels + 3) := by
  induction levels with
  | zero => rfl
  | succ levels ih =>
    simp only [towerWay, List.length_append, List.length_replicate, List.length_cons, ih, Nat.mul_add, Nat.add_mul]
    omega

theorem height_towerTree (levels : Nat) : (towerTree levels).height = levels * (levels + 3) := by
  refine (derives_tower levels).height_le.antisymm ?_
  calc
    levels * (levels + 3) = (towerWay levels).length := (length_towerWay levels).symm
    _ ≤ (towerTree levels).height := Expr.height_le_iff.mp le_rfl _ (towerWay_mem_ways levels)

/-- With each number of levels some expression is as high as the bound allows. -/
theorem exists_height_eq (levels : Nat) :
    ∃ v e, Derives .expression levels v e ∧ CallsKnown v ∧ e.height = levels * (levels + 3) :=
  ⟨tower levels, towerTree levels, derives_tower levels, (harmless_tower levels).callsKnown, height_towerTree levels⟩

/-- The tower that uses up the limit is accepted. -/
theorem parse_tower (place : Nat) :
    Expr.parse (tower nestingLimit ++ [⟨.endOfInput, place⟩]) = .ok (towerTree nestingLimit) :=
  (harmless_tower nestingLimit).parse_eq_ok (derives_tower nestingLimit) place

theorem length_le_of_parse {tokens : List PlacedToken} {e : Expr} (accepted : Expr.parse tokens = .ok e) :
    ∀ way ∈ e.ways, way.length ≤ nestingLimit * (nestingLimit + 3) := by
  obtain ⟨-, derived, -⟩ := (parse_eq_ok_iff tokens e).mp accepted
  exact Expr.height_le_iff.mp derived.height_le

/-- No way down an accepted expression has more turns than the square of the limit and three limits, and the way
down the tower has so many. -/
theorem ways_within_square :
    (∀ tokens e, Expr.parse tokens = .ok e →
      ∀ way ∈ e.ways, way.length ≤ nestingLimit * nestingLimit + 3 * nestingLimit) ∧
    ∀ place, Expr.parse (tower nestingLimit ++ [⟨.endOfInput, place⟩]) = .ok (towerTree nestingLimit) ∧
      towerWay nestingLimit ∈ (towerTree nestingLimit).ways ∧
      (towerWay nestingLimit).length = nestingLimit * nestingLimit + 3 * nestingLimit := by
  have bound : nestingLimit * (nestingLimit + 3) = nestingLimit * nestingLimit + 3 * nestingLimit := by
    rw [Nat.mul_add, Nat.mul_comm nestingLimit 3]
  rw [← bound]
  exact ⟨fun _ _ => length_le_of_parse,
    fun place => ⟨parse_tower place, towerWay_mem_ways nestingLimit, length_towerWay nestingLimit⟩⟩

/-- The innermost `x` of `sin(sin(x)^x*x+x)^x*x*x+x+x` lies ten operations deep. -/
theorem ways_within_square_two_levels :
    let tokens := tower 2 ++ [⟨.endOfInput, 0⟩]
    Expr.parse tokens = .ok (towerTree 2) ∧ towerWay 2 ∈ (towerTree 2).ways ∧ (towerWay 2).length = 10 ∧
      (towerWay 2).length ≤ nestingLimit * nestingLimit + 3 * nestingLimit := by
  intro tokens
  have accepted : Expr.parse tokens = .ok (towerTree 2) := by rfl
  have member := towerWay_mem_ways 2
  exact ⟨accepted, member, rfl, ways_within_square.1 tokens _ accepted _ member⟩

end GraphingCalculator.Grammar
