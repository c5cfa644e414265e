import GraphingCalculator.Proofs.Grammar.Acceptance
import Mathlib.Data.List.Count

/-!
How deep the accepted expressions are, against the number of levels that they may use.

The levels bound the turns on a way down to a leaf that do not go to the left operand of an operator
(`Derives.charged_le`). The turns to the left come on top of them, for a chain takes its levels only
after its first operand has given its own ones back: a product that starts a sum can be twice as high
as the limit (`parse_productThenSum`). The best bound for the height is quadratic in the number of
levels (`Derives.height_le`).
-/

namespace GraphingCalculator

/-- The step from an operation to one of its parts. -/
inductive Turn where
  | operand
  | argument
  | left
  | right
deriving DecidableEq, Repr

namespace Expr

/-- The ways from the root down to the leaves, one for each leaf. A turn of a way stands for the
operation that it leaves. -/
def ways : Expr → List (List Turn)
  | literal _ | var _ | constant _ => [[]]
  | negate operand => operand.ways.map (.operand :: ·)
  | binary _ left right => left.ways.map (.left :: ·) ++ right.ways.map (.right :: ·)
  | call _ argument => argument.ways.map (.argument :: ·)

/-- How many operations lie on the longest way. -/
def height : Expr → Nat
  | literal _ | var _ | constant _ => 0
  | negate operand => operand.height + 1
  | binary _ left right => max left.height right.height + 1
  | call _ argument => argument.height + 1

theorem ways_ne_nil (e : Expr) : e.ways ≠ [] := by
  induction e with
  | literal | var | constant => exact List.cons_ne_nil _ _
  | negate operand ih => simpa [ways] using ih
  | binary op left right ihLeft ihRight => simp [ways, ihLeft]
  | call f argument ih => simpa [ways] using ih

theorem exists_mem_ways (e : Expr) : ∃ way, way ∈ e.ways :=
  List.exists_mem_of_ne_nil _ e.ways_ne_nil

/-- The height bounds the ways, and no smaller number does. -/
theorem height_le_iff {e : Expr} {bound : Nat} : e.height ≤ bound ↔ ∀ way ∈ e.ways, way.length ≤ bound := by
  induction e generalizing bound with
  | literal | var | constant => simp [height, ways]
  | negate operand ih | call f operand ih =>
    cases bound with
    | zero =>
      obtain ⟨way, member⟩ := operand.exists_mem_ways
      simpa [height, ways] using ⟨way, member⟩
    | succ bound => simpa [height, ways] using ih
  | binary op left right ihLeft ihRight =>
    cases bound with
    | zero =>
      obtain ⟨way, member⟩ := left.exists_mem_ways
      refine iff_of_false (by simp [height]) fun short => ?_
      simpa using short (.left :: way) (by simp [ways, member])
    | succ bound =>
      simp only [height, Nat.succ_le_succ_iff, Nat.max_le, ihLeft, ihRight]
      simp [ways, or_imp, forall_and]

end Expr

namespace Grammar
open GraphingCalculator.Parser

/-! ### What the levels bound -/

/-- The number of turns on a way that take a level of their own. -/
def charged (way : List Turn) : Nat := way.countP (· ≠ .left)

theorem length_eq_charged_add (way : List Turn) : way.length = charged way + way.count .left := by
  rw [List.length_eq_countP_add_countP (· ≠ Turn.left), charged, List.count]
  congr 2
  funext turn
  cases turn <;> rfl

/-- On no way do more turns take a level than there are. -/
def WaysWithin (bound : Nat) (e : Expr) : Prop :=
  ∀ way ∈ e.ways, charged way ≤ bound

section
variable {bound : Nat}

theorem waysWithin_leaf {e : Expr} (leaf : e.ways = [[]]) : WaysWithin bound e := by
  simp [WaysWithin, leaf, charged]

theorem WaysWithin.negate {operand : Expr} (within : WaysWithin bound operand) :
    WaysWithin (bound + 1) (.negate operand) := by
  simpa [WaysWithin, Expr.ways, charged] using within

theorem WaysWithin.call {argument : Expr} (f : ElementaryFunction) (within : WaysWithin bound argument) :
    WaysWithin (bound + 1) (.call f argument) := by
  simpa [WaysWithin, Expr.ways, charged] using within

theorem WaysWithin.binary {op : Operator} {left right : Expr} (withinLeft : WaysWithin (bound + 1) left)
    (withinRight : WaysWithin bound right) : WaysWithin (bound + 1) (.binary op left right) := by
  intro way member
  simp only [Expr.ways, List.mem_append, List.mem_map] at member
  obtain ⟨inner, innerMember, rfl⟩ | ⟨inner, innerMember, rfl⟩ := member
  · simpa [charged] using withinLeft inner innerMember
  · simpa [charged] using withinRight inner innerMember

theorem WaysWithin.mono {e : Expr} {more : Nat} (within : WaysWithin bound e) (le : bound ≤ more) :
    WaysWithin more e :=
  fun way member => (within way member).trans le

end

/-- No way in a phrase takes more levels than the phrase has. -/
theorem Derives.charged_le {phrase : Phrase} {levels bound : Nat} {v : List PlacedToken} {e : Expr}
    (d : Derives phrase levels v e) (le : levels ≤ bound) (within : phrase.Continues (WaysWithin bound)) :
    WaysWithin bound e := by
  -- `bound` and not `levels`: the tree that a chain continues has its turns from levels above
  induction d generalizing bound with
  | sum _ _ first rest | product _ _ first rest => exact rest le (first le trivial)
  | lastTerm | lastFactor => exact within
  | nextTerm _ _ _ right rest | nextFactor _ _ _ right rest | impliedFactor _ _ _ right rest =>
    obtain ⟨bound, rfl⟩ := Nat.exists_eq_add_of_le' (Nat.le_of_add_left_le le)
    have rightWithin := right (Nat.le_of_succ_le_succ le) trivial
    exact rest (Nat.le_of_succ_le le) (within.binary rightWithin)
  | negation _ operand =>
    exact (operand le_rfl trivial).negate.mono le
  | unsigned _ operand | base _ operand => exact operand le trivial
  | raised _ _ base exponent =>
    exact ((base le_rfl trivial).binary (exponent le_rfl trivial)).mono le
  | number | constant | var => exact waysWithin_leaf rfl
  | call _ _ argument => exact ((argument le_rfl trivial).call _).mono le
  | group _ inner => exact inner (Nat.le_of_succ_le le) trivial

/-- The best bound for the height of a phrase with so many levels. The rest of a chain can put a link for each of
them on top of the tree that it continues. -/
def Phrase.tallest (levels : Nat) : Phrase → Nat
  | expression => levels * (levels + 3)
  | moreTerms sum => max sum.height (levels * (levels + 2)) + levels
  | term => levels * (levels + 2)
  | moreFactors product => max product.height (levels * (levels + 1)) + levels
  | unary | power => levels * (levels + 1)
  | primary => levels * (levels + 1) - 1

theorem Derives.height_le {phrase : Phrase} {levels : Nat} {v : List PlacedToken} {e : Expr}
    (d : Derives phrase levels v e) : e.height ≤ phrase.tallest levels := by
  induction d with
  | lastTerm | lastFactor => exact Nat.le_add_right_of_le (Nat.le_max_left _ _)
  | number | constant | var => exact Nat.zero_le _
  | unsigned _ operand => exact operand
  | base _ operand => exact operand.trans (Nat.sub_le _ _)
  | sum _ _ first rest | product _ _ first rest =>
    simp only [Phrase.tallest, Nat.mul_add] at first rest ⊢
    omega
  | nextTerm _ _ _ right rest | nextFactor _ _ _ right rest | impliedFactor _ _ _ right rest =>
    simp only [Phrase.tallest, Expr.height, Nat.mul_add, Nat.add_mul] at right rest ⊢
    omega
  | negation _ inner | call _ _ inner | group _ inner =>
    simp only [Phrase.tallest, Expr.height, Nat.mul_add, Nat.add_mul] at inner ⊢
    omega
  | raised _ _ base exponent =>
    simp only [Phrase.tallest, Expr.height, Nat.mul_add, Nat.add_mul] at base exponent ⊢
    omega

/-- On each way of an accepted expression the turns that do not go to the left are within the limit. The height is
within the square of the limit and three limits more, and it is within the limit itself if and only if on each way
the turns to the left fit into what the other turns leave over. -/
theorem height_le_iff_left_le (tokens : List PlacedToken) (e : Expr) (accepted : Expr.parse tokens = .ok e) :
    (∀ way ∈ e.ways, charged way ≤ nestingLimit) ∧ e.height ≤ nestingLimit * (nestingLimit + 3) ∧
      (e.height ≤ nestingLimit ↔ ∀ way ∈ e.ways, way.count .left ≤ nestingLimit - charged way) := by
  obtain ⟨-, derived, -⟩ := (parse_eq_ok_iff tokens e).mp accepted
  have within : WaysWithin nestingLimit e := derived.charged_le le_rfl trivial
  refine ⟨within, derived.height_le, Expr.height_le_iff.trans ?_⟩
  refine forall_congr' fun way => forall_congr' fun member => ?_
  have fits := within way member
  rw [length_eq_charged_add]
  omega

/-- `-(x + y)` has two ways of two turns each, and one of the turns goes to the left. -/
theorem height_le_iff_left_le_negated_sum :
    let tokens : List PlacedToken := [⟨.operator .subtract, 0⟩, ⟨.leftParen, 1⟩, ⟨.identifier "x", 2⟩,
      ⟨.operator .add, 4⟩, ⟨.identifier "y", 6⟩, ⟨.rightParen, 7⟩, ⟨.endOfInput, 8⟩]
    let tree : Expr := .negate (.binary .add (.var "x") (.var "y"))
    Expr.parse tokens = .ok tree ∧ tree.ways = [[.operand, .left], [.operand, .right]] ∧
      (∀ way ∈ tree.ways, charged way ≤ nestingLimit) ∧ tree.height ≤ nestingLimit * (nestingLimit + 3) ∧
      (tree.height ≤ nestingLimit ↔ ∀ way ∈ tree.ways, way.count .left ≤ nestingLimit - charged way) := by
  intro tokens tree
  have accepted : Expr.parse tokens = .ok tree := by rfl
  exact ⟨accepted, rfl, height_le_iff_left_le tokens tree accepted⟩

/-! ### What they do not bound -/

/-- Links of a chain, each of them an operator and the variable `x`. -/
def links (op : Operator) (place : Nat) : Nat → List PlacedToken
  | 0 => []
  | count + 1 => ⟨.operator op, place⟩ :: ⟨.identifier "x", place + 1⟩ :: links op (place + 2) count

/-- A chain that goes on with as many links. -/
def linked (op : Operator) (chain : Expr) : Nat → Expr
  | 0 => chain
  | count + 1 => linked op (.binary op chain (.var "x")) count

/-- The text `x*x*…*x+x+…+x` with so many factors and terms behind the first one. -/
def productThenSum (factors terms : Nat) : List PlacedToken :=
  ⟨.identifier "x", 0⟩ :: (links .multiply 1 factors ++ links .add (2 * factors + 1) terms)

section
variable {op : Operator} {levels count : Nat}

theorem derives_x {place : Nat} : Derives .primary levels [⟨.identifier "x", place⟩] (.var "x") :=
  .var rfl rfl

/-- A sum can have as many links as there are levels, whatever its first term takes. -/
theorem derives_links_add (place : Nat) (sum : Expr) (le : count ≤ levels) :
    Derives (.moreTerms sum) levels (links .add place count) (linked .add sum count) := by
  induction count generalizing levels place sum with
  | zero => exact .lastTerm
  | succ count ih =>
    obtain ⟨levels, rfl⟩ := Nat.exists_eq_add_of_le' (Nat.le_of_add_left_le le)
    have right : Derives .term levels [⟨.identifier "x", place + 1⟩] (.var "x") :=
      .product (.unsigned (.base derives_x)) .lastFactor
    exact .nextTerm rfl right (ih (place + 2) _ (Nat.le_of_succ_le_succ le))

theorem derives_links_multiply (place : Nat) (product : Expr) (le : count ≤ levels) :
    Derives (.moreFactors product) levels (links .multiply place count) (linked .multiply product count) := by
  induction count generalizing levels place product with
  | zero => exact .lastFactor
  | succ count ih =>
    obtain ⟨levels, rfl⟩ := Nat.exists_eq_add_of_le' (Nat.le_of_add_left_le le)
    exact .nextFactor rfl (.unsigned (.base derives_x)) (ih (place + 2) _ (Nat.le_of_succ_le_succ le))

/-- The first operand of a chain lies below all its links. -/
theorem mem_ways_linked {chain : Expr} {way : List Turn} (member : way ∈ chain.ways) :
    List.replicate count .left ++ way ∈ (linked op chain count).ways := by
  induction count generalizing chain way with
  | zero => exact member
  | succ count ih =>
    rw [List.replicate_succ', List.append_assoc]
    exact ih (by simp [Expr.ways, member])

theorem height_linked (chain : Expr) : (linked op chain count).height = chain.height + count := by
  induction count generalizing chain with
  | zero => rfl
  | succ count ih =>
    rw [linked, ih]
    simp only [Expr.height]
    omega

/-- What starts no unknown call, whatever follows. -/
def Harmless (v : List PlacedToken) : Prop := ∀ t ∈ v, ∀ next, ¬ UnknownCall t next

theorem Harmless.callsKnown {v : List PlacedToken} (harmless : Harmless v) : CallsKnown v :=
  (List.pairwise_of_forall_mem_list fun t member next _ => harmless t member next).isChain

theorem harmless_nil : Harmless [] := fun _ member => absurd member List.not_mem_nil

theorem Harmless.cons {t : PlacedToken} {v : List PlacedToken} (first : ∀ next, ¬ UnknownCall t next)
    (rest : Harmless v) : Harmless (t :: v) :=
  List.forall_mem_cons.mpr ⟨first, rest⟩

theorem Harmless.append {v w : List PlacedToken} (front : Harmless v) (back : Harmless w) : Harmless (v ++ w) :=
  List.forall_mem_append.mpr ⟨front, back⟩

theorem not_unknownCall_x (place : Nat) : ∀ next, ¬ UnknownCall ⟨.identifier "x", place⟩ next := by
  rintro next ⟨name, isName, -, long, -⟩
  cases isName
  exact absurd long (by decide)

theorem harmless_x (place : Nat) : Harmless [⟨.identifier "x", place⟩] :=
  .cons (not_unknownCall_x place) harmless_nil

theorem harmless_links {place : Nat} : Harmless (links op place count) := by
  induction count generalizing place with
  | zero => exact harmless_nil
  | succ count ih =>
    exact .cons (not_unknownCall (by simp)) (.cons (not_unknownCall_x (place + 1)) ih)

/-- A harmless expression with the end of the input behind it is accepted. -/
theorem Harmless.parse_eq_ok {v : List PlacedToken} {e : Expr} (harmless : Harmless v)
    (derived : Derives .expression nestingLimit v e) (place : Nat) :
    Expr.parse (v ++ [⟨.endOfInput, place⟩]) = .ok e := by
  refine (parse_eq_ok_iff _ _).mpr ⟨?_, ?_⟩
  · rw [derived.isBalanced_append]
    rfl
  · rw [untilEnd_append derived.ne_endOfInput rfl]
    exact ⟨derived, harmless.callsKnown⟩

/-- A product and a sum behind it take the same levels one after the other. -/
theorem parse_productThenSum {factors terms : Nat} (place : Nat) (factorsFit : factors ≤ nestingLimit)
    (termsFit : terms ≤ nestingLimit) :
    Expr.parse (productThenSum factors terms ++ [⟨.endOfInput, place⟩]) =
      .ok (linked .add (linked .multiply (.var "x") factors) terms) := by
  have product : Derives .term nestingLimit (⟨.identifier "x", 0⟩ :: links .multiply 1 factors)
      (linked .multiply (.var "x") factors) :=
    .product (.unsigned (.base derives_x)) (derives_links_multiply 1 _ factorsFit)
  have derived : Derives .expression nestingLimit (productThenSum factors terms)
      (linked .add (linked .multiply (.var "x") factors) terms) :=
    .sum product (derives_links_add (2 * factors + 1) _ termsFit)
  have harmless : Harmless (productThenSum factors terms) :=
    .cons (not_unknownCall_x 0) (harmless_links.append harmless_links)
  exact harmless.parse_eq_ok derived place

/-- Of a product of 257 factors and 256 further terms, all of them `x`, the first `x` lies 512 operations deep. -/
theorem parse_productThenSum_too_high :
    ∃ e, Expr.parse (productThenSum nestingLimit nestingLimit ++ [⟨.endOfInput, 4 * nestingLimit + 1⟩]) = .ok e ∧
      nestingLimit < e.height ∧ ∃ way ∈ e.ways, way.length = 512 := by
  let way : List Turn := .replicate nestingLimit .left ++ (.replicate nestingLimit .left ++ [])
  have member : way ∈ (linked .add (linked .multiply (.var "x") nestingLimit) nestingLimit).ways :=
    mem_ways_linked (mem_ways_linked (List.mem_singleton_self []))
  have long : way.length = 512 := by
    simp only [way, List.length_append, List.length_replicate, List.length_nil]
    rfl
  refine ⟨_, parse_productThenSum _ le_rfl le_rfl, ?_, way, member, long⟩
  rw [height_linked, height_linked]
  decide

end

end Grammar

end GraphingCalculator
