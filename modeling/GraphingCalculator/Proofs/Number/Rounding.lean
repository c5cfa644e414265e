import Mathlib.Algebra.Order.Field.Power
import Mathlib.Data.Int.Log
import Mathlib.Data.Rat.Floor
import Mathlib.Tactic.FieldSimp
import Mathlib.Tactic.Linarith
import Mathlib.Tactic.NormNum
import Mathlib.Tactic.Positivity
import Mathlib.Tactic.Ring

/-!
Rounding of rational numbers to 53 binary digits, as far as the digits reach down: no unit is less than `2 ^ -1074`.
There is no largest number here, so `rounded` is what doubles do as long as they stay finite. Main statements:
rounding keeps the order (`rounded_mono`), keeps what can be written with that many digits (`rounded_of_isDouble`),
and moves a number by at most half a unit (`abs_rounded_sub_le`).
-/

namespace GraphingCalculator

/-! ### The nearest integer -/

/-- The nearest integer; from the middle between two of them the even one. -/
def halfEven (x : ℚ) : ℤ :=
  if Int.fract x < 1 / 2 ∨ (Int.fract x = 1 / 2 ∧ Even ⌊x⌋) then ⌊x⌋ else ⌊x⌋ + 1

section
variable {x y : ℚ} {n : ℤ}

theorem abs_sub_halfEven_le (x : ℚ) : |x - halfEven x| ≤ 1 / 2 := by
  have split := Int.floor_add_fract x
  have nonneg := Int.fract_nonneg x
  have lt := Int.fract_lt_one x
  unfold halfEven
  split
  case isTrue near =>
    have half : Int.fract x ≤ 1 / 2 := near.elim le_of_lt fun tie => le_of_eq tie.1
    rw [abs_le]
    constructor <;> linarith
  case isFalse far =>
    have half : 1 / 2 ≤ Int.fract x := not_lt.mp fun near => far (.inl near)
    push_cast
    rw [abs_le]
    constructor <;> linarith

theorem even_halfEven (tie : |x - halfEven x| = 1 / 2) : Even (halfEven x) := by
  unfold halfEven at tie ⊢
  split at tie
  case isTrue near =>
    have half : Int.fract x = 1 / 2 := by
      rwa [Int.self_sub_floor, abs_of_nonneg (Int.fract_nonneg x)] at tie
    rw [if_pos near]
    rcases near with less | ⟨-, even⟩
    · rw [half] at less
      exact absurd less (lt_irrefl _)
    · exact even
  case isFalse far =>
    have half : Int.fract x = 1 / 2 := by
      have split := Int.floor_add_fract x
      have lt := Int.fract_lt_one x
      push_cast at tie
      rw [abs_of_nonpos (by linarith)] at tie
      linarith
    rw [if_neg far]
    have odd : ¬ Even ⌊x⌋ := fun even => far (.inr ⟨half, even⟩)
    exact Int.even_add_one.mpr odd

/-- Of two nearest integers not both are even. -/
theorem not_lt_of_near {m n : ℤ} (nearM : |x - m| ≤ 1 / 2) (tieM : |x - m| = 1 / 2 → Even m) (nearN : |x - n| ≤ 1 / 2)
    (tieN : |x - n| = 1 / 2 → Even n) : ¬ m < n := by
  intro less
  obtain ⟨-, high⟩ := abs_le.mp nearM
  obtain ⟨low, -⟩ := abs_le.mp nearN
  have step : (m : ℚ) + 1 ≤ n := by exact_mod_cast less
  have evenM : Even m := tieM (by rw [abs_of_nonneg (by linarith)]; linarith)
  have evenN : Even n := tieN (by rw [abs_of_nonpos (by linarith)]; linarith)
  have next : n = m + 1 := by
    have le : (n : ℚ) ≤ m + 1 := by linarith
    exact_mod_cast le_antisymm le step
  rw [next, Int.even_add_one] at evenN
  exact evenN evenM

/-- An integer that is at most half away, and even when it is just that far. -/
theorem halfEven_eq (near : |x - n| ≤ 1 / 2) (tie : |x - n| = 1 / 2 → Even n) : halfEven x = n :=
  le_antisymm (not_lt.mp (not_lt_of_near near tie (abs_sub_halfEven_le x) even_halfEven))
    (not_lt.mp (not_lt_of_near (abs_sub_halfEven_le x) even_halfEven near tie))

theorem halfEven_eq_of_lt (near : |x - n| < 1 / 2) : halfEven x = n :=
  halfEven_eq near.le fun tie => absurd tie near.ne

theorem halfEven_intCast (n : ℤ) : halfEven n = n := halfEven_eq_of_lt (by norm_num)

theorem halfEven_neg (x : ℚ) : halfEven (-x) = -halfEven x := by
  have distance : |-x - (-halfEven x : ℤ)| = |x - halfEven x| := by
    rw [← abs_neg]
    push_cast
    ring_nf
  refine halfEven_eq (distance ▸ abs_sub_halfEven_le x) fun tie => ?_
  exact (even_halfEven (distance ▸ tie)).neg

theorem halfEven_mono (le : x ≤ y) : halfEven x ≤ halfEven y := by
  by_contra less
  have step : (halfEven y : ℚ) + 1 ≤ halfEven x := by exact_mod_cast not_le.mp less
  obtain ⟨-, high⟩ := abs_le.mp (abs_sub_halfEven_le y)
  obtain ⟨low, -⟩ := abs_le.mp (abs_sub_halfEven_le x)
  have same : x = y := le_antisymm le (by linarith)
  exact less (same ▸ le_refl _)

end

/-! ### Units -/

/-- The exponent of the last digit of a number with 53 binary digits. -/
def unit (q : ℚ) : ℤ := Int.log 2 (max |q| (2 ^ (-1022 : ℤ))) - 52

/-- The nearest number with 53 digits, of which the last one counts `2 ^ -1074` at least. -/
def rounded (q : ℚ) : ℚ := halfEven (q / 2 ^ unit q) * 2 ^ unit q

/-- A number with 53 binary digits, of which the last one counts `2 ^ -1074` at least. -/
def IsDouble (q : ℚ) : Prop := ∃ m k : ℤ, |m| < 2 ^ 53 ∧ -1074 ≤ k ∧ q = m * 2 ^ k

section
variable {p q : ℚ} {k : ℤ}

theorem unit_neg (q : ℚ) : unit (-q) = unit q := by rw [unit, abs_neg, unit]

theorem max_pos (q : ℚ) : 0 < max |q| ((2 : ℚ) ^ (-1022 : ℤ)) := lt_max_of_lt_right (by positivity)

theorem unit_le (inside : |q| < 2 ^ (k + 53)) (least : -1074 ≤ k) : unit q ≤ k := by
  have lower : (2 : ℚ) ^ (-1022 : ℤ) < 2 ^ (k + 53) := zpow_lt_zpow_right₀ (by norm_num) (by omega)
  have log := (Int.lt_zpow_iff_log_lt (b := 2) (by norm_num) (max_pos q)).mp (max_lt inside lower)
  simp only [unit]
  omega

theorem least_le_unit (q : ℚ) : -1074 ≤ unit q := by
  have log := (Int.zpow_le_iff_le_log (b := 2) (by norm_num) (max_pos q)).mp (le_max_right |q| _)
  simp only [unit]
  omega

theorem abs_lt_zpow_unit (q : ℚ) : |q| < 2 ^ (unit q + 53) := by
  have bound := Int.lt_zpow_succ_log_self (b := 2) (by norm_num) (max |q| (2 ^ (-1022 : ℤ)))
  have shift : unit q + 53 = Int.log 2 (max |q| (2 ^ (-1022 : ℤ))) + 1 := by
    simp only [unit]
    ring
  rw [shift]
  exact (le_max_left _ _).trans_lt bound

/-- The first of the digits is not zero, unless the last one is the least. -/
theorem zpow_unit_le (above : -1074 < unit q) : 2 ^ (unit q + 52) ≤ |q| := by
  have bound := Int.zpow_log_le_self (b := 2) (by norm_num) (max_pos q)
  have shift : unit q + 52 = Int.log 2 (max |q| (2 ^ (-1022 : ℤ))) := by simp [unit]
  rw [← shift] at bound
  rcases le_max_iff.mp bound with le | le
  · exact_mod_cast le
  · have exponents := (zpow_le_zpow_iff_right₀ (by norm_num : (1 : ℚ) < 2)).mp (by exact_mod_cast le)
    omega

theorem unit_eq (inside : |q| < 2 ^ (k + 53)) (least : -1074 ≤ k) (first : k = -1074 ∨ 2 ^ (k + 52) ≤ |q|) :
    unit q = k := by
  have above := least_le_unit q
  refine le_antisymm (unit_le inside least) ?_
  rcases first with rfl | digit
  · exact above
  · have exponents := (zpow_lt_zpow_iff_right₀ (by norm_num : (1 : ℚ) < 2)).mp (digit.trans_lt (abs_lt_zpow_unit q))
    omega

theorem unit_mono (le : |p| ≤ |q|) : unit p ≤ unit q :=
  unit_le (le.trans_lt (abs_lt_zpow_unit q)) (least_le_unit q)

/-! ### Rounding -/

theorem rounded_zero : rounded 0 = 0 := by
  have digits := halfEven_intCast 0
  push_cast at digits
  rw [rounded, zero_div, digits, Int.cast_zero, zero_mul]

theorem rounded_neg (q : ℚ) : rounded (-q) = -rounded q := by
  simp only [rounded, unit_neg, neg_div, halfEven_neg, Int.cast_neg, neg_mul]

theorem abs_rounded_sub_le_unit (q : ℚ) : |rounded q - q| ≤ 2 ^ unit q / 2 := by
  have near := abs_sub_halfEven_le (q / 2 ^ unit q)
  have positive : (0 : ℚ) < 2 ^ unit q := by positivity
  have distance : rounded q - q = -(q / 2 ^ unit q - halfEven (q / 2 ^ unit q)) * 2 ^ unit q := by
    rw [rounded]
    field_simp
    ring
  rw [distance, abs_mul, abs_neg, abs_of_pos positive]
  calc |q / 2 ^ unit q - halfEven (q / 2 ^ unit q)| * 2 ^ unit q
    _ ≤ 1 / 2 * 2 ^ unit q := by gcongr
    _ = 2 ^ unit q / 2 := by ring

theorem rounded_of_isDouble (double : IsDouble q) : rounded q = q := by
  obtain ⟨m, k, digits, least, rfl⟩ := double
  have le : unit ((m : ℚ) * 2 ^ k) ≤ k := by
    refine unit_le ?_ least
    have fits : |(m : ℚ)| < 2 ^ (53 : ℤ) := by exact_mod_cast digits
    rw [abs_mul, abs_of_pos (by positivity : (0 : ℚ) < 2 ^ k), add_comm, zpow_add₀ (by norm_num)]
    gcongr
  obtain ⟨d, gap⟩ := Int.eq_ofNat_of_zero_le (sub_nonneg.mpr le)
  have whole : (m : ℚ) * 2 ^ k / 2 ^ unit ((m : ℚ) * 2 ^ k) = (m * 2 ^ d : ℤ) := by
    rw [mul_div_assoc, ← zpow_sub₀ (by norm_num), gap]
    push_cast
    rfl
  rw [rounded, whole, halfEven_intCast, ← whole]
  field_simp

theorem isDouble_zpow {e : ℤ} (least : -1074 ≤ e) : IsDouble (2 ^ e) := ⟨1, e, by norm_num, least, by simp⟩

theorem isDouble_neg (double : IsDouble q) : IsDouble (-q) := by
  obtain ⟨m, k, digits, least, rfl⟩ := double
  exact ⟨-m, k, by rwa [abs_neg], least, by push_cast; ring⟩

theorem abs_halfEven_le {x : ℚ} {n : ℤ} (le : |x| ≤ n) : |halfEven x| ≤ n := by
  obtain ⟨low, high⟩ := abs_le.mp le
  have lower := halfEven_mono (show ((-n : ℤ) : ℚ) ≤ x by exact_mod_cast low)
  have upper := halfEven_mono high
  rw [halfEven_intCast] at lower upper
  exact abs_le.mpr ⟨lower, upper⟩

/-- The 53 digits, which can all have become zeros behind a further one. -/
theorem abs_halfEven_unit_le (q : ℚ) : |halfEven (q / 2 ^ unit q)| ≤ 2 ^ 53 := by
  refine abs_halfEven_le ?_
  have inside := abs_lt_zpow_unit q
  rw [add_comm, zpow_add₀ (by norm_num)] at inside
  rw [abs_div, abs_of_pos (by positivity : (0 : ℚ) < 2 ^ unit q), div_le_iff₀ (by positivity)]
  exact_mod_cast inside.le

theorem isDouble_rounded (q : ℚ) : IsDouble (rounded q) := by
  have least := least_le_unit q
  rcases lt_or_eq_of_le (abs_halfEven_unit_le q) with digits | carried
  · exact ⟨_, _, digits, least, rfl⟩
  · have carry : IsDouble (2 ^ 53 * 2 ^ unit q) := by
      have sum : (2 : ℚ) ^ 53 * 2 ^ unit q = 2 ^ (53 + unit q) := by
        rw [zpow_add₀ (by norm_num)]
        norm_num
      rw [sum]
      exact isDouble_zpow (by omega)
    rcases (abs_eq (by norm_num)).mp carried with same | same
    · rw [rounded, same]
      exact_mod_cast carry
    · rw [rounded, same]
      push_cast
      rw [neg_mul]
      exact isDouble_neg carry

/-! ### Order -/

theorem rounded_nonneg (nonneg : 0 ≤ q) : 0 ≤ rounded q := by
  have digits : 0 ≤ halfEven (q / 2 ^ unit q) := by
    have le := halfEven_mono (show ((0 : ℤ) : ℚ) ≤ q / 2 ^ unit q by push_cast; positivity)
    rwa [halfEven_intCast] at le
  have castDigits : (0 : ℚ) ≤ halfEven (q / 2 ^ unit q) := by exact_mod_cast digits
  rw [rounded]
  positivity

theorem rounded_le_zpow (q : ℚ) : rounded q ≤ 2 ^ (unit q + 53) := by
  have digits : (halfEven (q / 2 ^ unit q) : ℚ) ≤ 2 ^ (53 : ℤ) := by
    exact_mod_cast (le_abs_self _).trans (abs_halfEven_unit_le q)
  rw [rounded, add_comm, zpow_add₀ (by norm_num)]
  gcongr

theorem zpow_le_rounded (nonneg : 0 ≤ q) (above : -1074 < unit q) : 2 ^ (unit q + 52) ≤ rounded q := by
  have first := zpow_unit_le above
  rw [abs_of_nonneg nonneg, add_comm, zpow_add₀ (by norm_num), ← le_div_iff₀ (by positivity)] at first
  have digits := halfEven_mono (show ((2 ^ 52 : ℤ) : ℚ) ≤ q / 2 ^ unit q by exact_mod_cast first)
  rw [halfEven_intCast] at digits
  have castDigits : (2 : ℚ) ^ (52 : ℤ) ≤ halfEven (q / 2 ^ unit q) := by exact_mod_cast digits
  rw [rounded, add_comm, zpow_add₀ (by norm_num)]
  gcongr

theorem rounded_le_rounded (nonneg : 0 ≤ p) (le : p ≤ q) : rounded p ≤ rounded q := by
  have nonneg' := nonneg.trans le
  have units : unit p ≤ unit q := unit_mono (by rwa [abs_of_nonneg nonneg, abs_of_nonneg nonneg'])
  rcases lt_or_eq_of_le units with less | same
  · -- the digits of `q` start further to the left
    have least := least_le_unit p
    calc rounded p
      _ ≤ 2 ^ (unit p + 53) := rounded_le_zpow p
      _ ≤ 2 ^ (unit q + 52) := zpow_le_zpow_right₀ (by norm_num) (by omega)
      _ ≤ rounded q := zpow_le_rounded nonneg' (by omega)
  · rw [rounded, rounded, same]
    have digits : halfEven (p / 2 ^ unit q) ≤ halfEven (q / 2 ^ unit q) := halfEven_mono (by gcongr)
    have castDigits : (halfEven (p / 2 ^ unit q) : ℚ) ≤ halfEven (q / 2 ^ unit q) := by exact_mod_cast digits
    gcongr

theorem rounded_mono : Monotone rounded := by
  intro p q le
  rcases le_total 0 p with nonneg | nonpos
  · exact rounded_le_rounded nonneg le
  · have other := rounded_neg p
    rcases le_total 0 q with nonneg' | nonpos'
    · have left := rounded_nonneg (neg_nonneg.mpr nonpos)
      have right := rounded_nonneg nonneg'
      linarith
    · have both := rounded_le_rounded (neg_nonneg.mpr nonpos') (neg_le_neg le)
      rw [rounded_neg, rounded_neg] at both
      linarith

theorem rounded_le_of_isDouble (double : IsDouble q) (le : p ≤ q) : rounded p ≤ q :=
  (rounded_mono le).trans (rounded_of_isDouble double).le

theorem le_rounded_of_isDouble (double : IsDouble p) (le : p ≤ q) : p ≤ rounded q :=
  (rounded_of_isDouble double).ge.trans (rounded_mono le)

theorem abs_rounded_lt {bound : ℚ} (nonneg : 0 ≤ p) (double : IsDouble q) (le : p ≤ q) (fits : |q| < bound) :
    |rounded p| < bound := by
  rw [abs_of_nonneg (rounded_nonneg nonneg)]
  exact (rounded_le_of_isDouble double le).trans_lt ((le_abs_self q).trans_lt fits)

/-! ### Distance -/

/-- Rounding moves a number by at most half a unit, for any unit that leaves it 53 digits. -/
theorem abs_rounded_sub_le (inside : |q| ≤ 2 ^ (k + 53)) (least : -1074 ≤ k) : |rounded q - q| ≤ 2 ^ k / 2 := by
  rcases lt_or_eq_of_le inside with less | same
  · have units : (2 : ℚ) ^ unit q ≤ 2 ^ k := zpow_le_zpow_right₀ (by norm_num) (unit_le less least)
    exact (abs_rounded_sub_le_unit q).trans (by linarith)
  · have double : IsDouble q := by
      have power := isDouble_zpow (show -1074 ≤ k + 53 by omega)
      rcases (abs_eq (by positivity)).mp same with rfl | rfl
      · exact power
      · exact isDouble_neg power
    rw [rounded_of_isDouble double, sub_self, abs_zero]
    positivity

end

end GraphingCalculator
