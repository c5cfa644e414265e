import GraphingCalculator.Proofs.Number.Rounding

/-!
Places between two bounds, computed with a rounding after each operation: a share of the span away from
the lower bound (`stepped`), or the bounds weighted with the share (`weighted`). Either place lies between
the bounds and does not go back as the share grows, and it is at most seven halves of a unit away from
where it belongs (`abs_stepped_sub_le`, `abs_weighted_sub_le`).
-/

namespace GraphingCalculator

/-! ### Shares -/

/-- What is less than one by `2 ^ -53` at least, as every fraction of integers up to `2 ^ 53` is. -/
structure IsShare (t : ℚ) : Prop where
  nonneg : 0 ≤ t
  le : t ≤ 1 - 2 ^ (-53 : ℤ)

section
variable {t : ℚ} {i n : Nat}

theorem IsShare.lt_one (share : IsShare t) : t < 1 := by
  have positive : (0 : ℚ) < 2 ^ (-53 : ℤ) := by positivity
  linarith [share.le]

theorem isShare_rounded (less : i < n) (le : n ≤ 2 ^ 53) : IsShare (rounded (i / n)) := by
  have positive : (0 : ℚ) < n := by exact_mod_cast Nat.zero_lt_of_lt less
  constructor
  · exact rounded_nonneg (by positivity)
  · refine rounded_le_of_isDouble ⟨2 ^ 53 - 1, -53, by norm_num, by norm_num, by norm_num⟩ ?_
    have next : (i : ℚ) + 1 ≤ n := by exact_mod_cast less
    have most : (n : ℚ) ≤ 2 ^ 53 := by exact_mod_cast le
    rw [div_le_iff₀ positive]
    norm_num
    linarith

theorem abs_share_sub_le (less : i < n) : |rounded ((i : ℚ) / n) - i / n| ≤ 2 ^ (-54 : ℤ) := by
  have positive : (0 : ℚ) < n := by exact_mod_cast Nat.zero_lt_of_lt less
  have le : (i : ℚ) ≤ n := by exact_mod_cast less.le
  have one : (i : ℚ) / n ≤ 1 := (div_le_one positive).mpr le
  have near := abs_rounded_sub_le (q := (i : ℚ) / n) (k := -53) (by rw [abs_of_nonneg (by positivity)]; simpa using one)
    (by norm_num)
  refine near.trans (le_of_eq ?_)
  norm_num

end

/-! ### Differences of doubles -/

section
variable {p q s t : ℚ}

/-- Every double is a multiple of the least one. -/
theorem IsDouble.exists_eq (double : IsDouble q) : ∃ n : ℤ, q = n * 2 ^ (-1074 : ℤ) := by
  obtain ⟨m, k, -, least, rfl⟩ := double
  obtain ⟨d, gap⟩ := Int.eq_ofNat_of_zero_le (show 0 ≤ k + 1074 by omega)
  refine ⟨m * 2 ^ d, ?_⟩
  rw [Int.cast_mul, Int.cast_pow, Int.cast_ofNat, mul_assoc, ← zpow_natCast, ← zpow_add₀ (by norm_num), ← gap]
  congr 2
  omega

/-- Near the least double, differences are not rounded. -/
theorem isDouble_sub (left : IsDouble p) (right : IsDouble q) (small : |p - q| < 2 ^ (-1021 : ℤ)) :
    IsDouble (p - q) := by
  obtain ⟨m, rfl⟩ := left.exists_eq
  obtain ⟨n, rfl⟩ := right.exists_eq
  have factor : (m : ℚ) * 2 ^ (-1074 : ℤ) - n * 2 ^ (-1074 : ℤ) = (m - n : ℤ) * 2 ^ (-1074 : ℤ) := by
    rw [Int.cast_sub, sub_mul]
  refine ⟨m - n, -1074, ?_, le_rfl, factor⟩
  have bound : (2 : ℚ) ^ (-1021 : ℤ) = 2 ^ (53 : ℤ) * 2 ^ (-1074 : ℤ) := by
    rw [← zpow_add₀ (by norm_num)]
    norm_num
  rw [factor, bound, abs_mul, abs_of_pos (by positivity : (0 : ℚ) < 2 ^ (-1074 : ℤ)),
    mul_lt_mul_iff_left₀ (by positivity)] at small
  exact_mod_cast small

/-- What is more than half a unit less stays less when it is rounded. -/
theorem rounded_lt {k : ℤ} (inside : |q| ≤ 2 ^ (k + 53)) (least : -1074 ≤ k) (gap : 2 ^ k / 2 < s - q) :
    rounded q < s := by
  obtain ⟨-, near⟩ := abs_le.mp (abs_rounded_sub_le inside least)
  linarith

/-- A share of a number is less than the number, also when it is rounded. -/
theorem rounded_mul_lt (big : 2 ^ (-1021 : ℤ) ≤ s) (share : IsShare t) : rounded (s * t) < s := by
  have positive : 0 < s := lt_of_lt_of_le (by positivity) big
  have size : |s * t| ≤ s := by
    rw [abs_of_nonneg (mul_nonneg positive.le share.nonneg)]
    exact mul_le_of_le_one_right positive.le share.lt_one.le
  have above : -1074 < unit s := by
    have exponents := (zpow_lt_zpow_iff_right₀ (by norm_num : (1 : ℚ) < 2)).mp
      (big.trans_lt ((le_abs_self s).trans_lt (abs_lt_zpow_unit s)))
    omega
  have first := zpow_unit_le above
  have inside := abs_lt_zpow_unit s
  rw [abs_of_pos positive] at first inside
  have loss : s * 2 ^ (-53 : ℤ) ≤ s - s * t := by
    have less := mul_le_mul_of_nonneg_left share.le positive.le
    rw [mul_sub, mul_one] at less
    linarith
  have digits : (2 : ℚ) ^ unit s / 2 = 2 ^ (unit s + 52) * 2 ^ (-53 : ℤ) := by
    rw [zpow_add₀ (by norm_num)]
    norm_num
    ring
  have halves : (2 : ℚ) ^ (unit s - 1) = 2 ^ unit s / 2 := by
    rw [zpow_sub₀ (by norm_num), zpow_one]
  rcases lt_or_eq_of_le first with more | same
  · -- half a unit is lost to the share, and rounding gives back half a unit at most
    refine rounded_lt (size.trans inside.le) above.le (lt_of_lt_of_le ?_ loss)
    rw [digits]
    exact mul_lt_mul_of_pos_right more (by positivity)
  · -- below a power of two the units are half as large
    have small : |s * t| ≤ 2 ^ (unit s - 1 + 53) := by
      rw [show unit s - 1 + 53 = unit s + 52 by ring, same]
      exact size
    refine rounded_lt small (by omega) (lt_of_lt_of_le ?_ loss)
    calc (2 : ℚ) ^ (unit s - 1) / 2
      _ < 2 ^ unit s / 2 := by rw [halves]; exact half_lt_self (by positivity)
      _ = s * 2 ^ (-53 : ℤ) := by rw [digits, same]

end

/-! ### From the lower bound on -/

/-- The place that is a share of the span away from the lower bound. -/
def stepped (a b t : ℚ) : ℚ := rounded (a + rounded (rounded (b - a) * t))

section
variable {a b t t' τ : ℚ} {k : ℤ}

theorem rounded_span_nonneg (lt : a < b) : 0 ≤ rounded (b - a) := rounded_nonneg (sub_pos.mpr lt).le

theorem step_nonneg (lt : a < b) (nonneg : 0 ≤ t) : 0 ≤ rounded (rounded (b - a) * t) :=
  rounded_nonneg (mul_nonneg (rounded_span_nonneg lt) nonneg)

/-- A step does not lead beyond the upper bound, even when the span has been rounded up. -/
theorem step_le (lower : IsDouble a) (upper : IsDouble b) (lt : a < b) (share : IsShare t) :
    rounded (rounded (b - a) * t) ≤ b - a := by
  have positive := sub_pos.mpr lt
  rcases lt_or_ge (b - a) (2 ^ (-1021 : ℤ)) with small | big
  · have double := isDouble_sub upper lower (by rwa [abs_of_pos positive])
    rw [rounded_of_isDouble double]
    exact rounded_le_of_isDouble double (mul_le_of_le_one_right positive.le share.lt_one.le)
  · by_contra beyond
    have less := rounded_mul_lt (le_rounded_of_isDouble (isDouble_zpow (by norm_num)) big) share
    have le := rounded_le_of_isDouble (isDouble_rounded _) (not_le.mp beyond).le
    exact absurd less (not_lt.mpr le)

theorem le_stepped (lower : IsDouble a) (lt : a < b) (nonneg : 0 ≤ t) : a ≤ stepped a b t :=
  le_rounded_of_isDouble lower (le_add_of_nonneg_right (step_nonneg lt nonneg))

theorem stepped_le (lower : IsDouble a) (upper : IsDouble b) (lt : a < b) (share : IsShare t) : stepped a b t ≤ b :=
  rounded_le_of_isDouble upper (by linarith [step_le lower upper lt share])

theorem stepped_mono (lt : a < b) (le : t ≤ t') : stepped a b t ≤ stepped a b t' := by
  have products := mul_le_mul_of_nonneg_left le (rounded_span_nonneg lt)
  exact rounded_mono (add_le_add_right (rounded_mono products) a)

theorem abs_mul_le {x y c d : ℚ} (left : |x| ≤ c) (right : |y| ≤ d) : |x * y| ≤ c * d :=
  (abs_mul x y).trans_le (mul_le_mul left right (abs_nonneg y) ((abs_nonneg x).trans left))

/-- Three of the units are lost on the way to the step, and half a one when it is added. -/
theorem abs_stepped_sub_le (lower : IsDouble a) (upper : IsDouble b) (lt : a < b) (share : IsShare t)
    (near : |t - τ| ≤ 2 ^ (-54 : ℤ)) (nonneg : 0 ≤ τ) (le : τ ≤ 1) (least : -1074 ≤ k) (inside : |a| ≤ 2 ^ (k + 53))
    (inside' : |b| ≤ 2 ^ (k + 53)) : |stepped a b t - (a + (b - a) * τ)| ≤ 7 / 2 * 2 ^ k := by
  have next : (2 : ℚ) ^ (k + 1) = 2 * 2 ^ k := by rw [zpow_add₀ (by norm_num), zpow_one, mul_comm]
  have twice : (2 : ℚ) ^ (k + 1 + 53) = 2 * 2 ^ (k + 53) := by
    rw [add_right_comm, zpow_add₀ (by norm_num) (k + 53) 1, zpow_one, mul_comm]
  have spanInside : |b - a| ≤ 2 ^ (k + 1 + 53) := by
    rw [twice]
    exact (abs_sub b a).trans (by linarith)
  have nonneg' := rounded_span_nonneg lt
  have spanLe : rounded (b - a) ≤ 2 ^ (k + 1 + 53) :=
    rounded_le_of_isDouble (isDouble_zpow (by omega)) ((le_abs_self _).trans spanInside)
  have productInside : |rounded (b - a) * t| ≤ 2 ^ (k + 1 + 53) := by
    rw [abs_of_nonneg (mul_nonneg nonneg' share.nonneg)]
    exact (mul_le_of_le_one_right nonneg' share.lt_one.le).trans spanLe
  have sumInside : |a + rounded (rounded (b - a) * t)| ≤ 2 ^ (k + 53) := by
    have fromLower := step_nonneg lt share.nonneg
    have toUpper := step_le lower upper lt share
    rw [abs_le] at inside inside' ⊢
    constructor <;> linarith
  have spanLoss : |(rounded (b - a) - (b - a)) * τ| ≤ 2 ^ k * 1 :=
    abs_mul_le (by simpa [next] using abs_rounded_sub_le spanInside (by omega)) (by rwa [abs_of_nonneg nonneg])
  have shareLoss : |rounded (b - a) * (t - τ)| ≤ 2 ^ (k + 1 + 53) * 2 ^ (-54 : ℤ) :=
    abs_mul_le (by rwa [abs_of_nonneg nonneg']) near
  have productLoss := abs_rounded_sub_le productInside (by omega)
  have sumLoss := abs_rounded_sub_le sumInside least
  have cancel : (2 : ℚ) ^ (k + 1 + 53) * 2 ^ (-54 : ℤ) = 2 ^ k := by
    rw [← zpow_add₀ (by norm_num)]
    congr 1
    omega
  rw [cancel] at shareLoss
  rw [next] at productLoss
  unfold stepped
  rw [abs_le] at *
  constructor <;> linarith

end

/-! ### Weighted bounds -/

/-- The sum of the bounds, weighted with the share. -/
def weighted (a b t : ℚ) : ℚ := rounded (rounded (a * rounded (1 - t)) + rounded (b * t))

section
variable {a b t t' τ : ℚ} {k : ℤ}

theorem isDouble_one : IsDouble 1 := isDouble_zpow (e := 0) (by norm_num)

theorem IsShare.rounded_one_sub (share : IsShare t) : 0 ≤ rounded (1 - t) ∧ rounded (1 - t) ≤ 1 :=
  ⟨rounded_nonneg (sub_pos.mpr share.lt_one).le, rounded_le_of_isDouble isDouble_one (by linarith [share.nonneg])⟩

/-- The part of the lower bound, which is negative. -/
theorem lower_part (lower : IsDouble a) (neg : a ≤ 0) (share : IsShare t) :
    a ≤ rounded (a * rounded (1 - t)) ∧ rounded (a * rounded (1 - t)) ≤ 0 := by
  obtain ⟨nonneg, le⟩ := share.rounded_one_sub
  refine ⟨le_rounded_of_isDouble lower (le_mul_of_le_one_right neg le), ?_⟩
  exact rounded_zero ▸ rounded_mono (mul_nonpos_of_nonpos_of_nonneg neg nonneg)

theorem upper_part (upper : IsDouble b) (nonneg : 0 ≤ b) (share : IsShare t) : 0 ≤ rounded (b * t) ∧ rounded (b * t) ≤ b :=
  ⟨rounded_nonneg (mul_nonneg nonneg share.nonneg),
    rounded_le_of_isDouble upper (mul_le_of_le_one_right nonneg share.lt_one.le)⟩

theorem le_weighted (lower : IsDouble a) (upper : IsDouble b) (neg : a ≤ 0) (nonneg : 0 ≤ b) (share : IsShare t) :
    a ≤ weighted a b t :=
  le_rounded_of_isDouble lower (by linarith [(lower_part lower neg share).1, (upper_part upper nonneg share).1])

theorem weighted_le (lower : IsDouble a) (upper : IsDouble b) (neg : a ≤ 0) (nonneg : 0 ≤ b) (share : IsShare t) :
    weighted a b t ≤ b :=
  rounded_le_of_isDouble upper (by linarith [(lower_part lower neg share).2, (upper_part upper nonneg share).2])

theorem weighted_mono (neg : a ≤ 0) (nonneg : 0 ≤ b) (le : t ≤ t') : weighted a b t ≤ weighted a b t' := by
  have weights : rounded (1 - t') ≤ rounded (1 - t) := rounded_mono (sub_le_sub_left le 1)
  exact rounded_mono (add_le_add (rounded_mono (mul_le_mul_of_nonpos_left weights neg))
    (rounded_mono (mul_le_mul_of_nonneg_left le nonneg)))

/-- Half a unit is lost with every operation but the weight of the lower bound, with which it is a whole one. -/
theorem abs_weighted_sub_le (lower : IsDouble a) (upper : IsDouble b) (neg : a ≤ 0) (nonneg : 0 ≤ b) (share : IsShare t)
    (near : |t - τ| ≤ 2 ^ (-54 : ℤ)) (least : -1074 ≤ k) (inside : |a| ≤ 2 ^ (k + 53)) (inside' : |b| ≤ 2 ^ (k + 53)) :
    |weighted a b t - (a + (b - a) * τ)| ≤ 7 / 2 * 2 ^ k := by
  have weights := share.rounded_one_sub
  have weightLoss : |rounded (1 - t) - (1 - t)| ≤ 2 ^ (-54 : ℤ) := by
    have inside : |1 - t| ≤ 2 ^ ((-53 : ℤ) + 53) := by
      rw [abs_of_nonneg (sub_pos.mpr share.lt_one).le]
      norm_num
      exact share.nonneg
    exact (abs_rounded_sub_le inside (by norm_num)).trans (le_of_eq (by norm_num))
  have double : (2 : ℚ) ^ (-53 : ℤ) = 2 ^ (-54 : ℤ) + 2 ^ (-54 : ℤ) := by norm_num
  have weightLoss' : |rounded (1 - t) - (1 - τ)| ≤ 2 ^ (-53 : ℤ) := by
    rw [double]
    rw [abs_le] at *
    constructor <;> linarith
  have lowerWeighted : |a * (rounded (1 - t) - (1 - τ))| ≤ 2 ^ (k + 53) * 2 ^ (-53 : ℤ) := abs_mul_le inside weightLoss'
  have upperWeighted : |b * (t - τ)| ≤ 2 ^ (k + 53) * 2 ^ (-54 : ℤ) := abs_mul_le inside' near
  have lowerInside : |a * rounded (1 - t)| ≤ 2 ^ (k + 53) * 1 :=
    abs_mul_le inside ((abs_of_nonneg weights.1).trans_le weights.2)
  have upperInside : |b * t| ≤ 2 ^ (k + 53) * 1 :=
    abs_mul_le inside' ((abs_of_nonneg share.nonneg).trans_le share.lt_one.le)
  have sumInside : |rounded (a * rounded (1 - t)) + rounded (b * t)| ≤ 2 ^ (k + 53) := by
    have left := lower_part lower neg share
    have right := upper_part upper nonneg share
    rw [abs_le] at inside inside' ⊢
    constructor <;> linarith
  rw [mul_one] at lowerInside upperInside
  have lowerLoss := abs_rounded_sub_le lowerInside least
  have upperLoss := abs_rounded_sub_le upperInside least
  have sumLoss := abs_rounded_sub_le sumInside least
  have whole : (2 : ℚ) ^ (k + 53) * 2 ^ (-53 : ℤ) = 2 ^ k := by
    rw [← zpow_add₀ (by norm_num), add_assoc, add_neg_cancel, add_zero]
  have half : (2 : ℚ) ^ (k + 53) * 2 ^ (-54 : ℤ) = 2 ^ k / 2 := by
    rw [← whole, double]
    ring
  rw [whole] at lowerWeighted
  rw [half] at upperWeighted
  unfold weighted
  have positive : (0 : ℚ) < 2 ^ k := by positivity
  rw [abs_le] at *
  constructor <;> linarith

end

end GraphingCalculator
