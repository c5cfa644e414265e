import GraphingCalculator.Proofs.Number.Arithmetic
import GraphingCalculator.Proofs.Number.Interpolation
import GraphingCalculator.Sweep.Interval

/-!
The coordinates of an axis. With at most `2 ^ 53` parts they are finite and none is less than the one
before it, and they increase where a part is more than seven times as wide as the doubles at the outer
bound are apart (`coordinates_increase`): each is within seven halves of this distance of where it belongs
(`abs_place_sub_le`). Where the parts are narrower, two coordinates can be the same (`coordinates_repeat`).
-/

namespace GraphingCalculator.Interval
open Binary64

/-- How far the bound further away from zero is. -/
def outer (interval : Interval) : ℚ := Max.max |value interval.min| |value interval.max|

/-- The distance of the doubles next to each other at the bound further away from zero. -/
def grain (interval : Interval) : ℚ := 2 ^ unit interval.outer

/-- The number that a coordinate is. -/
def place (interval : Interval) (count i : Nat) : ℚ :=
  if i = count then value interval.max
  else if (interval.max - interval.min).isFinite then
    stepped (value interval.min) (value interval.max) (rounded (i / count))
  else weighted (value interval.min) (value interval.max) (rounded (i / count))

section
variable {interval : Interval} {count i j : Nat}

/-! ### Bounds -/

theorem hasValue_min (interval : Interval) : HasValue interval.min (value interval.min) := hasValue interval.min_isFinite

theorem hasValue_max (interval : Interval) : HasValue interval.max (value interval.max) := hasValue interval.max_isFinite

theorem value_min_lt (interval : Interval) : value interval.min < value interval.max :=
  (interval.hasValue_min.lt_iff interval.hasValue_max).mp interval.min_lt_max

/-- What lies between the bounds fits into a double. -/
theorem abs_lt_of_mem {q : ℚ} (le : value interval.min ≤ q) (ge : q ≤ value interval.max) : |q| < 2 ^ (1024 : ℤ) := by
  have low := abs_lt.mp interval.hasValue_min.abs_lt
  have high := abs_lt.mp interval.hasValue_max.abs_lt
  exact abs_lt.mpr ⟨low.1.trans_le le, ge.trans_lt high.2⟩

/-- The span of two bounds on one side of zero is finite. -/
theorem signs_of_isFinite_eq_false (wide : ¬ (interval.max - interval.min).isFinite = true) :
    value interval.min ≤ 0 ∧ 0 ≤ value interval.max := by
  rw [interval.hasValue_max.isFinite_sub interval.hasValue_min] at wide
  have lower := interval.hasValue_min
  have upper := interval.hasValue_max
  have positive := sub_pos.mpr interval.value_min_lt
  constructor
  · by_contra right
    exact wide (abs_rounded_lt positive.le upper.isDouble (sub_le_self _ (not_le.mp right).le) upper.abs_lt)
  · by_contra left
    have le : value interval.max - value interval.min ≤ -value interval.min := by linarith
    exact wide (abs_rounded_lt positive.le (isDouble_neg lower.isDouble) le (by rw [abs_neg]; exact lower.abs_lt))

/-! ### Coordinates -/

section
variable {x : Float} {t : ℚ}

theorem hasValue_stepped (narrow : (interval.max - interval.min).isFinite = true) (ratio : HasValue x t)
    (share : IsShare t) :
    HasValue (interval.min + (interval.max - interval.min) * x)
      (stepped (value interval.min) (value interval.max) t) := by
  have lower := interval.hasValue_min
  have upper := interval.hasValue_max
  have order := interval.value_min_lt
  have fits := (upper.isFinite_sub lower).mp narrow
  have nonneg := rounded_span_nonneg order
  have le := mul_le_of_le_one_right nonneg share.lt_one.le
  have step := (upper.sub lower fits).mul ratio <|
    abs_rounded_lt (mul_nonneg nonneg share.nonneg) (isDouble_rounded _) le fits
  exact lower.add step (abs_lt_of_mem (le_stepped lower.isDouble order share.nonneg)
    (stepped_le lower.isDouble upper.isDouble order share))

theorem hasValue_weighted (wide : ¬ (interval.max - interval.min).isFinite = true) (ratio : HasValue x t)
    (share : IsShare t) :
    HasValue (interval.min * (1.0 - x) + interval.max * x) (weighted (value interval.min) (value interval.max) t) := by
  have lower := interval.hasValue_min
  have upper := interval.hasValue_max
  obtain ⟨neg, nonneg⟩ := signs_of_isFinite_eq_false wide
  have weight := hasValue_one.sub ratio <|
    abs_rounded_lt (sub_pos.mpr share.lt_one).le isDouble_one (sub_le_self 1 share.nonneg) hasValue_one.abs_lt
  have left := lower_part lower.isDouble neg share
  have right := upper_part upper.isDouble nonneg share
  have lowerPart := lower.mul weight (abs_lt_of_mem left.1 (left.2.trans nonneg))
  have upperPart := upper.mul ratio (abs_lt_of_mem (neg.trans right.1) right.2)
  exact lowerPart.add upperPart (abs_lt_of_mem (le_weighted lower.isDouble upper.isDouble neg nonneg share)
    (weighted_le lower.isDouble upper.isDouble neg nonneg share))

end

theorem hasValue_share (less : i < count) (few : count ≤ 2 ^ 53) :
    HasValue (Float.ofNat i / Float.ofNat count) (rounded (i / count)) := by
  have positive : (0 : ℚ) < count := by exact_mod_cast Nat.zero_lt_of_lt less
  have one : (i : ℚ) / count ≤ 1 := (div_le_one positive).mpr (by exact_mod_cast less.le)
  exact (hasValue_ofNat (less.le.trans few)).div (hasValue_ofNat few) positive.ne' <|
    abs_rounded_lt (by positivity) isDouble_one one hasValue_one.abs_lt

/-- The coordinates are the doubles of their places. -/
theorem hasValue_coordinate (le : i ≤ count) (few : count ≤ 2 ^ 53) :
    HasValue (interval.coordinate count i) (interval.place count i) := by
  unfold coordinate place
  split
  case isTrue => exact interval.hasValue_max
  case isFalse inner =>
    have less : i < count := lt_of_le_of_ne le inner
    have share := isShare_rounded less few
    have ratio := hasValue_share less few
    dsimp only
    split
    case isTrue narrow => exact hasValue_stepped narrow ratio share
    case isFalse wide => exact hasValue_weighted wide ratio share

/-- No coordinate is less than the one before it. -/
theorem place_le (less : i < j) (le : j ≤ count) (few : count ≤ 2 ^ 53) :
    interval.place count i ≤ interval.place count j := by
  have inner := less.trans_le le
  have lower := interval.hasValue_min.isDouble
  have upper := interval.hasValue_max.isDouble
  have order := interval.value_min_lt
  have share := isShare_rounded inner few
  have ratios : rounded ((i : ℚ) / count) ≤ rounded (j / count) := rounded_mono (by gcongr)
  unfold place
  rw [if_neg inner.ne]
  by_cases narrow : (interval.max - interval.min).isFinite = true
  · rw [if_pos narrow, if_pos narrow]
    split
    case isTrue => exact stepped_le lower upper order share
    case isFalse => exact stepped_mono order ratios
  · obtain ⟨neg, nonneg⟩ := signs_of_isFinite_eq_false narrow
    rw [if_neg narrow, if_neg narrow]
    split
    case isTrue => exact weighted_le lower upper neg nonneg share
    case isFalse => exact weighted_mono neg nonneg ratios

/-! ### Distances -/

theorem abs_value_le (interval : Interval) :
    |value interval.min| ≤ 2 ^ (unit interval.outer + 53) ∧ |value interval.max| ≤ 2 ^ (unit interval.outer + 53) := by
  have inside := (le_abs_self _).trans (abs_lt_zpow_unit interval.outer).le
  exact ⟨(le_max_left _ _).trans inside, (le_max_right _ _).trans inside⟩

/-- Each coordinate is within seven halves of the distance between doubles of where it belongs. -/
theorem abs_place_sub_le (interval : Interval) (pos : 0 < count) (le : i ≤ count) (few : count ≤ 2 ^ 53) :
    |interval.place count i - (value interval.min + (value interval.max - value interval.min) * (i / count))| ≤
      7 / 2 * interval.grain := by
  have positive : (0 : ℚ) < count := by exact_mod_cast pos
  rcases Nat.lt_or_eq_of_le le with inner | rfl
  · have lower := interval.hasValue_min.isDouble
    have upper := interval.hasValue_max.isDouble
    have order := interval.value_min_lt
    have share := isShare_rounded inner few
    have near := abs_share_sub_le inner
    have bounds := interval.abs_value_le
    have least := least_le_unit interval.outer
    unfold place
    rw [if_neg inner.ne]
    split
    case isTrue =>
      have one : (i : ℚ) / count ≤ 1 := (div_le_one positive).mpr (by exact_mod_cast le)
      exact abs_stepped_sub_le lower upper order share near (by positivity) one least bounds.1 bounds.2
    case isFalse wide =>
      obtain ⟨neg, nonneg⟩ := signs_of_isFinite_eq_false wide
      exact abs_weighted_sub_le lower upper neg nonneg share near least bounds.1 bounds.2
  · have last : value interval.max =
        value interval.min + (value interval.max - value interval.min) * (i / i) := by
      rw [div_self positive.ne']
      ring
    rw [place, if_pos rfl, ← last, sub_self, abs_zero]
    unfold grain
    positivity

theorem place_lt (less : i < j) (le : j ≤ count) (few : count ≤ 2 ^ 53)
    (wide : 7 * interval.grain < (value interval.max - value interval.min) / count) :
    interval.place count i < interval.place count j := by
  have pos : 0 < count := (Nat.zero_lt_of_lt less).trans_le le
  have positive : (0 : ℚ) < count := by exact_mod_cast pos
  have order := sub_pos.mpr interval.value_min_lt
  obtain ⟨-, high⟩ := abs_le.mp (abs_place_sub_le interval pos (less.le.trans le) few)
  obtain ⟨low, -⟩ := abs_le.mp (abs_place_sub_le interval pos le few)
  have next : (i : ℚ) + 1 ≤ j := by exact_mod_cast less
  have gap : (value interval.max - value interval.min) / count ≤
      (value interval.max - value interval.min) * (j / count) -
        (value interval.max - value interval.min) * (i / count) := by
    rw [← mul_sub, ← sub_div, ← mul_div_assoc]
    gcongr
    exact le_mul_of_one_le_right order.le (by linarith)
  linarith

/-- Cut into at most `2 ^ 53` parts, an interval has finite coordinates, each at least the one before it;
and greater than that when the parts are more than seven times as wide as the doubles are apart. -/
theorem coordinates_increase (interval : Interval) {count : Nat} (few : count ≤ 2 ^ 53) :
    (∀ x ∈ interval.coordinates count, x.isFinite = true) ∧
      (interval.coordinates count).Pairwise (· ≤ ·) ∧
      (7 * interval.grain < (value interval.max - value interval.min) / count →
        (interval.coordinates count).Pairwise (· < ·)) := by
  have inside {k : Nat} (member : k ∈ List.range (count + 1)) : k ≤ count := by
    rw [List.mem_range] at member
    omega
  refine ⟨?_, ?_, fun wide => ?_⟩
  · intro x member
    obtain ⟨k, range, rfl⟩ := List.mem_map.mp member
    exact (hasValue_coordinate (inside range) few).isFinite
  · rw [coordinates, List.pairwise_map]
    refine List.pairwise_lt_range.imp_of_mem fun {k l} left right less => ?_
    exact ((hasValue_coordinate (inside left) few).le_iff (hasValue_coordinate (inside right) few)).mpr
      (place_le less (inside right) few)
  · rw [coordinates, List.pairwise_map]
    refine List.pairwise_lt_range.imp_of_mem fun {k l} left right less => ?_
    exact ((hasValue_coordinate (inside left) few).lt_iff (hasValue_coordinate (inside right) few)).mpr
      (place_lt less (inside right) few wide)

/-- Quarters of the range from zero to one. -/
theorem coordinates_increase_quarters :
    ∃ interval : Interval, interval.min = 0 ∧ interval.max = 1 ∧ (interval.coordinates 4).Pairwise (· < ·) := by
  refine ⟨⟨0, 1, by decide +kernel, by decide +kernel, by decide +kernel⟩, rfl, rfl,
    (coordinates_increase _ (by norm_num)).2.2 ?_⟩
  have zero : value 0 = 0 := by exact_mod_cast (hasValue_ofNat (Nat.zero_le _)).value_eq
  have one : value 1 = 1 := by exact_mod_cast (hasValue_ofNat Nat.one_le_two_pow).value_eq
  have apart : unit 1 ≤ -52 := unit_le (by norm_num) (by norm_num)
  have small : (2 : ℚ) ^ unit 1 ≤ 2 ^ (-52 : ℤ) := zpow_le_zpow_right₀ (by norm_num) apart
  simp only [grain, outer, zero, one, abs_zero, abs_one, zero_le_one, max_eq_right]
  norm_num at small ⊢
  linarith

/-- With one part more, the last share is rounded to one and the span, rounded up, leads beyond the doubles. -/
theorem coordinate_overflows :
    ∃ interval : Interval, (interval.coordinate (2 ^ 53 + 1) (2 ^ 53)).isFinite = false :=
  ⟨⟨.ofBits 0x7ca8000000000000, .ofBits 0x7fefffffffffffff, by decide +kernel, by decide +kernel, by decide +kernel⟩,
    by decide +kernel⟩

/-- Five doubles lie from `1 - 2 ^ -52` to `1 + 2 ^ -51`, but of the coordinates that cut this range into
four parts two are the same. -/
theorem coordinates_repeat :
    ∃ interval : Interval, interval.min = .ofBits 0x3feffffffffffffe ∧ interval.max = .ofBits 0x3ff0000000000002 ∧
      (interval.coordinates 4).map Float.toBits =
        [0x3feffffffffffffe, 0x3ff0000000000000, 0x3ff0000000000000, 0x3ff0000000000001, 0x3ff0000000000002] ∧
      ¬ (interval.coordinates 4).Pairwise (· < ·) :=
  ⟨⟨.ofBits 0x3feffffffffffffe, .ofBits 0x3ff0000000000002, by decide +kernel, by decide +kernel, by decide +kernel⟩,
    rfl, rfl, by decide +kernel, by decide +kernel⟩

end

end GraphingCalculator.Interval
