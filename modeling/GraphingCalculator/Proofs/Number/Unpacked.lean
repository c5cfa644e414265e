import GraphingCalculator.Proofs.Number.Rounding
import Mathlib

/-!
Arithmetic on unpacked doubles. A mantissa with its two bits for what is cut off shows where a number lies
(`Shows`), so that shifting and rounding it rounds the number (`denotes_roundWithAccuracy`). Every operation
on doubles that denote rational numbers denotes the rounded result (`Denotes.add`, `Denotes.mul`, `Denotes.div`),
and they compare as the numbers do (`Denotes.compare_eq`).
-/

namespace GraphingCalculator.Binary64
open Float.Model Float.Model.UnpackedFloat

/-! ### Cut off digits -/

/-- What a number has beyond the mantissa and the bit behind it. -/
def rest (em : ExtendedMantissa) (x : ℚ) : ℚ := x - em.mantissa - if em.roundBit then 1 / 2 else 0

/-- The mantissa and the two bits tell the whole part of a number and where it lies behind it. -/
structure Shows (em : ExtendedMantissa) (x : ℚ) : Prop where
  rest_nonneg : 0 ≤ rest em x
  rest_lt : rest em x < 1 / 2
  sticky : em.stickyBit = true ↔ 0 < rest em x

section
variable {em : ExtendedMantissa} {x : ℚ}

theorem shows_exact (m : Nat) : Shows (.ofMantissaAndAccuracy m .exact) m := by
  constructor <;> simp [rest, ExtendedMantissa.ofMantissaAndAccuracy]

theorem Shows.mantissa_le (shows : Shows em x) : em.mantissa ≤ x := by
  have nonneg := shows.rest_nonneg
  unfold rest at nonneg
  split at nonneg <;> linarith

theorem Shows.lt_mantissa_add_one (shows : Shows em x) : x < em.mantissa + 1 := by
  have lt := shows.rest_lt
  unfold rest at lt
  split at lt <;> linarith

theorem shows_below (m : Nat) (pos : 0 < x) (lt : x < 1 / 2) :
    Shows (.ofMantissaAndAccuracy m (.inexact .lt)) (m + x) := by
  have same : rest (.ofMantissaAndAccuracy m (.inexact .lt)) (m + x) = x := by
    simp [rest, ExtendedMantissa.ofMantissaAndAccuracy]
  exact ⟨same.symm ▸ pos.le, same.symm ▸ lt, same.symm ▸ iff_of_true rfl pos⟩

theorem shows_half (m : Nat) : Shows (.ofMantissaAndAccuracy m (.inexact .eq)) (m + 1 / 2) := by
  have none : rest (.ofMantissaAndAccuracy m (.inexact .eq)) (m + 1 / 2) = 0 := by
    simp [rest, ExtendedMantissa.ofMantissaAndAccuracy]
  refine ⟨none.ge, none.symm ▸ by norm_num, none.symm ▸ iff_of_false ?_ (lt_irrefl 0)⟩
  exact Bool.false_ne_true

theorem shows_above (m : Nat) (more : 1 / 2 < x) (lt : x < 1) :
    Shows (.ofMantissaAndAccuracy m (.inexact .gt)) (m + x) := by
  have left : rest (.ofMantissaAndAccuracy m (.inexact .gt)) (m + x) = x - 1 / 2 := by
    simp [rest, ExtendedMantissa.ofMantissaAndAccuracy]
  have pos : 0 < x - 1 / 2 := sub_pos.mpr more
  exact ⟨left.symm ▸ pos.le, by rw [left]; linarith, left.symm ▸ iff_of_true rfl pos⟩

/-- A quotient of integers with what remains of the division. -/
theorem shows_fraction (m : Nat) {d : Nat} (pos : 0 < d) :
    Shows (.ofMantissaAndAccuracy (m / d) (accuracyOfFraction (m % d) d)) (m / d) := by
  have positive : (0 : ℚ) < d := by exact_mod_cast pos
  have whole : (m : ℚ) / d = (m / d : Nat) + (m % d : Nat) / d := by
    have split : (m : ℚ) = d * (m / d : Nat) + (m % d : Nat) := by exact_mod_cast (Nat.div_add_mod m d).symm
    field_simp
    linarith
  have below : ((m % d : Nat) : ℚ) < d := by exact_mod_cast Nat.mod_lt m pos
  generalize (m % d : Nat) = r at whole below ⊢
  rw [whole]
  unfold accuracyOfFraction
  split
  case isTrue none =>
    rw [none, Nat.cast_zero, zero_div, add_zero]
    exact shows_exact _
  case isFalse some =>
    have rPos : (0 : ℚ) < r := by exact_mod_cast Nat.pos_of_ne_zero some
    rcases order : compare (2 * r) d with _ | _ | _
    · have less : (2 * r : ℚ) < d := by exact_mod_cast Nat.compare_eq_lt.mp order
      refine shows_below _ (div_pos rPos positive) ?_
      rw [div_lt_div_iff₀ positive (by norm_num)]
      linarith
    · have same : (2 * r : ℚ) = d := by exact_mod_cast Nat.compare_eq_eq.mp order
      have half : (r : ℚ) / d = 1 / 2 := by
        rw [div_eq_div_iff positive.ne' (by norm_num)]
        linarith
      rw [half]
      exact shows_half _
    · have more : (d : ℚ) < 2 * r := by exact_mod_cast Nat.compare_eq_gt.mp order
      refine shows_above _ ?_ ((div_lt_one positive).mpr below)
      rw [div_lt_div_iff₀ (by norm_num) positive]
      linarith

theorem Shows.shiftRightOne (shows : Shows em x) : Shows em.shiftRightOne (x / 2) := by
  obtain ⟨nonneg, lt, sticky⟩ := shows
  have split : (em.mantissa : ℚ) = 2 * (em.mantissa / 2 : Nat) + (em.mantissa % 2 : Nat) := by
    exact_mod_cast (Nat.div_add_mod _ 2).symm
  -- the bit behind the point goes to the rest, the last digit takes its place
  have moved : rest em.shiftRightOne (x / 2) = (rest em x + if em.roundBit then 1 / 2 else 0) / 2 := by
    rcases Nat.mod_two_eq_zero_or_one em.mantissa with last | last
    all_goals
      simp only [rest, ExtendedMantissa.shiftRightOne, last]
      rw [split, last]
      norm_num
      ring
  have bit : em.shiftRightOne.stickyBit = (em.roundBit || em.stickyBit) := rfl
  rcases set : em.roundBit with _ | _
  · simp only [set, Bool.false_eq_true, if_false, add_zero] at moved
    constructor
    · rw [moved]; linarith
    · rw [moved]; linarith
    · rw [bit, set, Bool.false_or, sticky, moved]
      constructor <;> intro <;> linarith
  · simp only [set, if_true] at moved
    constructor
    · rw [moved]; linarith
    · rw [moved]; linarith
    · rw [bit, set, Bool.true_or, moved]
      exact iff_of_true rfl (by linarith)

theorem Shows.shiftRight (shows : Shows em x) (n : Nat) : Shows (em >>> n) (x / 2 ^ n) := by
  show Shows (n.repeat ExtendedMantissa.shiftRightOne em) _
  induction n with
  | zero => simpa [Nat.repeat] using shows
  | succ n ih =>
    rw [Nat.repeat, pow_succ, ← div_div]
    exact ih.shiftRightOne

/-- The two bits are enough to round. -/
theorem Shows.roundedMantissa_eq (shows : Shows em x) : (em.roundedMantissa : ℤ) = halfEven x := by
  obtain ⟨nonneg, lt, sticky⟩ := shows
  obtain ⟨m, half, more⟩ := em
  symm
  rcases half with _ | _ <;> rcases more with _ | _
  all_goals
    simp only [rest, ExtendedMantissa.roundedMantissa, ExtendedMantissa.accuracy, Accuracy.roundToNearestEven,
      Bool.false_eq_true, false_iff, true_iff, not_lt, if_true, if_false] at *
  · exact halfEven_eq_of_lt (by rw [abs_lt]; push_cast; constructor <;> linarith)
  · exact halfEven_eq_of_lt (by rw [abs_lt]; push_cast; constructor <;> linarith)
  · -- just in the middle, where the last digit decides
    have middle : x = m + 1 / 2 := by linarith
    rcases Nat.even_or_odd m with even | odd
    · rw [Nat.even_iff.mp even, middle]
      refine halfEven_eq ?_ fun _ => by exact_mod_cast even
      rw [abs_le]
      push_cast
      constructor <;> linarith
    · rw [Nat.odd_iff.mp odd, middle]
      refine halfEven_eq ?_ fun _ => by exact_mod_cast odd.add_one
      rw [abs_le]
      push_cast
      constructor <;> linarith
  · exact halfEven_eq_of_lt (by rw [abs_lt]; push_cast; constructor <;> linarith)

end

/-! ### Rounding -/

/-- Mantissa and exponent as a double has them: with all its digits, unless its exponent is the least. -/
structure Canonical (m : Nat) (e : Int) : Prop where
  digits : m < 2 ^ 53
  least : -1074 ≤ e
  full : e = -1074 ∨ 2 ^ 52 ≤ m

/-- A number under a sign. -/
def signed : Sign → ℚ → ℚ
  | .negative, q => -q
  | .positive, q => q

/-- The numbers that unpacked doubles denote. There is no largest one before they are packed. -/
inductive Denotes : UnpackedFloat → ℚ → Prop where
  | zero (s : Sign) : Denotes (.zero s) 0
  | finite {m : Nat} {e : Int} (s : Sign) (pos : 0 < m) (canonical : Canonical m e) :
    Denotes (.finite s m e pos) (signed s (m * 2 ^ e))

section
variable {m : Nat} {e : Int} {s : Sign} {q : ℚ}

theorem signed_zero (s : Sign) : signed s 0 = 0 := by cases s <;> simp [signed]

theorem rounded_signed (s : Sign) (q : ℚ) : rounded (signed s q) = signed s (rounded q) := by
  cases s
  · exact rounded_neg q
  · rfl

/-- The exponent that a mantissa is shifted to. -/
def target (m : Nat) (e : Int) : Int := max (m.log2 + e - 52) (-1074)

theorem targetExponent_eq (m : Nat) (e : Int) : Format.binary64.targetExponent (totalExponent m e) = target m e := by
  have least : Format.binary64.minExponent = -1074 := rfl
  simp only [Format.targetExponent, totalExponent, least, target, Format.mantissaBits]
  omega

theorem log2_le_cast (pos : 0 < m) : (2 : ℚ) ^ m.log2 ≤ m := by
  exact_mod_cast Nat.log2_self_le pos.ne'

theorem cast_lt_log2 (m : Nat) : (m : ℚ) + 1 ≤ 2 ^ (m.log2 + 1) := by
  exact_mod_cast Nat.lt_log2_self

/-- The exponent that is aimed at is the one of the unit. -/
theorem target_eq_unit {accuracy : Accuracy} (shows : Shows (.ofMantissaAndAccuracy m accuracy) (q / 2 ^ e))
    (low : e ≤ -1074 ∨ 2 ^ 52 ≤ m) (nonneg : 0 ≤ q) : target m e = unit q := by
  have mantissa : (ExtendedMantissa.ofMantissaAndAccuracy m accuracy).mantissa = m := by
    unfold ExtendedMantissa.ofMantissaAndAccuracy
    split <;> rfl
  have upper := shows.lt_mantissa_add_one
  have lower := shows.mantissa_le
  have positive : (0 : ℚ) < 2 ^ e := by positivity
  rw [mantissa, div_lt_iff₀ positive] at upper
  rw [mantissa, le_div_iff₀ positive] at lower
  symm
  refine unit_eq ?_ (le_max_right _ _) ?_
  · rw [abs_of_nonneg nonneg]
    calc q
      _ < (m + 1) * 2 ^ e := upper
      _ ≤ 2 ^ (m.log2 + 1) * 2 ^ e := by gcongr; exact cast_lt_log2 m
      _ = 2 ^ ((m.log2 : ℤ) + 1 + e) := by rw [zpow_add₀ (by norm_num)]; norm_cast
      _ ≤ 2 ^ (target m e + 53) := zpow_le_zpow_right₀ (by norm_num) (by unfold target; omega)
  · by_cases bottom : target m e = -1074
    · exact .inl bottom
    · right
      have exponent : target m e + 52 = m.log2 + e := by unfold target at *; omega
      have pos : 0 < m := by
        rcases Nat.eq_zero_or_pos m with rfl | pos
        · simp [target] at exponent bottom
          omega
        · exact pos
      rw [abs_of_nonneg nonneg, exponent, zpow_add₀ (by norm_num)]
      refine le_trans ?_ lower
      gcongr
      exact_mod_cast log2_le_cast pos

theorem shiftToExponent_snd (accuracy : Accuracy) {t : Int} (le : e ≤ t) : (shiftToExponent m e accuracy t).2 = t := by
  simp only [shiftToExponent]
  omega

theorem Shows.shiftToExponent {accuracy : Accuracy} (shows : Shows (.ofMantissaAndAccuracy m accuracy) (q / 2 ^ e))
    {t : Int} (le : e ≤ t) : Shows (shiftToExponent m e accuracy t).1 (q / 2 ^ t) := by
  have shift : ((t - e).toNat : Int) = t - e := Int.toNat_of_nonneg (by omega)
  have shifted := shows.shiftRight (t - e).toNat
  rwa [div_div, ← zpow_natCast, ← zpow_add₀ (by norm_num), shift, add_sub_cancel] at shifted

/-- A second shift takes back the digit that a carry has added. -/
theorem denotes_shifted (s : Sign) (inside : m ≤ 2 ^ 53) (least : -1074 ≤ e) (full : e = -1074 ∨ 2 ^ 52 ≤ m) :
    Denotes
      (if zero : (shiftToTargetExponent .binary64 m e .exact).1.mantissa = 0 then .zero s
      else .finite s _ (shiftToTargetExponent .binary64 m e .exact).2 (Nat.pos_of_ne_zero zero))
      (signed s (m * 2 ^ e)) := by
  simp only [shiftToTargetExponent, targetExponent_eq]
  rcases Nat.lt_or_eq_of_le inside with digits | rfl
  · have stays : target m e ≤ e := by
      have length : m.log2 < 53 := by
        rcases Nat.eq_zero_or_pos m with rfl | pos
        · decide
        · exact (Nat.log2_lt pos.ne').mpr digits
      unfold target
      omega
    have none : (target m e - e).toNat = 0 := by omega
    have same : shiftToExponent m e .exact (target m e) = (.ofMantissaAndAccuracy m .exact, e) := by
      simp only [shiftToExponent, none]
      simp [HShiftRight.hShiftRight, Nat.repeat]
    simp only [same]
    split
    case isTrue zero =>
      rw [show m = 0 from zero, Nat.cast_zero, zero_mul, signed_zero]
      exact .zero s
    case isFalse pos => exact .finite s (Nat.pos_of_ne_zero pos) ⟨digits, least, full⟩
  · have next : target (2 ^ 53) e = e + 1 := by
      rw [target, Nat.log2_two_pow]
      omega
    have one : (e + 1 - e).toNat = 1 := by omega
    have half : shiftToExponent (2 ^ 53) e .exact (target (2 ^ 53) e) = (⟨2 ^ 52, false, false⟩, e + 1) := by
      simp only [shiftToExponent, next, one]
      rfl
    have value : ((2 ^ 53 : Nat) : ℚ) * 2 ^ e = (2 ^ 52 : Nat) * 2 ^ (e + 1) := by
      rw [zpow_add₀ (by norm_num)]
      push_cast
      ring
    simp only [half, value]
    exact .finite s (by norm_num) ⟨by norm_num, by omega, .inr le_rfl⟩

/-- Rounding a mantissa rounds the number that it shows. -/
theorem denotes_roundWithAccuracy (s : Sign) {accuracy : Accuracy}
    (shows : Shows (.ofMantissaAndAccuracy m accuracy) (q / 2 ^ e)) (low : e ≤ -1074 ∨ 2 ^ 52 ≤ m) (nonneg : 0 ≤ q) :
    Denotes (roundWithAccuracy .binary64 s m e accuracy) (signed s (rounded q)) := by
  have aim := target_eq_unit shows low nonneg
  have le : e ≤ target m e := by
    rcases low with bottom | full
    · exact bottom.trans (le_max_right _ _)
    · have length : 52 ≤ m.log2 := (Nat.le_log2 (by omega)).mpr full
      exact le_trans (by omega) (le_max_left _ _)
  have exponent := shiftToExponent_snd (m := m) accuracy le
  have first : shiftToTargetExponent .binary64 m e accuracy = shiftToExponent m e accuracy (target m e) := by
    rw [shiftToTargetExponent, targetExponent_eq]
  have digits := (shows.shiftToExponent le).roundedMantissa_eq
  rw [aim] at digits exponent
  have value : rounded q = (shiftToExponent m e accuracy (unit q)).1.roundedMantissa * 2 ^ unit q := by
    rw [rounded, ← digits]
    norm_cast
  simp only [roundWithAccuracy, first, aim, exponent]
  rw [value]
  refine denotes_shifted s ?_ (least_le_unit q) ?_
  · have bound := abs_halfEven_unit_le q
    rw [← digits, Nat.abs_cast] at bound
    exact_mod_cast bound
  · refine or_iff_not_imp_left.mpr fun above => ?_
    have bound := zpow_le_rounded nonneg (lt_of_le_of_ne (least_le_unit q) (Ne.symm above))
    rw [value, add_comm, zpow_add₀ (by norm_num), mul_le_mul_iff_left₀ (by positivity)] at bound
    exact_mod_cast bound

theorem decreaseExponent_snd (m : Nat) {t : Int} (le : t ≤ e) : (decreaseExponent m e t).2 = t := by
  simp only [decreaseExponent]
  omega

theorem decreaseExponent_fst (m : Nat) {t : Int} (le : t ≤ e) :
    ((decreaseExponent m e t).1 : ℚ) * 2 ^ t = m * 2 ^ e := by
  have shift : ((e - t).toNat : Int) = e - t := Int.toNat_of_nonneg (by omega)
  simp only [decreaseExponent, Nat.shiftLeft_eq]
  push_cast
  rw [mul_assoc, ← zpow_natCast, ← zpow_add₀ (by norm_num), shift, sub_add_cancel]

theorem denotes_round (s : Sign) (pos : 0 < m) (e : Int) :
    Denotes (UnpackedFloat.round .binary64 s m e) (signed s (rounded (m * 2 ^ e))) := by
  simp only [UnpackedFloat.round, targetExponent_eq]
  have nonneg : (0 : ℚ) ≤ m * 2 ^ e := by positivity
  rcases le_or_gt e (target m e) with le | less
  · have none : (e - target m e).toNat = 0 := by omega
    have same : decreaseExponent m e (target m e) = (m, e) := by simp [decreaseExponent, none]
    rw [same]
    refine denotes_roundWithAccuracy s ?_ ?_ nonneg
    · rw [mul_div_cancel_right₀ _ (by positivity)]
      exact shows_exact m
    · refine (le_or_gt e (-1074)).imp id fun above => ?_
      exact (Nat.le_log2 pos.ne').mp (by unfold target at le; omega)
  · have exponent := decreaseExponent_snd m less.le
    have value := decreaseExponent_fst m less.le
    have aim : target m e = -1074 ∨ ((e - target m e).toNat + m.log2 = 52) := by unfold target at *; omega
    simp only [exponent]
    refine denotes_roundWithAccuracy s ?_ (aim.imp (fun bottom => bottom.le) fun length => ?_) nonneg
    · rw [← value, mul_div_cancel_right₀ _ (by positivity)]
      exact shows_exact _
    · calc 2 ^ 52
        _ = 2 ^ m.log2 * 2 ^ (e - target m e).toNat := by rw [← pow_add, add_comm, length]
        _ ≤ m * 2 ^ (e - target m e).toNat := Nat.mul_le_mul_right _ (Nat.log2_self_le pos.ne')
        _ = (decreaseExponent m e (target m e)).1 := (Nat.shiftLeft_eq _ _).symm

theorem denotes_normalize (m : Int) (e : Int) (zeroSign : Sign) :
    Denotes (UnpackedFloat.normalize .binary64 m e zeroSign) (rounded (m * 2 ^ e)) := by
  unfold UnpackedFloat.normalize
  rcases lt_trichotomy m 0 with neg | rfl | pos
  · have size : (((-m).toNat : Nat) : ℚ) = -m := by
      have cast : (((-m).toNat : Nat) : Int) = -m := Int.toNat_of_nonneg (by omega)
      exact_mod_cast cast
    have denotes := denotes_round .negative (show 0 < (-m).toNat by omega) e
    rw [size, neg_mul, rounded_neg, signed, neg_neg] at denotes
    rwa [Int.compare_eq_lt.mpr neg]
  · rw [Int.cast_zero, zero_mul, rounded_zero]
    exact .zero zeroSign
  · have size : ((m.toNat : Nat) : ℚ) = m := by
      have cast : ((m.toNat : Nat) : Int) = m := Int.toNat_of_nonneg pos.le
      exact_mod_cast cast
    have denotes := denotes_round .positive (show 0 < m.toNat by omega) e
    rw [size] at denotes
    rwa [Int.compare_eq_gt.mpr pos]

end

/-! ### Operations -/

section
variable {u v : UnpackedFloat} {p q : ℚ}

theorem Denotes.isDouble (denotes : Denotes u q) : IsDouble q := by
  cases denotes with
  | zero s => exact ⟨0, 0, by norm_num, by norm_num, by simp⟩
  | @finite m e s pos canonical =>
    have double : IsDouble ((m : ℚ) * 2 ^ e) :=
      ⟨m, e, by rw [Nat.abs_cast]; exact_mod_cast canonical.digits, canonical.least, by push_cast; rfl⟩
    cases s
    · exact isDouble_neg double
    · exact double

theorem Denotes.rounded_eq (denotes : Denotes u q) : rounded q = q := rounded_of_isDouble denotes.isDouble

theorem Denotes.neg (denotes : Denotes u q) : Denotes u.neg (-q) := by
  cases denotes with
  | zero s => rw [neg_zero]; exact .zero _
  | @finite m e s pos canonical =>
    have flipped : -signed s (m * 2 ^ e) = signed (-s) (m * 2 ^ e) := by
      cases s
      · exact neg_neg _
      · rfl
    rw [flipped]
    exact .finite (-s) pos canonical

theorem signed_decreaseExponent (s : Sign) (m : Nat) {e t : Int} (le : t ≤ e) :
    ((s.apply (decreaseExponent m e t).1 : Int) : ℚ) * 2 ^ t = signed s (m * 2 ^ e) := by
  rw [← decreaseExponent_fst m le]
  cases s
  · simp [Sign.apply, signed]
  · simp [Sign.apply, signed]

theorem Denotes.add (left : Denotes u p) (right : Denotes v q) :
    Denotes (UnpackedFloat.add .binary64 u v) (rounded (p + q)) := by
  cases left with
  | zero s =>
    rw [zero_add, right.rounded_eq]
    cases right with
    | zero s' =>
      simp only [UnpackedFloat.add]
      split <;> exact .zero _
    | finite s' pos canonical => exact .finite s' pos canonical
  | @finite m e s pos canonical =>
    cases right with
    | zero s' =>
      rw [add_zero, (Denotes.finite s pos canonical).rounded_eq]
      exact .finite s pos canonical
    | @finite m' e' s' pos' canonical' =>
      have sum := denotes_normalize (s.apply (decreaseExponent m e (min e e')).1 +
        s'.apply (decreaseExponent m' e' (min e e')).1) (min e e') .positive
      rw [Int.cast_add, add_mul, signed_decreaseExponent s m (min_le_left _ _),
        signed_decreaseExponent s' m' (min_le_right _ _)] at sum
      exact sum

/-- Subtracting is adding the negation, for every pair of doubles. -/
theorem sub_eq_add (u v : UnpackedFloat) :
    UnpackedFloat.sub .binary64 u v = UnpackedFloat.add .binary64 u v.neg := by
  cases u <;> cases v <;> try rfl
  case finite.finite s m e pos s' m' e' pos' =>
    have flipped (n : Int) : (-s').apply n = -s'.apply n := by
      cases s'
      · exact (neg_neg n).symm
      · rfl
    simp only [UnpackedFloat.sub, UnpackedFloat.add, UnpackedFloat.neg, flipped, Int.sub_eq_add_neg]

theorem Denotes.sub (left : Denotes u p) (right : Denotes v q) :
    Denotes (UnpackedFloat.sub .binary64 u v) (rounded (p - q)) := by
  rw [sub_eq_add, sub_eq_add_neg]
  exact left.add right.neg

theorem signed_mul (s s' : Sign) (p q : ℚ) : signed (s * s') (p * q) = signed s p * signed s' q := by
  cases s <;> cases s'
  · exact (neg_mul_neg p q).symm
  · exact (neg_mul p q).symm
  · exact (mul_neg p q).symm
  · rfl

theorem Denotes.mul (left : Denotes u p) (right : Denotes v q) :
    Denotes (UnpackedFloat.mul .binary64 u v) (rounded (p * q)) := by
  cases left with
  | zero s =>
    rw [zero_mul, rounded_zero]
    cases right <;> exact .zero _
  | @finite m e s pos canonical =>
    cases right with
    | zero s' =>
      rw [mul_zero, rounded_zero]
      exact .zero _
    | @finite m' e' s' pos' canonical' =>
      have value : (m : ℚ) * 2 ^ e * (m' * 2 ^ e') = (m * m' : Nat) * 2 ^ (e + e') := by
        rw [zpow_add₀ (by norm_num)]
        push_cast
        ring
      rw [← signed_mul, rounded_signed]
      refine denotes_roundWithAccuracy (s * s') ?_ ?_ (by positivity)
      · rw [value, mul_div_cancel_right₀ _ (by positivity)]
        exact shows_exact _
      · have low := canonical.least
        have low' := canonical'.least
        rcases canonical.full with bottom | full
        · rcases canonical'.full with bottom' | full'
          · left; omega
          · exact .inr (full'.trans (Nat.le_mul_of_pos_left _ pos))
        · exact .inr (full.trans (Nat.le_mul_of_pos_right _ pos'))

theorem signed_div (s s' : Sign) (p q : ℚ) : signed (s / s') (p / q) = signed s p / signed s' q := by
  cases s <;> cases s'
  · exact (neg_div_neg_eq p q).symm
  · exact (neg_div q p).symm
  · exact (div_neg p).symm
  · rfl

/-- The quotient has all its digits, unless it reaches down to the least unit. -/
theorem divCore_low {m m' : Nat} {e e' : Int} (pos : 0 < m) (pos' : 0 < m') :
    (divCore .binary64 m e m' e').2.1 ≤ -1074 ∨ 2 ^ 52 ≤ (divCore .binary64 m e m' e').1 := by
  have least : Format.binary64.minExponent = -1074 := rfl
  simp only [divCore, totalExponent, Format.targetExponent, Format.mantissaBits, least]
  refine or_iff_not_imp_left.mpr fun above => ?_
  generalize aim : min (e - e') (max (m.log2 + 1 + e - (m'.log2 + 1 + e') - (1 + 52 : Nat)) (-1074)) = t at *
  have length : m'.log2 + 1 + 52 ≤ m.log2 + (e - e' - t).toNat := by omega
  rw [Nat.le_div_iff_mul_le pos', Nat.shiftLeft_eq]
  calc 2 ^ 52 * m'
    _ ≤ 2 ^ 52 * 2 ^ (m'.log2 + 1) := Nat.mul_le_mul_left _ Nat.lt_log2_self.le
    _ = 2 ^ (m'.log2 + 1 + 52) := by rw [← pow_add, add_comm]
    _ ≤ 2 ^ (m.log2 + (e - e' - t).toNat) := Nat.pow_le_pow_right (by norm_num) length
    _ = 2 ^ m.log2 * 2 ^ (e - e' - t).toNat := pow_add _ _ _
    _ ≤ m * 2 ^ (e - e' - t).toNat := Nat.mul_le_mul_right _ (Nat.log2_self_le pos.ne')

theorem shows_divCore {m m' : Nat} {e e' : Int} (pos' : 0 < m') :
    Shows (.ofMantissaAndAccuracy (divCore .binary64 m e m' e').1 (divCore .binary64 m e m' e').2.2)
      (m * 2 ^ e / (m' * 2 ^ e') / 2 ^ (divCore .binary64 m e m' e').2.1) := by
  have fraction := shows_fraction (m <<< (e - e' - (divCore .binary64 m e m' e').2.1).toNat) pos'
  have le : (divCore .binary64 m e m' e').2.1 ≤ e - e' := min_le_left _ _
  have shift : ((e - e' - (divCore .binary64 m e m' e').2.1).toNat : Int) = e - e' - (divCore .binary64 m e m' e').2.1 :=
    Int.toNat_of_nonneg (by omega)
  have value : (m : ℚ) * 2 ^ e / (m' * 2 ^ e') / 2 ^ (divCore .binary64 m e m' e').2.1 =
      (m <<< (e - e' - (divCore .binary64 m e m' e').2.1).toNat : Nat) / m' := by
    rw [Nat.shiftLeft_eq]
    push_cast
    rw [← zpow_natCast, shift, zpow_sub₀ (by norm_num), zpow_sub₀ (by norm_num)]
    field_simp
  rw [value]
  exact fraction

theorem Denotes.div (left : Denotes u p) (right : Denotes v q) (nonzero : q ≠ 0) :
    Denotes (UnpackedFloat.div .binary64 u v) (rounded (p / q)) := by
  cases right with
  | zero s' => exact absurd rfl nonzero
  | @finite m' e' s' pos' canonical' =>
    cases left with
    | zero s =>
      rw [zero_div, rounded_zero]
      exact .zero _
    | @finite m e s pos canonical =>
      rw [← signed_div, rounded_signed]
      exact denotes_roundWithAccuracy (s / s') (shows_divCore pos') (divCore_low pos pos') (by positivity)

/-! ### Order -/

theorem Canonical.lt {m m' : Nat} {e e' : Int} (left : Canonical m e) (right : Canonical m' e') (less : e < e') :
    (m : ℚ) * 2 ^ e < m' * 2 ^ e' := by
  have least := left.least
  have full : (2 : ℚ) ^ 52 ≤ m' := by
    rcases right.full with bottom | full
    · omega
    · exact_mod_cast full
  have digits : (m : ℚ) < 2 ^ 53 := by exact_mod_cast left.digits
  calc (m : ℚ) * 2 ^ e
    _ < 2 ^ 53 * 2 ^ e := by gcongr
    _ = 2 ^ 52 * 2 ^ (e + 1) := by rw [zpow_add₀ (by norm_num)]; ring
    _ ≤ 2 ^ 52 * 2 ^ e' := by gcongr <;> [norm_num; omega]
    _ ≤ m' * 2 ^ e' := by gcongr

/-- The exponents decide, and among equal ones the mantissas. -/
theorem Canonical.compare_eq {m m' : Nat} {e e' : Int} (left : Canonical m e) (right : Canonical m' e') :
    (compare e e').then (compare m m') = compare ((m : ℚ) * 2 ^ e) (m' * 2 ^ e') := by
  rcases lt_trichotomy e e' with less | rfl | more
  · rw [compare_lt_iff_lt.mpr less, compare_lt_iff_lt.mpr (left.lt right less)]
    rfl
  · rw [compare_eq_iff_eq.mpr rfl, Ordering.eq_then]
    rcases lt_trichotomy m m' with less | rfl | more
    · rw [compare_lt_iff_lt.mpr less, compare_lt_iff_lt.mpr (by gcongr)]
    · rw [compare_eq_iff_eq.mpr rfl, compare_eq_iff_eq.mpr rfl]
    · rw [compare_gt_iff_gt.mpr more, compare_gt_iff_gt.mpr (by gcongr)]
  · rw [compare_gt_iff_gt.mpr more, compare_gt_iff_gt.mpr (right.lt left more)]
    rfl

theorem compare_neg_neg (p q : ℚ) : compare (-p) (-q) = (compare p q).swap := by
  rcases lt_trichotomy p q with less | rfl | more
  · rw [compare_lt_iff_lt.mpr less, compare_gt_iff_gt.mpr (neg_lt_neg less)]
    rfl
  · rw [compare_eq_iff_eq.mpr rfl, compare_eq_iff_eq.mpr rfl]
    rfl
  · rw [compare_gt_iff_gt.mpr more, compare_lt_iff_lt.mpr (neg_lt_neg more)]
    rfl

/-- Doubles compare as the numbers that they denote. -/
theorem Denotes.compare_eq (left : Denotes u p) (right : Denotes v q) :
    UnpackedFloat.compare u v = some (compare p q) := by
  cases left with
  | zero s =>
    cases right with
    | zero s' => rfl
    | @finite m' e' s' pos' canonical' =>
      have positive : (0 : ℚ) < m' * 2 ^ e' := by positivity
      cases s'
      · exact congrArg some (compare_gt_iff_gt.mpr (neg_neg_of_pos positive)).symm
      · exact congrArg some (compare_lt_iff_lt.mpr positive).symm
  | @finite m e s pos canonical =>
    have positive : (0 : ℚ) < m * 2 ^ e := by positivity
    cases right with
    | zero s' =>
      cases s
      · exact congrArg some (compare_lt_iff_lt.mpr (neg_neg_of_pos positive)).symm
      · exact congrArg some (compare_gt_iff_gt.mpr positive).symm
    | @finite m' e' s' pos' canonical' =>
      have positive' : (0 : ℚ) < m' * 2 ^ e' := by positivity
      have magnitudes := canonical.compare_eq canonical'
      cases s <;> cases s'
      · rw [signed, signed, compare_neg_neg, ← magnitudes]
        rfl
      · exact congrArg some (compare_lt_iff_lt.mpr ((neg_neg_of_pos positive).trans positive')).symm
      · exact congrArg some (compare_gt_iff_gt.mpr ((neg_neg_of_pos positive').trans positive)).symm
      · rw [signed, signed, ← magnitudes]
        rfl

end

end GraphingCalculator.Binary64
