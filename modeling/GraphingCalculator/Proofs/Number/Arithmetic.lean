import GraphingCalculator.Proofs.Number.Bits
import GraphingCalculator.Proofs.Number.Unpacked

/-!
Arithmetic on doubles. A finite double has a rational value (`value`); every operation on finite doubles
gives the double of the rounded result, unless that is `2 ^ 1024` or more (`HasValue.add`, `HasValue.mul`,
`HasValue.div`), and doubles are ordered as their values (`HasValue.lt_iff`).
-/

namespace GraphingCalculator.Binary64
open Float.Model Float.Model.UnpackedFloat

/-! ### Packing -/

theorem ofBitVec_toBitVec (s : Sign) : Sign.ofBitVec s.toBitVec = s := by cases s <;> rfl

theorem unpackSign_packComponents (s : Sign) (exponent : BitVec 11) (fraction : BitVec 52) :
    @unpackSign .binary64 (packComponents .binary64 s exponent fraction) = s.toBitVec := by
  simp only [unpackSign, packComponents, BitVec.extractLsb]
  rw [BitVec.extractLsb'_append_eq_of_le (by omega), BitVec.extractLsb'_append_eq_of_le (by omega)]
  cases s <;> rfl

theorem unpack_subnormal (s : Sign) {fraction : BitVec 52} (pos : 0 < fraction.toNat) :
    UnpackedFloat.unpack .binary64 (packComponents .binary64 s 0#11 fraction) =
      .finite s fraction.toNat (-1074) pos := by
  have some : fraction ≠ 0#52 := by
    rintro rfl
    exact Nat.lt_irrefl 0 pos
  simp only [UnpackedFloat.unpack, unpackMantissa_packComponents, unpackExponent_packComponents,
    unpackSign_packComponents, ofBitVec_toBitVec]
  rw [if_neg (by decide), if_pos trivial, dif_neg some]
  rfl

theorem unpack_normal (s : Sign) {exponent : BitVec 11} (finite : exponent ≠ -1#11) (normal : exponent ≠ 0#11)
    (fraction : BitVec 52) (pos : 0 < (1#1 ++ fraction).toNat) :
    UnpackedFloat.unpack .binary64 (packComponents .binary64 s exponent fraction) =
      .finite s (1#1 ++ fraction).toNat (exponent.toNat - 1075) pos := by
  simp only [UnpackedFloat.unpack, unpackMantissa_packComponents, unpackExponent_packComponents,
    unpackSign_packComponents, ofBitVec_toBitVec]
  rw [if_neg finite, if_neg normal]
  rfl

section
variable {u : UnpackedFloat} {m : Nat} {e : Int} {q : ℚ}

/-- The finite doubles end below `2 ^ 1024`. -/
theorem Canonical.lt_iff (canonical : Canonical m e) : (m : ℚ) * 2 ^ e < 2 ^ (1024 : ℤ) ↔ e ≤ 971 := by
  constructor
  · intro fits
    by_contra above
    have full : (2 : ℚ) ^ (52 : ℤ) ≤ m := by
      rcases canonical.full with bottom | full
      · omega
      · exact_mod_cast full
    refine absurd fits (not_lt.mpr ?_)
    calc (2 : ℚ) ^ (1024 : ℤ)
      _ ≤ 2 ^ (52 + e) := zpow_le_zpow_right₀ (by norm_num) (by omega)
      _ = 2 ^ (52 : ℤ) * 2 ^ e := zpow_add₀ (by norm_num) _ _
      _ ≤ m * 2 ^ e := by gcongr
  · intro le
    have digits : (m : ℚ) < 2 ^ (53 : ℤ) := by exact_mod_cast canonical.digits
    calc (m : ℚ) * 2 ^ e
      _ < 2 ^ (53 : ℤ) * 2 ^ e := by gcongr
      _ = 2 ^ (53 + e) := (zpow_add₀ (by norm_num) _ _).symm
      _ ≤ 2 ^ (1024 : ℤ) := zpow_le_zpow_right₀ (by norm_num) (by omega)

theorem abs_signed (s : Sign) (nonneg : 0 ≤ q) : |signed s q| = q := by
  cases s
  · exact (abs_neg q).trans (abs_of_nonneg nonneg)
  · exact abs_of_nonneg nonneg

/-- A double that denotes a number that fits is packed without loss. -/
theorem unpack_pack (denotes : Denotes u q) (fits : |q| < 2 ^ (1024 : ℤ)) :
    UnpackedFloat.unpack .binary64 (UnpackedFloat.pack .binary64 u) = u := by
  cases denotes with
  | zero s => cases s <;> rfl
  | @finite m e s pos canonical =>
    rw [abs_signed s (by positivity), canonical.lt_iff] at fits
    obtain ⟨digits, least, full⟩ := canonical
    rcases Nat.lt_or_ge m (2 ^ 52) with small | big
    · obtain rfl : e = -1074 := full.resolve_right (by omega)
      obtain ⟨fraction, rfl⟩ : ∃ fraction : BitVec 52, m = fraction.toNat :=
        ⟨BitVec.ofNat 52 m, (Nat.mod_eq_of_lt small).symm⟩
      rw [pack_subnormal s rfl pos, unpack_subnormal s pos]
    · obtain ⟨fraction, rfl⟩ : ∃ fraction : BitVec 52, m = (1#1 ++ fraction).toNat := by
        refine ⟨BitVec.ofNat 52 m, ?_⟩
        rw [toNat_one_append, BitVec.toNat_ofNat]
        omega
      obtain ⟨exponent, biased⟩ : ∃ exponent : BitVec 11, (exponent.toNat : Int) = e + 1075 := by
        refine ⟨BitVec.ofNat 11 (e + 1075).toNat, ?_⟩
        rw [BitVec.toNat_ofNat]
        omega
      have finite : exponent ≠ -1#11 := by
        rintro rfl
        have top : (-1#11 : BitVec 11).toNat = 2047 := rfl
        omega
      have normal : exponent ≠ 0#11 := by
        rintro rfl
        have bottom : (0#11 : BitVec 11).toNat = 0 := rfl
        omega
      obtain rfl : e = exponent.toNat - 1075 := by omega
      rw [pack_normal s finite rfl pos, unpack_normal s finite normal fraction pos]

/-- What does not fit becomes infinite. -/
theorem pack_infinite (denotes : Denotes u q) (large : 2 ^ (1024 : ℤ) ≤ |q|) :
    (UnpackedFloat.unpack .binary64 (UnpackedFloat.pack .binary64 u)).isFinite = false := by
  cases denotes with
  | zero s =>
    rw [abs_zero] at large
    exact absurd large (not_le.mpr (by positivity))
  | @finite m e s pos canonical =>
    rw [abs_signed s (by positivity), ← not_lt, canonical.lt_iff] at large
    have bias : Format.binary64.exponentBias = 1023 := rfl
    have packed : UnpackedFloat.pack .binary64 (.finite s m e pos) = packedInfinity .binary64 s := by
      simp only [UnpackedFloat.pack, bias]
      exact if_pos (by omega)
    rw [packed]
    cases s <;> rfl

/-- A finite pattern denotes a number that fits. -/
theorem denotes_unpack (bits : BitVec 64) (finite : (UnpackedFloat.unpack .binary64 bits).isFinite = true) :
    ∃ q, Denotes (UnpackedFloat.unpack .binary64 bits) q ∧ |q| < 2 ^ (1024 : ℤ) := by
  have notTop := (isFinite_unpack bits).mp finite
  rw [← packComponents_unpack bits]
  generalize @unpackExponent .binary64 bits = exponent at notTop ⊢
  generalize @unpackMantissa .binary64 bits = fraction
  generalize Sign.ofBitVec (@unpackSign .binary64 bits) = s
  have digits := fraction.isLt
  by_cases normal : exponent = 0#11
  · subst normal
    rcases Nat.eq_zero_or_pos fraction.toNat with empty | pos
    · obtain rfl : fraction = 0#52 := BitVec.eq_of_toNat_eq empty
      refine ⟨0, ?_, by rw [abs_zero]; positivity⟩
      cases s <;> exact .zero _
    · have canonical : Canonical fraction.toNat (-1074) := ⟨digits.trans (by norm_num), le_refl _, .inl rfl⟩
      rw [unpack_subnormal s pos]
      refine ⟨_, .finite s pos canonical, ?_⟩
      rw [abs_signed s (by positivity), canonical.lt_iff]
      norm_num
  · have low : exponent.toNat ≠ 0 := fun zero => normal (BitVec.eq_of_toNat_eq zero)
    have high : exponent.toNat ≠ 2047 := fun top => notTop (BitVec.eq_of_toNat_eq top)
    have inside : exponent.toNat < 2048 := exponent.isLt
    have size := toNat_one_append fraction
    have canonical : Canonical (1#1 ++ fraction).toNat (exponent.toNat - 1075) :=
      ⟨by omega, by omega, .inr (by omega)⟩
    rw [unpack_normal s notTop normal fraction (by omega)]
    refine ⟨_, .finite s (by omega) canonical, ?_⟩
    rw [abs_signed s (by positivity), canonical.lt_iff]
    omega

end

/-! ### Values -/

/-- The number that an unpacked double denotes, and zero for one that denotes none. -/
def unpackedValue : UnpackedFloat → ℚ
  | .finite s m e _ => signed s (m * 2 ^ e)
  | _ => 0

/-- The number that a finite double is. -/
def value (x : Float) : ℚ := unpackedValue (Float.Model.unpack x.toModel)

/-- The double is finite and this number. -/
structure HasValue (x : Float) (q : ℚ) : Prop where
  isFinite : x.isFinite = true
  value_eq : value x = q

section
variable {x y : Float} {u : UnpackedFloat} {p q : ℚ}

theorem Denotes.unpackedValue_eq (denotes : Denotes u q) : unpackedValue u = q := by cases denotes <;> rfl

theorem Denotes.isFinite (denotes : Denotes u q) : u.isFinite = true := by cases denotes <;> rfl

theorem hasValue (finite : x.isFinite = true) : HasValue x (value x) := ⟨finite, rfl⟩

theorem denotes_unpack_toModel (finite : x.isFinite = true) :
    Denotes (Float.Model.unpack x.toModel) (value x) ∧ |value x| < 2 ^ (1024 : ℤ) := by
  obtain ⟨q, denotes, fits⟩ := denotes_unpack x.toModel.toBits.toBitVec finite
  have same : value x = q := denotes.unpackedValue_eq
  exact same ▸ ⟨denotes, fits⟩

theorem HasValue.denotes (has : HasValue x q) : Denotes (Float.Model.unpack x.toModel) q :=
  has.value_eq ▸ (denotes_unpack_toModel has.isFinite).1

theorem HasValue.abs_lt (has : HasValue x q) : |q| < 2 ^ (1024 : ℤ) :=
  has.value_eq ▸ (denotes_unpack_toModel has.isFinite).2

theorem HasValue.isDouble (has : HasValue x q) : IsDouble q := has.denotes.isDouble

theorem HasValue.rounded_eq (has : HasValue x q) : rounded q = q := has.denotes.rounded_eq

theorem unpack_ofModel_pack (u : UnpackedFloat) :
    Float.Model.unpack (Float.ofModel (Float.Model.pack u)).toModel =
      UnpackedFloat.unpack .binary64 (UnpackedFloat.pack .binary64 u) := rfl

/-- A result that fits is the value of the double that it is packed into. -/
theorem hasValue_pack (denotes : Denotes u q) (fits : |q| < 2 ^ (1024 : ℤ)) :
    HasValue (Float.ofModel (Float.Model.pack u)) q := by
  have same := unpack_pack denotes fits
  constructor
  · show (UnpackedFloat.unpack .binary64 (UnpackedFloat.pack .binary64 u)).isFinite = true
    rw [same, denotes.isFinite]
  · rw [value, unpack_ofModel_pack, same, denotes.unpackedValue_eq]

theorem isFinite_pack_iff (denotes : Denotes u q) :
    (Float.ofModel (Float.Model.pack u)).isFinite = true ↔ |q| < 2 ^ (1024 : ℤ) := by
  refine ⟨fun finite => ?_, fun fits => (hasValue_pack denotes fits).isFinite⟩
  by_contra large
  have infinite := pack_infinite denotes (not_lt.mp large)
  exact absurd (finite.symm.trans infinite) (by decide)

/-! ### Operations -/

theorem HasValue.add (left : HasValue x p) (right : HasValue y q) (fits : |rounded (p + q)| < 2 ^ (1024 : ℤ)) :
    HasValue (x + y) (rounded (p + q)) :=
  hasValue_pack (left.denotes.add right.denotes) fits

theorem HasValue.sub (left : HasValue x p) (right : HasValue y q) (fits : |rounded (p - q)| < 2 ^ (1024 : ℤ)) :
    HasValue (x - y) (rounded (p - q)) :=
  hasValue_pack (left.denotes.sub right.denotes) fits

/-- Whether a difference overflows. -/
theorem HasValue.isFinite_sub (left : HasValue x p) (right : HasValue y q) :
    (x - y).isFinite = true ↔ |rounded (p - q)| < 2 ^ (1024 : ℤ) :=
  isFinite_pack_iff (left.denotes.sub right.denotes)

theorem HasValue.mul (left : HasValue x p) (right : HasValue y q) (fits : |rounded (p * q)| < 2 ^ (1024 : ℤ)) :
    HasValue (x * y) (rounded (p * q)) :=
  hasValue_pack (left.denotes.mul right.denotes) fits

theorem HasValue.div (left : HasValue x p) (right : HasValue y q) (nonzero : q ≠ 0)
    (fits : |rounded (p / q)| < 2 ^ (1024 : ℤ)) : HasValue (x / y) (rounded (p / q)) :=
  hasValue_pack (left.denotes.div right.denotes nonzero) fits

/-! ### Order -/

theorem HasValue.lt_iff (left : HasValue x p) (right : HasValue y q) : x < y ↔ p < q := by
  show decide (UnpackedFloat.lt _ _ = true) = true ↔ _
  rw [decide_eq_true_iff, UnpackedFloat.lt, left.denotes.compare_eq right.denotes]
  simp [compare_lt_iff_lt]

theorem HasValue.le_iff (left : HasValue x p) (right : HasValue y q) : x ≤ y ↔ p ≤ q := by
  show decide (UnpackedFloat.le _ _ = true) = true ↔ _
  rw [decide_eq_true_iff, UnpackedFloat.le, left.denotes.compare_eq right.denotes]
  exact Ordering.isLE_iff_ne_gt.trans compare_le_iff_le

/-! ### Numerals -/

/-- The double that is a power of two. -/
def powerOfTwo (k : Int) : Float := Float.ofModel (Float.Model.pack (.finite .positive (2 ^ 52) (k - 52) (by norm_num)))

theorem hasValue_powerOfTwo {k : Int} (least : -1022 ≤ k) (most : k ≤ 1023) : HasValue (powerOfTwo k) (2 ^ k) := by
  have canonical : Canonical (2 ^ 52) (k - 52) := ⟨by norm_num, by omega, .inr le_rfl⟩
  have power : ((2 ^ 52 : Nat) : ℚ) * 2 ^ (k - 52) = 2 ^ k := by
    rw [zpow_sub₀ (by norm_num)]
    push_cast
    field_simp
  have denotes := Denotes.finite .positive (by norm_num) canonical
  rw [signed, power] at denotes
  refine hasValue_pack denotes ?_
  rw [abs_of_pos (by positivity)]
  exact zpow_lt_zpow_right₀ (by norm_num) (by omega)

theorem hasValue_one : HasValue 1.0 1 := by
  have same : (1.0 : Float) = powerOfTwo 0 := by decide +kernel
  have power := hasValue_powerOfTwo (k := 0) (by norm_num) (by norm_num)
  rwa [zpow_zero, ← same] at power

theorem hasValue_toFloat {n : UInt64} (lt : n.toNat < 2 ^ 53) : HasValue n.toFloat n.toNat := by
  have digits : |(n.toNat : ℤ)| < 2 ^ 53 := by
    rw [Nat.abs_cast]
    exact_mod_cast lt
  have double : IsDouble (n.toNat : ℚ) := ⟨n.toNat, 0, digits, by norm_num, by simp⟩
  have denotes := denotes_normalize n.toNat 0 .positive
  rw [zpow_zero, mul_one, Int.cast_natCast, rounded_of_isDouble double] at denotes
  refine hasValue_pack denotes ?_
  rw [Nat.abs_cast]
  calc (n.toNat : ℚ)
    _ < 2 ^ (53 : ℤ) := by exact_mod_cast lt
    _ ≤ 2 ^ (1024 : ℤ) := zpow_le_zpow_right₀ (by norm_num) (by norm_num)

/-- The integers up to `2 ^ 53` are doubles. -/
theorem hasValue_ofNat {n : Nat} (le : n ≤ 2 ^ 53) : HasValue (Float.ofNat n) n := by
  rcases Nat.lt_or_eq_of_le le with lt | rfl
  · have scaled : Float.ofNat n = n.toUInt64.toFloat * 1.0 := by
      have one : Float.exactlyRepresentablePowersOfTen[0] = 1.0 := by decide +kernel
      show Float.ofScientific n false 0 = _
      rw [Float.ofScientific, dif_pos ⟨lt, by norm_num⟩, ← one]
      rfl
    have small : n.toUInt64.toNat = n := UInt64.toNat_ofNat_of_lt' (lt.trans (by norm_num))
    have number := hasValue_toFloat (n := n.toUInt64) (by rwa [small])
    rw [small] at number
    have same : rounded ((n : ℚ) * 1) = n := by rw [mul_one, number.rounded_eq]
    have product := number.mul hasValue_one (by rw [same]; exact number.abs_lt)
    rwa [same, ← scaled] at product
  · have same : Float.ofNat (2 ^ 53) = powerOfTwo 53 := by decide +kernel
    have power := hasValue_powerOfTwo (k := 53) (by norm_num) (by norm_num)
    rw [same]
    exact_mod_cast power

end

end GraphingCalculator.Binary64
