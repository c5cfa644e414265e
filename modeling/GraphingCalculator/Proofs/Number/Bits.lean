import GraphingCalculator.Number.Binary64
import Mathlib

/-!
Doubles and their bit patterns. A pattern that is no NaN, or the one NaN that is kept, is the pattern
of the double that it stands for (`toBits_ofBits`), and every double has such a pattern
(`ofBits_toBits`). So ranks up to infinity and the doubles without a sign correspond to each other
(`rank_ofRank`, `ofRank_rank`), and one with a sign is the negation of the one of its rank (`neg_ofRank_rank`).
-/

namespace GraphingCalculator.Binary64
open Float.Model Float.Model.UnpackedFloat

section
variable {bits : BitVec Format.binary64.numBits}

theorem toBitVec_ofBitVec (sign : BitVec 1) : (Sign.ofBitVec sign).toBitVec = sign := by
  unfold Sign.ofBitVec
  split
  case isTrue positive => exact positive.symm
  case isFalse negative =>
    show 1#1 = sign
    have bit := sign.isLt
    have set : sign.toNat ≠ 0 := fun zero => negative (BitVec.eq_of_toNat_eq zero)
    exact BitVec.eq_of_toNat_eq (by simp; omega)

theorem packComponents_unpack (bits : BitVec Format.binary64.numBits) :
    packComponents .binary64 (Sign.ofBitVec (unpackSign bits)) (unpackExponent bits) (unpackMantissa bits) = bits := by
  rw [packComponents, toBitVec_ofBitVec, unpackSign, unpackExponent, unpackMantissa]
  ext i inside
  grind [BitVec.extractLsb]

theorem pack_subnormal (sign : Sign) {fraction : BitVec 52} {e : Int} (bottom : e = -1074)
    (pos : 0 < fraction.toNat) :
    UnpackedFloat.pack .binary64 (.finite sign fraction.toNat e pos) = packComponents .binary64 sign 0#11 fraction := by
  have small : fraction.toNat.log2 < 52 := (Nat.log2_lt (Nat.ne_of_gt pos)).mpr fraction.isLt
  have biased : (e + Format.binary64.exponentBias + Format.binary64.mantissaBitsWithoutImplicit).toNat = 1 := by
    subst bottom
    decide
  simp only [UnpackedFloat.pack, biased]
  rw [if_neg (by decide), if_neg (by simp only [Format.mantissaBits]; omega), BitVec.ofNat_toNat,
    BitVec.setWidth_eq]

theorem toNat_one_append (fraction : BitVec 52) : (1#1 ++ fraction).toNat = 2 ^ 52 + fraction.toNat := by
  rw [BitVec.toNat_append, ← Nat.shiftLeft_add_eq_or_of_lt fraction.isLt]
  rfl

theorem pack_normal (sign : Sign) {exponent : BitVec 11} {fraction : BitVec 52} {e : Int}
    (finite : exponent ≠ -1#11) (unbiased : e = exponent.toNat - 1075) (pos : 0 < (1#1 ++ fraction).toNat) :
    UnpackedFloat.pack .binary64 (.finite sign (1#1 ++ fraction).toNat e pos) =
      packComponents .binary64 sign exponent fraction := by
  have value := toNat_one_append fraction
  have inside := fraction.isLt
  have length : (1#1 ++ fraction).toNat.log2 = 52 := by
    rw [value]
    exact (Nat.log2_eq_iff (by omega)).mpr ⟨by omega, by omega⟩
  have biased : (e + Format.binary64.exponentBias + Format.binary64.mantissaBitsWithoutImplicit).toNat =
      exponent.toNat := by
    subst unbiased
    simp only [Format.exponentBias]
    omega
  have notTop : exponent.toNat + 1 < 2048 := by
    have bound := exponent.isLt
    have apart : exponent.toNat ≠ 2047 := fun top => finite (BitVec.eq_of_toNat_eq top)
    omega
  simp only [UnpackedFloat.pack, biased, length]
  rw [if_neg (by omega), if_pos (by rfl), BitVec.ofNat_toNat, BitVec.setWidth_eq]
  congr 1
  apply BitVec.eq_of_toNat_eq
  rw [BitVec.toNat_ofNat, value]
  show (2 ^ 52 + fraction.toNat) % 2 ^ 52 = fraction.toNat
  omega

/-- Unpacking a valid pattern loses nothing. -/
theorem pack_unpack (valid : Format.binary64.Valid bits) :
    UnpackedFloat.pack .binary64 (UnpackedFloat.unpack .binary64 bits) = bits := by
  have whole := packComponents_unpack bits
  unfold UnpackedFloat.unpack
  dsimp only
  split
  case isTrue top =>
    split
    case isTrue empty => rwa [top, empty] at whole
    case isFalse filled => exact (valid.eq_packedNaN top filled).symm
  case isFalse finite =>
    split
    case isTrue bottom =>
      split
      case isTrue empty => rwa [bottom, empty] at whole
      case isFalse filled =>
        rw [pack_subnormal _ (by rw [bottom]; decide)]
        rwa [bottom] at whole
    case isFalse =>
      rw [pack_normal _ finite (by simp only [Format.exponentBias]; omega)]
      exact whole

end

/-! ### Doubles -/

theorem ofBits_toBits (x : Float) : Float.ofBits x.toBits = x := by
  obtain ⟨⟨bits, valid⟩⟩ := x
  have same : Float.Model.ofBits bits = ⟨bits, valid⟩ := by
    simp only [Float.Model.ofBits, Float.Model.pack, pack_unpack valid]
  exact congrArg Float.ofModel same

/-- Every pattern but that of a foreign NaN is the one of its double. -/
theorem toBits_ofBits {bits : UInt64} (valid : Format.binary64.Valid bits.toBitVec) :
    (Float.ofBits bits).toBits = bits := by
  show UInt64.ofBitVec _ = bits
  rw [pack_unpack valid]

theorem toNat_unpackExponent (bits : BitVec 64) :
    (@unpackExponent .binary64 bits).toNat = bits.toNat / binade % 2048 := by
  simp [unpackExponent, BitVec.extractLsb, BitVec.extractLsb'_toNat, Nat.shiftRight_eq_div_pow, binade]

theorem toNat_unpackMantissa (bits : BitVec 64) :
    (@unpackMantissa .binary64 bits).toNat = bits.toNat % binade := by
  simp [unpackMantissa, BitVec.extractLsb, BitVec.extractLsb'_toNat, binade]

theorem valid_of_le_infinityRank {bits : UInt64} (le : bits.toNat ≤ infinityRank) :
    Format.binary64.Valid bits.toBitVec := by
  refine ⟨fun top filled => absurd ?_ filled⟩
  have exponent := toNat_unpackExponent bits.toBitVec
  have fraction := toNat_unpackMantissa bits.toBitVec
  rw [top] at exponent
  apply BitVec.eq_of_toNat_eq
  rw [fraction]
  simp only [UInt64.toNat_toBitVec, binade, infinityRank] at *
  have ones : (-1#11).toNat = 2047 := rfl
  show bits.toNat % 0x10000000000000 = 0
  omega

theorem toNat_ofNat_of_le {r : Nat} (le : r ≤ infinityRank) : (UInt64.ofNat r).toNat = r :=
  UInt64.toNat_ofNat_of_lt' (Nat.lt_of_le_of_lt le (by decide))

theorem toBits_ofRank {r : Nat} (le : r ≤ infinityRank) : (ofRank r).toBits.toNat = r := by
  have same := toNat_ofNat_of_le le
  rw [ofRank, toBits_ofBits (valid_of_le_infinityRank (by rwa [same])), same]

theorem rank_ofRank {r : Nat} (le : r ≤ infinityRank) : rank (ofRank r) = r := by
  rw [rank, toBits_ofRank le]
  exact Nat.mod_eq_of_lt (Nat.lt_of_le_of_lt le (by decide))

theorem isNegative_ofRank {r : Nat} (le : r ≤ infinityRank) : isNegative (ofRank r) = false := by
  rw [isNegative, toBits_ofRank le]
  exact decide_eq_false (Nat.not_le_of_lt (Nat.lt_of_le_of_lt le (by decide)))

/-- A double without a sign is the one of its rank. -/
theorem ofRank_rank {x : Float} (unsigned : isNegative x = false) : ofRank (rank x) = x := by
  have small : x.toBits.toNat < signBit := Nat.lt_of_not_le (of_decide_eq_false unsigned)
  rw [rank, Nat.mod_eq_of_lt small, ofRank, UInt64.ofNat_toNat, ofBits_toBits]

/-! ### Signs -/

theorem toNat_unpackSign (bits : BitVec 64) : (@unpackSign .binary64 bits).toNat = bits.toNat / signBit := by
  have inside := bits.isLt
  simp [unpackSign, BitVec.extractLsb, BitVec.extractLsb'_toNat, Nat.shiftRight_eq_div_pow, signBit]
  omega

theorem isFinite_unpack (bits : BitVec 64) :
    (UnpackedFloat.unpack .binary64 bits).isFinite = true ↔ @unpackExponent .binary64 bits ≠ -1#11 := by
  unfold UnpackedFloat.unpack
  dsimp only
  split
  case isTrue top => split <;> simp [UnpackedFloat.isFinite, top]
  case isFalse finite =>
    refine iff_of_true ?_ finite
    split
    case isTrue => split <;> rfl
    case isFalse => rfl

/-- The finite doubles are the ones whose rank lies below infinity. -/
theorem isFinite_iff {x : Float} : x.isFinite = true ↔ rank x < infinityRank := by
  have exponent := toNat_unpackExponent x.toBits.toBitVec
  have ones : (-1#11).toNat = 2047 := rfl
  rw [show x.isFinite = (UnpackedFloat.unpack .binary64 x.toBits.toBitVec).isFinite from rfl, isFinite_unpack,
    ne_eq, ← BitVec.toNat_inj, exponent, ones]
  simp only [rank, infinityRank, binade, signBit, UInt64.toNat_toBitVec]
  have inside := x.toBits.toNat_lt
  omega

/-- What is not finite is no number or infinite. -/
theorem isFinite_eq_false_iff {x : Float} : x.isFinite = false ↔ x.isNaN = true ∨ x.isInf = true := by
  show (Float.Model.unpack x.toModel).isFinite = false ↔
    (Float.Model.unpack x.toModel).isNaN = true ∨ (Float.Model.unpack x.toModel).isInf = true
  cases Float.Model.unpack x.toModel <;> simp [UnpackedFloat.isFinite, UnpackedFloat.isNaN, UnpackedFloat.isInf]

/-- Patterns that only differ in the sign stand for a double and its negation. -/
theorem unpack_eq_neg {bits magnitude : BitVec 64} (sign : @unpackSign .binary64 bits = 1#1)
    (noSign : @unpackSign .binary64 magnitude = 0#1)
    (sameExponent : @unpackExponent .binary64 bits = @unpackExponent .binary64 magnitude)
    (sameMantissa : @unpackMantissa .binary64 bits = @unpackMantissa .binary64 magnitude) :
    UnpackedFloat.unpack .binary64 bits = (UnpackedFloat.unpack .binary64 magnitude).neg := by
  have minus : Sign.ofBitVec 1#1 = -Sign.ofBitVec 0#1 := rfl
  simp only [UnpackedFloat.unpack, sign, noSign, sameExponent, sameMantissa, minus]
  split
  case isTrue => split <;> rfl
  case isFalse =>
    split
    case isTrue => split <;> rfl
    case isFalse => rfl

/-- A double with a sign is the negation of the one of its rank. -/
theorem neg_ofRank_rank {x : Float} (negative : isNegative x) (finite : rank x < infinityRank) :
    -ofRank (rank x) = x := by
  have set : signBit ≤ x.toBits.toNat := of_decide_eq_true negative
  have inside := x.toBits.toNat_lt
  have magnitude := toBits_ofRank (Nat.le_of_lt finite)
  have split : x.toBits.toNat = signBit + rank x := by
    simp only [rank, signBit] at *
    omega
  have small : rank x < signBit := Nat.lt_trans finite (by decide)
  have negated : UnpackedFloat.unpack .binary64 x.toBits.toBitVec =
      (UnpackedFloat.unpack .binary64 (ofRank (rank x)).toBits.toBitVec).neg := by
    refine unpack_eq_neg (BitVec.eq_of_toNat_eq ?_) (BitVec.eq_of_toNat_eq ?_) (BitVec.eq_of_toNat_eq ?_)
      (BitVec.eq_of_toNat_eq ?_)
    all_goals
      simp only [toNat_unpackSign, toNat_unpackExponent, toNat_unpackMantissa, UInt64.toNat_toBitVec, magnitude]
    · show _ = 1
      simp only [signBit] at *
      omega
    · show _ = 0
      exact Nat.div_eq_of_lt small
    · simp only [signBit, binade] at *
      omega
    · simp only [signBit, binade] at *
      omega
  calc -ofRank (rank x)
    _ = Float.ofModel (Float.Model.pack
          (UnpackedFloat.unpack .binary64 (ofRank (rank x)).toBits.toBitVec).neg) := rfl
    _ = Float.ofBits x.toBits := by rw [← negated]; rfl
    _ = x := ofBits_toBits x

end GraphingCalculator.Binary64
