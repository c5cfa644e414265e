import GraphingCalculator.Number.Shortest

/-!
A double that is written as a decimal reads back as the same double.

Rounding does nothing to a value that a rank has exactly (`Binary64.nearestRank_of_exact`), so the
decimal without any rounding reads back (`Shortest.rank_unrounded`), and the shorter ones are only
taken when they do (`Shortest.rank_ofRank`). No exponent that is written is cut off when it is read
(`Shortest.exponent_ofRank_le`).
-/

namespace GraphingCalculator

namespace Binary64
variable {rank num den : Nat}

theorem roundedDiv_mul (quotient : Nat) (pos : 0 < den) : roundedDiv (quotient * den) den = quotient := by
  simp [roundedDiv, Nat.mul_div_cancel quotient pos, pos]

theorem significand_pos (pos : 0 < rank) : 0 < significand rank := by
  unfold significand binade
  split <;> omega

/-- Counted in the doubles between powers of two, a rank is its significand and the powers below it. -/
theorem binades_add_significand (rank : Nat) : (rank / binade - 1) * binade + significand rank = rank := by
  unfold significand binade
  split <;> omega

/-- The bits of a scaled value that its significand does not hold. -/
theorem log2_scaled (rank : Nat) : (scaled rank).log2 - 52 = rank / binade - 1 := by
  by_cases subnormal : rank < binade
  · have whole : scaled rank = rank := by
      rw [scaled, significand, if_pos subnormal, Nat.div_eq_of_lt subnormal]
      rfl
    rw [whole, Nat.div_eq_of_lt subnormal]
    by_cases zero : rank = 0
    · subst zero
      rfl
    · have small : rank.log2 < 52 := (Nat.log2_lt zero).mpr subnormal
      omega
  · have normal : scaled rank = (binade + rank % binade) * 2 ^ (rank / binade - 1) := by
      rw [scaled, significand, if_neg subnormal, Nat.shiftLeft_eq]
    have inside := Nat.mod_lt rank (show 0 < binade by decide)
    have length : (scaled rank).log2 = 52 + (rank / binade - 1) := by
      rw [normal]
      refine (Nat.log2_eq_iff ?_).mpr ⟨?_, ?_⟩
      · exact Nat.ne_of_gt (Nat.mul_pos (by unfold binade; omega) (Nat.two_pow_pos _))
      · rw [Nat.pow_add]
        exact Nat.mul_le_mul_right _ (Nat.le_add_right binade _)
      · rw [Nat.add_right_comm, Nat.pow_add]
        refine Nat.mul_lt_mul_of_pos_right ?_ (Nat.two_pow_pos _)
        unfold binade at *
        omega
    omega

theorem nearestRank_of_exact (le : rank ≤ infinityRank) (pos : 0 < den)
    (exact : num <<< 1074 = scaled rank * den) : nearestRank num den = rank := by
  -- the quotient has exactly as many bits as the significand and the powers below it, so nothing is cut off
  have quotient : num <<< 1074 / den = scaled rank := by rw [exact, Nat.mul_div_cancel _ pos]
  have rounded : roundedDiv (num <<< 1074) (den <<< (rank / binade - 1)) = significand rank := by
    have split : num <<< 1074 = significand rank * (den <<< (rank / binade - 1)) := by
      rw [exact, scaled, Nat.shiftLeft_eq, Nat.shiftLeft_eq, Nat.mul_assoc, Nat.mul_comm (2 ^ _)]
    rw [split]
    exact roundedDiv_mul _ (by rw [Nat.shiftLeft_eq]; exact Nat.mul_pos pos (Nat.two_pow_pos _))
  rw [nearestRank, quotient, log2_scaled, rounded, binades_add_significand]
  exact Nat.min_eq_left le

theorem nearestRank_le : nearestRank num den ≤ infinityRank := Nat.min_le_right _ _

end Binary64

namespace Decimal
open Binary64

theorem rank_le (d : Decimal) : d.rank ≤ infinityRank := by
  unfold rank
  dsimp only
  split <;> exact nearestRank_le

/-- A power of ten that is neither too great nor too small is not cut off. -/
theorem rank_of_negative (coefficient : Nat) {exponent : Nat} (pos : 0 < exponent)
    (within : exponent ≤ coefficient.log2 / 3 + 332) :
    rank ⟨coefficient, -exponent⟩ = nearestRank coefficient (Nat.pow 10 exponent) := by
  have kept : max (leastExponent coefficient) (min (-exponent : Int) greatestExponent) = -exponent := by
    simp only [leastExponent, greatestExponent]
    omega
  simp only [rank, kept]
  rw [if_neg (by omega)]
  simp

theorem rank_of_nonneg (coefficient : Nat) {exponent : Nat} (within : exponent ≤ 310) :
    rank ⟨coefficient, exponent⟩ = nearestRank (coefficient * Nat.pow 10 exponent) 1 := by
  have kept : max (leastExponent coefficient) (min (exponent : Int) greatestExponent) = exponent := by
    simp only [leastExponent, greatestExponent]
    omega
  simp only [rank, kept]
  rw [if_pos (by omega)]
  simp

end Decimal

namespace Shortest
open Binary64
variable {tie : Tie} {rank step : Nat}

/-- The search ends at a hit on one of its grids or at the decimal behind them. -/
theorem search_eq (grid? : Nat → Option Decimal) (last : Decimal) (start : Nat) :
    search grid? last start = last ∨
      ∃ step ≤ start, grid? step = some (search grid? last start) := by
  induction start with
  | zero => exact .inl rfl
  | succ start ih =>
    rw [search]
    cases hit : grid? (start + 1) with
    | some found => exact .inr ⟨start + 1, Nat.le_refl _, hit⟩
    | none =>
      obtain behind | ⟨step, le, hit⟩ := ih
      · exact .inl behind
      · exact .inr ⟨step, Nat.le_succ_of_le le, hit⟩

theorem scaled_pos (pos : 0 < rank) : 0 < scaled rank := by
  rw [scaled, Nat.shiftLeft_eq]
  exact Nat.mul_pos (significand_pos pos) (Nat.two_pow_pos _)

theorem mul_pow_five_shiftLeft (value n : Nat) : (value * Nat.pow 5 n) <<< n = value * Nat.pow 10 n := by
  have ten : Nat.pow 5 n * 2 ^ n = Nat.pow 10 n := (Nat.mul_pow 5 2 n).symm
  rw [Nat.shiftLeft_eq, Nat.mul_assoc, ten]

theorem pow_ten_pos (n : Nat) : 0 < Nat.pow 10 n :=
  Nat.pow_pos (by decide)

theorem rank_unrounded (pos : 0 < rank) (le : rank ≤ infinityRank) : (unrounded rank).rank = rank := by
  unfold unrounded fineValue
  -- behind names, so that no step computes the powers
  generalize count : (1074 : Nat) = places
  obtain ⟨bits, enough, five⟩ : ∃ bits, 2226 ≤ bits ∧ 2 ^ bits ≤ Nat.pow 5 places :=
    ⟨2226, Nat.le_refl _, by rw [← count]; decide +kernel⟩
  have within : places ≤ (scaled rank * Nat.pow 5 places).log2 / 3 + 332 := by
    have nonzero : scaled rank * Nat.pow 5 places ≠ 0 :=
      Nat.ne_of_gt (Nat.mul_pos (scaled_pos pos) (Nat.lt_of_lt_of_le (Nat.two_pow_pos bits) five))
    have large : 2 ^ bits ≤ scaled rank * Nat.pow 5 places :=
      Nat.le_trans five (Nat.le_mul_of_pos_left _ (scaled_pos pos))
    have length := (Nat.le_log2 nonzero).mpr large
    omega
  have exact : (scaled rank * Nat.pow 5 places) <<< 1074 = scaled rank * Nat.pow 10 places := by
    rw [count]
    exact mul_pow_five_shiftLeft (scaled rank) places
  have exponent : (-1074 : Int) = -places := by omega
  rw [exponent, Decimal.rank_of_negative _ (by omega) within]
  exact nearestRank_of_exact le (pow_ten_pos places) exact

/-- The decimal of a finite double reads back as it. -/
theorem rank_ofRank (tie : Tie) (finite : rank < infinityRank) : (ofRank tie rank).rank = rank := by
  unfold ofRank
  split
  case isTrue zero =>
    subst zero
    decide +kernel
  case isFalse nonzero =>
    obtain behind | ⟨step, -, hit⟩ := search_eq (onGrid? tie rank) (unrounded rank) (firstStep rank)
    · rw [behind]
      exact rank_unrounded (Nat.pos_of_ne_zero nonzero) (Nat.le_of_lt finite)
    · exact rank_of_onGrid? hit

/-- No grid of the search is coarser than the powers of ten that are read. -/
theorem firstStep_le (finite : rank < infinityRank) : firstStep rank ≤ 1384 := by
  have length := log2_scaled rank
  have powers : rank / binade ≤ 2046 := by unfold binade infinityRank at *; omega
  unfold firstStep
  omega

theorem exponent_of_onGrid? {found : Decimal} (hit : onGrid? tie rank step = some found) :
    found.exponent = step - 1074 := by
  have member := List.mem_of_find?_eq_some hit
  simp only [neighbours, List.mem_map] at member
  obtain ⟨coefficient, -, rfl⟩ := member
  rfl

theorem exponent_ofRank_le (tie : Tie) (finite : rank < infinityRank) : (ofRank tie rank).exponent ≤ 310 := by
  unfold ofRank
  split
  case isTrue => decide
  case isFalse nonzero =>
    obtain behind | ⟨step, le, hit⟩ := search_eq (onGrid? tie rank) (unrounded rank) (firstStep rank)
    · rw [behind]
      exact (by decide : (-1074 : Int) ≤ 310)
    · rw [exponent_of_onGrid? hit]
      have bound := Nat.le_trans le (firstStep_le finite)
      omega

end Shortest

end GraphingCalculator
