import GraphingCalculator.Proofs.Number.Bits
import GraphingCalculator.Proofs.Number.ReadBack
import GraphingCalculator.Token.Lexer

/-!
Numbers as they are shown in expressions: digits with at most one point between them. The lexer reads
the text of a finite double without a sign back as this double, whatever follows that cannot belong
to a numeral (`Lexeme.numeral_showFloat`).
-/

namespace GraphingCalculator

namespace Decimal

theorem digitsValue_eq (digits : List Char) : digitsValue digits = Nat.ofDigitChars 10 digits 0 :=
  Nat.ofDigitChars_eq_foldl.symm

theorem digitsValue_toDigits (n : Nat) : digitsValue (Nat.toDigits 10 n) = n := by
  rw [digitsValue_eq, Nat.ofDigitChars_ten_toDigits]

end Decimal

namespace Numeral

/-- The zeros behind the digits of a whole number count as powers of ten. -/
theorem ofDigits_positional_of_nonneg {d : Decimal} (nonneg : 0 ≤ d.exponent) :
    Decimal.ofDigits (positional d).1 (positional d).2 0 = ⟨d.coefficient * 10 ^ d.exponent.toNat, 0⟩ := by
  simp [positional, nonneg, Decimal.ofDigits, Decimal.digitsValue_eq, Nat.ofDigitChars_append,
    Nat.ofDigitChars_replicate_zero, Nat.mul_comm]

/-- A point between the digits, or zeros in front of them, are read as they are meant. -/
theorem ofDigits_positional_of_neg {d : Decimal} (neg : d.exponent < 0) :
    Decimal.ofDigits (positional d).1 (positional d).2 0 = d := by
  obtain ⟨coefficient, exponent⟩ := d
  dsimp only at neg
  simp only [positional, if_neg (show ¬ 0 ≤ exponent by omega)]
  generalize point : ((Nat.toDigits 10 coefficient).length : Int) + exponent = place
  split
  case isTrue =>
    have length : (((Nat.toDigits 10 coefficient).length - place.toNat : Nat) : Int) = -exponent := by omega
    simp [Decimal.ofDigits, Decimal.digitsValue_toDigits, length]
  case isFalse =>
    have length : (((-place).toNat + (Nat.toDigits 10 coefficient).length : Nat) : Int) = -exponent := by omega
    have value : Decimal.digitsValue (['0'] ++ (List.replicate (-place).toNat '0' ++ Nat.toDigits 10 coefficient)) =
        coefficient := by
      rw [← List.append_assoc, ← List.replicate_one, List.replicate_append_replicate, Decimal.digitsValue_eq,
        Nat.ofDigitChars_append, Nat.ofDigitChars_replicate_zero, Nat.mul_zero, Nat.ofDigitChars_ten_toDigits]
    rw [Decimal.ofDigits, value, List.length_append, List.length_replicate, length]
    simp

/-- What is read from the digits of a decimal rounds to the same double. -/
theorem rank_ofDigits_positional {d : Decimal} (le : d.exponent ≤ 310) :
    (Decimal.ofDigits (positional d).1 (positional d).2 0).rank = d.rank := by
  by_cases neg : d.exponent < 0
  · rw [ofDigits_positional_of_neg neg]
  · obtain ⟨coefficient, exponent⟩ := d
    obtain ⟨places, rfl⟩ := Int.eq_ofNat_of_zero_le (Int.not_lt.mp neg)
    dsimp only at le
    rw [ofDigits_positional_of_nonneg (Int.not_lt.mp neg), Decimal.rank_of_nonneg coefficient (by omega)]
    exact (Decimal.rank_of_nonneg _ (Nat.zero_le 310)).trans (by simp)

theorem positional_isDigit (d : Decimal) :
    (∀ c ∈ (positional d).1, c.isDigit) ∧ (∀ c ∈ (positional d).2, c.isDigit) ∧ (positional d).1 ≠ [] := by
  have digits : ∀ c ∈ Nat.toDigits 10 d.coefficient, c.isDigit :=
    fun c member => Nat.isDigit_of_mem_toDigits (by decide) (by decide) member
  have zeros : ∀ count, ∀ c ∈ List.replicate count '0', c.isDigit := by
    intro count c member
    rw [List.eq_of_mem_replicate member]
    rfl
  unfold positional
  dsimp only
  split
  case isTrue =>
    refine ⟨?_, by simp, by simp [Nat.toDigits_ne_nil]⟩
    intro c member
    exact (List.mem_append.mp member).elim (digits c) (zeros _ c)
  case isFalse =>
    split
    case isTrue inside =>
      refine ⟨fun c member => digits c (List.mem_of_mem_take member),
        fun c member => digits c (List.mem_of_mem_drop member), ?_⟩
      simp only [ne_eq, List.take_eq_nil_iff, Nat.toDigits_ne_nil, or_false]
      omega
    case isFalse =>
      refine ⟨by simp [show '0'.isDigit from rfl], ?_, by simp⟩
      intro c member
      exact (List.mem_append.mp member).elim (zeros _ c) (digits c)

/-- A point and the digits after it, or nothing. -/
def pointText (fraction : List Char) : List Char :=
  if fraction.isEmpty then [] else '.' :: fraction

end Numeral

open Binary64 in
theorem toList_showFloat {x : Float} (finite : rank x < infinityRank) (unsigned : isNegative x = false) :
    (showFloat x).toList =
      (Numeral.positional (Shortest.ofRank .up (rank x))).1 ++
        Numeral.pointText (Numeral.positional (Shortest.ofRank .up (rank x))).2 := by
  rw [showFloat, if_neg (Nat.not_lt_of_lt finite), if_neg (Nat.ne_of_lt finite)]
  simp only [Numeral.render, Numeral.chars, Layout.numeral, Layout.plain, unsigned, Numeral.pointText]
  split <;> simp_all

open Binary64 in
theorem isDigit_head_showFloat {x : Float} (finite : rank x < infinityRank) (unsigned : isNegative x = false) :
    ∃ c ∈ (showFloat x).toList.head?, c.isDigit := by
  obtain ⟨wholeDigits, -, nonempty⟩ := Numeral.positional_isDigit (Shortest.ofRank .up (rank x))
  rw [toList_showFloat finite unsigned]
  cases whole : (Numeral.positional (Shortest.ofRank .up (rank x))).1 with
  | nil => exact absurd whole nonempty
  | cons c whole' => exact ⟨c, rfl, wholeDigits c (by simp [whole])⟩

/-! ### Reading a numeral -/

namespace Lexeme

/-- A character that no numeral goes on with. -/
def endsNumeral (c : Char) : Bool :=
  !(c.isDigit || c == '.' || c == 'e' || c == 'E')

section
variable {rest : List Char}

theorem digits_append {front : List Char} (isDigits : ∀ c ∈ front, c.isDigit)
    (stops : ∀ c ∈ rest.head?, c.isDigit = false) : digits (front ++ rest) = front := by
  rw [digits, List.takeWhile_append_of_pos isDigits]
  cases rest with
  | nil => simp
  | cons c rest => simp [stops c rfl]

theorem not_isDigit_of_endsNumeral (ends : ∀ c ∈ rest.head?, endsNumeral c) :
    ∀ c ∈ rest.head?, c.isDigit = false := by
  intro c member
  have none := ends c member
  simp only [endsNumeral, Bool.not_eq_true', Bool.or_eq_false_iff] at none
  exact none.1.1.1

theorem head?_ne_point (ends : ∀ c ∈ rest.head?, endsNumeral c) : rest.head? ≠ some '.' := by
  intro point
  cases ends '.' point

theorem powerOfTen_of_endsNumeral (ends : ∀ c ∈ rest.head?, endsNumeral c) : powerOfTen rest = [] := by
  cases rest with
  | nil => rfl
  | cons c rest =>
    have none := ends c rfl
    simp only [endsNumeral, Bool.not_eq_true', Bool.or_eq_false_iff] at none
    simp [powerOfTen, none]

theorem pointed_append {fraction : List Char} (fractionDigits : ∀ c ∈ fraction, c.isDigit)
    (ends : ∀ c ∈ rest.head?, endsNumeral c) :
    pointed (Numeral.pointText fraction ++ rest) = Numeral.pointText fraction := by
  cases fraction with
  | nil =>
    rcases rest with _ | ⟨c, rest⟩
    · rfl
    · have noPoint : c ≠ '.' := fun point => head?_ne_point ends (congrArg some point)
      unfold pointed
      split
      case h_1 split => exact absurd (List.cons.inj split).1 noPoint
      case h_2 => rfl
  | cons digit fraction =>
    exact congrArg ('.' :: ·) (digits_append fractionDigits (not_isDigit_of_endsNumeral ends))

/-- Digits and perhaps a point with digits after it are read as one numeral. -/
theorem numeral_append {whole fraction : List Char} (wholeDigits : ∀ c ∈ whole, c.isDigit)
    (fractionDigits : ∀ c ∈ fraction, c.isDigit) (nonempty : whole ≠ [])
    (ends : ∀ c ∈ rest.head?, endsNumeral c) :
    numeral (whole ++ Numeral.pointText fraction ++ rest) =
      .ok ⟨.number (Decimal.ofDigits whole fraction 0).toFloat, (whole ++ Numeral.pointText fraction).length⟩ := by
  have front : digits (whole ++ Numeral.pointText fraction ++ rest) = whole := by
    rw [List.append_assoc]
    refine digits_append wholeDigits fun c member => ?_
    cases fraction with
    | nil => exact not_isDigit_of_endsNumeral ends c member
    | cons digit fraction =>
      cases member
      rfl
  have behindWhole : (whole ++ Numeral.pointText fraction ++ rest).drop whole.length =
      Numeral.pointText fraction ++ rest := by rw [List.append_assoc, List.drop_left]
  have behindFraction : (whole ++ Numeral.pointText fraction ++ rest).drop
      (whole.length + (Numeral.pointText fraction).length) = rest := by rw [← List.length_append, List.drop_left]
  have tail : (Numeral.pointText fraction).tail = fraction := by cases fraction <;> rfl
  simp only [numeral, front, behindWhole, pointed_append fractionDigits ends, behindFraction,
    powerOfTen_of_endsNumeral ends, List.length_nil, Nat.add_zero, tail]
  rw [if_neg (by simp [nonempty]), if_neg (head?_ne_point ends), List.length_append]
  rfl

end

open Binary64 in
/-- The lexer reads a finite double without a sign as it is shown. -/
theorem numeral_showFloat {x : Float} {rest : List Char} (finite : rank x < infinityRank)
    (unsigned : isNegative x = false) (ends : ∀ c ∈ rest.head?, endsNumeral c) :
    numeral ((showFloat x).toList ++ rest) = .ok ⟨.number x, (showFloat x).toList.length⟩ := by
  obtain ⟨wholeDigits, fractionDigits, nonempty⟩ := Numeral.positional_isDigit (Shortest.ofRank .up (rank x))
  rw [toList_showFloat finite unsigned, numeral_append wholeDigits fractionDigits nonempty ends, Decimal.toFloat,
    Numeral.rank_ofDigits_positional (Shortest.exponent_ofRank_le .up finite), Shortest.rank_ofRank .up finite,
    ofRank_rank unsigned]

end Lexeme

end GraphingCalculator
