import GraphingCalculator.Json.Parser
import GraphingCalculator.Proofs.Number.Positional

/-!
Numbers in JSON. A numeral that keeps the rules (`Numeral.IsStrict`) is taken off the front of a text as it
was written (`takeNumeral_chars`), and so the numeral of a finite double is read as this double
(`toFloat_numeral`).
-/

namespace GraphingCalculator

namespace Binary64

/-- A ratio may be reduced before it is rounded. -/
theorem roundedDiv_mul_mul (num den : Nat) {k : Nat} (pos : 0 < k) :
    roundedDiv (num * k) (den * k) = roundedDiv num den := by
  have less : 2 * (num % den * k) < den * k ↔ 2 * (num % den) < den := by
    rw [← Nat.mul_assoc]
    exact Nat.mul_lt_mul_right pos
  have same : 2 * (num % den * k) = den * k ↔ 2 * (num % den) = den := by
    rw [← Nat.mul_assoc]
    exact Nat.mul_left_inj (Nat.ne_of_gt pos)
  simp only [roundedDiv, Nat.mul_div_mul_right _ _ pos, Nat.mul_mod_mul_right, less, same]

theorem nearestRank_mul_mul (num den : Nat) {k : Nat} (pos : 0 < k) :
    nearestRank (num * k) (den * k) = nearestRank num den := by
  have scale (n shift : Nat) : (n * k) <<< shift = n <<< shift * k := by
    simp only [Nat.shiftLeft_eq, Nat.mul_right_comm]
  simp only [nearestRank, scale, Nat.mul_div_mul_right _ _ pos, roundedDiv_mul_mul _ _ pos]

theorem nearestRank_zero {den : Nat} (pos : 0 < den) : nearestRank 0 den = 0 :=
  nearestRank_of_exact (Nat.zero_le _) pos (by simp [scaled, significand, binade])

end Binary64

namespace Decimal
open Binary64

theorem rank_of_zero (exponent : Int) : rank ⟨0, exponent⟩ = 0 := by
  unfold rank
  dsimp only
  split
  · rw [Nat.zero_mul, nearestRank_zero Nat.one_pos]
  · rw [nearestRank_zero (Shortest.pow_ten_pos _)]

/-- A zero behind the point changes nothing. -/
theorem rank_ofDigits_zero (whole : List Char) :
    (ofDigits whole ['0'] 0).rank = (ofDigits whole [] 0).rank := by
  have digits : digitsValue (whole ++ ['0']) = digitsValue whole * 10 := by
    simp [digitsValue, List.foldl_append, Nat.mul_comm]
  have tenth : ofDigits whole ['0'] 0 = ⟨digitsValue whole * 10, -(1 : Nat)⟩ := by simp [ofDigits, digits]
  have plain : ofDigits whole [] 0 = ⟨digitsValue whole, (0 : Nat)⟩ := by simp [ofDigits]
  rw [tenth, plain, rank_of_negative _ Nat.one_pos (by omega), rank_of_nonneg _ (Nat.zero_le 310)]
  exact (nearestRank_mul_mul _ 1 (by decide : 0 < 10)).trans (by simp)

end Decimal

/-- A point behind the first digit is made good by the power of ten. -/
theorem Decimal.ofDigits_first (d : Decimal) :
    let digits := Nat.toDigits 10 d.coefficient
    ofDigits (digits.take 1) (digits.drop 1) (digits.length + d.exponent - 1) = d := by
  obtain ⟨coefficient, exponent⟩ := d
  have length : 0 < (Nat.toDigits 10 coefficient).length := Nat.length_toDigits_pos
  simp only [ofDigits, List.take_append_drop, digitsValue_toDigits, List.length_drop]
  congr 1
  omega

/-! ### Digits -/

theorem head?_toDigits {n : Nat} (pos : 0 < n) : (Nat.toDigits 10 n).head? ≠ some '0' := by
  induction n using Nat.strongRecOn with
  | ind n ih =>
    by_cases single : n < 10
    · rw [Nat.toDigits_of_lt_base single]
      interval_cases n <;> decide
    · rw [Nat.toDigits_of_base_le (by decide) (Nat.le_of_not_lt single),
        List.head?_append_of_ne_nil _ Nat.toDigits_ne_nil]
      exact ih (n / 10) (by omega) (by omega)

namespace Numeral

/-- A numeral as JSON has it: digits, at least one in front of the point, and zero only in front of no other digit. -/
structure IsStrict (n : Numeral) : Prop where
  wholeDigits : ∀ c ∈ n.whole, c.isDigit
  nonempty : n.whole ≠ []
  noLeadingZero : n.whole.head? = some '0' → n.whole.length = 1
  fractionDigits : ∀ c ∈ n.fraction, c.isDigit

theorem isStrict_ofNat (n : Nat) : IsStrict ⟨false, Nat.toDigits 10 n, [], none⟩ where
  wholeDigits c member := Nat.isDigit_of_mem_toDigits (by decide) (by decide) member
  nonempty := Nat.toDigits_ne_nil
  noLeadingZero zero := by
    rcases Nat.eq_zero_or_pos n with rfl | pos
    · rfl
    · exact absurd zero (head?_toDigits pos)
  fractionDigits := by simp

/-- Only a zero without any other digits in front of the point starts with a zero. -/
theorem noLeadingZero_positional {d : Decimal} (zero : d.coefficient = 0 → d.exponent = 0) :
    (positional d).1.head? = some '0' → (positional d).1.length = 1 := by
  unfold positional
  dsimp only
  have digits : d.coefficient = 0 ∨ (Nat.toDigits 10 d.coefficient).head? ≠ some '0' :=
    (Nat.eq_zero_or_pos _).imp_right head?_toDigits
  split
  case isTrue whole =>
    rw [List.head?_append_of_ne_nil _ Nat.toDigits_ne_nil]
    intro leading
    have none := digits.resolve_right (not_not_intro leading)
    simp [none, zero none]
  case isFalse part =>
    split
    case isTrue inside =>
      intro leading
      have none : d.coefficient = 0 := by
        refine digits.resolve_right (not_not_intro ?_)
        rw [List.head?_take] at leading
        split at leading
        · cases leading
        · exact leading
      rw [zero none] at part
      exact absurd (Int.le_refl 0) part
    case isFalse => exact fun _ => rfl

end Numeral

theorem Shortest.exponent_of_coefficient_eq_zero {rank : Nat} (tie : Tie) (finite : rank < Binary64.infinityRank)
    (zero : (ofRank tie rank).coefficient = 0) : (ofRank tie rank).exponent = 0 := by
  have readsBack := rank_ofRank tie finite
  generalize decimal : ofRank tie rank = d at *
  obtain ⟨coefficient, exponent⟩ := d
  obtain rfl : coefficient = 0 := zero
  rw [Decimal.rank_of_zero] at readsBack
  rw [← readsBack] at decimal
  cases decimal
  rfl

namespace Json
open Binary64

/-! ### The numeral of a double -/

variable {x : Float}

/-- The digits of a positional number; a fraction without any is a zero. -/
def fractionOf (d : Decimal) : List Char :=
  if (Numeral.positional d).2.isEmpty then ['0'] else (Numeral.positional d).2

/-- A double is written positionally, or with its first digit in front of the point and a power of ten. -/
theorem numeral_cases (x : Float) :
    let d := Shortest.ofRank .even (rank x)
    let digits := Nat.toDigits 10 d.coefficient
    numberLayout.numeral x = ⟨isNegative x, (Numeral.positional d).1, fractionOf d, none⟩ ∨
      numberLayout.numeral x =
        ⟨isNegative x, digits.take 1, digits.drop 1, some (digits.length + d.exponent - 1)⟩ := by
  intro d digits
  unfold Layout.numeral
  dsimp only
  split
  · exact .inl rfl
  · exact .inr rfl

theorem isStrict_numeral (finite : x.isFinite) : (numberLayout.numeral x).IsStrict := by
  have below := isFinite_iff.mp finite
  obtain positional | scientific := numeral_cases x
  · obtain ⟨wholeDigits, fractionDigits, nonempty⟩ := Numeral.positional_isDigit (Shortest.ofRank .even (rank x))
    rw [positional]
    refine ⟨wholeDigits, nonempty, ?_, fun c member => ?_⟩
    · exact Numeral.noLeadingZero_positional (Shortest.exponent_of_coefficient_eq_zero .even below)
    · unfold fractionOf at member
      split at member
      · rw [List.mem_singleton.mp member]
        rfl
      · exact fractionDigits c member
  · have digits : ∀ c ∈ Nat.toDigits 10 (Shortest.ofRank .even (rank x)).coefficient, c.isDigit :=
      fun c member => Nat.isDigit_of_mem_toDigits (by decide) (by decide) member
    rw [scientific]
    refine ⟨fun c member => digits c (List.mem_of_mem_take member), by simp [Nat.toDigits_ne_nil], fun _ => ?_,
      fun c member => digits c (List.mem_of_mem_drop member)⟩
    have length : 0 < (Nat.toDigits 10 (Shortest.ofRank .even (rank x)).coefficient).length := Nat.length_toDigits_pos
    rw [List.length_take]
    omega

theorem rank_magnitude_numeral (finite : x.isFinite) : (numberLayout.numeral x).magnitude.rank = rank x := by
  have below := isFinite_iff.mp finite
  have readsBack := Shortest.rank_ofRank .even below
  obtain positional | scientific := numeral_cases x
  · have same := Numeral.rank_ofDigits_positional (Shortest.exponent_ofRank_le .even below)
    rw [positional, Numeral.magnitude, fractionOf]
    dsimp only
    split
    case isTrue none =>
      rw [List.isEmpty_iff.mp none] at same
      exact (Decimal.rank_ofDigits_zero _).trans (same.trans readsBack)
    case isFalse => exact same.trans readsBack
  · rw [scientific]
    exact (congrArg Decimal.rank (Decimal.ofDigits_first _)).trans readsBack

theorem isNegative_numeral (x : Float) : (numberLayout.numeral x).negative = isNegative x := by
  obtain positional | scientific := numeral_cases x
  · rw [positional]
  · rw [scientific]

/-- A finite double is read from its numeral. -/
theorem toFloat_numeral (finite : x.isFinite) : (numberLayout.numeral x).toFloat = x := by
  rw [Numeral.toFloat, Decimal.toFloat, rank_magnitude_numeral finite, isNegative_numeral]
  split
  case isTrue negative => exact neg_ofRank_rank negative (isFinite_iff.mp finite)
  case isFalse unsigned => exact ofRank_rank (Bool.not_eq_true _ ▸ unsigned)

/-! ### Reading a numeral -/

section
variable {digits rest : List Char}

theorem takeDigits_append (isDigits : ∀ c ∈ digits, c.isDigit) (nonempty : digits ≠ [])
    (ends : ∀ c ∈ rest.head?, c.isDigit = false) : takeDigits (digits ++ rest) = some (digits, rest) := by
  have front : (digits ++ rest).takeWhile Char.isDigit = digits := Lexeme.digits_append isDigits ends
  have behind : (digits ++ rest).dropWhile Char.isDigit = rest := by
    have whole := List.takeWhile_append_dropWhile (p := Char.isDigit) (l := digits ++ rest)
    rw [front] at whole
    exact List.append_cancel_left whole
  rw [takeDigits, front, behind]
  split
  · exact absurd rfl nonempty
  · rfl

theorem takeFraction_pointText {fraction : List Char} (isDigits : ∀ c ∈ fraction, c.isDigit)
    (ends : ∀ c ∈ rest.head?, c.isDigit = false ∧ c ≠ '.') :
    takeFraction (Numeral.pointText fraction ++ rest) = some (fraction, rest) := by
  cases fraction with
  | nil =>
    show takeFraction rest = some ([], rest)
    unfold takeFraction
    split
    · exact absurd rfl (ends '.' rfl).2
    · rfl
  | cons digit fraction => exact takeDigits_append isDigits (by simp) fun c member => (ends c member).1

theorem takeExponent_exponentText (exponent : Option Int) (ends : ∀ c ∈ rest.head?, Lexeme.endsNumeral c) :
    takeExponent ((exponent.map Numeral.exponentText).getD [] ++ rest) = some (exponent, rest) := by
  cases exponent with
  | none =>
    show takeExponent rest = some (none, rest)
    cases rest with
    | nil => rfl
    | cons mark rest =>
      have noMark : (mark == 'e' || mark == 'E') = false := by
        have none := ends mark rfl
        simp only [Lexeme.endsNumeral, Bool.not_eq_true', Bool.or_eq_false_iff] at none
        simp [none]
      simp [takeExponent, noMark]
  | some exponent =>
    have digits : takeDigits (Nat.toDigits 10 exponent.natAbs ++ rest) =
        some (Nat.toDigits 10 exponent.natAbs, rest) :=
      takeDigits_append (fun c => Nat.isDigit_of_mem_toDigits (by decide) (by decide)) Nat.toDigits_ne_nil
        (Lexeme.not_isDigit_of_endsNumeral ends)
    by_cases negative : exponent < 0
    · simp [takeExponent, Numeral.exponentText, negative, digits, Decimal.digitsValue_toDigits, abs_of_neg negative]
    · simp [takeExponent, Numeral.exponentText, negative, digits, Decimal.digitsValue_toDigits,
        abs_of_nonneg (Int.not_lt.mp negative)]

/-- The sign in front of a number, and the text behind it. -/
def takeSign (text : List Char) : Bool × List Char :=
  match text with
  | '-' :: unsigned => (true, unsigned)
  | _ => (false, text)

theorem takeSign_append (negative : Bool) {unsigned : List Char} (noSign : ∀ c ∈ unsigned.head?, c.isDigit) :
    takeSign ((if negative then ['-'] else []) ++ unsigned) = (negative, unsigned) := by
  cases negative with
  | true => rfl
  | false =>
    show takeSign unsigned = (false, unsigned)
    unfold takeSign
    split
    · cases noSign '-' rfl
    · rfl

theorem takeNumeral_eq (text : List Char) :
    takeNumeral text = (takeDigits (takeSign text).2).bind fun whole =>
      if whole.1.head? = some '0' && 1 < whole.1.length then none
      else (takeFraction whole.2).bind fun fraction => (takeExponent fraction.2).bind fun exponent =>
        some (⟨(takeSign text).1, whole.1, fraction.1, exponent.1⟩, exponent.2) := rfl

theorem takeNumeral_of_parts {text unsigned behindWhole power whole fraction : List Char} {negative : Bool}
    {exponent : Option Int} (sign : takeSign text = (negative, unsigned))
    (wholeRead : takeDigits unsigned = some (whole, behindWhole))
    (canonical : whole.head? = some '0' → whole.length = 1)
    (fractionRead : takeFraction behindWhole = some (fraction, power))
    (exponentRead : takeExponent power = some (exponent, rest)) :
    takeNumeral text = some (⟨negative, whole, fraction, exponent⟩, rest) := by
  have noLeadingZero : ¬ (whole.head? = some '0' && 1 < whole.length) := by
    simp only [Bool.and_eq_true, decide_eq_true_eq, not_and, not_lt]
    exact fun zero => Nat.le_of_eq (canonical zero)
  simp only [takeNumeral_eq, sign, wholeRead, Option.bind_some, if_neg noLeadingZero, fractionRead, exponentRead]

/-- A numeral is taken off a text in which nothing behind it belongs to it. -/
theorem takeNumeral_chars {n : Numeral} (strict : n.IsStrict) (ends : ∀ c ∈ rest.head?, Lexeme.endsNumeral c) :
    takeNumeral (n.chars ++ rest) = some (n, rest) := by
  obtain ⟨negative, whole, fraction, exponent⟩ := n
  let power := (exponent.map Numeral.exponentText).getD [] ++ rest
  have powerEnds : ∀ c ∈ power.head?, c.isDigit = false ∧ c ≠ '.' := by
    cases exponent with
    | none =>
      intro c member
      exact ⟨Lexeme.not_isDigit_of_endsNumeral ends c member, fun point => Lexeme.head?_ne_point ends (point ▸ member)⟩
    | some exponent =>
      rintro c ⟨⟩
      exact ⟨rfl, by decide⟩
  have wholeEnds : ∀ c ∈ (Numeral.pointText fraction ++ power).head?, c.isDigit = false := by
    cases fraction with
    | nil => exact fun c member => (powerEnds c member).1
    | cons digit fraction =>
      rintro c ⟨⟩
      rfl
  have startsWithDigit : ∀ c ∈ (whole ++ (Numeral.pointText fraction ++ power)).head?, c.isDigit := by
    rw [List.head?_append_of_ne_nil _ strict.nonempty]
    exact fun c member => strict.wholeDigits c (List.mem_of_mem_head? member)
  have chars : Numeral.chars ⟨negative, whole, fraction, exponent⟩ ++ rest =
      (if negative then ['-'] else []) ++ (whole ++ (Numeral.pointText fraction ++ power)) := by
    simp [Numeral.chars, Numeral.pointText, power]
  rw [chars]
  exact takeNumeral_of_parts (takeSign_append negative startsWithDigit)
    (takeDigits_append strict.wholeDigits strict.nonempty wholeEnds) strict.noLeadingZero
    (takeFraction_pointText strict.fractionDigits powerEnds) (takeExponent_exponentText exponent ends)

end

end Json

end GraphingCalculator
