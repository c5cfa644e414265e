import GraphingCalculator.Proofs.Number.Positional
import GraphingCalculator.Proofs.Token.Steps

/-!
What a lexeme is, apart from how it is found: a sign, a run of letters, or a numeral (`Spells`). The
lexer takes the longest one of its kind at the front of a text (`Lexeme.first_eq_ok_iff`), and it is
stuck only at a character that starts nothing, at a point without a digit on either side, and at a
point behind a numeral (`Lexeme.breaksOff_of_first`).
-/

namespace GraphingCalculator

/-! ### Spelling -/

/-- Nothing, or a point and the digits behind it. -/
inductive IsFraction : List Char → Prop
  | none : IsFraction []
  | point {digits} : (∀ c ∈ digits, c.isDigit) → IsFraction ('.' :: digits)

/-- Nothing, or the letter of a power of ten and the digits behind it, of which there is one at least. -/
inductive IsPower : List Char → Prop
  | none : IsPower []
  | mark {mark digits} : mark = 'e' ∨ mark = 'E' → digits ≠ [] → (∀ c ∈ digits, c.isDigit) → IsPower (mark :: digits)

/-- A number as it is written, and the decimal that it stands for: digits with at most one point among
them, and perhaps a power of ten. There is a digit in front of the point or behind it. -/
inductive IsNumeral : List Char → Decimal → Prop
  | intro {whole fraction power} :
      (∀ c ∈ whole, c.isDigit) → IsFraction fraction → IsPower power → whole ≠ [] ∨ fraction.tail ≠ [] →
      IsNumeral (whole ++ (fraction ++ power))
        (Decimal.ofDigits whole fraction.tail (Decimal.digitsValue power.tail))

/-- The kinds of lexemes. -/
inductive LexemeKind where
  | sign
  | name
  | numeral

/-- How the tokens of each kind are written. -/
inductive Spells : LexemeKind → List Char → Token → Prop
  | leftParen : Spells .sign ['('] .leftParen
  | rightParen : Spells .sign [')'] .rightParen
  | comma : Spells .sign [','] .comma
  | operator (op) : Spells .sign [op.symbol] (.operator op)
  | pi : Spells .sign ['π'] (.identifier Constant.pi.name)
  | name {letters} :
      letters ≠ [] → (∀ c ∈ letters, c.isAlpha) → Spells .name letters (.identifier (String.ofList letters))
  | numeral {word value} : IsNumeral word value → Spells .numeral word (.number value.toFloat)

/-- The word stands at the front of the text, and no longer one of its kind does. Directly behind a numeral
there is no point. -/
structure IsFront (kind : LexemeKind) (word text : List Char) (token : Token) : Prop where
  spells : Spells kind word token
  starts : word <+: text
  longest : ∀ other otherToken, Spells kind other otherToken → other <+: text → other.length ≤ word.length
  noPoint : kind = .numeral → (text.drop word.length).head? ≠ some '.'

/-- A character that no lexeme holds, and no blank. -/
structure IsForeign (c : Char) : Prop where
  visible : isBlank c = false
  noSign : c ∉ Lexeme.signs
  noDigit : c.isDigit = false
  noLetter : c.isAlpha = false
  noPoint : c ≠ '.'

/-- Why the lexer can be stuck at a character, between what stands in front of it and what stands behind. -/
inductive IsStuck (before after : List Char) : Char → Prop
  | foreign {c} : IsForeign c → IsStuck before after c
  | lonePoint : (∀ word value, IsNumeral word value → ¬ word <+: '.' :: after) → IsStuck before after '.'
  | pointBehind {word value} : IsNumeral word value → word <:+ before → IsStuck before after '.'

theorem IsStuck.append {before after : List Char} {c : Char} (stuck : IsStuck before after c) (front : List Char) :
    IsStuck (front ++ before) after c := by
  cases stuck with
  | foreign foreign => exact .foreign foreign
  | lonePoint none => exact .lonePoint none
  | pointBehind isNumeral ends => exact .pointBehind isNumeral (ends.trans (List.suffix_append front before))

/-- The lexer is stuck within the first lexeme of the text. What it has of the lexeme is a numeral, or nothing. -/
def BreaksOff (text : List Char) (error : LexError) : Prop :=
  ∃ before after, text = before ++ error.found :: after ∧ before.length = error.position ∧
    IsStuck before after error.found ∧ (before = [] ∨ ∃ value, IsNumeral before value)

namespace Lexeme

/-! ### Numerals -/

section
variable {front behind text rest whole fraction power tail word : List Char} {value : Decimal}

theorem isDigit_of_mem_digits : ∀ c ∈ digits text, c.isDigit :=
  fun _ member => List.mem_takeWhile_imp member

/-- What starts with digits and goes on with something else has all of a text's first digits, or is nothing but
some of them. -/
theorem digits_split (starts : front ++ behind <+: text) (isDigits : ∀ c ∈ front, c.isDigit)
    (stops : ∀ c ∈ behind.head?, c.isDigit = false) :
    (behind = [] ∧ front.length ≤ (digits text).length) ∨
      (front = digits text ∧ behind <+: text.drop (digits text).length) := by
  obtain ⟨tail, rfl⟩ := starts
  induction front with
  | nil =>
    cases behind with
    | nil => exact .inl ⟨rfl, Nat.zero_le _⟩
    | cons c behind => exact .inr (by simp [digits, stops c rfl])
  | cons digit front ih =>
    obtain ⟨isDigit, isDigits⟩ := List.forall_mem_cons.mp isDigits
    have step : digits (digit :: front ++ behind ++ tail) = digit :: digits (front ++ behind ++ tail) := by
      simp [digits, isDigit]
    rw [step]
    rcases ih isDigits with ⟨none, le⟩ | ⟨same, follows⟩
    · exact .inl ⟨none, by simpa using le⟩
    · exact .inr ⟨congrArg _ same, by simpa using follows⟩

theorem isDigit_eq_false_of_isPower (isPower : IsPower power) : ∀ c ∈ power.head?, c.isDigit = false := by
  cases isPower with
  | none => simp
  | mark letter => rcases letter with rfl | rfl <;> simp

theorem isDigit_eq_false_of_isFraction (isFraction : IsFraction fraction) (isPower : IsPower power) :
    ∀ c ∈ (fraction ++ power).head?, c.isDigit = false := by
  cases isFraction with
  | none => exact isDigit_eq_false_of_isPower isPower
  | point => simp

theorem length_le_digits (isDigits : ∀ c ∈ front, c.isDigit) (starts : front <+: text) :
    front.length ≤ (digits text).length := by
  rw [← List.append_nil front] at starts
  rcases digits_split starts isDigits (by simp) with ⟨-, le⟩ | ⟨same, -⟩
  · exact le
  · exact Nat.le_of_eq (congrArg List.length same)

theorem powerOfTen_mark {mark : Char} (letter : mark = 'e' ∨ mark = 'E') (some : digits rest ≠ []) :
    powerOfTen (mark :: rest) = mark :: digits rest := by
  rw [powerOfTen, if_pos (by simpa [letter] using some)]

/-- Of a power of ten the lexer takes all digits. -/
theorem length_le_powerOfTen (isPower : IsPower power) (starts : power <+: text) :
    power.length ≤ (powerOfTen text).length := by
  cases isPower with
  | none => simp
  | @mark mark powerDigits letter nonempty isDigits =>
    obtain ⟨tail, rfl⟩ := starts
    have le := length_le_digits isDigits (List.prefix_append powerDigits tail)
    have some : digits (powerDigits ++ tail) ≠ [] := by
      rw [← List.length_pos_iff]
      exact Nat.lt_of_lt_of_le (List.length_pos_iff.mpr nonempty) le
    rw [List.cons_append, powerOfTen_mark letter some]
    simpa using le

theorem pointed_of_isPower (isPower : IsPower power) (nonempty : power ≠ []) (starts : power <+: text) :
    pointed text = [] := by
  obtain ⟨tail, rfl⟩ := starts
  cases isPower with
  | none => exact absurd rfl nonempty
  | mark letter => rcases letter with rfl | rfl <;> rfl

/-- Behind a fraction that is longer there is no power of ten to make up for it. -/
theorem length_le_pointed (isFraction : IsFraction fraction) (isPower : IsPower power)
    (starts : fraction ++ power <+: text) :
    fraction.length ≤ (pointed text).length ∧
      fraction.length + power.length ≤
        (pointed text).length + (powerOfTen (text.drop (pointed text).length)).length := by
  cases isFraction with
  | none =>
    by_cases none : power = []
    · simp [none]
    · have le := length_le_powerOfTen isPower starts
      simpa [pointed_of_isPower isPower none starts] using le
  | @point fractionDigits isDigits =>
    obtain ⟨tail, rfl⟩ := starts
    have taken : pointed ('.' :: fractionDigits ++ power ++ tail) = '.' :: digits (fractionDigits ++ power ++ tail) := rfl
    rw [taken]
    rcases digits_split (List.prefix_append (fractionDigits ++ power) tail) isDigits
      (isDigit_eq_false_of_isPower isPower) with ⟨rfl, le⟩ | ⟨same, follows⟩
    · simp only [List.length_cons, List.length_nil]
      omega
    · have le := length_le_powerOfTen isPower follows
      have length := congrArg List.length same
      simp only [List.length_cons, List.cons_append, List.drop_succ_cons] at *
      omega

/-- The point and the digits behind it that the lexer takes for a part of a numeral. -/
def fractionOf (text : List Char) : List Char :=
  pointed (text.drop (digits text).length)

/-- The power of ten that the lexer takes for a part of a numeral. -/
def powerOf (text : List Char) : List Char :=
  powerOfTen (text.drop ((digits text).length + (fractionOf text).length))

/-- All that the lexer takes for a numeral. -/
def numeralText (text : List Char) : List Char :=
  digits text ++ (fractionOf text ++ powerOf text)

/-- What is taken for a numeral has a digit in front of its power of ten. -/
def HasDigit (text : List Char) : Prop :=
  digits text ≠ [] ∨ (fractionOf text).tail ≠ []

instance (text : List Char) : Decidable (HasDigit text) :=
  inferInstanceAs (Decidable (_ ∨ _))

/-- The decimal that the numeral at the front of a text stands for. -/
def decimalOf (text : List Char) : Decimal :=
  Decimal.ofDigits (digits text) (fractionOf text).tail (Decimal.digitsValue (powerOf text).tail)

theorem digits_starts (text : List Char) : digits text <+: text :=
  List.takeWhile_prefix _

theorem isFraction_pointed (text : List Char) : IsFraction (pointed text) ∧ pointed text <+: text := by
  unfold pointed
  split
  case h_1 rest => exact ⟨.point isDigit_of_mem_digits, List.prefix_cons_inj _ |>.mpr (digits_starts rest)⟩
  case h_2 => exact ⟨.none, List.nil_prefix⟩

theorem isPower_powerOfTen (text : List Char) : IsPower (powerOfTen text) ∧ powerOfTen text <+: text := by
  unfold powerOfTen
  split
  case h_2 => exact ⟨.none, List.nil_prefix⟩
  case h_1 mark rest =>
    split
    case isFalse => exact ⟨.none, List.nil_prefix⟩
    case isTrue starts =>
      obtain ⟨letter, some⟩ : (mark = 'e' ∨ mark = 'E') ∧ digits rest ≠ [] := by simpa using starts
      exact ⟨.mark letter some isDigit_of_mem_digits, List.prefix_cons_inj _ |>.mpr (digits_starts rest)⟩

theorem numeralText_starts (text : List Char) : numeralText text <+: text := by
  have whole := List.prefix_iff_eq_append.mp (digits_starts text)
  have fraction := List.prefix_iff_eq_append.mp (isFraction_pointed (text.drop (digits text).length)).2
  have power := (isPower_powerOfTen (text.drop ((digits text).length + (fractionOf text).length))).2
  rw [List.drop_drop] at fraction
  rw [numeralText]
  nth_rewrite 4 [← whole]
  rw [← fraction]
  exact List.prefix_append_right_inj _ |>.mpr (List.prefix_append_right_inj _ |>.mpr power)

theorem isNumeral_numeralText (digit : HasDigit text) : IsNumeral (numeralText text) (decimalOf text) :=
  .intro isDigit_of_mem_digits (isFraction_pointed _).1 (isPower_powerOfTen _).1 digit

/-- No numeral at the front of a text is longer than what the lexer takes for one. -/
theorem length_le_of_isNumeral (isNumeral : IsNumeral word value) (starts : word <+: text) :
    HasDigit text ∧ word.length ≤ (numeralText text).length := by
  obtain @⟨whole, fraction, power, isDigits, isFraction, isPower, digit⟩ := isNumeral
  rcases digits_split starts isDigits (isDigit_eq_false_of_isFraction isFraction isPower) with ⟨none, le⟩ | ⟨rfl, follows⟩
  · obtain ⟨rfl, rfl⟩ := List.append_eq_nil_iff.mp none
    have some : digits text ≠ [] := by
      have nonempty : whole ≠ [] := by simpa using digit
      rw [← List.length_pos_iff]
      exact Nat.lt_of_lt_of_le (List.length_pos_iff.mpr nonempty) le
    refine ⟨.inl some, ?_⟩
    simp only [numeralText, List.length_append, List.length_nil]
    omega
  · have le := length_le_pointed isFraction isPower follows
    rw [List.drop_drop] at le
    refine ⟨digit.imp_right fun some => ?_, ?_⟩
    · have length := List.length_pos_iff.mpr some
      rw [List.length_tail] at length
      rw [← List.length_pos_iff, List.length_tail]
      exact Nat.lt_of_lt_of_le length (Nat.sub_le_sub_right le.1 1)
    · simp only [numeralText, List.length_append]
      exact Nat.add_le_add_left le.2 _

/-- No numeral goes on with this text. -/
structure EndsNumerals (rest : List Char) : Prop where
  noDigit : ∀ c ∈ rest.head?, c.isDigit = false
  noPoint : rest.head? ≠ some '.'
  noPower : powerOfTen rest = []

theorem endsNumerals_nil : EndsNumerals [] := ⟨by simp, by simp, rfl⟩

theorem powerOfTen_append (isPower : IsPower power) (ends : EndsNumerals rest) :
    powerOfTen (power ++ rest) = power := by
  cases isPower with
  | none => exact ends.noPower
  | @mark mark powerDigits letter nonempty isDigits =>
    have all : digits (powerDigits ++ rest) = powerDigits := digits_append isDigits ends.noDigit
    rw [List.cons_append, powerOfTen_mark letter (by rwa [all]), all]

/-- Behind its digits a numeral goes on neither with a digit nor with a point. -/
theorem head_append_of_isPower (isPower : IsPower power) (ends : EndsNumerals rest) :
    ∀ c ∈ (power ++ rest).head?, c.isDigit = false ∧ c ≠ '.' := by
  cases isPower with
  | none => exact fun c head => ⟨ends.noDigit c head, fun point => ends.noPoint (point ▸ head)⟩
  | mark letter => rcases letter with rfl | rfl <;> simp

theorem pointed_append_of_isFraction (isFraction : IsFraction fraction) (isPower : IsPower power)
    (ends : EndsNumerals rest) : pointed (fraction ++ (power ++ rest)) = fraction := by
  have stops := head_append_of_isPower isPower ends
  cases isFraction with
  | none =>
    rw [List.nil_append]
    unfold pointed
    split
    case h_1 text split => exact absurd rfl (stops '.' (by simp [split])).2
    case h_2 => rfl
  | point isDigits => exact congrArg ('.' :: ·) (digits_append isDigits fun c head => (stops c head).1)

/-- A numeral is divided as it was put together. -/
theorem numeralText_of_parts (isDigits : ∀ c ∈ whole, c.isDigit) (isFraction : IsFraction fraction)
    (isPower : IsPower power) (ends : EndsNumerals rest) :
    digits (whole ++ (fraction ++ (power ++ rest))) = whole ∧
      fractionOf (whole ++ (fraction ++ (power ++ rest))) = fraction ∧
      powerOf (whole ++ (fraction ++ (power ++ rest))) = power := by
  have stops : ∀ c ∈ (fraction ++ (power ++ rest)).head?, c.isDigit = false := by
    cases isFraction with
    | none => exact fun c head => (head_append_of_isPower isPower ends c head).1
    | point => simp
  have sameDigits : digits (whole ++ (fraction ++ (power ++ rest))) = whole := digits_append isDigits stops
  have sameFraction : fractionOf (whole ++ (fraction ++ (power ++ rest))) = fraction := by
    rw [fractionOf, sameDigits, List.drop_left, pointed_append_of_isFraction isFraction isPower ends]
  have samePower : powerOf (whole ++ (fraction ++ (power ++ rest))) = power := by
    rw [powerOf, sameDigits, sameFraction, ← List.length_append, ← List.append_assoc, List.drop_left,
      powerOfTen_append isPower ends]
  exact ⟨sameDigits, sameFraction, samePower⟩

theorem numeralText_append (isNumeral : IsNumeral word value) (ends : EndsNumerals rest) :
    numeralText (word ++ rest) = word := by
  obtain ⟨isDigits, isFraction, isPower, -⟩ := isNumeral
  obtain ⟨sameDigits, sameFraction, samePower⟩ := numeralText_of_parts isDigits isFraction isPower ends
  rw [List.append_assoc, List.append_assoc, numeralText, sameDigits, sameFraction, samePower]

theorem eq_decimalOf_of_isNumeral (isNumeral : IsNumeral word value) : value = decimalOf word := by
  obtain ⟨isDigits, isFraction, isPower, -⟩ := isNumeral
  obtain ⟨sameDigits, sameFraction, samePower⟩ := numeralText_of_parts isDigits isFraction isPower endsNumerals_nil
  rw [List.append_nil] at sameDigits sameFraction samePower
  rw [decimalOf, sameDigits, sameFraction, samePower]

theorem numeral_eq (text : List Char) :
    numeral text =
      if HasDigit text then
        if (text.drop (numeralText text).length).head? = some '.' then .error ⟨(numeralText text).length, '.'⟩
        else .ok ⟨.number (decimalOf text).toFloat, (numeralText text).length⟩
      else .error ⟨0, '.'⟩ := by
  have length : (numeralText text).length = (digits text).length + (fractionOf text).length + (powerOf text).length := by
    simp [numeralText, Nat.add_assoc]
  have noDigit : ((digits text).isEmpty && decide ((fractionOf text).length ≤ 1)) = true ↔ ¬ HasDigit text := by
    simp only [HasDigit, Bool.and_eq_true, List.isEmpty_iff, decide_eq_true_eq, ne_eq, not_or, not_not,
      ← List.length_eq_zero_iff, List.length_tail]
    omega
  rw [length, ← ite_not]
  simp only [← noDigit]
  rfl

end

/-! ### The lexeme at the front -/

section
variable {kind : LexemeKind} {word other text rest : List Char} {token otherToken : Token} {c : Char} {length : Nat}

theorem head?_of_starts (starts : word <+: c :: rest) (nonempty : word ≠ []) : word.head? = some c := by
  obtain ⟨tail, split⟩ := starts
  cases word with
  | nil => exact absurd rfl nonempty
  | cons =>
    cases split
    rfl

theorem eq_of_prefix_of_length_le (starts : word <+: text) (startsToo : other <+: text) (le : word.length ≤ other.length)
    (ge : other.length ≤ word.length) : word = other :=
  (List.prefix_of_prefix_length_le starts startsToo le).eq_of_length_le ge

theorem eq_of_isFront (front : IsFront kind word text token) (spells : Spells kind other otherToken)
    (starts : other <+: text) (le : word.length ≤ other.length) : word = other :=
  eq_of_prefix_of_length_le front.starts starts le (front.longest other otherToken spells starts)

theorem isFront_numeralText (digit : HasDigit text) (noPoint : (text.drop (numeralText text).length).head? ≠ some '.') :
    IsFront .numeral (numeralText text) text (.number (decimalOf text).toFloat) where
  spells := .numeral (isNumeral_numeralText digit)
  starts := numeralText_starts text
  longest := by
    intro other otherToken spells starts
    cases spells with
    | numeral isNumeral => exact (length_le_of_isNumeral isNumeral starts).2
  noPoint _ := noPoint

theorem numeral_eq_ok_iff :
    numeral text = .ok ⟨token, length⟩ ↔ ∃ word, IsFront .numeral word text token ∧ word.length = length := by
  rw [numeral_eq]
  constructor
  · intro read
    split_ifs at read with digit point
    cases read
    exact ⟨_, isFront_numeralText digit point, rfl⟩
  · rintro ⟨word, front, rfl⟩
    cases front.spells with
    | @numeral _ value isNumeral =>
      obtain ⟨digit, le⟩ := length_le_of_isNumeral isNumeral front.starts
      have taken := isNumeral_numeralText digit
      have same := eq_of_isFront front (.numeral taken) (numeralText_starts text) le
      have noPoint := front.noPoint rfl
      rw [same] at isNumeral noPoint ⊢
      rw [if_pos digit, if_neg noPoint, eq_decimalOf_of_isNumeral isNumeral, eq_decimalOf_of_isNumeral taken]

theorem breaksOff_of_numeral {error : LexError} (starts : c.isDigit = true ∨ c = '.')
    (fails : numeral (c :: rest) = .error error) : BreaksOff (c :: rest) error := by
  rw [numeral_eq] at fails
  split_ifs at fails with digit point
  · cases fails
    have split := List.prefix_iff_eq_append.mp (numeralText_starts (c :: rest))
    obtain ⟨after, follows⟩ := List.head?_eq_some_iff.mp point
    rw [follows] at split
    have isNumeral := isNumeral_numeralText digit
    exact ⟨_, after, split.symm, rfl, .pointBehind isNumeral List.suffix_rfl, .inr ⟨_, isNumeral⟩⟩
  · cases fails
    have point : c = '.' := by
      refine starts.resolve_left fun isDigit => digit (.inl ?_)
      simp [digits, isDigit]
    subst point
    exact ⟨[], rest, rfl, rfl, .lonePoint fun word value isNumeral starts =>
      digit (length_le_of_isNumeral isNumeral starts).1, .inl rfl⟩

theorem exists_first_of_mem_signs (member : c ∈ signs) :
    ∃ token, Spells .sign [c] token ∧ ∀ rest, first c rest = .ok ⟨token, 1⟩ := by
  simp only [signs, List.mem_cons, List.not_mem_nil, or_false] at member
  rcases member with rfl | rfl | rfl | rfl | rfl | rfl | rfl | rfl | rfl
  · exact ⟨_, .leftParen, fun _ => rfl⟩
  · exact ⟨_, .rightParen, fun _ => rfl⟩
  · exact ⟨_, .comma, fun _ => rfl⟩
  · exact ⟨_, .pi, fun _ => rfl⟩
  · exact ⟨_, .operator .add, fun _ => rfl⟩
  · exact ⟨_, .operator .subtract, fun _ => rfl⟩
  · exact ⟨_, .operator .multiply, fun _ => rfl⟩
  · exact ⟨_, .operator .divide, fun _ => rfl⟩
  · exact ⟨_, .operator .power, fun _ => rfl⟩

theorem first_of_spells_sign (spells : Spells .sign word token) :
    ∃ c, word = [c] ∧ ∀ rest, first c rest = .ok ⟨token, 1⟩ := by
  cases spells with
  | leftParen | rightParen | comma | pi => exact ⟨_, rfl, fun _ => rfl⟩
  | operator op => exact ⟨_, rfl, first_symbol op⟩

theorem isFront_letters (letter : c.isAlpha) (rest : List Char) :
    IsFront .name (c :: rest.takeWhile Char.isAlpha) (c :: rest)
      (.identifier (String.ofList (c :: rest.takeWhile Char.isAlpha))) where
  spells := .name (by simp) (List.forall_mem_cons.mpr ⟨letter, fun _ member => List.mem_takeWhile_imp member⟩)
  starts := List.prefix_cons_inj _ |>.mpr (List.takeWhile_prefix _)
  longest := by
    rintro other otherToken spells ⟨tail, split⟩
    cases spells with
    | name nonempty letters =>
      have run : (other ++ tail).takeWhile Char.isAlpha = other ++ tail.takeWhile Char.isAlpha :=
        List.takeWhile_append_of_pos letters
      rw [split, List.takeWhile_cons_of_pos letter] at run
      simp [run]
  noPoint := nofun

theorem isFront_sign (spells : Spells .sign [c] token) (rest : List Char) : IsFront .sign [c] (c :: rest) token where
  spells := spells
  starts := List.prefix_append [c] rest
  longest := by
    intro other otherToken otherSpells _
    obtain ⟨sign, rfl, -⟩ := first_of_spells_sign otherSpells
    exact Nat.le_refl 1
  noPoint := nofun

/-- A numeral starts with a digit or a point. -/
theorem starts_of_isNumeral {value : Decimal} (isNumeral : IsNumeral word value) :
    word ≠ [] ∧ ∀ c ∈ word.head?, c.isDigit = true ∨ c = '.' := by
  obtain @⟨whole, fraction, power, isDigits, isFraction, isPower, digit⟩ := isNumeral
  cases whole with
  | cons c whole => simp [isDigits c List.mem_cons_self]
  | nil =>
    cases isFraction with
    | none => simp at digit
    | point => simp

theorem first_of_numeralStart (starts : c.isDigit = true ∨ c = '.') (rest : List Char) :
    first c rest = numeral (c :: rest) := by
  rcases starts with digit | rfl
  · exact first_of_isDigit digit rest
  · rfl

/-- The lexer takes the longest lexeme of its kind. -/
theorem first_eq_ok_iff :
    first c rest = .ok ⟨token, length⟩ ↔ ∃ kind word, IsFront kind word (c :: rest) token ∧ word.length = length := by
  constructor
  · intro read
    by_cases sign : c ∈ signs
    · obtain ⟨signToken, spells, starts⟩ := exists_first_of_mem_signs sign
      rw [starts rest] at read
      cases read
      exact ⟨.sign, [c], isFront_sign spells rest, rfl⟩
    · rw [first_of_notMem_signs sign] at read
      split_ifs at read with numeralStart letter
      · obtain ⟨word, front, length⟩ := numeral_eq_ok_iff.mp read
        exact ⟨.numeral, word, front, length⟩
      · cases read
        exact ⟨.name, _, isFront_letters letter rest, by simp⟩
  · rintro ⟨kind, word, front, rfl⟩
    cases kind with
    | sign =>
      obtain ⟨sign, rfl, starts⟩ := first_of_spells_sign front.spells
      obtain ⟨rfl, -⟩ := List.cons_prefix_cons.mp front.starts
      exact starts rest
    | name =>
      have letter : c.isAlpha := by
        cases front.spells with
        | name nonempty letters => exact letters c (List.mem_of_mem_head? (head?_of_starts front.starts nonempty))
      have run := isFront_letters letter rest
      have same := eq_of_isFront front run.spells run.starts (run.longest word token front.spells front.starts)
      rw [first_of_isAlpha letter, same]
      cases same ▸ front.spells with
      | name => rfl
    | numeral =>
      have starts : c.isDigit = true ∨ c = '.' := by
        cases front.spells with
        | numeral isNumeral =>
          obtain ⟨nonempty, starts⟩ := starts_of_isNumeral isNumeral
          exact starts c (head?_of_starts front.starts nonempty)
      rw [first_of_numeralStart starts, numeral_eq_ok_iff]
      exact ⟨word, front, rfl⟩

/-- No lexeme starts with a blank. -/
theorem visible_of_first {lexeme : Lexeme} (read : first c rest = .ok lexeme) : isBlank c = false := by
  cases blank : isBlank c with
  | false => rfl
  | true =>
    have member := isBlank_iff.mp blank
    have apart : blanks.all (fun c => !signs.contains c && c != '.') = true := by decide
    have other : c ∉ signs ∧ c ≠ '.' := by simpa using List.all_eq_true.mp apart c member
    have noWord : c.isDigit = false ∧ c.isAlpha = false := by simpa using isWord_of_mem_blanks member
    rw [first_of_notMem_signs other.1] at read
    simp [noWord, other.2] at read

theorem breaksOff_of_first {error : LexError} (visible : isBlank c = false) (fails : first c rest = .error error) :
    BreaksOff (c :: rest) error := by
  by_cases sign : c ∈ signs
  · obtain ⟨token, -, starts⟩ := exists_first_of_mem_signs sign
    cases (starts rest).symm.trans fails
  · rw [first_of_notMem_signs sign] at fails
    split_ifs at fails with numeralStart letter
    · exact breaksOff_of_numeral (by simpa using numeralStart) fails
    · cases fails
      have other : c.isDigit = false ∧ c ≠ '.' := by simpa using numeralStart
      exact ⟨[], rest, rfl, rfl, .foreign ⟨visible, sign, other.1, by simpa using letter, other.2⟩, .inl rfl⟩

end

end Lexeme

end GraphingCalculator
