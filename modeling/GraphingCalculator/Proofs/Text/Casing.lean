import GraphingCalculator.Text.Blank
import GraphingCalculator.Text.Lowercase
import Mathlib.Data.List.Basic

/-!
The lower case of parts of a text. Only a capital sigma looks at its neighbours, and no look goes past a
blank, so what stands on both sides of blanks is put into lower case by itself (`lower_blanks`). Without
a capital sigma each character is (`lower_eq_flatMap`).
-/

namespace GraphingCalculator.Lowercase

/-! ### Blanks -/

/-- A blank ends words and stays what it is. -/
structure EndsWords (c : Char) : Prop where
  noCase : isCased c = false
  notIgnorable : isCaseIgnorable c = false
  noSigma : c ≠ 'Σ'
  same : lowerChar c = [c]

theorem endsWords_of_isBlank {c : Char} (blank : isBlank c = true) : EndsWords c := by
  have all : blanks.all (fun c => !isCased c && !isCaseIgnorable c && c != 'Σ' && lowerChar c == [c]) = true := by
    decide +kernel
  have facts := List.all_eq_true.mp all c (isBlank_iff.mp blank)
  simp only [Bool.and_eq_true, Bool.not_eq_true', bne_iff_ne, beq_iff_eq] at facts
  obtain ⟨⟨⟨noCase, notIgnorable⟩, noSigma⟩, same⟩ := facts
  exact ⟨noCase, notIgnorable, noSigma, same⟩

section
variable {inWord : Bool} {front back gap text found : List Char} {c : Char}

theorem lowerFrom_eq_append (inWord : Bool) (found text : List Char) :
    lowerFrom inWord found text = found.reverse ++ lowerFrom inWord [] text := by
  induction text generalizing inWord found with
  | nil => simp [lowerFrom]
  | cons c rest ih =>
    simp only [lowerFrom]
    generalize (if c = 'Σ' then _ else lowerChar c) = small
    rw [ih _ (small.reverse ++ found), ih _ (small.reverse ++ [])]
    simp

/-- The lower case of the first character, and of the rest behind it. -/
theorem lowerFrom_cons (inWord : Bool) (c : Char) (rest : List Char) :
    lowerFrom inWord [] (c :: rest) =
      (if c = 'Σ' then [if inWord && !startsCased rest then 'ς' else 'σ'] else lowerChar c) ++
        lowerFrom (if isCaseIgnorable c then inWord else isCased c) [] rest := by
  rw [lowerFrom]
  rw [lowerFrom_eq_append]
  simp

theorem lowerFrom_cons_of_endsWords (ends : EndsWords c) (inWord : Bool) (rest : List Char) :
    lowerFrom inWord [] (c :: rest) = c :: lowerFrom false [] rest := by
  rw [lowerFrom_cons, if_neg ends.noSigma, ends.same, ends.notIgnorable, ends.noCase]
  rfl

theorem startsCased_append_of_endsWords (ends : EndsWords c) (text tail : List Char) :
    startsCased (text ++ c :: tail) = startsCased text := by
  induction text with
  | nil => simp [startsCased, ends.notIgnorable, ends.noCase]
  | cons d text ih =>
    by_cases passed : isCaseIgnorable d
    · simpa [startsCased, passed] using ih
    · simp [startsCased, passed]

/-- What stands on both sides of such a character is put into lower case by itself. -/
theorem lowerFrom_append_of_endsWords (ends : EndsWords c) (inWord : Bool) (front back : List Char) :
    lowerFrom inWord [] (front ++ c :: back) = lowerFrom inWord [] front ++ c :: lower back := by
  induction front generalizing inWord with
  | nil => exact lowerFrom_cons_of_endsWords ends inWord back
  | cons d front ih =>
    rw [List.cons_append, lowerFrom_cons, lowerFrom_cons, startsCased_append_of_endsWords ends, ih, List.append_assoc]

theorem lower_blanks_append (blank : ∀ c ∈ gap, isBlank c = true) (back : List Char) :
    lower (gap ++ back) = gap ++ lower back := by
  induction gap with
  | nil => rfl
  | cons c gap ih =>
    obtain ⟨first, others⟩ := List.forall_mem_cons.mp blank
    have step := lowerFrom_cons_of_endsWords (endsWords_of_isBlank first) false (gap ++ back)
    rw [List.cons_append, List.cons_append, ← ih others]
    exact step

/-- What stands on both sides of blanks is put into lower case by itself. -/
theorem lower_blanks (blank : ∀ c ∈ gap, isBlank c = true) (nonempty : gap ≠ []) (front back : List Char) :
    lower (front ++ (gap ++ back)) = lower front ++ (gap ++ lower back) := by
  obtain ⟨c, gap, rfl⟩ := List.exists_cons_of_ne_nil nonempty
  obtain ⟨first, others⟩ := List.forall_mem_cons.mp blank
  rw [List.cons_append, List.cons_append, ← lower_blanks_append others]
  exact lowerFrom_append_of_endsWords (endsWords_of_isBlank first) false front (gap ++ back)

/-! ### Characters by themselves -/

theorem lowerFrom_eq_flatMap (noSigma : 'Σ' ∉ text) (inWord : Bool) :
    lowerFrom inWord [] text = text.flatMap lowerChar := by
  induction text generalizing inWord with
  | nil => rfl
  | cons c rest ih =>
    obtain ⟨other, noSigmaRest⟩ := List.ne_and_not_mem_of_not_mem_cons noSigma
    rw [lowerFrom_cons, if_neg (Ne.symm other), ih noSigmaRest, List.flatMap_cons]

/-- Without a capital sigma each character has its lower case by itself. -/
theorem lower_eq_flatMap (noSigma : 'Σ' ∉ text) : lower text = text.flatMap lowerChar :=
  lowerFrom_eq_flatMap noSigma false

theorem toNat_lt_of_isAlphanum {c : Char} (word : c.isAlphanum = true) : c.toNat < 128 := by
  have ranges : (decide (c.val ≥ 'A'.val ∧ c.val ≤ 'Z'.val) || (c.val ≥ 'a'.val && c.val ≤ 'z'.val) ||
      (c.val ≥ '0'.val && c.val ≤ '9'.val)) = true := word
  simp only [Bool.or_eq_true, Bool.and_eq_true, decide_eq_true_eq] at ranges
  rcases ranges with (range | range) | range
  all_goals exact Nat.lt_of_le_of_lt (UInt32.le_iff_toNat_le.mp range.2) (by decide)

theorem toNat_lt_of_isLower {c : Char} (small : c.isLower = true) : c.toNat < 128 := by
  refine toNat_lt_of_isAlphanum ?_
  show (c.isUpper || c.isLower || c.isDigit) = true
  rw [small, Bool.or_true, Bool.true_or]

theorem toNat_lt_of_toLower {c : Char} (ascii : c.toLower.toNat < 128) : c.toNat < 128 := by
  unfold Char.toLower at ascii
  split at ascii
  · next capital => exact Nat.lt_of_le_of_lt (UInt32.le_iff_toNat_le.mp capital.2) (by decide)
  · exact ascii

theorem lowerChar_of_lt {c : Char} (ascii : c.toNat < 128) : lowerChar c = [c.toLower] :=
  if_pos ascii

/-- The lower case of a text with characters of one byte only. -/
theorem lower_eq_map (ascii : ∀ c ∈ text, c.toNat < 128) : lower text = text.map Char.toLower := by
  have noSigma : 'Σ' ∉ text := fun member => absurd (ascii _ member) (by decide)
  rw [lower_eq_flatMap noSigma, List.map_eq_flatMap]
  exact List.flatMap_congr fun c member => lowerChar_of_lt (ascii c member)

/-- A text of characters that are their own lower case. -/
theorem lower_eq_self (small : ∀ c ∈ text, c ≠ 'Σ' ∧ lowerChar c = [c]) : lower text = text := by
  rw [lower_eq_flatMap fun member => (small _ member).1 rfl]
  calc text.flatMap lowerChar
    _ = text.flatMap fun c => [c] := List.flatMap_congr fun c member => (small c member).2
    _ = text := List.flatMap_singleton' text

end

end GraphingCalculator.Lowercase
