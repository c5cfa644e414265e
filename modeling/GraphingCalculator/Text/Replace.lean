/-!
Replacing a phrase in a text. Main statements: where the phrase stands at the front, its replacement
takes its place and the rest follows (`replaceAll_append`); where it does not, one character is kept
(`replaceAll_cons`).
-/

namespace GraphingCalculator

/-- Goes through a text from the left and puts `replacement` for each occurrence of `phrase` that
does not overlap the one before. The first `covered` characters belong to an occurrence that has
been replaced already, and the result so far comes in the reverse of its order. -/
def replaceFrom (phrase replacement : List Char) (covered : Nat) (found : List Char) :
    List Char → List Char
  | [] => found.reverse
  | c :: rest =>
    match covered with
    | covered + 1 => replaceFrom phrase replacement covered found rest
    | 0 =>
      if phrase.isPrefixOf (c :: rest) then
        replaceFrom phrase replacement (phrase.length - 1) (replacement.reverse ++ found) rest
      else replaceFrom phrase replacement 0 (c :: found) rest

/-- The text with every occurrence of a phrase replaced. The phrase must not be empty. -/
def replaceAll (phrase replacement text : List Char) : List Char :=
  replaceFrom phrase replacement 0 [] text

theorem replaceFrom_eq_append (phrase replacement found text : List Char) (covered : Nat) :
    replaceFrom phrase replacement covered found text =
      found.reverse ++ replaceFrom phrase replacement covered [] text := by
  induction text generalizing covered found with
  | nil => simp [replaceFrom]
  | cons c rest ih =>
    cases covered with
    | succ covered => simp only [replaceFrom]; exact ih found covered
    | zero =>
      simp only [replaceFrom]
      split
      · rw [ih (replacement.reverse ++ found), ih (replacement.reverse ++ [])]; simp
      · rw [ih (c :: found), ih [c]]; simp

theorem replaceFrom_eq_drop (phrase replacement text : List Char) (covered : Nat) :
    replaceFrom phrase replacement covered [] text =
      replaceAll phrase replacement (text.drop covered) := by
  induction text generalizing covered with
  | nil => simp [replaceAll, replaceFrom]
  | cons c rest ih =>
    cases covered with
    | zero => rfl
    | succ covered => simpa [replaceFrom] using ih covered

@[simp]
theorem replaceAll_nil (phrase replacement : List Char) :
    replaceAll phrase replacement [] = [] := rfl

theorem replaceAll_cons {phrase : List Char} (replacement : List Char) {c : Char}
    {rest : List Char} (absent : ¬ phrase <+: c :: rest) :
    replaceAll phrase replacement (c :: rest) = c :: replaceAll phrase replacement rest := by
  have front : phrase.isPrefixOf (c :: rest) = false :=
    Bool.eq_false_iff.mpr fun h => absent <| List.isPrefixOf_iff_prefix.mp h
  simp only [replaceAll, replaceFrom, front]
  exact replaceFrom_eq_append phrase replacement [c] rest 0

theorem replaceAll_append {phrase : List Char} (replacement rest : List Char)
    (nonempty : phrase ≠ []) :
    replaceAll phrase replacement (phrase ++ rest) =
      replacement ++ replaceAll phrase replacement rest := by
  obtain ⟨c, tail, rfl⟩ := List.exists_cons_of_ne_nil nonempty
  have front : (c :: tail).isPrefixOf (c :: (tail ++ rest)) = true := by
    simp [ List.isPrefixOf_iff_prefix]
  rw [List.cons_append]
  conv => lhs; simp only [replaceAll, replaceFrom, front, if_true]
  rw [replaceFrom_eq_append, replaceFrom_eq_drop]
  simp

end GraphingCalculator
