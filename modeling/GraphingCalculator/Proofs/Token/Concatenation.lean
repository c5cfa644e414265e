import GraphingCalculator.Proofs.Token.Partition

/-!
Texts with a blank between them. No lexeme reaches over a blank (`Lexeme.first_append`), so the lexer
does with the first text what it does with it alone, and then with the second text what it does with it
alone, only further to the right (`lex_append`).
-/

namespace GraphingCalculator

/-- A character with which no lexeme goes on. -/
structure EndsLexemes (c : Char) : Prop where
  noDigit : c.isDigit = false
  noLetter : c.isAlpha = false
  noPoint : c ≠ '.'

theorem endsLexemes_of_isBlank {c : Char} (blank : isBlank c = true) : EndsLexemes c := by
  have noWord : c.isDigit = false ∧ c.isAlpha = false := by simpa using isWord_of_mem_blanks (isBlank_iff.mp blank)
  refine ⟨noWord.1, noWord.2, ?_⟩
  rintro rfl
  cases blank

namespace Lexeme

theorem takeWhile_append_of_stop {p : Char → Bool} {gap : Char} (stops : p gap = false) (text tail : List Char) :
    (text ++ gap :: tail).takeWhile p = text.takeWhile p := by
  induction text with
  | nil => simp [stops]
  | cons c text ih => simp only [List.cons_append, List.takeWhile_cons, ih]

section
variable {gap : Char} (ends : EndsLexemes gap) (text tail : List Char)
include ends

theorem digits_append_of_ends : digits (text ++ gap :: tail) = digits text :=
  takeWhile_append_of_stop ends.noDigit text tail

theorem pointed_append_of_ends : pointed (text ++ gap :: tail) = pointed text := by
  cases text with
  | nil =>
    unfold pointed
    split
    case h_1 split => exact absurd (List.cons.inj split).1 ends.noPoint
    case h_2 => rfl
  | cons c text =>
    by_cases point : c = '.'
    · subst point
      exact congrArg ('.' :: ·) (digits_append_of_ends ends text tail)
    · simp [pointed, point]

theorem powerOfTen_append_of_ends : powerOfTen (text ++ gap :: tail) = powerOfTen text := by
  cases text with
  | nil =>
    refine if_neg fun starts => ?_
    obtain ⟨letter, -⟩ : (gap = 'e' ∨ gap = 'E') ∧ digits tail ≠ [] := by simpa using starts
    rcases letter with rfl | rfl <;> cases ends.noLetter
  | cons mark text => simp only [powerOfTen, List.cons_append, digits_append_of_ends ends text tail]

theorem fractionOf_append : fractionOf (text ++ gap :: tail) = fractionOf text := by
  have inside := (digits_starts text).length_le
  rw [fractionOf, digits_append_of_ends ends, List.drop_append_of_le_length inside, pointed_append_of_ends ends]
  rfl

theorem powerOf_append : powerOf (text ++ gap :: tail) = powerOf text := by
  have inside := (numeralText_starts text).length_le
  simp only [numeralText, List.length_append] at inside
  rw [powerOf, digits_append_of_ends ends, fractionOf_append ends, List.drop_append_of_le_length (by omega),
    powerOfTen_append_of_ends ends]
  rfl

/-- A numeral is not longer, and no point follows it that did not before. -/
theorem numeral_append_of_ends : numeral (text ++ gap :: tail) = numeral text := by
  have inside := (numeralText_starts text).length_le
  have point : ((text ++ gap :: tail).drop (numeralText text).length).head? = some '.' ↔
      (text.drop (numeralText text).length).head? = some '.' := by
    rw [List.drop_append_of_le_length inside]
    cases text.drop (numeralText text).length with
    | nil => simp [ends.noPoint]
    | cons => simp
  have taken : numeralText (text ++ gap :: tail) = numeralText text := by
    rw [numeralText, digits_append_of_ends ends, fractionOf_append ends, powerOf_append ends, numeralText]
  have value : decimalOf (text ++ gap :: tail) = decimalOf text := by
    rw [decimalOf, digits_append_of_ends ends, fractionOf_append ends, powerOf_append ends, decimalOf]
  have digit : HasDigit (text ++ gap :: tail) ↔ HasDigit text := by
    rw [HasDigit, digits_append_of_ends ends, fractionOf_append ends, HasDigit]
  simp only [numeral_eq, digit, taken, value, point]

/-- The lexeme at the front of a text does not change when such a character and anything else are put behind it. -/
theorem first_append (c : Char) : first c (text ++ gap :: tail) = first c text := by
  by_cases sign : c ∈ signs
  · obtain ⟨token, -, starts⟩ := exists_first_of_mem_signs sign
    rw [starts, starts]
  · rw [first_of_notMem_signs sign, first_of_notMem_signs sign, takeWhile_append_of_stop ends.noLetter,
      ← List.cons_append, numeral_append_of_ends ends]

end

end Lexeme

/-! ### One text behind another -/

/-- The token further to the right. -/
def PlacedToken.moved (distance : Nat) (t : PlacedToken) : PlacedToken := ⟨t.token, distance + t.position⟩

section
variable {position : Nat} {text tail : List Char} {found : List PlacedToken} {gap : Char}

/-- The lexer goes through the first text as it does alone, and goes on behind it without the end mark. -/
theorem lexFrom_append (ends : EndsLexemes gap) :
    lexFrom position (text ++ gap :: tail) found =
      lexFrom position text found >>= fun tokens =>
        lexFrom (position + text.length) (gap :: tail) tokens.dropLast.reverse := by
  fun_induction lexFrom position text found with
  | case1 position found => simp [bind, Except.bind]
  | case2 position found c rest blank ih =>
    rw [List.cons_append, lexFrom_blank blank, ih, List.length_cons, Nat.add_right_comm, Nat.add_assoc]
  | case3 position found c rest visible error fails =>
    rw [List.cons_append, lexFrom, if_neg visible, Lexeme.first_append ends, fails]
    rfl
  | case4 position found c rest visible lexeme read ih =>
    obtain ⟨kind, word, front, length⟩ := Lexeme.first_eq_ok_iff.mp read
    have positive := List.length_pos_iff.mpr front.ne_nil
    have inside := front.starts.length_le
    rw [List.length_cons] at inside
    rw [List.cons_append, lexFrom_lexeme (by simpa using visible) ((Lexeme.first_append ends rest tail c).trans read),
      List.drop_append_of_le_length (by omega), ih]
    have stop : position + lexeme.length + (rest.drop (lexeme.length - 1)).length = position + (c :: rest).length := by
      rw [List.length_drop, List.length_cons]
      omega
    rw [stop]

/-- Further to the right the lexer finds the same. -/
theorem lexFrom_moved (distance position : Nat) (text : List Char) (found : List PlacedToken) :
    lexFrom (distance + position) text (found.map (PlacedToken.moved distance)) =
      match lexFrom position text found with
      | .ok tokens => .ok (tokens.map (PlacedToken.moved distance))
      | .error error => .error ⟨distance + error.position, error.found⟩ := by
  fun_induction lexFrom position text found with
  | case1 position found => simp [lexFrom, PlacedToken.moved]
  | case2 position found c rest blank ih => rw [lexFrom_blank blank, Nat.add_assoc, ih]
  | case3 position found c rest visible error fails =>
    rw [lexFrom, if_neg visible, fails]
    simp [Nat.add_assoc]
  | case4 position found c rest visible lexeme read ih =>
    rw [lexFrom_lexeme (by simpa using visible) read, Nat.add_assoc, ← ih]
    rfl

end

section
variable {gap : String}

/-- The first text is cut first, and its end mark gives way to the tokens of the second one. -/
theorem lex_append (nonempty : gap ≠ "") (blank : ∀ c ∈ gap.toList, isBlank c = true) (first second : String) :
    lex (first ++ gap ++ second) =
      lex first >>= fun before =>
        match lex second with
        | .ok after => .ok (before.dropLast ++ after.map (PlacedToken.moved (first.length + gap.length)))
        | .error error => .error ⟨first.length + gap.length + error.position, error.found⟩ := by
  obtain ⟨c, blanks, split⟩ : ∃ c blanks, gap.toList = c :: blanks :=
    List.exists_cons_of_ne_nil (by simpa using nonempty)
  have ends := endsLexemes_of_isBlank (blank c (by simp [split]))
  have texts : (first ++ gap ++ second).toList = first.toList ++ c :: (blanks ++ second.toList) := by simp [split]
  have skip (found : List PlacedToken) : lexFrom first.length (c :: (blanks ++ second.toList)) found =
      lexFrom (first.length + gap.length) second.toList found := by
    rw [← List.cons_append, ← split, lexFrom_blanks blank, String.length_toList]
  have moved := lexFrom_moved (first.length + gap.length) 0 second.toList []
  rw [lex, texts, lexFrom_append ends, Nat.zero_add, String.length_toList]
  refine bind_congr fun before => ?_
  rw [skip, lexFrom_eq_map, List.reverse_reverse, lex]
  rw [Nat.add_zero, List.map_nil] at moved
  rw [moved]
  cases lexFrom 0 second.toList [] <;> rfl

/-- With blanks between them, two texts are cut into the tokens of the first one, without its end mark, and those of
the second one further to the right. An error in the first text is the error of the whole, and if there is none, an
error in the second one is, further to the right. -/
theorem lex_append_of_blanks (nonempty : gap ≠ "") (blank : ∀ c ∈ gap.toList, isBlank c = true) (first second : String) :
    (∀ error, lex first = .error error → lex (first ++ gap ++ second) = .error error) ∧
    (∀ before position found, lex first = .ok before → lex second = .error ⟨position, found⟩ →
      lex (first ++ gap ++ second) = .error ⟨first.length + gap.length + position, found⟩) ∧
    ∀ before after, lex first = .ok before → lex second = .ok after →
      ∃ words, before = words ++ [⟨.endOfInput, first.length⟩] ∧ (∀ t ∈ words, t.token ≠ .endOfInput) ∧
        lex (first ++ gap ++ second) =
          .ok (words ++ after.map (PlacedToken.moved (first.length + gap.length))) := by
  rw [lex_append nonempty blank]
  refine ⟨fun error fails => ?_, fun before position found cut fails => ?_, fun before after cut cutToo => ?_⟩
  · rw [fails]
    rfl
  · rw [cut, fails]
    rfl
  · obtain ⟨words, cuts, rfl⟩ := lex_eq_ok_iff.mp cut
    refine ⟨words.map Word.placed, rfl, List.forall_mem_map.mpr fun word member => ?_, ?_⟩
    · obtain ⟨kind, front⟩ := cuts.isFront word member
      exact front.spells.ne_endOfInput
    · rw [cut, cutToo]
      simp [bind, Except.bind]

/-- `a` and `π#`, two blanks apart. -/
theorem lex_append_of_blanks_foreign :
    (" \t" ≠ "" ∧ ∀ c ∈ " \t".toList, isBlank c = true) ∧
      lex "a" = .ok [⟨.identifier "a", 0⟩, ⟨.endOfInput, 1⟩] ∧ lex "π#" = .error ⟨1, '#'⟩ ∧
      lex ("a" ++ " \t" ++ "π#") = .error ⟨1 + 2 + 1, '#'⟩ := by
  have nonempty : " \t" ≠ "" := by decide
  have blank : ∀ c ∈ " \t".toList, isBlank c = true := List.all_eq_true.mp (by decide)
  have cut : lex "a" = .ok [⟨.identifier "a", 0⟩, ⟨.endOfInput, 1⟩] := by cbv
  have fails : lex "π#" = .error ⟨1, '#'⟩ := by cbv
  exact ⟨⟨nonempty, blank⟩, cut, fails, (lex_append_of_blanks nonempty blank "a" "π#").2.1 _ _ _ cut fails⟩

end

end GraphingCalculator
