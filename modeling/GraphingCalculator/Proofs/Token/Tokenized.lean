import GraphingCalculator.Proofs.Token.Partition

/-!
The tokens of a text without their places. A text is read word by word from the left (`Tokenized`), which is what the
lexer does (`tokenized_of_lex`, `exists_lex_of_tokenized`). What a text starts with shows in its first token
(`Tokenized.of_letters`, `Tokenized.of_numeralStart`), and a lexeme is the longest one in front of any text that does
not go on with it (`isFront_name`, `isFront_numeral`).
-/

namespace GraphingCalculator

/-- The text is cut into these tokens, wherever they stand. -/
inductive Tokenized : List Char → List Token → Prop
  | nil : Tokenized [] []
  | blank {c rest tokens} : isBlank c = true → Tokenized rest tokens → Tokenized (c :: rest) tokens
  | word {kind word rest token tokens} : IsFront kind word (word ++ rest) token → Tokenized rest tokens →
      Tokenized (word ++ rest) (token :: tokens)

section
variable {text rest word : List Char} {token : Token} {tokens : List Token} {c : Char}

theorem Tokenized.ne_endOfInput (tokenized : Tokenized text tokens) : ∀ token ∈ tokens, token ≠ .endOfInput := by
  induction tokenized with
  | nil => simp
  | blank _ _ ih => exact ih
  | word front _ ih => exact List.forall_mem_cons.mpr ⟨front.spells.ne_endOfInput, ih⟩

/-! ### Characters -/

/-- The characters of a numeral. -/
def isNumeralChar (c : Char) : Bool := c.isDigit || c == '.' || c == 'e' || c == 'E'

theorem isNumeralChar_of_isNumeral {value : Decimal} (isNumeral : IsNumeral word value) :
    ∀ c ∈ word, isNumeralChar c = true := by
  obtain @⟨whole, fraction, power, isDigits, isFraction, isPower, -⟩ := isNumeral
  refine List.forall_mem_append.mpr ⟨fun c member => ?_, List.forall_mem_append.mpr ⟨?_, ?_⟩⟩
  · simp [isNumeralChar, isDigits c member]
  · cases isFraction with
    | none => simp
    | point isDigits => exact List.forall_mem_cons.mpr ⟨rfl, fun c member => by simp [isNumeralChar, isDigits c member]⟩
  · cases isPower with
    | none => simp
    | mark letter _ isDigits =>
      refine List.forall_mem_cons.mpr ⟨?_, fun c member => by simp [isNumeralChar, isDigits c member]⟩
      rcases letter with rfl | rfl <;> rfl

/-- The last character of a numeral is no letter. -/
theorem getLast_of_isNumeral {value : Decimal} (isNumeral : IsNumeral word value) :
    ∀ c ∈ word.getLast?, c.isDigit = true ∨ c = '.' := by
  obtain @⟨whole, fraction, power, isDigits, isFraction, isPower, digit⟩ := isNumeral
  intro c last
  cases isPower with
  | @mark mark digits _ nonempty isDigits =>
    rw [← List.append_assoc, List.getLast?_append_of_ne_nil _ (by simp), List.getLast?_cons_of_ne_nil nonempty] at last
    exact .inl (isDigits c (List.mem_of_getLast? last))
  | none =>
    rw [List.append_nil] at last
    cases isFraction with
    | none =>
      rw [List.append_nil] at last
      exact .inl (isDigits c (List.mem_of_getLast? last))
    | @point digits isDigits =>
      rw [List.getLast?_append_of_ne_nil _ (by simp)] at last
      rcases List.mem_cons.mp (List.mem_of_getLast? last) with point | member
      · exact .inr point
      · exact .inl (isDigits c member)

theorem Spells.not_isForeign {kind : LexemeKind} (spells : Spells kind word token) : ∀ c ∈ word, ¬ IsForeign c := by
  intro c member foreign
  cases spells with
  | name _ letters =>
    have letter := letters c member
    rw [foreign.noLetter] at letter
    cases letter
  | numeral isNumeral =>
    have char := isNumeralChar_of_isNumeral isNumeral c member
    have noMark : c ≠ 'e' ∧ c ≠ 'E' := ⟨fun same => by simpa [same] using foreign.noLetter,
      fun same => by simpa [same] using foreign.noLetter⟩
    simp [isNumeralChar, foreign.noDigit, foreign.noPoint, noMark] at char
  | operator op =>
    obtain rfl := List.mem_singleton.mp member
    exact foreign.noSign (by cases op <;> decide)
  | _ =>
    obtain rfl := List.mem_singleton.mp member
    exact foreign.noSign (by decide)

theorem Spells.visible {kind : LexemeKind} (spells : Spells kind word token) : ∀ c ∈ word, isBlank c = false := by
  intro c member
  cases spells with
  | name _ letters => exact isBlank_eq_false (by simp [letters c member])
  | numeral isNumeral =>
    have char := isNumeralChar_of_isNumeral isNumeral c member
    simp only [isNumeralChar, Bool.or_eq_true, beq_iff_eq] at char
    rcases char with ((digit | rfl) | rfl) | rfl
    · exact isBlank_eq_false (by simp [digit])
    all_goals rfl
  | operator op =>
    obtain rfl := List.mem_singleton.mp member
    cases op <;> rfl
  | _ =>
    obtain rfl := List.mem_singleton.mp member
    rfl

/-- All characters of such a text are blank or part of lexemes. -/
theorem Tokenized.not_isForeign (tokenized : Tokenized text tokens) : ∀ c ∈ text, ¬ IsForeign c := by
  induction tokenized with
  | nil => simp
  | blank blank _ ih =>
    refine List.forall_mem_cons.mpr ⟨fun foreign => ?_, ih⟩
    have visible := foreign.visible
    rw [blank] at visible
    cases visible
  | word front _ ih => exact List.forall_mem_append.mpr ⟨front.spells.not_isForeign, ih⟩

/-! ### What the lexer does -/

/-- At a word the lexer takes this word. -/
theorem IsFront.first {kind : LexemeKind} {letters : List Char} (front : IsFront kind (c :: letters) (c :: rest) token) :
    Lexeme.first c rest = .ok ⟨token, letters.length + 1⟩ :=
  Lexeme.first_eq_ok_iff.mpr ⟨kind, c :: letters, front, rfl⟩

theorem tokenized_of_lexFrom {position : Nat} {found placed : List PlacedToken}
    (cut : lexFrom position text found = .ok placed) :
    ∃ words last, placed = found.reverse ++ (words ++ [⟨.endOfInput, last⟩]) ∧
      Tokenized text (words.map PlacedToken.token) := by
  fun_induction lexFrom position text found with
  | case1 position found =>
    cases cut
    exact ⟨[], position, by simp, .nil⟩
  | case2 position found c rest blank ih =>
    obtain ⟨words, last, split, tokenized⟩ := ih cut
    exact ⟨words, last, split, .blank blank tokenized⟩
  | case3 => cases cut
  | case4 position found c rest visible lexeme read ih =>
    obtain ⟨words, last, split, tokenized⟩ := ih cut
    obtain ⟨kind, word, front, length⟩ := Lexeme.first_eq_ok_iff.mp read
    obtain ⟨d, letters, rfl⟩ := List.exists_cons_of_ne_nil front.ne_nil
    obtain ⟨behind, follows⟩ := front.starts
    obtain ⟨rfl, rfl⟩ := List.cons.inj follows
    rw [← length, List.length_cons, Nat.add_sub_cancel, List.append_eq, List.drop_left] at tokenized
    exact ⟨⟨lexeme.token, position⟩ :: words, last, by simpa using split, .word front tokenized⟩

theorem tokenized_of_lex {source : String} {placed : List PlacedToken} (cut : lex source = .ok placed) :
    ∃ words last, placed = words ++ [⟨.endOfInput, last⟩] ∧ Tokenized source.toList (words.map PlacedToken.token) :=
  tokenized_of_lexFrom cut

theorem exists_lexFrom_of_tokenized (tokenized : Tokenized text tokens) (position : Nat) (found : List PlacedToken) :
    ∃ words last, words.map PlacedToken.token = tokens ∧
      lexFrom position text found = .ok (found.reverse ++ (words ++ [⟨.endOfInput, last⟩])) := by
  induction tokenized generalizing position found with
  | nil => exact ⟨[], position, rfl, by simp [lexFrom]⟩
  | blank blank _ ih =>
    obtain ⟨words, last, same, cut⟩ := ih (position + 1) found
    exact ⟨words, last, same, (lexFrom_blank blank).trans cut⟩
  | @word kind word rest token tokens front _ ih =>
    obtain ⟨words, last, rfl, cut⟩ := ih (position + word.length) (⟨token, position⟩ :: found)
    obtain ⟨c, letters, rfl⟩ := List.exists_cons_of_ne_nil front.ne_nil
    have read : Lexeme.first c (letters ++ rest) = .ok ⟨token, letters.length + 1⟩ := front.first
    refine ⟨⟨token, position⟩ :: words, last, rfl, ?_⟩
    rw [List.cons_append, lexFrom_lexeme (Lexeme.visible_of_first read) read]
    simpa using cut

theorem exists_lex_of_tokenized {source : String} (tokenized : Tokenized source.toList tokens) :
    ∃ words last, words.map PlacedToken.token = tokens ∧ lex source = .ok (words ++ [⟨.endOfInput, last⟩]) :=
  exists_lexFrom_of_tokenized tokenized 0 []

/-! ### The front of a text -/

/-- The first token of a text that does not start with a blank. -/
theorem Tokenized.first (tokenized : Tokenized (c :: rest) tokens) (visible : isBlank c = false) :
    ∃ token length tail, Lexeme.first c rest = .ok ⟨token, length + 1⟩ ∧ tokens = token :: tail ∧
      Tokenized (rest.drop length) tail := by
  generalize split : c :: rest = text at tokenized
  cases tokenized with
  | nil => cases split
  | blank blank =>
    cases split
    rw [visible] at blank
    cases blank
  | @word kind word behind token tail front tokenized =>
    obtain ⟨d, letters, rfl⟩ := List.exists_cons_of_ne_nil front.ne_nil
    rw [List.cons_append] at split
    cases split
    refine ⟨token, letters.length, tail, front.first, rfl, ?_⟩
    rwa [List.drop_left]

theorem Tokenized.of_blank (tokenized : Tokenized (c :: rest) tokens) (blank : isBlank c = true) :
    Tokenized rest tokens := by
  generalize split : c :: rest = text at tokenized
  cases tokenized with
  | nil => cases split
  | blank _ tokenized =>
    cases split
    exact tokenized
  | word front =>
    obtain ⟨d, letters, rfl⟩ := List.exists_cons_of_ne_nil front.ne_nil
    rw [List.cons_append] at split
    cases split
    have visible := Lexeme.visible_of_first front.first
    rw [blank] at visible
    cases visible

/-- A text that starts with a letter starts with a name. -/
theorem Tokenized.of_isAlpha (tokenized : Tokenized (c :: rest) tokens) (letter : c.isAlpha) :
    ∃ tail, tokens = .identifier (String.ofList (c :: rest.takeWhile Char.isAlpha)) :: tail ∧
      Tokenized (rest.dropWhile Char.isAlpha) tail := by
  obtain ⟨token, length, tail, read, rfl, behind⟩ := tokenized.first (isBlank_eq_false (by simp [letter]))
  rw [Lexeme.first_of_isAlpha letter] at read
  cases read
  have run := List.prefix_iff_eq_append.mp (List.takeWhile_prefix (l := rest) Char.isAlpha)
  rw [List.append_cancel_left (run.trans List.takeWhile_append_dropWhile.symm)] at behind
  exact ⟨tail, rfl, behind⟩

/-- Letters at the front of a text are the front of a name. -/
theorem Tokenized.of_letters (tokenized : Tokenized text tokens) (nonempty : word ≠ [])
    (letters : ∀ c ∈ word, c.isAlpha) (starts : word <+: text) :
    ∃ name tail, tokens = .identifier name :: tail ∧ word <+: name.toList := by
  obtain ⟨c, word, rfl⟩ := List.exists_cons_of_ne_nil nonempty
  obtain ⟨first, others⟩ := List.forall_mem_cons.mp letters
  obtain ⟨rest, rfl⟩ := starts
  obtain ⟨tail, rfl, -⟩ := tokenized.of_isAlpha first
  refine ⟨_, tail, rfl, ?_⟩
  rw [String.toList_ofList, List.append_eq, List.cons_prefix_cons, List.takeWhile_append_of_pos others]
  exact ⟨rfl, List.prefix_append _ _⟩

/-- A text that starts with a digit or a point starts with a number. -/
theorem Tokenized.of_numeralStart (tokenized : Tokenized (c :: rest) tokens) (starts : c.isDigit = true ∨ c = '.') :
    ∃ value tail, tokens = .number value :: tail := by
  have visible : isBlank c = false := by
    rcases starts with digit | rfl
    · exact isBlank_eq_false (by simp [digit])
    · decide
  obtain ⟨token, length, tail, read, rfl, -⟩ := tokenized.first visible
  rw [Lexeme.first_of_numeralStart starts] at read
  obtain ⟨word, front, -⟩ := Lexeme.numeral_eq_ok_iff.mp read
  cases front.spells with
  | numeral => exact ⟨_, tail, rfl⟩

/-! ### Lexemes in front of other texts -/

/-- A name does not go on behind the longest one. -/
theorem IsFront.isAlpha_eq_false (front : IsFront .name word (word ++ rest) token) :
    ∀ c ∈ rest.head?, c.isAlpha = false := by
  intro c head
  obtain ⟨tail, rfl⟩ := List.head?_eq_some_iff.mp head
  refine Bool.eq_false_iff.mpr fun letter => ?_
  cases front.spells with
  | name nonempty letters =>
    have longer : ∀ d ∈ word ++ [c], d.isAlpha := by simpa [or_imp, forall_and] using ⟨letters, letter⟩
    have le := front.longest _ _ (.name (by simp) longer) ⟨tail, by simp⟩
    simp at le

theorem isFront_name (nonempty : word ≠ []) (letters : ∀ c ∈ word, c.isAlpha)
    (ends : ∀ c ∈ rest.head?, c.isAlpha = false) :
    IsFront .name word (word ++ rest) (.identifier (String.ofList word)) := by
  obtain ⟨c, word, rfl⟩ := List.exists_cons_of_ne_nil nonempty
  obtain ⟨first, others⟩ := List.forall_mem_cons.mp letters
  have run : (word ++ rest).takeWhile Char.isAlpha = word := by
    rw [List.takeWhile_append_of_pos others]
    cases rest with
    | nil => simp
    | cons next rest => simp [ends next rfl]
  have front := Lexeme.isFront_letters first (word ++ rest)
  rwa [run] at front

theorem isFront_numeral {value : Decimal} (isNumeral : IsNumeral word value) (ends : Lexeme.EndsNumerals rest) :
    IsFront .numeral word (word ++ rest) (.number value.toFloat) where
  spells := .numeral isNumeral
  starts := List.prefix_append word rest
  longest := by
    intro other otherToken spells starts
    cases spells with
    | numeral isOther =>
      have le := (Lexeme.length_le_of_isNumeral isOther starts).2
      rwa [Lexeme.numeralText_append isNumeral ends] at le
  noPoint _ := by
    rw [List.drop_left]
    exact ends.noPoint

end

end GraphingCalculator
