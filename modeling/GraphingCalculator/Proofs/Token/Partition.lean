import GraphingCalculator.Proofs.Token.Lexemes

/-!
How a text is cut into words. Between the words there are only blanks, and each word is the longest
lexeme of its kind where it starts (`CutsFrom`). The lexer finds the words whenever there are such
words, and it stops at the first character that fits into none (`lex_cuts_into_longest`).
-/

namespace GraphingCalculator

/-- A part of a text that is a token. -/
structure Word where
  start : Nat
  chars : List Char
  token : Token

namespace Word

/-- The place right behind the word. -/
def stop (word : Word) : Nat := word.start + word.chars.length

/-- The token at the place of the word. -/
def placed (word : Word) : PlacedToken := ⟨word.token, word.start⟩

/-- The character at the place belongs to the word. -/
def Covers (word : Word) (place : Nat) : Prop := word.start ≤ place ∧ place < word.stop

end Word

/-- The words cut the text from the position on: they follow one another, each is the longest lexeme of its
kind where it starts, and all characters outside of them are blank. -/
structure CutsFrom (text : List Char) (position : Nat) (words : List Word) : Prop where
  behind : ∀ word ∈ words, position ≤ word.start
  ordered : words.Pairwise fun word next => word.stop ≤ next.start
  isFront : ∀ word ∈ words, ∃ kind, IsFront kind word.chars (text.drop word.start) word.token
  blank : ∀ place c, position ≤ place → text[place]? = some c → (∀ word ∈ words, ¬ word.Covers place) →
    isBlank c = true

section
variable {text : List Char} {position : Nat} {word : Word} {words : List Word}

theorem cutsFrom_nil_iff :
    CutsFrom text position [] ↔ ∀ place c, position ≤ place → text[place]? = some c → isBlank c = true := by
  constructor
  · intro cuts place c le here
    exact cuts.blank place c le here (by simp)
  · intro blank
    exact ⟨by simp, .nil, by simp, fun place c le here _ => blank place c le here⟩

/-- Words are cut off one after the other. -/
theorem cutsFrom_cons_iff :
    CutsFrom text position (word :: words) ↔
      position ≤ word.start ∧
      (∀ place c, position ≤ place → place < word.start → text[place]? = some c → isBlank c = true) ∧
      (∃ kind, IsFront kind word.chars (text.drop word.start) word.token) ∧ CutsFrom text word.stop words := by
  constructor
  · intro cuts
    obtain ⟨before, ordered⟩ := List.pairwise_cons.mp cuts.ordered
    obtain ⟨isFront, frontRest⟩ := List.forall_mem_cons.mp cuts.isFront
    refine ⟨cuts.behind word List.mem_cons_self, fun place c le lt here => ?_, isFront, before, ordered, frontRest,
      fun place c le here uncovered => ?_⟩
    · refine cuts.blank place c le here (List.forall_mem_cons.mpr ⟨?_, fun next member => ?_⟩)
      · rintro ⟨inside, -⟩
        omega
      · rintro ⟨inside, -⟩
        have := before next member
        simp only [Word.stop] at this
        omega
    · have := cuts.behind word List.mem_cons_self
      refine cuts.blank place c ?_ here (List.forall_mem_cons.mpr ⟨?_, uncovered⟩)
      · simp only [Word.stop] at le
        omega
      · rintro ⟨-, inside⟩
        omega
  · rintro ⟨le, blank, isFront, cuts⟩
    refine ⟨List.forall_mem_cons.mpr ⟨le, fun next member => ?_⟩, List.pairwise_cons.mpr ⟨cuts.behind, cuts.ordered⟩,
      List.forall_mem_cons.mpr ⟨isFront, cuts.isFront⟩, fun place c atLeast here uncovered => ?_⟩
    · have := cuts.behind next member
      simp only [Word.stop] at this
      omega
    · obtain ⟨notHere, notLater⟩ := List.forall_mem_cons.mp uncovered
      by_cases lt : place < word.start
      · exact blank place c atLeast lt here
      · refine cuts.blank place c ?_ here notLater
        by_contra inside
        exact notHere ⟨Nat.not_lt.mp lt, Nat.not_le.mp inside⟩

/-- A blank in front changes nothing. -/
theorem CutsFrom.of_blank (cuts : CutsFrom text (position + 1) words)
    (blank : ∀ c, text[position]? = some c → isBlank c = true) : CutsFrom text position words where
  behind word member := Nat.le_of_succ_le (cuts.behind word member)
  ordered := cuts.ordered
  isFront := cuts.isFront
  blank place c le here uncovered := by
    rcases Nat.eq_or_lt_of_le le with rfl | lt
    · exact blank c here
    · exact cuts.blank place c lt here uncovered

/-- A word without a gap in front of it. -/
theorem CutsFrom.cons {kind : LexemeKind} {chars : List Char} {token : Token}
    (isFront : IsFront kind chars (text.drop position) token) (cuts : CutsFrom text (position + chars.length) words) :
    CutsFrom text position (⟨position, chars, token⟩ :: words) :=
  cutsFrom_cons_iff.mpr ⟨Nat.le_refl _, fun _ _ le lt _ => absurd lt (Nat.not_lt.mpr le), ⟨kind, isFront⟩, cuts⟩

end

/-! ### The longest lexeme in a part of a text -/

section
variable {kind : LexemeKind} {word text : List Char} {token : Token} {value : Decimal}

/-- A lexeme stays the longest one when the text ends earlier, but not before the lexeme does. -/
theorem IsFront.take (front : IsFront kind word text token) {count : Nat} (le : word.length ≤ count) :
    IsFront kind word (text.take count) token where
  spells := front.spells
  starts := List.prefix_take_iff.mpr ⟨front.starts, le⟩
  longest other otherToken spells starts :=
    front.longest other otherToken spells (starts.trans (List.take_prefix count text))
  noPoint isNumeral := by
    rw [List.drop_take, List.head?_take]
    split_ifs
    · simp
    · exact front.noPoint isNumeral

/-- A numeral is the longest one in itself. -/
theorem isFront_self (isNumeral : IsNumeral word value) : IsFront .numeral word word (.number value.toFloat) where
  spells := .numeral isNumeral
  starts := List.prefix_rfl
  longest _ _ _ starts := starts.length_le
  noPoint _ := by simp

theorem IsFront.ne_nil (front : IsFront kind word text token) : word ≠ [] := by
  cases front.spells with
  | name nonempty => exact nonempty
  | numeral isNumeral => exact (Lexeme.starts_of_isNumeral isNumeral).1
  | _ => simp

end

/-! ### The words that the lexer finds -/

section
variable {text rest : List Char} {position : Nat} {found tokens : List PlacedToken} {words : List Word}

theorem drop_of_drop_eq_cons {c : Char} {count : Nat} (here : text.drop position = c :: rest) (positive : 0 < count) :
    rest.drop (count - 1) = text.drop (position + count) := by
  obtain ⟨count, rfl⟩ := Nat.exists_eq_add_of_lt positive
  rw [← List.drop_drop, here]
  simp

/-- At a word the lexer takes this word. -/
theorem lexFrom_word {kind : LexemeKind} {chars : List Char} {token : Token}
    (front : IsFront kind chars (text.drop position) token) :
    lexFrom position (text.drop position) found =
      lexFrom (position + chars.length) (text.drop (position + chars.length)) (⟨token, position⟩ :: found) := by
  obtain ⟨c, rest, here⟩ : ∃ c rest, text.drop position = c :: rest := by
    refine List.exists_cons_of_ne_nil fun none => front.ne_nil ?_
    exact List.prefix_nil.mp (none ▸ front.starts)
  have read := Lexeme.first_eq_ok_iff.mpr ⟨kind, chars, here ▸ front, rfl⟩
  rw [here, lexFrom_lexeme (Lexeme.visible_of_first read) read]
  rw [drop_of_drop_eq_cons here (List.length_pos_iff.mpr front.ne_nil)]

theorem stop_le_of_isFront {kind : LexemeKind} {chars : List Char} {token : Token}
    (front : IsFront kind chars (text.drop position) token) : position + chars.length ≤ text.length := by
  have le := front.starts.length_le
  have positive := List.length_pos_iff.mpr front.ne_nil
  rw [List.length_drop] at le
  omega

/-- The lexer finds the words that cut the text. -/
theorem lexFrom_of_cutsFrom (cuts : CutsFrom text position words) (le : position ≤ text.length) :
    lexFrom position (text.drop position) found =
      .ok (found.reverse ++ (words.map Word.placed ++ [⟨.endOfInput, text.length⟩])) := by
  induction words generalizing position found with
  | nil =>
    have blank : ∀ c ∈ text.drop position, isBlank c = true := by
      intro c member
      obtain ⟨place, here⟩ := List.mem_iff_getElem?.mp member
      rw [List.getElem?_drop] at here
      exact cutsFrom_nil_iff.mp cuts _ c (Nat.le_add_right _ _) here
    rw [← List.append_nil (text.drop position), lexFrom_blanks blank, List.length_drop, Nat.add_sub_cancel' le]
    simp [lexFrom]
  | cons word words ih =>
    obtain ⟨before, blank, ⟨kind, front⟩, cuts⟩ := cutsFrom_cons_iff.mp cuts
    have inside := stop_le_of_isFront front
    have gap := List.take_append_drop (word.start - position) (text.drop position)
    rw [List.drop_drop, Nat.add_sub_cancel' before] at gap
    have gapLength : ((text.drop position).take (word.start - position)).length = word.start - position := by
      rw [List.length_take, List.length_drop]
      omega
    have gapBlank : ∀ c ∈ (text.drop position).take (word.start - position), isBlank c = true := by
      intro c member
      obtain ⟨place, here⟩ := List.mem_iff_getElem?.mp member
      rw [List.getElem?_take, List.getElem?_drop] at here
      split_ifs at here with lt
      exact blank _ c (Nat.le_add_right _ _) (by omega) here
    rw [← gap, lexFrom_blanks gapBlank, gapLength, Nat.add_sub_cancel' before, lexFrom_word front]
    exact (ih cuts inside).trans (by simp [Word.placed])

theorem cutsFrom_end : CutsFrom text text.length [] := by
  refine cutsFrom_nil_iff.mpr fun place c le here => ?_
  rw [List.getElem?_eq_none le] at here
  cases here

/-- What the lexer has of a lexeme that breaks off is cut into words. -/
theorem exists_cutsFrom_of_breaksOff (front : List Char) {before : List Char}
    (lexed : before = [] ∨ ∃ value, IsNumeral before value) :
    ∃ words, CutsFrom (front ++ before) front.length words := by
  rcases lexed with rfl | ⟨value, isNumeral⟩
  · rw [List.append_nil]
    exact ⟨[], cutsFrom_end⟩
  · have isFront : IsFront .numeral before ((front ++ before).drop front.length) (.number value.toFloat) := by
      rw [List.drop_left]
      exact isFront_self isNumeral
    have atEnd : CutsFrom (front ++ before) (front.length + before.length) [] := by
      rw [← List.length_append]
      exact cutsFrom_end
    exact ⟨_, .cons isFront atEnd⟩

/-- The lexer, at the position, comes as far as the character `c` behind `before` and is stuck there. What it has
passed until then is cut into words. -/
structure Sticks (text : List Char) (position : Nat) (before : List Char) (c : Char) : Prop where
  isStuck : ∃ after, text = before ++ c :: after ∧ IsStuck before after c
  behind : position ≤ before.length
  cuts : ∃ words, CutsFrom before position words
  fails : ∀ found, lexFrom position (text.drop position) found = .error ⟨before.length, c⟩

section
variable {before : List Char} {b c : Char}

theorem lexFrom_skip (here : text.drop position = b :: rest) (blank : isBlank b = true) :
    lexFrom position (text.drop position) found = lexFrom (position + 1) (text.drop (position + 1)) found := by
  rw [here, lexFrom_blank blank, ← drop_of_drop_eq_cons here Nat.one_pos]
  rfl

theorem Sticks.of_blank (here : text.drop position = b :: rest) (blank : isBlank b = true)
    (sticks : Sticks text (position + 1) before c) : Sticks text position before c where
  isStuck := sticks.isStuck
  behind := Nat.le_of_succ_le sticks.behind
  cuts := by
    obtain ⟨words, cuts⟩ := sticks.cuts
    obtain ⟨after, split, -⟩ := sticks.isStuck
    refine ⟨words, cuts.of_blank fun first same => ?_⟩
    have char : text[position]? = some b := by rw [← List.head?_drop, here, List.head?_cons]
    rw [split, List.getElem?_append_left sticks.behind, same] at char
    cases char
    exact blank
  fails found := (lexFrom_skip here blank).trans (sticks.fails found)

/-- A word that stands in front of the character is the longest one also in what stands there. -/
theorem Sticks.cons {kind : LexemeKind} {chars : List Char} {token : Token}
    (front : IsFront kind chars (text.drop position) token) (sticks : Sticks text (position + chars.length) before c) :
    Sticks text position before c where
  isStuck := sticks.isStuck
  behind := Nat.le_of_add_right_le sticks.behind
  cuts := by
    obtain ⟨words, cuts⟩ := sticks.cuts
    obtain ⟨after, split, -⟩ := sticks.isStuck
    have part : before.drop position = (text.drop position).take (before.length - position) := by
      rw [← List.drop_take, split, List.take_left]
    have frontPart := front.take (Nat.le_sub_of_add_le' sticks.behind)
    rw [← part] at frontPart
    exact ⟨_, .cons frontPart cuts⟩
  fails found := (lexFrom_word front).trans (sticks.fails _)

theorem exists_sticks_of_first {error : LexError} (le : position ≤ text.length) (here : text.drop position = c :: rest)
    (visible : isBlank c = false) (read : Lexeme.first c rest = .error error) :
    ∃ before, Sticks text position before error.found := by
  obtain ⟨before, after, split, length, stuck, lexed⟩ := Lexeme.breaksOff_of_first visible read
  have frontLength : (text.take position).length = position := List.length_take_of_le le
  refine ⟨text.take position ++ before, ⟨after, ?_, stuck.append _⟩, ?_, ?_, fun found => ?_⟩
  · rw [List.append_assoc, ← split, ← here, List.take_append_drop]
  · rw [List.length_append, frontLength]
    exact Nat.le_add_right _ _
  · have cuts := exists_cutsFrom_of_breaksOff (text.take position) lexed
    rwa [frontLength] at cuts
  · rw [here, lexFrom, if_neg (by simp [visible]), read, List.length_append, frontLength, length]

end

/-- Either the rest of a text is cut into words, or the lexer is stuck at a character of it. -/
theorem cuts_or_sticks (le : position ≤ text.length) :
    (∃ words, CutsFrom text position words) ∨ ∃ before c, Sticks text position before c := by
  induction size : text.length - position using Nat.strongRecOn generalizing position with
  | ind n ih =>
    rcases Nat.eq_or_lt_of_le le with rfl | inside
    · exact .inl ⟨[], cutsFrom_end⟩
    obtain ⟨c, rest, here⟩ : ∃ c rest, text.drop position = c :: rest :=
      List.exists_cons_of_ne_nil fun none => Nat.not_le.mpr inside (List.drop_eq_nil_iff.mp none)
    cases visible : isBlank c with
    | true =>
      rcases ih _ (by omega) inside rfl with ⟨words, cuts⟩ | ⟨before, d, sticks⟩
      · have char : text[position]? = some c := by rw [← List.head?_drop, here, List.head?_cons]
        exact .inl ⟨words, cuts.of_blank fun b same => by cases char.symm.trans same; exact visible⟩
      · exact .inr ⟨before, d, sticks.of_blank here visible⟩
    | false =>
      cases read : Lexeme.first c rest with
      | ok lexeme =>
        obtain ⟨kind, chars, front, -⟩ := Lexeme.first_eq_ok_iff.mp read
        rw [← here] at front
        have positive := List.length_pos_iff.mpr front.ne_nil
        rcases ih _ (by omega) (stop_le_of_isFront front) rfl with ⟨words, cuts⟩ | ⟨before, d, sticks⟩
        · exact .inl ⟨_, .cons front cuts⟩
        · exact .inr ⟨before, d, sticks.cons front⟩
      | error error =>
        obtain ⟨before, sticks⟩ := exists_sticks_of_first le here visible read
        exact .inr ⟨before, error.found, sticks⟩

end

/-! ### Texts -/

section
variable {source : String} {text : List Char} {position : Nat} {tokens : List PlacedToken} {words : List Word}

theorem lex_of_cutsFrom (cuts : CutsFrom source.toList 0 words) :
    lex source = .ok (words.map Word.placed ++ [⟨.endOfInput, source.length⟩]) := by
  exact lexFrom_of_cutsFrom cuts (Nat.zero_le source.toList.length)

theorem lex_eq_ok_iff :
    lex source = .ok tokens ↔
      ∃ words, CutsFrom source.toList 0 words ∧ tokens = words.map Word.placed ++ [⟨.endOfInput, source.length⟩] := by
  constructor
  · intro cut
    rcases cuts_or_sticks (Nat.zero_le source.toList.length) with ⟨words, cuts⟩ | ⟨before, c, sticks⟩
    · exact ⟨words, cuts, Except.ok.inj (cut.symm.trans (lex_of_cutsFrom cuts))⟩
    · cases cut.symm.trans (sticks.fails [])
  · rintro ⟨words, cuts, rfl⟩
    exact lex_of_cutsFrom cuts

theorem CutsFrom.pairwise_start (cuts : CutsFrom text position words) : (words.map Word.start).Pairwise (· < ·) := by
  refine List.pairwise_map.mpr (cuts.ordered.imp_of_mem fun {word next} member _ le => ?_)
  obtain ⟨kind, front⟩ := cuts.isFront word member
  have positive := List.length_pos_iff.mpr front.ne_nil
  simp only [Word.stop] at le
  omega

theorem Spells.ne_endOfInput {kind : LexemeKind} {chars : List Char} {token : Token} (spells : Spells kind chars token) :
    token ≠ .endOfInput := by
  cases spells <;> simp

end

/-- A text is cut into the tokens of the words that cut it, each the longest lexeme of its kind, and an end mark
behind its last character. If there are no such words, the lexer names a character that it is stuck at, and what
stands in front of it is cut into tokens. -/
theorem lex_cuts_into_longest (source : String) :
    (∀ tokens, lex source = .ok tokens ↔
      ∃ words, CutsFrom source.toList 0 words ∧ tokens = words.map Word.placed ++ [⟨.endOfInput, source.length⟩]) ∧
    (∀ words, CutsFrom source.toList 0 words →
      (words.map Word.start).Pairwise (· < ·) ∧ ∀ word ∈ words, word.stop ≤ source.length ∧ word.token ≠ .endOfInput) ∧
    ∀ position found, lex source = .error ⟨position, found⟩ →
      ∃ before after, source.toList = before ++ found :: after ∧ before.length = position ∧
        IsStuck before after found ∧ ∃ tokens, lex (String.ofList before) = .ok tokens := by
  refine ⟨fun tokens => lex_eq_ok_iff, fun words cuts => ⟨cuts.pairwise_start, fun word member => ?_⟩,
    fun position found fails => ?_⟩
  · obtain ⟨kind, front⟩ := cuts.isFront word member
    exact ⟨stop_le_of_isFront front, front.spells.ne_endOfInput⟩
  · rcases cuts_or_sticks (Nat.zero_le source.toList.length) with ⟨words, cuts⟩ | ⟨before, c, sticks⟩
    · cases fails.symm.trans (lex_of_cutsFrom cuts)
    · cases fails.symm.trans (sticks.fails [])
      obtain ⟨after, split, stuck⟩ := sticks.isStuck
      obtain ⟨words, cuts⟩ := sticks.cuts
      rw [← String.toList_ofList (l := before)] at cuts
      exact ⟨before, after, split, rfl, stuck, _, lex_of_cutsFrom cuts⟩

/-- `abπ c` has three words, and in `1.2.3` the lexer is stuck at the second point. -/
theorem lex_cuts_into_longest_names :
    let tokens : List PlacedToken := [⟨.identifier "ab", 0⟩, ⟨.identifier "pi", 2⟩, ⟨.identifier "c", 4⟩, ⟨.endOfInput, 5⟩]
    (lex "abπ c" = .ok tokens ∧ ∃ words, CutsFrom "abπ c".toList 0 words ∧
      tokens = words.map Word.placed ++ [⟨.endOfInput, 5⟩] ∧ (words.map Word.start).Pairwise (· < ·)) ∧
    lex "1.2.3" = .error ⟨3, '.'⟩ ∧
      ∃ before after, "1.2.3".toList = before ++ '.' :: after ∧ before.length = 3 ∧
        IsStuck before after '.' ∧ ∃ tokens, lex (String.ofList before) = .ok tokens := by
  intro tokens
  have cut : lex "abπ c" = .ok tokens := by cbv
  have fails : lex "1.2.3" = .error ⟨3, '.'⟩ := by cbv
  obtain ⟨iff, follow, -⟩ := lex_cuts_into_longest "abπ c"
  obtain ⟨words, cuts, split⟩ := (iff tokens).mp cut
  exact ⟨⟨cut, words, cuts, split, (follow words cuts).1⟩, fails, (lex_cuts_into_longest "1.2.3").2.2 3 '.' fails⟩

end GraphingCalculator
