import GraphingCalculator.Proofs.Dictation.Borders
import GraphingCalculator.Proofs.Grammar.Placement
import GraphingCalculator.Proofs.Printing.Text
import GraphingCalculator.Proofs.Service.History
import GraphingCalculator.Proofs.Token.Tokenized

/-!
Typed expressions that are taken for dictated ones. Main statement: a text that can be read is transcribed to a text
that reads as the same tree, if it has no capital letters, no phrases inside its names, and no two names side by side
(`read_transcribe`).

The blanks between words may go because no number stands directly behind an operand, so no two words of such a text
become one. The circle constant is the only name that a phrase spells, and it becomes the sign of the same name.
-/

namespace GraphingCalculator.Dictation
open Grammar

/-! ### Names -/

/-- A name holds no phrase, unless it is that of the circle constant. -/
def KeepsName : Token → Prop
  | .identifier name => name = "pi" ∨ ∀ entry ∈ phrases, ¬ entry.1.toList <:+: name.toList
  | _ => True

instance : DecidablePred KeepsName
  | .identifier _ => inferInstanceAs (Decidable (_ ∨ _))
  | .number _ | .operator _ | .leftParen | .rightParen | .comma | .endOfInput => isTrue trivial

/-- A name, and not that of the circle constant. -/
def isOtherName : Token → Bool
  | .identifier name => name != "pi"
  | _ => false

/-- Of two names side by side one is the circle constant. -/
def NamesApart (token next : Token) : Prop := isOtherName token = false ∨ isOtherName next = false

instance (token next : Token) : Decidable (NamesApart token next) := inferInstanceAs (Decidable (_ ∨ _))

/-- The tokens are of a typed text, in which no number stands directly behind an operand. -/
structure StayApart (tokens : List Token) : Prop where
  names : ∀ token ∈ tokens, KeepsName token
  namesApart : tokens.IsChain NamesApart
  numbersApart : tokens.IsChain NoNumberBehind

section
variable {token next : Token} {tokens : List Token} {text word rest front back : List Char} {name other : String}

theorem StayApart.tail (apart : StayApart (token :: tokens)) : StayApart tokens :=
  ⟨fun next member => apart.names next (List.mem_cons_of_mem token member), apart.namesApart.tail, apart.numbersApart.tail⟩

theorem StayApart.names_apart (apart : StayApart (.identifier name :: .identifier other :: tokens)) :
    name = "pi" ∨ other = "pi" := by
  simpa [NamesApart, isOtherName] using (List.isChain_cons_cons.mp apart.namesApart).1

theorem StayApart.not_number {value : Float} (apart : StayApart (token :: .number value :: tokens)) :
    couldEndOperand token = false :=
  (List.isChain_cons_cons.mp apart.numbersApart).1 rfl

/-! ### Words by themselves -/

theorem isAlpha_of_isPhraseChar {c : Char} (phraseChar : isPhraseChar c = true) : c.isAlpha = true ∨ c = ' ' := by
  simp only [isPhraseChar, Bool.or_eq_true, beq_iff_eq] at phraseChar
  exact phraseChar.imp_left fun small => by simp [Char.isAlpha, small]

/-- No phrase is made of nothing but the letter of powers of ten. -/
theorem substitute_eq_self_of_marks (marks : ∀ c ∈ text, isPhraseChar c = true → c = 'e') : substitute text = text := by
  have all : phrases.all (fun entry => entry.1.toList.any (· != 'e')) = true := by decide
  refine substitute_eq_self fun entry member inside => ?_
  obtain ⟨c, inPhrase, noMark⟩ := List.any_eq_true.mp (List.all_eq_true.mp all entry member)
  refine bne_iff_ne.mp noMark (marks c (inside.subset inPhrase) ?_)
  exact (isSpacedWords_of_mem entry member).chars c inPhrase

theorem substitute_numeral {value : Decimal} (isNumeral : IsNumeral word value) : substitute word = word := by
  refine substitute_eq_self_of_marks fun c member phraseChar => ?_
  have char := isNumeralChar_of_isNumeral isNumeral c member
  simp only [isNumeralChar, Bool.or_eq_true, beq_iff_eq] at char
  rcases char with ((digit | rfl) | same) | rfl
  · rcases isAlpha_of_isPhraseChar phraseChar with letter | rfl
    · rw [isDigit_eq_false_of_isAlpha letter] at digit
      cases digit
    · cases digit
  · cases phraseChar
  · exact same
  · cases phraseChar

theorem isPhraseChar_eq_false_of_mem_signs {c : Char} (sign : c ∈ Lexeme.signs) : isPhraseChar c = false := by
  have all : Lexeme.signs.all (fun c => !isPhraseChar c) = true := by decide
  simpa using List.all_eq_true.mp all c sign

theorem mem_signs_of_spells {c : Char} (spells : Spells .sign [c] token) : c ∈ Lexeme.signs := by
  cases spells with
  | operator op => cases op <;> decide
  | _ => decide

/-! ### Words side by side -/

/-- A word that ends with a character of phrases is a name. -/
theorem eq_name_of_getLast {kind : LexemeKind} {c : Char} (spells : Spells kind word token)
    (last : word.getLast? = some c) (phraseChar : isPhraseChar c = true) : kind = .name := by
  cases kind with
  | name => rfl
  | sign =>
    obtain ⟨d, rfl, -⟩ := Lexeme.first_of_spells_sign spells
    obtain rfl : d = c := by simpa using last
    rw [isPhraseChar_eq_false_of_mem_signs (mem_signs_of_spells spells)] at phraseChar
    cases phraseChar
  | numeral =>
    cases spells with
    | numeral isNumeral =>
      rcases getLast_of_isNumeral isNumeral c last with digit | rfl
      · rcases isAlpha_of_isPhraseChar phraseChar with letter | rfl
        · rw [isDigit_eq_false_of_isAlpha letter] at digit
          cases digit
        · cases digit
      · cases phraseChar

theorem letters_of_mem_wordPairs : ∀ pair ∈ wordPairs,
    pair.2.toList ≠ [] ∧ (∀ c ∈ pair.2.toList, c.isAlpha = true) ∧ ¬ pair.1.toList <:+ "pi".toList ∧
      ¬ pair.2.toList <+: "pi".toList := by
  have all : wordPairs.all (fun pair => pair.2.toList ≠ [] && pair.2.toList.all Char.isAlpha &&
      !(pair.1.toList.isSuffixOf "pi".toList || pair.2.toList.isPrefixOf "pi".toList)) = true := by decide +kernel
  intro pair member
  have facts := List.all_eq_true.mp all pair member
  simp only [Bool.and_eq_true, Bool.not_eq_true', Bool.or_eq_false_iff, decide_eq_true_eq] at facts
  obtain ⟨⟨nonempty, letters⟩, notSuffix, notPrefix⟩ := facts
  refine ⟨nonempty, List.all_eq_true.mp letters, fun ends => ?_, fun starts => ?_⟩
  · rw [List.isSuffixOf_iff_suffix.mpr ends] at notSuffix
    cases notSuffix
  · rw [List.isPrefixOf_iff_prefix.mpr starts] at notPrefix
    cases notPrefix

/-- No phrase of two words is divided between a name and what stands behind it. -/
theorem not_splitsPhrase_name (tokenized : Tokenized rest tokens)
    (apart : StayApart (.identifier (String.ofList word) :: tokens)) : ¬ SplitsPhrase word rest := by
  rintro ⟨pair, listed, ends, starts⟩
  obtain ⟨nonempty, letters, notFirst, notSecond⟩ := letters_of_mem_wordPairs pair listed
  obtain ⟨name, tail, rfl, inName⟩ := tokenized.of_letters nonempty letters starts
  rcases apart.names_apart with same | rfl
  · have word_eq : word = "pi".toList := by rw [← same, String.toList_ofList]
    exact notFirst (word_eq ▸ ends)
  · exact notSecond inName

/-- No phrase reaches out of a word. -/
theorem not_straddles_word {kind : LexemeKind} (front : IsFront kind word (word ++ rest) token)
    (tokenized : Tokenized rest tokens) (apart : StayApart (token :: tokens)) :
    ∀ entry ∈ phrases, ¬ Straddles entry.1.toList word rest := by
  rintro entry member ⟨first, second, firstSome, secondSome, split, ends, starts⟩
  have spaced := isSpacedWords_of_mem entry member
  obtain ⟨init, c, rfl⟩ := List.eq_nil_or_concat first |>.resolve_left firstSome
  obtain ⟨d, second, rfl⟩ := List.exists_cons_of_ne_nil secondSome
  obtain ⟨before, rfl⟩ := ends
  obtain ⟨behind, rfl⟩ := starts
  have phraseChars : isPhraseChar c = true ∧ isPhraseChar d = true :=
    ⟨spaced.chars c (by simp [split]), spaced.chars d (by simp [split])⟩
  obtain rfl := eq_name_of_getLast front.spells (by simp) phraseChars.1
  -- the name ends here, so the phrase goes on with its space
  have noLetter : d.isAlpha = false := front.isAlpha_eq_false d (by simp)
  obtain rfl : d = ' ' := (isAlpha_of_isPhraseChar phraseChars.2).resolve_left (by simp [noLetter])
  cases front.spells with
  | name =>
    have space : Tokenized (' ' :: (second ++ behind)) tokens := by simpa using tokenized
    refine not_splitsPhrase_name (space.of_blank (by decide)) apart ?_
    exact .of_split member split (List.suffix_append before _) (List.prefix_append second behind)

/-! ### What is written -/

/-- What is left of a typed text: the same tokens, and no letters for the circle constant. -/
structure IsWritten (text : List Char) (tokens : List Token) : Prop where
  tokenized : Tokenized text tokens
  noPi : ∀ c ∈ text.head?, c.isAlpha = true → tokens.head? ≠ some (.identifier "pi")

theorem endsNumerals_of_tokenized {value : Float} (tokenized : Tokenized text tokens)
    (apart : StayApart (.number value :: tokens)) : Lexeme.EndsNumerals text := by
  have noNumber (c : Char) (head : c ∈ text.head?) : ¬ (c.isDigit = true ∨ c = '.') := by
    intro starts
    obtain ⟨rest, rfl⟩ := List.head?_eq_some_iff.mp head
    obtain ⟨other, tail, rfl⟩ := tokenized.of_numeralStart starts
    cases apart.not_number
  refine ⟨fun c head => ?_, fun point => noNumber '.' point (.inr rfl), ?_⟩
  · simpa using fun digit => noNumber c head (.inl digit)
  · cases text with
    | nil => rfl
    | cons mark rest =>
      by_contra power
      obtain ⟨letter, digits⟩ : (mark = 'e' ∨ mark = 'E') ∧ Lexeme.digits rest ≠ [] := by
        simpa [Lexeme.powerOfTen] using power
      -- the letter would be a name, and the digits a number behind it
      have isAlpha : mark.isAlpha = true := by rcases letter with rfl | rfl <;> rfl
      obtain ⟨tail, rfl, behind⟩ := tokenized.of_isAlpha isAlpha
      cases rest with
      | nil => exact digits rfl
      | cons digit rest =>
        have isDigit : digit.isDigit = true := by simpa [Lexeme.digits, List.takeWhile_cons] using digits
        have noLetter : digit.isAlpha = false := Bool.eq_false_iff.mpr fun letter => by
          rw [isDigit_eq_false_of_isAlpha letter] at isDigit
          cases isDigit
        rw [List.dropWhile_cons_of_neg (by simp [noLetter])] at behind
        obtain ⟨other, tail, rfl⟩ := behind.of_numeralStart (.inl isDigit)
        cases apart.tail.not_number

theorem isWritten_word {kind : LexemeKind} (front : IsFront kind word (word ++ rest) token)
    (written : IsWritten text tokens) (apart : StayApart (token :: tokens)) :
    IsWritten (withoutBlanks (substitute word) ++ text) (token :: tokens) := by
  have visible : withoutBlanks word = word := List.filter_eq_self.mpr fun c member => by
    simp [front.spells.visible c member]
  cases kind with
  | sign =>
    obtain ⟨c, rfl, -⟩ := Lexeme.first_of_spells_sign front.spells
    have sign := mem_signs_of_spells front.spells
    have noLetter : c.isAlpha = false := by
      have noWord := Lexeme.isWord_of_mem_signs sign
      simp_all
    rw [substitute_eq_self_of_foreign (by simpa using isPhraseChar_eq_false_of_mem_signs sign), visible]
    exact ⟨.word (Lexeme.isFront_sign front.spells text) written.tokenized, by simp [noLetter]⟩
  | numeral =>
    cases front.spells with
    | numeral isNumeral =>
      rw [substitute_numeral isNumeral, visible]
      have ends := endsNumerals_of_tokenized written.tokenized apart
      exact ⟨.word (isFront_numeral isNumeral ends) written.tokenized, by simp⟩
  | name =>
    cases front.spells with
    | name nonempty letters =>
      by_cases pi : String.ofList word = "pi"
      · obtain rfl : word = "pi".toList := by rw [← pi, String.toList_ofList]
        have sign : withoutBlanks (substitute "pi".toList) = ['π'] := by decide +kernel
        rw [sign, pi]
        exact ⟨.word (Lexeme.isFront_sign .pi text) written.tokenized, by simp⟩
      · have kept : ∀ entry ∈ phrases, ¬ entry.1.toList <:+: word := by
          simpa using (apart.names _ List.mem_cons_self).resolve_left pi
        rw [substitute_eq_self kept, visible]
        have ends : ∀ c ∈ text.head?, c.isAlpha = false := by
          intro c head
          refine Bool.eq_false_iff.mpr fun letter => ?_
          obtain ⟨rest, rfl⟩ := List.head?_eq_some_iff.mp head
          obtain ⟨tail, rfl, -⟩ := written.tokenized.of_isAlpha letter
          have isPi := apart.names_apart.resolve_left pi
          exact written.noPi c head letter (by rw [isPi]; rfl)
        exact ⟨.word (isFront_name nonempty letters ends) written.tokenized, by simpa using fun _ _ _ => pi⟩

theorem isWritten_of_tokenized (tokenized : Tokenized text tokens) (apart : StayApart tokens) :
    IsWritten (withoutBlanks (substitute text)) tokens := by
  induction tokenized with
  | nil => exact ⟨.nil, fun c head => by cases head⟩
  | @blank c rest tokens blank _ ih =>
    have gap : ∀ d ∈ [c], isBlank d = true := by simpa using blank
    rw [← List.singleton_append, substitute_append (not_straddles_blanks gap rest), substitute_of_blank gap,
      withoutBlanks_append, withoutBlanks_of_blank gap, List.nil_append]
    exact ih apart
  | word front tokenized ih =>
    rw [substitute_append (not_straddles_word front tokenized apart), withoutBlanks_append]
    exact isWritten_word front (ih apart.tail) apart

/-! ### Small letters -/

theorem lowerChar_eq_of_not_isForeign {c : Char} (known : ¬ IsForeign c) (small : c.isUpper = false) :
    c ≠ 'Σ' ∧ Lowercase.lowerChar c = [c] := by
  cases visible : isBlank c with
  | true =>
    have ends := Lowercase.endsWords_of_isBlank visible
    exact ⟨ends.noSigma, ends.same⟩
  | false =>
    by_cases sign : c ∈ Lexeme.signs
    · have all : Lexeme.signs.all (fun c => c != 'Σ' && Lowercase.lowerChar c == [c]) = true := by decide +kernel
      simpa using List.all_eq_true.mp all c sign
    · have word : c.isAlphanum = true ∨ c = '.' := by
        by_contra other
        simp only [Char.isAlphanum, Bool.or_eq_true, not_or, Bool.not_eq_true] at other
        exact known ⟨visible, sign, other.1.2, other.1.1, other.2⟩
      have ascii : c.toNat < 128 := by
        rcases word with word | rfl
        · exact Lowercase.toNat_lt_of_isAlphanum word
        · decide
      refine ⟨?_, by rw [Lowercase.lowerChar_of_lt ascii, Char.toLower_eq_of_not_isUpper (by simp [small])]⟩
      rintro rfl
      revert ascii
      decide

theorem lower_of_tokenized (tokenized : Tokenized text tokens) (small : ∀ c ∈ text, c.isUpper = false) :
    Lowercase.lower text = text :=
  Lowercase.lower_eq_self fun c member => lowerChar_eq_of_not_isForeign (tokenized.not_isForeign c member) (small c member)

end

/-! ### Texts -/

/-- A text that is cut into these tokens can as well be dictated. -/
structure IsTyped (source : String) (tokens : List PlacedToken) : Prop where
  cut : lex source = .ok tokens
  small : ∀ c ∈ source.toList, c.isUpper = false
  names : ∀ t ∈ tokens, KeepsName t.token
  apart : tokens.IsChain fun t next => NamesApart t.token next.token

theorem read_transcribe {source : String} {tokens : List PlacedToken} {e : Expr} (typed : IsTyped source tokens)
    (read : Expr.read source = .ok e) : Expr.read (transcribe source) = .ok e := by
  obtain ⟨placed, cut, accepted⟩ := Expr.lex_of_read read
  cases typed.cut.symm.trans cut
  obtain ⟨words, last, rfl, tokenized⟩ := tokenized_of_lex cut
  have noEnd : ∀ t ∈ words, t.token ≠ .endOfInput := fun t member =>
    tokenized.ne_endOfInput t.token (List.mem_map_of_mem member)
  have derived := ((parse_iff_derives words last noEnd e).mp accepted).1
  have apart : StayApart (words.map PlacedToken.token) := by
    refine ⟨List.forall_mem_map.mpr fun t member => typed.names t (List.mem_append_left _ member), ?_, ?_⟩
    · exact (List.isChain_map _).mpr typed.apart.left_of_append
    · exact (List.isChain_map _).mpr derived.numbersApart
  have written := isWritten_of_tokenized tokenized apart
  have spoken : Tokenized (transcribe source).toList (words.map PlacedToken.token) := by
    rw [transcribe, String.toList_ofList, written_eq, lower_of_tokenized tokenized typed.small]
    exact written.tokenized
  obtain ⟨words', last', same, cut'⟩ := exists_lex_of_tokenized spoken
  rw [Expr.read_of_lex cut', parse_replaced noEnd same accepted]
  rfl

/-- When the dictated text reads as the typed one does, the replies differ at most in the text that they repeat. -/
theorem directReply_spoken {settings : Settings} {request : Request}
    (same : Expr.read (transcribe request.expression) = Expr.read request.expression) :
    (Service.directReply settings { request with spoken := true }).payload =
        (Service.directReply settings { request with spoken := false }).payload ∧
      (Service.directReply settings { request with spoken := true }).error? =
        (Service.directReply settings { request with spoken := false }).error? := by
  obtain ⟨expression, mode, ranges, resolution, env, spoken⟩ := request
  dsimp only at same
  cases mode with
  | scalar =>
    have sameValue : Expr.evalSource (transcribe expression) env = Expr.evalSource expression env := by
      rw [Expr.evalSource, same, ← Expr.evalSource]
    simp only [Service.directReply, Service.source, if_true, Bool.false_eq_true, if_false, sameValue]
    cases Expr.evalSource expression env <;> simp only [Reply.payload, Reply.error?, and_self]
  | line =>
    have samePlot : Service.plotLine settings ⟨expression, .line, ranges, resolution, env, true⟩ =
        Service.plotLine settings ⟨expression, .line, ranges, resolution, env, false⟩ := rfl
    simp only [Service.directReply, Service.source, if_true, Bool.false_eq_true, if_false, same, samePlot, and_self]
  | surface =>
    have samePlot : Service.plotSurface settings ⟨expression, .surface, ranges, resolution, env, true⟩ =
        Service.plotSurface settings ⟨expression, .surface, ranges, resolution, env, false⟩ := rfl
    simp only [Service.directReply, Service.source, if_true, Bool.false_eq_true, if_false, same, samePlot, and_self]

/-- A typed text can as well be dictated: it reads as the same tree, and a request that says that it is spoken gets
the same values, or fails in the same way. -/
theorem typed_can_be_spoken {source : String} {tokens : List PlacedToken} {e : Expr} (typed : IsTyped source tokens)
    (read : Expr.read source = .ok e) :
    Expr.read (transcribe source) = .ok e ∧
      ∀ (lru : TreeCaches) (service : Service lru) (request : Request), request.expression = source →
        (service.answer { request with spoken := true }).1.payload =
            (service.answer { request with spoken := false }).1.payload ∧
          (service.answer { request with spoken := true }).1.error? =
            (service.answer { request with spoken := false }).1.error? := by
  have readSpoken := read_transcribe typed read
  refine ⟨readSpoken, ?_⟩
  rintro lru service request rfl
  rw [Service.answer_reply, Service.answer_reply]
  exact directReply_spoken (readSpoken.trans read.symm)

/-- The circle constant stands between two names, and blanks around each of the words. -/
theorem typed_can_be_spoken_pi :
    let tokens : List PlacedToken := [⟨.identifier "x", 0⟩, ⟨.identifier "pi", 2⟩, ⟨.identifier "sin", 5⟩, ⟨.leftParen, 9⟩,
      ⟨.identifier "e", 11⟩, ⟨.rightParen, 13⟩, ⟨.endOfInput, 14⟩]
    let e : Expr := .binary .multiply (.binary .multiply (.var "x") (.constant .pi)) (.call .sin (.constant .e))
    IsTyped "x pi sin ( e )" tokens ∧ Expr.read "x pi sin ( e )" = .ok e ∧
      transcribe "x pi sin ( e )" = "xπsin(e)" ∧ Expr.read (transcribe "x pi sin ( e )") = .ok e := by
  intro tokens e
  have cut : lex "x pi sin ( e )" = .ok tokens := by cbv
  have read : Expr.read "x pi sin ( e )" = .ok e := by
    rw [Expr.read_of_lex cut]
    rfl
  have typed : IsTyped "x pi sin ( e )" tokens := by
    have names : tokens.all (fun t => KeepsName t.token) = true := by decide +kernel
    exact ⟨cut, by simp, by simpa using names, by decide⟩
  exact ⟨typed, read, by decide +kernel, (typed_can_be_spoken typed read).1⟩

end GraphingCalculator.Dictation
