import GraphingCalculator.Expr.Vocabulary
import GraphingCalculator.Proofs.Dictation.Borders
import Mathlib.Data.List.Chain

/-!
Sentences of words and signs with single spaces between them. Main statement: a sentence is transcribed item by
item, in whatever mix of small and capital letters it stands, unless a unit comes right behind `twenty`
(`transcribe_sentence`).
-/

namespace GraphingCalculator.Dictation

/-! ### Items -/

/-- The characters of expressions that are neither letters nor blanks. -/
def signChars : List Char := "0123456789()+-*/^,.".toList

/-- What a sentence is made of. -/
inductive Item where
  | phrase (entry : String × String) (listed : entry ∈ phrases)
  | function (f : ElementaryFunction)
  | letter (c : Char) (small : c.isLower = true)
  | signs (chars : List Char) (nonempty : chars ≠ []) (allowed : ∀ c ∈ chars, c ∈ signChars)

/-- The item as it is dictated, in small letters. -/
def Item.spoken : Item → List Char
  | phrase entry _ => entry.1.toList
  | function f => f.name.toList
  | letter c _ => [c]
  | signs chars _ _ => chars

/-- What is written for the item by itself. -/
def Item.translation : Item → List Char
  | phrase entry _ => entry.2.toList
  | function f => f.name.toList
  | letter c _ => [c]
  | signs chars _ _ => chars

/-- Behind `twenty` the next item does not start with a unit. -/
def Item.IsApart (item next : Item) : Prop :=
  item.spoken = "twenty".toList → ∀ unit ∈ unitWords, ¬ unit.toList <+: next.spoken

instance (item next : Item) : Decidable (item.IsApart next) := inferInstanceAs (Decidable (_ → _))

/-- The items in small letters with single spaces between them. -/
def sentence (items : List Item) : List Char :=
  [' '].intercalate (items.map Item.spoken)

/-! ### Characters -/

/-- A sign is no character of phrases, is no blank and takes one byte. -/
structure IsPlainSign (c : Char) : Prop where
  foreign : isPhraseChar c = false
  noBlank : isBlank c = false
  ascii : c.toNat < 128

theorem isPlainSign_of_mem {c : Char} (sign : c ∈ signChars) : IsPlainSign c := by
  have all : signChars.all (fun c => !isPhraseChar c && !isBlank c && decide (c.toNat < 128)) = true := by decide
  have facts := List.all_eq_true.mp all c sign
  simp only [Bool.and_eq_true, Bool.not_eq_true', decide_eq_true_eq] at facts
  exact ⟨facts.1.1, facts.1.2, facts.2⟩

theorem isBlank_eq_false_of_isLower {c : Char} (small : c.isLower = true) : isBlank c = false := by
  have all : blanks.all (fun c => !c.isLower) = true := by decide
  refine Bool.eq_false_iff.mpr fun blank => ?_
  have noLetter := List.all_eq_true.mp all c (isBlank_iff.mp blank)
  simp [small] at noLetter

namespace Item

/-- All characters of sentences take one byte. -/
theorem toNat_lt_of_mem_spoken (item : Item) : ∀ c ∈ item.spoken, c.toNat < 128 := by
  intro c member
  cases item with
  | phrase entry listed =>
    have phraseChar := (isSpacedWords_of_mem entry listed).chars c member
    simp only [isPhraseChar, Bool.or_eq_true, beq_iff_eq] at phraseChar
    rcases phraseChar with small | rfl
    · exact Lowercase.toNat_lt_of_isLower small
    · decide
  | function f =>
    have all : f.name.toList.all (fun c => decide (c.toNat < 128)) = true := by cases f <;> decide
    simpa using List.all_eq_true.mp all c member
  | letter d small =>
    obtain rfl := List.mem_singleton.mp member
    exact Lowercase.toNat_lt_of_isLower small
  | signs chars _ allowed => exact (isPlainSign_of_mem (allowed c member)).ascii

/-! ### Items by themselves -/

theorem substitute_spoken (item : Item) : substitute item.spoken = item.translation := by
  cases item with
  | phrase entry listed =>
    have all : phrases.all (fun entry => substitute entry.1.toList == entry.2.toList) = true := by decide +kernel
    exact eq_of_beq (List.all_eq_true.mp all entry listed)
  | function f =>
    have all : [ElementaryFunction.sin, .cos, .tan, .sqrt, .log, .exp].all (fun f =>
        substitute f.name.toList == f.name.toList) = true := by decide +kernel
    exact eq_of_beq (List.all_eq_true.mp all f (by cases f <;> decide))
  | letter c small =>
    refine substitute_eq_self fun entry member inside => ?_
    have all : phrases.all (fun entry => decide (1 < entry.1.toList.length)) = true := by decide
    have long : 1 < entry.1.toList.length := by simpa using List.all_eq_true.mp all entry member
    exact absurd inside.length_le (by simpa [spoken] using long)
  | signs chars _ allowed =>
    exact substitute_eq_self_of_foreign fun c member => (isPlainSign_of_mem (allowed c member)).foreign

theorem withoutBlanks_translation (item : Item) : withoutBlanks item.translation = item.translation := by
  refine List.filter_eq_self.mpr fun c member => ?_
  cases item with
  | phrase entry listed =>
    have all : phrases.all (fun entry => entry.2.toList.all fun c => !isBlank c) = true := by decide
    exact List.all_eq_true.mp (List.all_eq_true.mp all entry listed) c member
  | function f =>
    have all : f.name.toList.all (fun c => !isBlank c) = true := by cases f <;> decide
    exact List.all_eq_true.mp all c member
  | letter d small =>
    obtain rfl := List.mem_singleton.mp member
    simp [isBlank_eq_false_of_isLower small]
  | signs chars _ allowed => simp [(isPlainSign_of_mem (allowed c member)).noBlank]

/-! ### Items side by side -/

/-- The first word of a phrase of two words ends an item only if both are `twenty`. -/
theorem eq_twenty_of_suffix (item : Item) {pair : String × String} (listed : pair ∈ wordPairs)
    (ends : pair.1.toList <:+ item.spoken) : pair.1 = "twenty" ∧ item.spoken = "twenty".toList := by
  have known : pair.1 ∈ ["multiplied", "divided", "twenty"] := by
    have all : wordPairs.all (fun pair => ["multiplied", "divided", "twenty"].contains pair.1) = true := by decide
    simpa using List.all_eq_true.mp all pair listed
  cases item with
  | phrase entry member =>
    have all : phrases.all (fun entry => ["multiplied", "divided", "twenty"].all fun word =>
        word.toList <:+ entry.1.toList → word = "twenty" ∧ entry.1 = "twenty") = true := by decide +kernel
    have facts := List.all_eq_true.mp (List.all_eq_true.mp all entry member) pair.1 known
    obtain ⟨same, whole⟩ := of_decide_eq_true facts ends
    exact ⟨same, congrArg String.toList whole⟩
  | function f =>
    have all : ["multiplied", "divided", "twenty"].all (fun word => ¬ word.toList <:+ f.name.toList) = true := by
      cases f <;> decide +kernel
    exact absurd ends (of_decide_eq_true (List.all_eq_true.mp all pair.1 known))
  | letter c _ =>
    have all : ["multiplied", "divided", "twenty"].all (fun word => 1 < word.toList.length) = true := by decide
    have long : 1 < pair.1.toList.length := of_decide_eq_true (List.all_eq_true.mp all pair.1 known)
    exact absurd ends.length_le (by simpa [spoken] using long)
  | signs chars _ allowed =>
    have all : ["multiplied", "divided", "twenty"].all (fun word => word.toList.any isPhraseChar) = true := by decide
    obtain ⟨c, inWord, phraseChar⟩ := List.any_eq_true.mp (List.all_eq_true.mp all pair.1 known)
    have foreign := (isPlainSign_of_mem (allowed c (ends.subset inWord))).foreign
    rw [foreign] at phraseChar
    cases phraseChar

end Item

/-! ### Sentences -/

theorem sentence_singleton (item : Item) : sentence [item] = item.spoken := List.intercalate_singleton

theorem sentence_cons_cons (item next : Item) (items : List Item) :
    sentence (item :: next :: items) = item.spoken ++ ([' '] ++ sentence (next :: items)) := by
  simp [sentence, List.intercalate_cons_cons]

theorem toNat_lt_of_mem_sentence (items : List Item) : ∀ c ∈ sentence items, c.toNat < 128 := by
  induction items with
  | nil => simp [sentence]
  | cons item items ih =>
    cases items with
    | nil => simpa [sentence_singleton] using item.toNat_lt_of_mem_spoken
    | cons next items =>
      rw [sentence_cons_cons, List.forall_mem_append, List.forall_mem_append]
      exact ⟨item.toNat_lt_of_mem_spoken, by simp, ih⟩

/-- A word at the front of a sentence is at the front of its first item. -/
theorem prefix_spoken_of_prefix_sentence {word : List Char} {item : Item} {items : List Item} (noSpace : ' ' ∉ word)
    (starts : word <+: sentence (item :: items)) : word <+: item.spoken := by
  cases items with
  | nil => rwa [sentence_singleton] at starts
  | cons next items =>
    rw [sentence_cons_cons] at starts
    exact prefix_of_notMem noSpace starts

/-- No phrase has its space between two items of a sentence. -/
theorem not_splitsPhrase {item next : Item} (apart : item.IsApart next) (items : List Item) :
    ¬ SplitsPhrase item.spoken (sentence (next :: items)) := by
  rintro ⟨pair, listed, ends, starts⟩
  obtain ⟨twenty, isTwenty⟩ := item.eq_twenty_of_suffix listed ends
  have unit : pair.2 ∈ unitWords := by
    have all : wordPairs.all (fun pair => pair.1 = "twenty" → pair.2 ∈ unitWords) = true := by decide
    exact of_decide_eq_true (List.all_eq_true.mp all pair listed) twenty
  have noSpace : ' ' ∉ pair.2.toList := by
    have all : unitWords.all (fun unit => ' ' ∉ unit.toList) = true := by decide
    simpa using List.all_eq_true.mp all pair.2 unit
  exact apart isTwenty pair.2 unit (prefix_spoken_of_prefix_sentence noSpace starts)

theorem withoutBlanks_substitute_sentence {items : List Item} (apart : items.IsChain Item.IsApart) :
    withoutBlanks (substitute (sentence items)) = items.flatMap Item.translation := by
  induction items with
  | nil => decide +kernel
  | cons item items ih =>
    cases items with
    | nil => simp [sentence_singleton, item.substitute_spoken, item.withoutBlanks_translation]
    | cons next items =>
      obtain ⟨here, later⟩ := List.isChain_cons_cons.mp apart
      have blank : ∀ c ∈ [' '], isBlank c = true := List.all_eq_true.mp (by decide)
      calc withoutBlanks (substitute (sentence (item :: next :: items)))
        _ = withoutBlanks (substitute item.spoken ++ ([' '] ++ substitute (sentence (next :: items)))) := by
            rw [sentence_cons_cons, substitute_blanks blank (by simp) fun _ => not_splitsPhrase here items]
        _ = withoutBlanks item.translation ++ withoutBlanks (substitute (sentence (next :: items))) := by
            rw [item.substitute_spoken, withoutBlanks_append, withoutBlanks_append, withoutBlanks_of_blank blank,
              List.nil_append]
        _ = (item :: next :: items).flatMap Item.translation := by
            rw [item.withoutBlanks_translation, ih later, ← List.flatMap_cons]

/-- A sentence is transcribed item by item. -/
theorem transcribe_sentence {spoken : String} {items : List Item}
    (spelled : spoken.toList.map Char.toLower = sentence items) (apart : items.IsChain Item.IsApart) :
    transcribe spoken = String.ofList (items.flatMap Item.translation) := by
  have ascii : ∀ c ∈ spoken.toList, c.toNat < 128 := fun c member =>
    Lowercase.toNat_lt_of_toLower (toNat_lt_of_mem_sentence items _ (spelled ▸ List.mem_map_of_mem member))
  rw [transcribe, written_eq, Lowercase.lower_eq_map ascii, spelled, withoutBlanks_substitute_sentence apart]

/-- Words in capitals, a phrase of two words, and a sign behind `twenty`. -/
theorem transcribe_mixed_case :
    transcribe "Seventeen MULTIPLIED by Twenty ) SIN X" = String.ofList "17*20)sinx".toList :=
  @transcribe_sentence "Seventeen MULTIPLIED by Twenty ) SIN X"
    [.phrase ("seventeen", "17") (by decide), .phrase ("multiplied by", "*") (by decide),
      .phrase ("twenty", "20") (by decide), .signs [')'] (by decide) (List.forall_mem_singleton.mpr (by decide)),
      .function .sin, .letter 'x' (by decide)]
    (by decide) (by decide)

end GraphingCalculator.Dictation
