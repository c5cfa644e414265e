import GraphingCalculator.Dictation
import GraphingCalculator.Proofs.Text.Casing
import GraphingCalculator.Proofs.Text.Replacement
import Mathlib.Data.List.Chain

/-!
Where a dictated text can be cut. Phrases are words in small letters with single spaces between them, and what is
written for them has neither letters nor blanks. So no replacement makes a new phrase, and two parts of a text are
written each by itself unless a phrase reaches over their border (`substitute_append`). Over blanks only a
phrase of two words can reach, and only over a single space (`written_blanks`).
-/

namespace GraphingCalculator.Dictation

/-! ### The phrases -/

/-- A character of which phrases are made. -/
def isPhraseChar (c : Char) : Bool := c.isLower || c == ' '

/-- A phrase that is neither empty nor starts or ends with a space, and has no two spaces in a row. -/
structure IsSpacedWords (phrase : List Char) : Prop where
  chars : ∀ c ∈ phrase, isPhraseChar c = true
  head : ∃ c ∈ phrase.head?, c ≠ ' '
  last : phrase.getLast? ≠ some ' '
  apart : phrase.IsChain fun c d => c ≠ ' ' ∨ d ≠ ' '

instance (phrase : List Char) : Decidable (IsSpacedWords phrase) :=
  decidable_of_iff
    (phrase.all isPhraseChar = true ∧ phrase.head?.any (· != ' ') = true ∧ phrase.getLast? ≠ some ' ' ∧
      phrase.IsChain fun c d => c ≠ ' ' ∨ d ≠ ' ')
    ⟨fun ⟨chars, head, last, apart⟩ => ⟨by simpa using chars, by simpa [Option.any_eq_true] using head, last, apart⟩,
      fun ⟨chars, head, last, apart⟩ => ⟨by simpa using chars, by simpa [Option.any_eq_true] using head, last, apart⟩⟩

theorem isSpacedWords_of_mem : ∀ entry ∈ phrases, IsSpacedWords entry.1.toList := by
  have all : phrases.all (fun entry => decide (IsSpacedWords entry.1.toList)) = true := by decide +kernel
  exact fun entry member => of_decide_eq_true (List.all_eq_true.mp all entry member)

theorem notMem_written : ∀ entry ∈ phrases, entry.2.toList ≠ [] ∧ ∀ c ∈ entry.2.toList, isPhraseChar c = false := by
  have all : phrases.all (fun entry => entry.2.toList != [] && entry.2.toList.all fun c => !isPhraseChar c) = true := by
    decide +kernel
  intro entry member
  simpa using List.all_eq_true.mp all entry member

namespace IsSpacedWords
variable {phrase : List Char}

theorem ne_nil (spaced : IsSpacedWords phrase) : phrase ≠ [] := by
  rintro rfl
  obtain ⟨c, ⟨⟩, -⟩ := spaced.head

end IsSpacedWords

/-- The numbers that make another one with `twenty`. -/
def unitWords : List String :=
  ["one", "two", "three", "four", "five", "six", "seven", "eight", "nine"]

/-- The phrases of two words. -/
def wordPairs : List (String × String) :=
  [("multiplied", "by"), ("divided", "by")] ++ unitWords.map fun unit => ("twenty", unit)

theorem mem_wordPairs {entry : String × String} {first second : List Char} (member : entry ∈ phrases)
    (split : entry.1.toList = first ++ ' ' :: second) : (String.ofList first, String.ofList second) ∈ wordPairs := by
  have all : phrases.all (fun entry => (List.range entry.1.toList.length).all fun n =>
      entry.1.toList[n]? != some ' ' ||
        (String.ofList (entry.1.toList.take n), String.ofList (entry.1.toList.drop (n + 1))) ∈ wordPairs) = true := by
    decide +kernel
  have within : first.length ∈ List.range entry.1.toList.length := by simp [split]
  have facts := List.all_eq_true.mp (List.all_eq_true.mp all entry member) _ within
  have passed : first.drop (first.length + 1) = [] := List.drop_eq_nil_of_le (Nat.le_succ _)
  simpa [split, List.drop_append, passed] using facts

theorem isBlank_eq_false_of_mem_wordPairs : ∀ pair ∈ wordPairs,
    (∀ c ∈ pair.1.toList, isBlank c = false) ∧ ∀ c ∈ pair.2.toList, isBlank c = false := by
  have all : wordPairs.all (fun pair => (pair.1.toList ++ pair.2.toList).all fun c => !isBlank c) = true := by decide
  intro pair member
  have facts := List.all_eq_true.mp all pair member
  simpa [List.forall_mem_append] using facts

/-- A phrase of two words has its space between the texts. -/
def SplitsPhrase (front back : List Char) : Prop :=
  ∃ pair ∈ wordPairs, pair.1.toList <:+ front ∧ pair.2.toList <+: back

theorem SplitsPhrase.of_split {entry : String × String} {first second front back : List Char} (member : entry ∈ phrases)
    (split : entry.1.toList = first ++ ' ' :: second) (ends : first <:+ front) (starts : second <+: back) :
    SplitsPhrase front back :=
  ⟨_, mem_wordPairs member split, by simpa using ends, by simpa using starts⟩

/-- What stands at the front of a text stands before a character that it does not have. -/
theorem prefix_of_notMem {word front back : List Char} {c : Char} (notMem : c ∉ word)
    (starts : word <+: front ++ c :: back) : word <+: front := by
  rcases List.prefix_or_prefix_of_prefix starts (List.prefix_append front _) with inside | ⟨more, rfl⟩
  · exact inside
  · have follows := (List.prefix_append_right_inj front).mp starts
    cases more with
    | nil => simp
    | cons d more =>
      obtain ⟨rfl, -⟩ := List.cons_prefix_cons.mp follows
      simp at notMem

/-- What stands at the end of a text stands behind a character that it does not have. -/
theorem suffix_of_notMem {word front back : List Char} {c : Char} (notMem : c ∉ word)
    (ends : word <:+ front ++ c :: back) : word <:+ back := by
  have starts : word.reverse <+: back.reverse ++ c :: front.reverse := by
    simpa using List.reverse_prefix.mpr ends
  exact List.reverse_prefix.mp (prefix_of_notMem (by simpa using notMem) starts)

/-! ### Parts of a text -/

section
variable {front back gap text : List Char} {table : List (String × String)}

/-- Replaces the phrases of a table, one after the other. -/
def replaceEach (table : List (String × String)) (text : List Char) : List Char :=
  table.foldl (fun text (phrase, written) => replaceAll phrase.toList written.toList text) text

theorem replaceEach_eq_self (absent : ∀ entry ∈ table, ¬ entry.1.toList <:+: text) : replaceEach table text = text := by
  induction table with
  | nil => rfl
  | cons entry table ih =>
    obtain ⟨first, others⟩ := List.forall_mem_cons.mp absent
    simp only [replaceEach, List.foldl_cons, replaceAll_eq_self first]
    exact ih others

/-- A text without any phrase stays as it is. -/
theorem substitute_eq_self (absent : ∀ entry ∈ phrases, ¬ entry.1.toList <:+: text) : substitute text = text :=
  replaceEach_eq_self absent

/-- A text without any character of phrases stays as it is. -/
theorem substitute_eq_self_of_foreign (foreign : ∀ c ∈ text, isPhraseChar c = false) : substitute text = text := by
  refine substitute_eq_self fun entry member inside => ?_
  obtain ⟨c, inPhrase⟩ := List.exists_mem_of_ne_nil _ (isSpacedWords_of_mem entry member).ne_nil
  have phraseChar := (isSpacedWords_of_mem entry member).chars c inPhrase
  rw [foreign c (inside.subset inPhrase)] at phraseChar
  cases phraseChar

/-- No replacement brings a phrase to a border over which none reached before. -/
theorem replaceEach_append (inTable : table ⊆ phrases)
    (apart : ∀ entry ∈ phrases, ¬ Straddles entry.1.toList front back) :
    replaceEach table (front ++ back) = replaceEach table front ++ replaceEach table back := by
  induction table generalizing front back with
  | nil => rfl
  | cons entry table ih =>
    obtain ⟨member, others⟩ := List.cons_subset.mp inTable
    have nonempty := (isSpacedWords_of_mem entry member).ne_nil
    obtain ⟨filled, noPhraseChar⟩ := notMem_written entry member
    simp only [replaceEach, List.foldl_cons, replaceAll_append_of_apart nonempty (apart entry member)]
    refine ih others fun other otherMember straddles => apart other otherMember ?_
    refine straddles.of_replaceAll nonempty filled fun c inPhrase inWritten => ?_
    have phraseChar := (isSpacedWords_of_mem other otherMember).chars c inPhrase
    rw [noPhraseChar c inWritten] at phraseChar
    cases phraseChar

/-- Two parts of a text are written each by itself, unless a phrase reaches over their border. -/
theorem substitute_append (apart : ∀ entry ∈ phrases, ¬ Straddles entry.1.toList front back) :
    substitute (front ++ back) = substitute front ++ substitute back :=
  replaceEach_append (List.Subset.refl phrases) apart

/-- The blank characters of phrases are spaces. -/
theorem eq_space {c : Char} (blank : isBlank c = true) (phraseChar : isPhraseChar c = true) : c = ' ' := by
  have all : blanks.all (fun c => !c.isLower) = true := by decide
  have noLetter : c.isLower = false := by simpa using List.all_eq_true.mp all c (isBlank_iff.mp blank)
  simpa [isPhraseChar, noLetter] using phraseChar

/-- No phrase starts within blanks. -/
theorem not_straddles_blanks (blank : ∀ c ∈ gap, isBlank c = true) (back : List Char) :
    ∀ entry ∈ phrases, ¬ Straddles entry.1.toList gap back := by
  rintro entry member ⟨first, second, firstSome, -, split, ends, -⟩
  have spaced := isSpacedWords_of_mem entry member
  obtain ⟨c, first, rfl⟩ := List.exists_cons_of_ne_nil firstSome
  obtain ⟨d, head, noSpace⟩ := spaced.head
  rw [split] at head
  cases head
  exact noSpace (eq_space (blank c (ends.subset List.mem_cons_self)) (spaced.chars c (by simp [split])))

/-- A phrase reaches over a border with blanks behind it only if they are a single space and it is split there. -/
theorem not_straddles_before_blanks (blank : ∀ c ∈ gap, isBlank c = true) (nonempty : gap ≠ [])
    (free : gap = [' '] → ¬ SplitsPhrase front back) :
    ∀ entry ∈ phrases, ¬ Straddles entry.1.toList front (gap ++ back) := by
  rintro entry member ⟨first, second, -, secondSome, split, ends, starts⟩
  have spaced := isSpacedWords_of_mem entry member
  obtain ⟨c, second, rfl⟩ := List.exists_cons_of_ne_nil secondSome
  obtain ⟨d, gap, rfl⟩ := List.exists_cons_of_ne_nil nonempty
  obtain ⟨rfl, startsRest⟩ := List.cons_prefix_cons.mp starts
  obtain rfl := eq_space (blank c List.mem_cons_self) (spaced.chars c (by simp [split]))
  cases gap with
  | nil => exact free rfl (.of_split member split ends startsRest)
  | cons d gap =>
    cases second with
    | nil => exact spaced.last (by simp [split])
    | cons e second =>
      -- a second blank would be a second space of the phrase
      obtain ⟨rfl, -⟩ := List.cons_prefix_cons.mp startsRest
      obtain rfl := eq_space (blank e (by simp)) (spaced.chars e (by simp [split]))
      have apart := spaced.apart
      rw [split] at apart
      obtain ⟨-, pair, -⟩ := List.isChain_append.mp apart
      simp at pair

theorem substitute_of_blank (blank : ∀ c ∈ gap, isBlank c = true) : substitute gap = gap := by
  refine substitute_eq_self fun entry member inside => ?_
  have spaced := isSpacedWords_of_mem entry member
  obtain ⟨c, head, noSpace⟩ := spaced.head
  have here := List.mem_of_mem_head? head
  exact noSpace (eq_space (blank c (inside.subset here)) (spaced.chars c here))

/-- What stands on both sides of blanks is written by itself, unless a phrase has its single space there. -/
theorem substitute_blanks (blank : ∀ c ∈ gap, isBlank c = true) (nonempty : gap ≠ [])
    (free : gap = [' '] → ¬ SplitsPhrase front back) :
    substitute (front ++ (gap ++ back)) = substitute front ++ (gap ++ substitute back) := by
  rw [substitute_append (not_straddles_before_blanks blank nonempty free),
    substitute_append (not_straddles_blanks blank back), substitute_of_blank blank]

end

/-- What is left of a text without blanks. -/
def withoutBlanks (text : List Char) : List Char :=
  text.filter fun c => !isBlank c

theorem written_eq (text : List Char) : written text = withoutBlanks (substitute (Lowercase.lower text)) := rfl

theorem withoutBlanks_of_blank {gap : List Char} (blank : ∀ c ∈ gap, isBlank c = true) : withoutBlanks gap = [] := by
  simpa [withoutBlanks] using blank

theorem withoutBlanks_append (front back : List Char) :
    withoutBlanks (front ++ back) = withoutBlanks front ++ withoutBlanks back :=
  List.filter_append front back

/-- What stands on both sides of blanks is transcribed by itself, unless a phrase has its single space there. -/
theorem written_blanks {front back gap : List Char} (blank : ∀ c ∈ gap, isBlank c = true) (nonempty : gap ≠ [])
    (free : gap = [' '] → ¬ SplitsPhrase (Lowercase.lower front) (Lowercase.lower back)) :
    written (front ++ (gap ++ back)) = written front ++ written back := by
  rw [written_eq, Lowercase.lower_blanks blank nonempty, substitute_blanks blank nonempty free, withoutBlanks_append,
    withoutBlanks_append, withoutBlanks_of_blank blank, List.nil_append, ← written_eq, ← written_eq]

end GraphingCalculator.Dictation
