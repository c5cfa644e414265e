import GraphingCalculator.Text.Replace
import Mathlib.Data.List.Basic

/-!
Replacing a phrase in a text that is put together from parts. Where no occurrence reaches over the
border between two parts, each of them is rewritten by itself (`replaceAll_append_of_apart`), and a
replacement that shares no character with another phrase brings no occurrence of that phrase to the
border (`Straddles.of_replaceAll`).
-/

namespace GraphingCalculator

/-- An occurrence of the phrase reaches over the border between two texts. -/
def Straddles (phrase front back : List Char) : Prop :=
  ∃ first second, first ≠ [] ∧ second ≠ [] ∧ phrase = first ++ second ∧ first <:+ front ∧ second <+: back

section
variable {phrase replacement front back text word : List Char}

theorem Straddles.of_suffix {tail : List Char} (straddles : Straddles phrase tail back) (suffix : tail <:+ front) :
    Straddles phrase front back := by
  obtain ⟨first, second, firstSome, secondSome, split, ends, starts⟩ := straddles
  exact ⟨first, second, firstSome, secondSome, split, ends.trans suffix, starts⟩

/-- A text is read from the left in occurrences of a phrase and characters where none starts. -/
theorem phrase_induction {motive : List Char → Prop} (nonempty : phrase ≠ []) (nil : motive [])
    (hit : ∀ rest, motive rest → motive (phrase ++ rest))
    (keep : ∀ c rest, ¬ phrase <+: c :: rest → motive rest → motive (c :: rest)) (text : List Char) : motive text := by
  induction size : text.length using Nat.strongRecOn generalizing text with
  | ind n ih =>
    by_cases starts : phrase <+: text
    · obtain ⟨rest, rfl⟩ := starts
      have positive := List.length_pos_iff.mpr nonempty
      rw [List.length_append] at size
      exact hit rest (ih rest.length (by omega) rest rfl)
    · cases text with
      | nil => exact nil
      | cons c rest => exact keep c rest starts (ih rest.length (by rw [← size]; simp) rest rfl)

/-- A text in which the phrase does not occur stays as it is. -/
theorem replaceAll_eq_self (absent : ¬ phrase <:+: text) : replaceAll phrase replacement text = text := by
  induction text with
  | nil => rfl
  | cons c rest ih =>
    have notHere : ¬ phrase <+: c :: rest := fun starts => absent starts.isInfix
    have notLater : ¬ phrase <:+: rest := fun inside => absent (inside.trans (List.suffix_cons c rest).isInfix)
    rw [replaceAll_cons replacement notHere, ih notLater]

/-- Two parts of a text are rewritten each by itself, unless an occurrence reaches over their border. -/
theorem replaceAll_append_of_apart (nonempty : phrase ≠ []) (apart : ¬ Straddles phrase front back) :
    replaceAll phrase replacement (front ++ back) =
      replaceAll phrase replacement front ++ replaceAll phrase replacement back := by
  induction front using phrase_induction nonempty with
  | nil => rfl
  | hit rest ih =>
    have apartRest : ¬ Straddles phrase rest back := fun straddles =>
      apart (straddles.of_suffix (List.suffix_append phrase rest))
    rw [List.append_assoc, replaceAll_append _ _ nonempty, replaceAll_append _ _ nonempty, ih apartRest,
      List.append_assoc]
  | keep c rest notHere ih =>
    have apartRest : ¬ Straddles phrase rest back := fun straddles =>
      apart (straddles.of_suffix (List.suffix_cons c rest))
    have notOver : ¬ phrase <+: c :: (rest ++ back) := by
      rintro ⟨tail, split⟩
      rw [← List.cons_append] at split
      rcases List.append_eq_append_iff.mp split with ⟨more, whole, -⟩ | ⟨second, rfl, follows⟩
      · exact notHere ⟨more, whole.symm⟩
      · by_cases none : second = []
        · exact notHere (by simp [none])
        · exact apart ⟨c :: rest, second, by simp, none, rfl, List.suffix_rfl, tail, follows.symm⟩
    rw [List.cons_append, replaceAll_cons _ notOver, replaceAll_cons _ notHere, ih apartRest, List.cons_append]

/-! ### What a replacement brings along -/

section
variable (nonempty : phrase ≠ []) (filled : replacement ≠ [])
include nonempty filled

/-- A replaced text without characters of the replacement is the text itself. -/
theorem replaceAll_eq_self_of_fresh (fresh : ∀ c ∈ replaceAll phrase replacement text, c ∉ replacement) :
    replaceAll phrase replacement text = text := by
  induction text using phrase_induction nonempty with
  | nil => rfl
  | hit rest _ =>
    rw [replaceAll_append _ _ nonempty] at fresh
    obtain ⟨c, member⟩ := List.exists_mem_of_ne_nil replacement filled
    exact absurd member (fresh c (List.mem_append_left _ member))
  | keep c rest notHere ih =>
    rw [replaceAll_cons _ notHere] at fresh ⊢
    rw [ih fun d member => fresh d (List.mem_cons_of_mem c member)]

/-- What shares no character with the replacement and stands at the front afterwards stood there before. -/
theorem prefix_of_prefix_replaceAll (fresh : ∀ c ∈ word, c ∉ replacement)
    (starts : word <+: replaceAll phrase replacement text) : word <+: text := by
  induction text using phrase_induction nonempty generalizing word with
  | nil => exact starts
  | hit rest _ =>
    rw [replaceAll_append _ _ nonempty] at starts
    cases word with
    | nil => exact List.nil_prefix
    | cons letter word =>
      obtain ⟨first, others, rfl⟩ := List.exists_cons_of_ne_nil filled
      obtain ⟨rfl, -⟩ := List.cons_prefix_cons.mp starts
      exact absurd List.mem_cons_self (fresh letter List.mem_cons_self)
  | keep c rest notHere ih =>
    rw [replaceAll_cons _ notHere] at starts
    cases word with
    | nil => exact List.nil_prefix
    | cons letter word =>
      obtain ⟨rfl, startsRest⟩ := List.cons_prefix_cons.mp starts
      exact List.cons_prefix_cons.mpr ⟨rfl, ih (fun d member => fresh d (List.mem_cons_of_mem _ member)) startsRest⟩

/-- What shares no character with the replacement and stands at the end afterwards stood there before. -/
theorem suffix_of_suffix_replaceAll (fresh : ∀ c ∈ word, c ∉ replacement)
    (ends : word <:+ replaceAll phrase replacement text) : word <:+ text := by
  induction text using phrase_induction nonempty with
  | nil => exact ends
  | hit rest ih =>
    rw [replaceAll_append _ _ nonempty] at ends
    have whole : replaceAll phrase replacement rest <:+ replacement ++ replaceAll phrase replacement rest :=
      List.suffix_append _ _
    rcases List.suffix_or_suffix_of_suffix ends whole with inside | ⟨before, rfl⟩
    · exact (ih inside).trans (List.suffix_append phrase rest)
    · have inReplacement : before <:+ replacement := List.suffix_append_self_iff.mp ends
      cases before with
      | nil => exact (ih List.suffix_rfl).trans (List.suffix_append phrase rest)
      | cons c before =>
        exact absurd (inReplacement.subset List.mem_cons_self) (fresh c (by simp))
  | keep c rest notHere ih =>
    rw [replaceAll_cons _ notHere] at ends
    rcases List.suffix_cons_iff.mp ends with rfl | ends
    · have same := replaceAll_eq_self_of_fresh nonempty filled fun d member => fresh d (List.mem_cons_of_mem c member)
      exact same.symm ▸ List.suffix_rfl
    · exact (ih ends).trans (List.suffix_cons c rest)

/-- Where an occurrence reaches over the border between two rewritten texts, one does so before. -/
theorem Straddles.of_replaceAll (fresh : ∀ c ∈ word, c ∉ replacement)
    (straddles : Straddles word (replaceAll phrase replacement front) (replaceAll phrase replacement back)) :
    Straddles word front back := by
  obtain ⟨first, second, firstSome, secondSome, rfl, ends, starts⟩ := straddles
  obtain ⟨freshFirst, freshSecond⟩ := List.forall_mem_append.mp fresh
  exact ⟨first, second, firstSome, secondSome, rfl, suffix_of_suffix_replaceAll nonempty filled freshFirst ends,
    prefix_of_prefix_replaceAll nonempty filled freshSecond starts⟩

end

end

end GraphingCalculator
