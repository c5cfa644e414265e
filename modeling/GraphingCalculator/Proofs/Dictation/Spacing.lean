import GraphingCalculator.Proofs.Dictation.Borders

/-!
How much the blanks of a dictated text matter. Main statements: which blanks stand between the words makes no
difference, except that the space of a phrase of two words is a single one (`transcribe_respaced`); any other
blanks there make something else of the two words (`written_pair_ne`).
-/

namespace GraphingCalculator.Dictation

/-- A run of blanks. -/
structure IsGap (gap : List Char) : Prop where
  nonempty : gap ≠ []
  blank : ∀ c ∈ gap, isBlank c = true

instance (gap : List Char) : Decidable (IsGap gap) :=
  decidable_of_iff (gap ≠ [] ∧ gap.all isBlank = true)
    ⟨fun ⟨nonempty, blank⟩ => ⟨nonempty, List.all_eq_true.mp blank⟩,
      fun ⟨nonempty, blank⟩ => ⟨nonempty, List.all_eq_true.mpr blank⟩⟩

/-- Two texts that differ only in that runs of blanks stand for other ones. Where `Tied` holds of what stands
before a run and behind it, a single space stays one and no other run becomes one. -/
inductive Respaced (Tied : List Char → List Char → Prop) : List Char → List Char → Prop where
  | same (text : List Char) : Respaced Tied text text
  | gap (front gap gap' : List Char) {back back' : List Char} : IsGap gap → IsGap gap' →
      (Tied front back → (gap = [' '] ↔ gap' = [' '])) → Respaced Tied back back' →
      Respaced Tied (front ++ (gap ++ back)) (front ++ (gap' ++ back'))

/-- The texts have the two words of a phrase at their border, in whatever case. -/
def Tied (front back : List Char) : Prop :=
  SplitsPhrase (Lowercase.lower front) (Lowercase.lower back)

section
variable {front back back' left s t : List Char} {R : List Char → List Char → Prop}

/-- The first word of a phrase does not reach back behind blanks. -/
theorem Tied.of_append (ends : ∀ c ∈ left.getLast?, isBlank c = true) (tied : Tied (left ++ front) back) :
    Tied front back := by
  cases left using List.reverseRecOn with
  | nil => exact tied
  | append_singleton left c =>
    have blank : isBlank c = true := ends c (by simp)
    obtain ⟨pair, listed, ends, starts⟩ := tied
    have noBlank : c ∉ pair.1.toList := fun member => by
      simp [(isBlank_eq_false_of_mem_wordPairs pair listed).1 c member] at blank
    rw [List.append_assoc, Lowercase.lower_blanks (by simpa using blank) (by simp)] at ends
    exact ⟨pair, listed, suffix_of_notMem noBlank ends, starts⟩

/-- The second word of a phrase does not reach over blanks, whichever they are. -/
theorem Tied.of_respaced (respaced : Respaced R back back') (tied : Tied front back') : Tied front back := by
  cases respaced with
  | same => exact tied
  | gap word gap gap' isGap isGap' _ _ =>
    obtain ⟨pair, listed, ends, starts⟩ := tied
    refine ⟨pair, listed, ends, ?_⟩
    rw [Lowercase.lower_blanks isGap'.blank isGap'.nonempty] at starts
    rw [Lowercase.lower_blanks isGap.blank isGap.nonempty]
    obtain ⟨c, gap', rfl⟩ := List.exists_cons_of_ne_nil isGap'.nonempty
    have noBlank : c ∉ pair.2.toList := fun member => by
      simpa [(isBlank_eq_false_of_mem_wordPairs pair listed).2 c member] using isGap'.blank c
    exact (prefix_of_notMem noBlank starts).trans (List.prefix_append _ _)

/-- `left` is what both texts have up to a run of blanks. -/
theorem written_append_of_respaced (respaced : Respaced Tied s t) (ends : ∀ c ∈ left.getLast?, isBlank c = true) :
    written (left ++ s) = written (left ++ t) := by
  induction respaced generalizing left with
  | same => rfl
  | @gap front gap gap' back back' isGap isGap' kept respaced ih =>
    by_cases single : gap = [' '] ∧ gap' = [' ']
    · obtain ⟨rfl, rfl⟩ := single
      have space : ∀ c ∈ (left ++ front ++ [' ']).getLast?, isBlank c = true := by simp; decide
      simpa using ih space
    · have free : gap = [' '] → ¬ Tied (left ++ front) back := fun isSingle tied =>
        single ⟨isSingle, (kept (tied.of_append ends)).mp isSingle⟩
      have free' : gap' = [' '] → ¬ Tied (left ++ front) back' := fun isSingle tied =>
        single ⟨(kept ((tied.of_respaced respaced).of_append ends)).mpr isSingle, isSingle⟩
      calc written (left ++ (front ++ (gap ++ back)))
        _ = written (left ++ front) ++ written back := by
            rw [← List.append_assoc, written_blanks isGap.blank isGap.nonempty free]
        _ = written (left ++ front) ++ written back' := congrArg _ (@ih [] (by simp))
        _ = written (left ++ (front ++ (gap' ++ back'))) := by
            rw [← List.append_assoc, written_blanks isGap'.blank isGap'.nonempty free']

end

/-- Which blanks stand between words makes no difference, except between the two words of a phrase. -/
theorem transcribe_respaced {s t : String} (respaced : Respaced Tied s.toList t.toList) :
    transcribe s = transcribe t :=
  congrArg String.ofList (@written_append_of_respaced [] _ _ respaced (by simp))

/-- Other blanks around a phrase that keeps its single space. -/
theorem transcribe_twenty_one_plus : transcribe "twenty one\tplus  x" = transcribe "twenty one  plus\tx" :=
  transcribe_respaced <|
    .gap "twenty one".toList ['\t'] [' ', ' '] (by decide) (by decide) (by simp) <|
    .gap "plus".toList [' ', ' '] ['\t'] (by decide) (by decide) (by simp) <|
    .same "x".toList

/-- Between the two words of a phrase the blanks matter. -/
theorem not_transcribe_respaced :
    ¬ ∀ s t : String, Respaced (fun _ _ => False) s.toList t.toList → transcribe s = transcribe t := by
  intro all
  have respaced : Respaced (fun _ _ => False) "twenty one".toList "twenty  one".toList :=
    .gap "twenty".toList [' '] [' ', ' '] (by decide) (by decide) (by simp) (.same "one".toList)
  exact absurd (all "twenty one" "twenty  one" respaced) (by decide +kernel)

/-- Only a single space makes a phrase of two words. -/
theorem written_pair_ne {pair : String × String} (listed : pair ∈ wordPairs) {gap : List Char} (isGap : IsGap gap)
    (other : gap ≠ [' ']) :
    written (pair.1.toList ++ (gap ++ pair.2.toList)) ≠ written (pair.1.toList ++ ([' '] ++ pair.2.toList)) := by
  have all : wordPairs.all (fun pair => written pair.1.toList ++ written pair.2.toList !=
      written (pair.1.toList ++ ([' '] ++ pair.2.toList))) = true := by decide +kernel
  rw [written_blanks isGap.blank isGap.nonempty fun single => absurd single other]
  simpa using List.all_eq_true.mp all pair listed

end GraphingCalculator.Dictation
