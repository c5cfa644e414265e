import GraphingCalculator.Json.Parser
import Mathlib.Tactic.SplitIfs

/-!
Strings in JSON: what has been escaped ends where its closing quote stands (`isBody_escape`), and means the
text that it was made from (`unescape?_escape`).
-/

namespace GraphingCalculator.Json

variable {c : Char} {found rest : List Char}

theorem hexValue?_hexDigit : ∀ n < 16, hexValue? (hexDigit n) = some n := by decide

/-- The four digits of the escape of a control character have its value. -/
theorem hexUnit?_of_control (n : Nat) (control : n < 0x20) :
    hexUnit? '0' '0' (hexDigit (n / 16)) (hexDigit (n % 16)) = some n := by
  have high := hexValue?_hexDigit (n / 16) (by omega)
  have low := hexValue?_hexDigit (n % 16) (by omega)
  have zero : hexValue? '0' = some 0 := by decide
  simp only [hexUnit?, zero, high, low, bind, Option.bind, pure]
  congr 1
  omega

/-- A character is escaped by its short escape, by its code, or not at all. -/
theorem escapeChar_cases (c : Char) :
    (∃ mark, escapeChar c = ['\\', mark] ∧ mark ≠ 'u' ∧ shortEscape? mark = some c) ∨
      (c.toNat < 0x20 ∧
        escapeChar c = ['\\', 'u', '0', '0', hexDigit (c.toNat / 16), hexDigit (c.toNat % 16)]) ∨
      (escapeChar c = [c] ∧ c ≠ '"' ∧ c ≠ '\\' ∧ 0x20 ≤ c.toNat) := by
  unfold escapeChar
  split_ifs with quote slash back form line carriage tab control
  · exact .inl ⟨'"', rfl, by decide, by rw [quote]; rfl⟩
  · exact .inl ⟨'\\', rfl, by decide, by rw [slash]; rfl⟩
  · exact .inl ⟨'b', rfl, by decide, by rw [back]; rfl⟩
  · exact .inl ⟨'f', rfl, by decide, by rw [form]; rfl⟩
  · exact .inl ⟨'n', rfl, by decide, by rw [line]; rfl⟩
  · exact .inl ⟨'r', rfl, by decide, by rw [carriage]; rfl⟩
  · exact .inl ⟨'t', rfl, by decide, by rw [tab]; rfl⟩
  · exact .inr (.inl ⟨control, rfl⟩)
  · exact .inr (.inr ⟨rfl, quote, slash, Nat.le_of_not_lt control⟩)

/-! ### Where a string ends -/

/-- A string with this body ends at the first quote behind it. -/
def IsBody (body : String) : Prop :=
  ∀ rest, takeBody [] (body.toList ++ '"' :: rest) = some (body, rest)

theorem takeBody_escapeChar (c : Char) (found rest : List Char) :
    takeBody found (escapeChar c ++ rest) = takeBody ((escapeChar c).reverse ++ found) rest := by
  obtain ⟨mark, short, noCode, meant⟩ | ⟨control, code⟩ | ⟨plain, noQuote, noSlash, visible⟩ := escapeChar_cases c
  · rw [short, List.cons_append, List.singleton_append, takeBody.eq_def]
    simp [noCode, meant]
  · rw [code]
    simp [takeBody, hexUnit?_of_control c.toNat control]
  · rw [plain, List.singleton_append, takeBody.eq_def]
    simp [noQuote, noSlash, Nat.not_lt.mpr visible]

theorem isBody_escape (text : String) : IsBody (escape text) := by
  have taken (text found rest : List Char) : takeBody found (text.flatMap escapeChar ++ '"' :: rest) =
      some (String.ofList (found.reverse ++ text.flatMap escapeChar), rest) := by
    induction text generalizing found with
    | nil =>
      rw [takeBody.eq_def]
      simp
    | cons c text ih => rw [List.flatMap_cons, List.append_assoc, takeBody_escapeChar, ih]; simp
  intro rest
  rw [escape, String.toList_ofList]
  exact taken text.toList [] rest

/-! ### What a string means -/

theorem unescapeFrom_escapeChar (c : Char) (found rest : List Char) :
    unescapeFrom none found (escapeChar c ++ rest) = unescapeFrom none (c :: found) rest := by
  obtain ⟨mark, short, noCode, meant⟩ | ⟨control, code⟩ | ⟨plain, -, noSlash, -⟩ := escapeChar_cases c
  · rw [short, List.cons_append, List.singleton_append, unescapeFrom.eq_def]
    simp [noCode, meant]
  · have noHigh : isHighSurrogate c.toNat = false := by
      simp only [isHighSurrogate, Bool.and_eq_false_iff, decide_eq_false_iff_not]
      omega
    have noLow : isLowSurrogate c.toNat = false := by
      simp only [isLowSurrogate, Bool.and_eq_false_iff, decide_eq_false_iff_not]
      omega
    rw [code]
    simp [unescapeFrom, hexUnit?_of_control c.toNat control, noHigh, noLow]
  · rw [plain, List.singleton_append, unescapeFrom.eq_def]
    simp [noSlash]

theorem unescape?_escape (text : String) : unescape? (escape text) = some text := by
  have read (text found : List Char) :
      unescapeFrom none found (text.flatMap escapeChar) = some (found.reverse ++ text) := by
    induction text generalizing found with
    | nil => simp [unescapeFrom]
    | cons c text ih => rw [List.flatMap_cons, unescapeFrom_escapeChar, ih]; simp
  rw [unescape?, escape, String.toList_ofList, read]
  simp

end GraphingCalculator.Json
