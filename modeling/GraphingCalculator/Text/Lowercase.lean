import GraphingCalculator.Text.CaseTable

/-!
The lower case of a text by the rules of the Unicode standard. Only the capital sigma depends on
its neighbours: at the end of a word it becomes the final form of the small letter.
-/

namespace GraphingCalculator.Lowercase

/-- Whether the character has the property `Cased`. -/
def isCased (c : Char) : Bool :=
  CaseTable.inRanges CaseTable.casedRanges c.toNat

/-- Whether the character has the property `Case_Ignorable`. -/
def isCaseIgnorable (c : Char) : Bool :=
  CaseTable.inRanges CaseTable.caseIgnorableRanges c.toNat

/-- Whether the code point is one of the letters of a run. -/
def inRun (code : Nat) (run : CaseTable.Run) : Bool :=
  run.first ≤ code && code ≤ run.last && (code - run.first) % run.step == 0

/-- The lower case of a character by itself; one letter has a lower case of two characters. -/
def lowerChar (c : Char) : List Char :=
  if c.toNat < 0x80 then [c.toLower]
  else if c = 'İ' then ['i', '\u0307']
  else
    match CaseTable.lowercaseRuns.find? (inRun c.toNat) with
    | some run => [Char.ofNat (c.toNat + run.shift).toNat]
    | none => [c]

/-- Whether a word goes on in a text: its first character that is not passed over has case. -/
def startsCased (text : List Char) : Bool :=
  match text.dropWhile isCaseIgnorable with
  | c :: _ => isCased c
  | [] => false

/-- The lower case of a text behind the characters in `found`, which come in the reverse of their
order. `inWord` says whether the last character before it that is not passed over has case. -/
def lowerFrom (inWord : Bool) (found : List Char) : List Char → List Char
  | [] => found.reverse
  | c :: rest =>
    let small :=
      if c = 'Σ' then [if inWord && !startsCased rest then 'ς' else 'σ'] else lowerChar c
    let inWord := if isCaseIgnorable c then inWord else isCased c
    lowerFrom inWord (small.reverse ++ found) rest

/-- The lower case of a text. -/
def lower (text : List Char) : List Char :=
  lowerFrom false [] text

end GraphingCalculator.Lowercase
