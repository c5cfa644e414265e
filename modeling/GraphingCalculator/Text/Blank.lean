/-!
Blank characters: the ones with the Unicode property `White_Space`.
-/

namespace GraphingCalculator

/-- All characters with the property `White_Space`, in the order of their code points. -/
def blanks : List Char :=
  ['\t', '\n', '\x0b', '\x0c', '\r', ' ', '\u0085', '\u00a0', '\u1680', '\u2000', '\u2001',
    '\u2002', '\u2003', '\u2004', '\u2005', '\u2006', '\u2007', '\u2008', '\u2009', '\u200a',
    '\u2028', '\u2029', '\u202f', '\u205f', '\u3000']

/-- Whether the character has the property `White_Space`. -/
def isBlank (c : Char) : Bool :=
  blanks.contains c

theorem isBlank_iff {c : Char} : isBlank c = true ↔ c ∈ blanks :=
  List.contains_iff_mem

end GraphingCalculator
