import GraphingCalculator.Text.Blank
import GraphingCalculator.Text.Lowercase
import GraphingCalculator.Text.Replace

/-!
Dictated expressions. Spoken words become signs and digits, one phrase after the other and wherever
they stand, and blanks go last. Whether an expression comes out is for the reader of expressions to
say.
-/

namespace GraphingCalculator.Dictation

/-- The spoken operators and constants and how they are written. A phrase comes before the words
that it is made of. -/
def operatorWords : List (String × String) :=
  [("plus", "+"), ("minus", "-"), ("times", "*"), ("multiplied by", "*"), ("divided by", "/"),
    ("over", "/"), ("squared", "^2"), ("cubed", "^3"), ("pi", "π")]

/-- The spoken numbers and the decimal point, and how they are written. Compound numbers come
before `twenty`, and a number before the ones that it starts with. -/
def numberWords : List (String × String) :=
  [("twenty one", "21"), ("twenty two", "22"), ("twenty three", "23"), ("twenty four", "24"),
    ("twenty five", "25"), ("twenty six", "26"), ("twenty seven", "27"), ("twenty eight", "28"),
    ("twenty nine", "29"), ("twenty", "20"), ("nineteen", "19"), ("eighteen", "18"),
    ("seventeen", "17"), ("sixteen", "16"), ("fifteen", "15"), ("fourteen", "14"),
    ("thirteen", "13"), ("twelve", "12"), ("eleven", "11"), ("ten", "10"), ("nine", "9"),
    ("eight", "8"), ("seven", "7"), ("six", "6"), ("five", "5"), ("four", "4"), ("three", "3"),
    ("two", "2"), ("one", "1"), ("zero", "0"), ("point", ".")]

/-- All phrases in the order in which they are replaced. -/
def phrases : List (String × String) :=
  operatorWords ++ numberWords

/-- The text with each phrase replaced, one phrase after the other. -/
def substitute (text : List Char) : List Char :=
  phrases.foldl
    (fun text (phrase, written) => replaceAll phrase.toList written.toList text) text

/-- The characters of a dictated text as an expression is written. -/
def written (text : List Char) : List Char :=
  (substitute (Lowercase.lower text)).filter fun c => !isBlank c

/-- A dictated text as an expression is written. -/
def transcribe (spoken : String) : String :=
  String.ofList (written spoken.toList)

end GraphingCalculator.Dictation
