import OrderedGrammar.Text.CategoryRuns

/-!
The general category of a character. Every code point has exactly one of thirty categories, written
with two letters of which the first names a group; `Category.ofCode` looks it up in the runs of
`categoryRunLines`.
-/

namespace OrderedGrammar.Text

/-- The general categories; code points without a character are `unassigned`. -/
inductive Category
  | upperLetter | lowerLetter | titleLetter | modifierLetter | otherLetter
  | nonspacingMark | spacingMark | enclosingMark
  | decimalDigit | letterNumber | otherNumber
  | connector | dash | openBracket | closeBracket | openQuote | closeQuote | otherPunctuation
  | mathSymbol | currencySymbol | modifierSymbol | otherSymbol
  | spaceSeparator | lineSeparator | paragraphSeparator
  | control | format | surrogate | privateUse | unassigned
  deriving DecidableEq, Repr

namespace Category

/-- The categories with their two letters. -/
def letters : List (String × Category) := [
  ("Lu", upperLetter), ("Ll", lowerLetter), ("Lt", titleLetter), ("Lm", modifierLetter),
  ("Lo", otherLetter), ("Mn", nonspacingMark), ("Mc", spacingMark), ("Me", enclosingMark),
  ("Nd", decimalDigit), ("Nl", letterNumber), ("No", otherNumber), ("Pc", connector),
  ("Pd", dash), ("Ps", openBracket), ("Pe", closeBracket), ("Pi", openQuote), ("Pf", closeQuote),
  ("Po", otherPunctuation), ("Sm", mathSymbol), ("Sc", currencySymbol), ("Sk", modifierSymbol),
  ("So", otherSymbol), ("Zs", spaceSeparator), ("Zl", lineSeparator), ("Zp", paragraphSeparator),
  ("Cc", control), ("Cf", format), ("Cs", surrogate), ("Co", privateUse), ("Cn", unassigned)]

/-- The category written with these two letters. -/
def named? (name : String) : Option Category := letters.lookup name

/-- Letters of every kind. -/
def isLetter : Category → Bool
  | upperLetter | lowerLetter | titleLetter | modifierLetter | otherLetter => true
  | _ => false

/-- Letters with a case of their own. -/
def isCased : Category → Bool
  | upperLetter | lowerLetter | titleLetter => true
  | _ => false

/-- Marks that combine with the character before them. -/
def isMark : Category → Bool
  | nonspacingMark | spacingMark | enclosingMark => true
  | _ => false

/-- Digits and other numbers. -/
def isNumber : Category → Bool
  | decimalDigit | letterNumber | otherNumber => true
  | _ => false

/-- Punctuation of every kind. -/
def isPunctuation : Category → Bool
  | connector | dash | openBracket | closeBracket | openQuote | closeQuote
  | otherPunctuation => true
  | _ => false

/-- Symbols of every kind. -/
def isSymbol : Category → Bool
  | mathSymbol | currencySymbol | modifierSymbol | otherSymbol => true
  | _ => false

/-- Separators of words, lines and paragraphs. -/
def isSeparator : Category → Bool
  | spaceSeparator | lineSeparator | paragraphSeparator => true
  | _ => false

/-- Controls, format characters, private use and code points that hold no character. -/
def isOther : Category → Bool
  | control | format | surrogate | privateUse | unassigned => true
  | _ => false

/-- Code points from `first` on that share a category, or alternate between upper and lower case. -/
structure Run where
  first : Nat
  category : Category
  alternates : Bool := false

instance : Inhabited Run := ⟨⟨0, .unassigned, false⟩⟩

namespace Run

/-- The category that the run gives to a code point at or after its start. -/
def categoryOf (r : Run) (code : Nat) : Category :=
  if r.alternates && (code - r.first) % 2 == 1 then .lowerLetter else r.category

/-- The value of a hexadecimal digit in lower case. -/
def hexValue (c : Char) : Nat :=
  if c.isDigit then c.toNat - '0'.toNat else c.toNat - 'a'.toNat + 10

/-- A run is written as its start in hexadecimal and the letters of its category. -/
def ofWord (word : List Char) : Run :=
  let digits := word.takeWhile fun c => c.isDigit || c.isLower
  let first := digits.foldl (fun n c => 16 * n + hexValue c) 0
  match String.ofList (word.drop digits.length) with
  | "Lx" => ⟨first, .upperLetter, true⟩
  | name => ⟨first, (named? name).getD .unassigned, false⟩

end Run

/-- All runs, in the order of code points. -/
def runs : Array Run :=
  (categoryRunLines.flatMap fun line =>
    (line.splitOn " ").map fun word => Run.ofWord word.toList).toArray

/-- The number of the last run in `lo ≤ i < hi` that starts at or before the code point. -/
def runNumber (code : Nat) (lo hi : Nat) : Nat :=
  if hi - lo ≤ 1 then lo
  else
    let mid := (lo + hi) / 2
    if runs[mid]!.first ≤ code then runNumber code mid hi else runNumber code lo mid
  termination_by hi - lo

/-- The run that holds a code point. -/
def runOf (code : Nat) : Run := runs[runNumber code 0 runs.size]!

/-- The category of a code point. -/
def ofCode (code : Nat) : Category := (runOf code).categoryOf code

/-- The category of a character. -/
def ofChar (c : Char) : Category := ofCode c.toNat

end Category

end OrderedGrammar.Text
