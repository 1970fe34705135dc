import OrderedGrammar.Text.AlphabeticMarks
import OrderedGrammar.Text.Class

/-!
Classes of characters that patterns can name, in the later edition of the repertoire: general
categories and groups of them, and the properties behind `\w`, `\s` and the names of brackets.
-/

namespace OrderedGrammar.Pattern

open OrderedGrammar.Text

/-- Classes that a pattern can name. -/
inductive CharClass
  | whiteSpace | word
  | alphabetic | asciiDigit | alphanumeric | hexDigit | horizontalBlank | symbol
  | graphic | printable
  | uppercase | lowercase
  | category (c : Category)
  | letter | mark | number | punctuation | anySymbol | separator | other
  | casedLetter | cased
  deriving DecidableEq

namespace CharClass

/-- Symbols of enclosed capital letters. -/
def isEnclosedCapital (n : Nat) : Bool :=
  (0x24B6 ≤ n && n ≤ 0x24CF) || (0x1F130 ≤ n && n ≤ 0x1F149) || (0x1F150 ≤ n && n ≤ 0x1F169) ||
  (0x1F170 ≤ n && n ≤ 0x1F189)

/-- Symbols of enclosed small letters. -/
def isEnclosedSmall (n : Nat) : Bool := 0x24D0 ≤ n && n ≤ 0x24E9

/-- Letters, letter numbers, enclosed letters and the marks of alphabets. -/
def isAlphabetic (c : Char) : Bool :=
  let k := Category.ofChar c
  k.isLetter || k == .letterNumber || isEnclosedCapital c.toNat || isEnclosedSmall c.toNat ||
    (k.isMark && alphabeticMarks.any fun r => r.1 ≤ c.toNat && c.toNat ≤ r.2)

/-- Characters of a word: alphabetic ones, all marks, decimal digits, connectors, and the two signs
that keep letters apart or join them. -/
def isWordCharacter (c : Char) : Bool :=
  if isAscii c then c.isAlphanum || c == '_'
  else
    let k := Category.ofChar c
    k.isLetter || k.isMark || k == .letterNumber || k == .decimalDigit || k == .connector ||
      isEnclosedCapital c.toNat || isEnclosedSmall c.toNat || c == '\u200c' || c == '\u200d'

/-- Capital letters, and the numbers and symbols that look like them. -/
def isUppercase (c : Char) : Bool :=
  Category.ofChar c == .upperLetter || (0x2160 ≤ c.toNat && c.toNat ≤ 0x216F) ||
    isEnclosedCapital c.toNat

/-- The first and the last code point of each stretch of small letters of other categories: modifier
letters, numbers and symbols that look like them, and one mark. -/
def otherSmall : List (Nat × Nat) := [
  (0xAA, 0xAA), (0xBA, 0xBA), (0x2B0, 0x2B8), (0x2C0, 0x2C1), (0x2E0, 0x2E4), (0x345, 0x345),
  (0x37A, 0x37A), (0x10FC, 0x10FC), (0x1D2C, 0x1D6A), (0x1D78, 0x1D78), (0x1D9B, 0x1DBF),
  (0x2071, 0x2071), (0x207F, 0x207F), (0x2090, 0x209C), (0x2170, 0x217F), (0x24D0, 0x24E9),
  (0x2C7C, 0x2C7D), (0xA69C, 0xA69D), (0xA770, 0xA770), (0xA7F1, 0xA7F4), (0xA7F8, 0xA7F9),
  (0xAB5C, 0xAB5F), (0xAB69, 0xAB69), (0x10780, 0x10780), (0x10783, 0x10785), (0x10787, 0x107B0),
  (0x107B2, 0x107BA), (0x1E030, 0x1E06D)]

/-- Small letters, and the characters that look like them. -/
def isLowercase (c : Char) : Bool :=
  Category.ofChar c == .lowerLetter || otherSmall.any fun r => r.1 ≤ c.toNat && c.toNat ≤ r.2

/-- Digits of base sixteen, in either case. -/
def isAsciiHexDigit (c : Char) : Bool :=
  c.isDigit || ('a' ≤ c && c ≤ 'f') || ('A' ≤ c && c ≤ 'F')

/-- Neither blank nor a control, a surrogate or a code point without a character. -/
def isGraphic (c : Char) : Bool :=
  let k := Category.ofChar c
  !isWhiteSpace c && k != .control && k != .surrogate && k != .unassigned

/-- Tabs and spaces of every width. -/
def isHorizontalBlank (c : Char) : Bool := c == '\t' || Category.ofChar c == .spaceSeparator

/-- Punctuation, and symbols that are not alphabetic. -/
def isSymbolOrPunctuation (c : Char) : Bool :=
  let k := Category.ofChar c
  (k.isPunctuation || k.isSymbol) && !isAlphabetic c

/-- The characters of a class. -/
def contains : CharClass → Char → Bool
  | whiteSpace, c => isWhiteSpace c
  | word, c => isWordCharacter c
  | alphabetic, c => isAlphabetic c
  | asciiDigit, c => c.isDigit
  | alphanumeric, c => isAlphabetic c || c.isDigit
  | hexDigit, c => isAsciiHexDigit c
  | horizontalBlank, c => isHorizontalBlank c
  | symbol, c => isSymbolOrPunctuation c
  | graphic, c => isGraphic c
  | printable, c => (isGraphic c || isHorizontalBlank c) && Category.ofChar c != .control
  | uppercase, c => isUppercase c
  | lowercase, c => isLowercase c
  | category k, c => Category.ofChar c == k
  | letter, c => (Category.ofChar c).isLetter
  | mark, c => (Category.ofChar c).isMark
  | number, c => (Category.ofChar c).isNumber
  | punctuation, c => (Category.ofChar c).isPunctuation
  | anySymbol, c => (Category.ofChar c).isSymbol
  | separator, c => (Category.ofChar c).isSeparator
  | other, c => (Category.ofChar c).isOther
  | casedLetter, c => (Category.ofChar c).isCased
  | cased, c => isUppercase c || isLowercase c || Category.ofChar c == .titleLetter

/-- The class that stands in for one of a single case when case is ignored. -/
def ignoringCase : CharClass → CharClass
  | uppercase => cased
  | lowercase => cased
  | category k => if k.isCased then casedLetter else category k
  | k => k

/-! ### Names -/

/-- The group of categories that one letter names. -/
def ofGroupLetter? : Char → Option CharClass
  | 'L' => some letter
  | 'M' => some mark
  | 'N' => some number
  | 'P' => some punctuation
  | 'S' => some anySymbol
  | 'Z' => some separator
  | 'C' => some other
  | _ => none

/-- Names in full of the general categories and of groups of them. -/
def categoryNames : List (String × CharClass) := [
  ("letter", letter), ("mark", mark), ("combiningmark", mark), ("number", number),
  ("punctuation", punctuation), ("punct", punctuation), ("symbol", anySymbol),
  ("separator", separator), ("other", other), ("casedletter", casedLetter), ("lc", casedLetter),
  ("l&", casedLetter), ("uppercaseletter", category .upperLetter),
  ("lowercaseletter", category .lowerLetter), ("titlecaseletter", category .titleLetter),
  ("modifierletter", category .modifierLetter), ("otherletter", category .otherLetter),
  ("nonspacingmark", category .nonspacingMark), ("spacingmark", category .spacingMark),
  ("enclosingmark", category .enclosingMark), ("decimalnumber", category .decimalDigit),
  ("digit", category .decimalDigit), ("letternumber", category .letterNumber),
  ("othernumber", category .otherNumber), ("connectorpunctuation", category .connector),
  ("dashpunctuation", category .dash), ("openpunctuation", category .openBracket),
  ("closepunctuation", category .closeBracket), ("initialpunctuation", category .openQuote),
  ("finalpunctuation", category .closeQuote), ("otherpunctuation", category .otherPunctuation),
  ("mathsymbol", category .mathSymbol), ("currencysymbol", category .currencySymbol),
  ("modifiersymbol", category .modifierSymbol), ("othersymbol", category .otherSymbol),
  ("spaceseparator", category .spaceSeparator), ("lineseparator", category .lineSeparator),
  ("paragraphseparator", category .paragraphSeparator), ("control", category .control),
  ("cntrl", category .control), ("format", category .format), ("surrogate", category .surrogate),
  ("privateuse", category .privateUse), ("unassigned", category .unassigned)]

/-- Names of classes that are no general categories. -/
def classNames : List (String × CharClass) := [
  ("alpha", alphabetic), ("alphabetic", alphabetic), ("upper", uppercase), ("uppercase", uppercase),
  ("lower", lowercase), ("lowercase", lowercase), ("space", whiteSpace), ("whitespace", whiteSpace),
  ("blank", horizontalBlank), ("graph", graphic), ("print", printable), ("word", word)]

/-- Names that have a meaning of their own between brackets, as in `[:digit:]`. -/
def bracketNames : List (String × CharClass) := [
  ("alnum", alphanumeric), ("digit", asciiDigit), ("xdigit", hexDigit), ("punct", symbol)]

/-- Names are told apart without regard to case, and to spaces, underscores and hyphens in them. -/
def plainName (name : List Char) : List Char :=
  (name.filter fun c => c != ' ' && c != '_' && c != '-').map Char.toLower

/-- The class of a property: a general category by its two letters, a group of them by one, or a
class by its name in full. -/
def ofPropertyName? (name : List Char) : Option CharClass :=
  match plainName name with
  | [g] => ofGroupLetter? g.toUpper
  | [g, k] =>
    ((Category.named? (String.ofList [g.toUpper, k])).map category) <|>
      categoryNames.lookup (String.ofList [g, k])
  | full => (categoryNames ++ classNames).lookup (String.ofList full)

/-- The class with this name between brackets. -/
def ofBracketName? (name : List Char) : Option CharClass :=
  bracketNames.lookup (String.ofList (plainName name)) <|> ofPropertyName? name

end CharClass

end OrderedGrammar.Pattern
