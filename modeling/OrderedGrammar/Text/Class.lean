import OrderedGrammar.Text.Category
import OrderedGrammar.Text.LateAdditions

/-!
Classes of characters by what they are used for: letters and digits of names, characters that can be
printed, and the two notions of blank. Each class is decided directly on ASCII and by the general
category beyond it, in the earlier edition of the repertoire.
-/

namespace OrderedGrammar.Text

/-- Beyond ASCII the general category decides. -/
def isAscii (c : Char) : Bool := c.toNat < 128

/-- The category in the earlier edition, where late additions hold no character. -/
def baseCategory (c : Char) : Category :=
  if isLateAddition c then .unassigned else Category.ofChar c

/-- Letters of any alphabet. -/
def isLetter (c : Char) : Bool :=
  if isAscii c then c.isAlpha else (baseCategory c).isLetter

/-- Letters and numbers of every kind, superscripts and numerals included; no combining marks. -/
def isAlphanumeric (c : Char) : Bool :=
  if isAscii c then c.isAlphanum
  else let k := baseCategory c; k.isLetter || k.isNumber

/-- Digits of a positional decimal system. -/
def isDecimalDigit (c : Char) : Bool :=
  if isAscii c then c.isDigit else baseCategory c = .decimalDigit

/-- Characters shown as they are: all but separators other than the plain space, controls, format
characters and code points without a character. -/
def isPrintable (c : Char) : Bool :=
  if isAscii c then ' ' ≤ c && c ≤ '~'
  else let k := baseCategory c; !k.isOther && !k.isSeparator

/-- Characters that a pattern must not hold bare when blanks are layout: white space and the four
information separators. -/
def isBlank (c : Char) : Bool :=
  let n := c.toNat
  (0x09 ≤ n && n ≤ 0x0D) || (0x1C ≤ n && n ≤ 0x20) || n == 0x85 || n == 0xA0 || n == 0x1680 ||
  (0x2000 ≤ n && n ≤ 0x200A) || n == 0x2028 || n == 0x2029 || n == 0x202F || n == 0x205F ||
  n == 0x3000

/-- White space; the information separators are controls and do not belong to it. -/
def isWhiteSpace (c : Char) : Bool :=
  isBlank c && !(0x1C ≤ c.toNat && c.toNat ≤ 0x1F)

/-! ### Names -/

/-- A name opens with a letter or an underscore. -/
def opensName (c : Char) : Bool := isLetter c || c == '_'

/-- A name goes on with letters, numbers and underscores. -/
def continuesName (c : Char) : Bool := isAlphanumeric c || c == '_'

/-- Names of the notation: an opening character, then continuing ones. -/
def isName : List Char → Bool
  | [] => false
  | c :: rest => opensName c && rest.all continuesName

/-! ### Identifiers -/

/-- Letters that are no part of identifiers, since they are other spellings of texts that are none.
-/
def isBarredLetter (n : Nat) : Bool :=
  n == 0x37A || n == 0x2E2F || (0xFC5E ≤ n && n ≤ 0xFC63) || n == 0xFDFA || n == 0xFDFB ||
  (0xFE70 ≤ n && n ≤ 0xFE7E && n % 2 == 0)

/-- Letters that stand in identifiers, but not first. -/
def isInnerLetter (n : Nat) : Bool := n == 0xE33 || n == 0xEB3 || n == 0xFF9E || n == 0xFF9F

/-- Characters that open identifiers though they are no letters. -/
def isOpeningSign (n : Nat) : Bool :=
  n == '_'.toNat || n == 0x1885 || n == 0x1886 || n == 0x2118 || n == 0x212E

/-- Characters that stand inside identifiers though they are no letters, marks or digits. -/
def isInnerSign (n : Nat) : Bool :=
  n == 0xB7 || n == 0x387 || (0x1369 ≤ n && n ≤ 0x1371) || n == 0x19DA

/-- An identifier opens with a letter, a letter number or one of a few signs. -/
def opensIdentifier (c : Char) : Bool :=
  let k := baseCategory c
  isOpeningSign c.toNat || ((k.isLetter || k == .letterNumber) &&
    !isBarredLetter c.toNat && !isInnerLetter c.toNat)

/-- An identifier goes on with marks, decimal digits and connectors besides. -/
def continuesIdentifier (c : Char) : Bool :=
  let k := baseCategory c
  opensIdentifier c || isInnerLetter c.toNat || isInnerSign c.toNat || k == .nonspacingMark ||
    k == .spacingMark || k == .decimalDigit || k == .connector

/-- Names of groups: an opening character, then continuing ones. -/
def isIdentifier : List Char → Bool
  | [] => false
  | c :: rest => opensIdentifier c && rest.all continuesIdentifier

end OrderedGrammar.Text
