import OrderedGrammar.Grammar.Terminal

/-!
The single characters of point lists. Each has the pattern that stands for it in the grammar, and
tells which characters it is. That the patterns compile, and match just these characters, are the
two things that the grammar takes from regular expressions (`Symbols`, `LawfulSymbols`).
-/

namespace OrderedGrammar.Points

/-- The single characters that point lists are made of. -/
inductive Symbol
  | minusSign
  | commaSign
  | decimalPoint
  /-- The letter before an exponent. -/
  | exponentLetter
  /-- Either sign. -/
  | signCharacter
  /-- An ASCII digit. -/
  | digitCharacter
  | space
  | tab
  | carriageReturn
  | lineFeed
  deriving DecidableEq

namespace Symbol

/-- The pattern of the character. A plain point would stand for any character; all blanks but the
space are written by their escapes. -/
def pattern : Symbol → String
  | minusSign => "-"
  | commaSign => ","
  | decimalPoint => "\\."
  | exponentLetter => "[eE]"
  | signCharacter => "[+-]"
  | digitCharacter => "[0-9]"
  | space => " "
  | tab => "\\t"
  | carriageReturn => "\\r"
  | lineFeed => "\\n"

/-- Which characters it is. -/
def Is : Symbol → Char → Prop
  | minusSign, c => c = '-'
  | commaSign, c => c = ','
  | decimalPoint, c => c = '.'
  | exponentLetter, c => c = 'e' ∨ c = 'E'
  | signCharacter, c => c = '+' ∨ c = '-'
  | digitCharacter, c => '0' ≤ c ∧ c ≤ '9'
  | space, c => c = ' '
  | tab, c => c = '\t'
  | carriageReturn, c => c = '\r'
  | lineFeed, c => c = '\n'

end Symbol

/-- The patterns of single characters compile. -/
class Symbols [Regex] where
  compiled : Symbol → Regex.Compiled
  compile_eq (symbol : Symbol) : Regex.compile symbol.pattern {} = .ok (compiled symbol)

/-- The patterns of single characters match one such character. -/
class LawfulSymbols [Regex] [Symbols] : Prop where
  matched?_iff (symbol : Symbol) (text : Text) (pos : Nat) (taken : String) :
    Regex.matched? (Symbols.compiled symbol) text pos = some taken ↔
      ∃ c, text[pos]? = some c ∧ symbol.Is c ∧ taken = c.toString

/-- The terminal of a single character. -/
def Symbol.terminal [Regex] [Symbols] (symbol : Symbol) : Terminal where
  pattern := symbol.pattern
  flags := ""
  compiled := Symbols.compiled symbol
  compile_eq := by rw [Terminal.compile_noFlags, Symbols.compile_eq]; rfl

end OrderedGrammar.Points
