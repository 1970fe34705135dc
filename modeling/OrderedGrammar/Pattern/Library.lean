import OrderedGrammar.Pattern.Matcher
import OrderedGrammar.Pattern.Reader
import OrderedGrammar.Points.Symbol

/-!
The patterns of this library as regular expressions. An offset beyond the text counts as its end,
and a match takes the slice of the text from the offset on.
-/

namespace OrderedGrammar

instance : Regex where
  Compiled := Pattern
  compile pattern flags := (Pattern.read pattern.toList flags).mapError (·.message pattern)
  matched? p text pos :=
    (p.matchAt text (min pos text.size)).map (text.slice (min pos text.size))

namespace Points

/-- The pattern of one character from a set. -/
def oneOf (set : Pattern.CharSet) : Pattern := ⟨.one set false, 0, []⟩

/-- The set of a symbol. -/
def Symbol.set : Symbol → Pattern.CharSet
  | minusSign => .single 0x2D
  | commaSign => .single 0x2C
  | decimalPoint => .single 0x2E
  | exponentLetter => .union (.single 0x65) (.single 0x45)
  | signCharacter => .union (.single 0x2B) (.single 0x2D)
  | digitCharacter => .range 0x30 0x39
  | space => .single 0x20
  | tab => .single 0x09
  | carriageReturn => .single 0x0D
  | lineFeed => .single 0x0A

theorem read_pattern (symbol : Symbol) :
    (Pattern.read symbol.pattern.toList {}).toOption = some (oneOf symbol.set) := by
  cases symbol <;> decide +kernel

instance : Symbols where
  compiled symbol := oneOf symbol.set
  compile_eq symbol := by
    have h := read_pattern symbol
    change (Pattern.read symbol.pattern.toList {}).mapError _ = _
    cases hr : Pattern.read symbol.pattern.toList {} with
    | error e => rw [hr] at h; cases h
    | ok p => rw [hr] at h; cases h; rfl

end Points

end OrderedGrammar
