import OrderedGrammar.Text.Class

/-!
Patterns that stand for a fixed text. A backslash goes before every character that has a meaning in
some pattern, blanks included, since they are layout in verbose patterns.
-/

namespace OrderedGrammar.Pattern

/-- Characters with a meaning in some pattern. -/
def isSign (c : Char) : Bool := "()[]\x7b\x7d?*+|^$\\.-#&~".toList.contains c

/-- One character, protected where it needs it. -/
def escapeChar (c : Char) : List Char :=
  if isSign c || Text.isBlank c then ['\\', c] else [c]

/-- The pattern that matches exactly this text. -/
def escape (text : List Char) : List Char := text.flatMap escapeChar

end OrderedGrammar.Pattern
