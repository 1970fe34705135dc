/-!
Texts as arrays of characters. Offsets and lengths count characters, and reading at an offset costs
the same everywhere; a slice is given back as a string.
-/

namespace OrderedGrammar

/-- A text, read by offsets. -/
abbrev Text := Array Char

namespace Text

/-- The characters of a string. -/
def ofString (s : String) : Text := s.toList.toArray

/-- The characters from `start` up to `stop`, as far as the text has them. -/
def slice (t : Text) (start stop : Nat) : String := String.ofList (t.extract start stop).toList

end Text

end OrderedGrammar
