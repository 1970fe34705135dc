/-!
Offsets shown to a reader. An offset counts the characters before it; a line ends at a line feed
and nowhere else. `Position.of` gives the line and the column, both counted from one, and
`caretSnippet` the text of that line with a caret under the column. Offsets beyond the end stand
on the last line, with columns that run on.
-/

namespace OrderedGrammar

/-- A line and a column, both counted from one. -/
structure Position where
  line : Nat
  column : Nat
  deriving DecidableEq, Repr

namespace Position

/-- What stands before the offset on its own line. -/
def lineHead (src : List Char) (offset : Nat) : List Char :=
  ((src.take offset).reverse.takeWhile (· ≠ '\n')).reverse

/-- What stands on the line from the offset on. -/
def lineTail (src : List Char) (offset : Nat) : List Char :=
  (src.drop offset).takeWhile (· ≠ '\n')

/-- The offset at which the line of `offset` begins. -/
def lineStart (src : List Char) (offset : Nat) : Nat :=
  (src.take offset).length - (lineHead src offset).length

/-- Each line feed before the offset opens a line; the column counts from where the last one opened.
-/
def of (src : String) (offset : Nat) : Position :=
  ⟨(src.toList.take offset).count '\n' + 1, offset - lineStart src.toList offset + 1⟩

/-- Written as `line:column`. -/
def render (p : Position) : String := s!"{p.line}:{p.column}"

end Position

/-- The line of the offset, and below it a caret under the offset's column. -/
def caretSnippet (src : String) (offset : Nat) : String :=
  let line := Position.lineHead src.toList offset ++ Position.lineTail src.toList offset
  let indent := List.replicate (offset - Position.lineStart src.toList offset) ' '
  String.ofList (line ++ '\n' :: indent ++ ['^'])

end OrderedGrammar
