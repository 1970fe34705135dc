/-!
Why a pattern cannot be read. A `Fault` is a cause at an offset of the pattern; its message gives
the offset, and line and column besides when the pattern has more than one line.
-/

namespace OrderedGrammar.Pattern

/-- What is wrong with a pattern. -/
inductive Cause
  | nothingToRepeat
  | multipleRepeat
  | repeatTooBig
  | leastAboveMost
  | missing (c : Char)
  | unbalanced
  | unknownExtension
  | missingGroupName
  | badGroupName
  | openGroup
  | unknownGroup
  | invalidReference
  | flagOnAndOff
  | noFlagsOff
  | globalFlagOff
  | unknownVerb
  | undefinedList
  | unterminatedSet
  | badRange
  | unknownProperty
  | unfinishedEscape
  | incompleteEscape (escape : String)
  | badHexEscape (escape : String)
  | badEscape (c : Char)
  /-- What stands here has a meaning that patterns do not have. -/
  | unsupported
  /-- The bound on nested steps was reached. -/
  | tooDeep
  deriving DecidableEq

/-- The wording of a cause. -/
def Cause.text : Cause → String
  | nothingToRepeat => "nothing to repeat"
  | multipleRepeat => "multiple repeat"
  | repeatTooBig => "repeat count too big"
  | leastAboveMost => "min repeat greater than max repeat"
  | missing c => "missing " ++ c.toString
  | unbalanced => "unbalanced parenthesis"
  | unknownExtension => "unknown extension"
  | missingGroupName => "missing group name"
  | badGroupName => "bad character in group name"
  | openGroup => "cannot refer to an open group"
  | unknownGroup => "unknown group"
  | invalidReference => "invalid group reference"
  | flagOnAndOff => "bad inline flags: flag turned on and off"
  | noFlagsOff => "bad inline flags: no flags after '-'"
  | globalFlagOff => "bad inline flags: cannot turn off global flag"
  | unknownVerb => "unknown verb"
  | undefinedList => "undefined named list"
  | unterminatedSet => "unterminated character set"
  | badRange => "bad character range"
  | unknownProperty => "unknown property"
  | unfinishedEscape => "bad escape (end of pattern)"
  | incompleteEscape escape => "incomplete escape \\" ++ escape
  | badHexEscape escape => "bad hex escape \\" ++ escape
  | badEscape c => "bad escape \\" ++ c.toString
  | unsupported => "unsupported construct"
  | tooDeep => "pattern too deep"

/-- A cause, and the offset at which it shows. -/
structure Fault where
  cause : Cause
  offset : Nat
  deriving DecidableEq

/-- How far the offset stands behind the last line feed before it, or behind the start. -/
def Fault.column (pattern : List Char) (offset : Nat) : Nat :=
  ((pattern.take offset).reverse.takeWhile (· ≠ '\n')).length +
    (offset - (pattern.take offset).length) + 1

/-- The cause and where it stands. -/
def Fault.message (pattern : String) (f : Fault) : String :=
  let chars := pattern.toList
  let base := s!"{f.cause.text} at position {f.offset}"
  if chars.contains '\n' then
    let line := (chars.take f.offset).count '\n' + 1
    s!"{base} (line {line}, column {Fault.column chars f.offset})"
  else base

end OrderedGrammar.Pattern
