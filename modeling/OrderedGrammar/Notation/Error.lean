import OrderedGrammar.Grammar.Terminal
import OrderedGrammar.Source.Position

/-!
Why a grammar source is refused: one cause at one offset. The message gives line and column, and
below it the line with a caret.
-/

namespace OrderedGrammar.Notation

/-- What is wrong with a source. -/
inductive Cause
  | unclosedComment
  | expectedRuleName
  /-- A mark is missing; what stands in its place, or nothing at the end. -/
  | expected (mark : Char) (found : Option Char)
  | unknownDirective (name : String)
  | duplicateEntry
  | duplicateRule (name : String)
  | emptyGrammar
  | emptyAlternative
  | emptyGroup
  | unclosedGroup
  | barInGroup
  | unterminatedRegex
  | badRegex (e : TerminalError)
  | unterminatedString
  | unterminatedEscape
  | emptyLiteral
  deriving DecidableEq

/-- The wording of a cause. -/
def Cause.text : Cause → String
  | unclosedComment => "unclosed block comment"
  | expectedRuleName => "expected rule name"
  | expected mark found =>
    let what := match found with
      | some c => Text.quoted c.toString
      | none => "EOF"
    s!"expected {Text.quoted mark.toString}, found {what}"
  | unknownDirective name => "unknown directive %" ++ name
  | duplicateEntry => "duplicate %entry"
  | duplicateRule name => s!"duplicate rule '{name}'"
  | emptyGrammar => "empty grammar"
  | emptyAlternative => "empty alternative"
  | emptyGroup => "empty group"
  | unclosedGroup => "unclosed '('"
  | barInGroup => "alternatives are only allowed at rule level"
  | unterminatedRegex => "unterminated /regex/"
  | badRegex e => "bad regex: " ++ e.message
  | unterminatedString => "unterminated string"
  | unterminatedEscape => "unterminated escape"
  | emptyLiteral => "empty literal"

/-- A cause, and the offset at which it shows. -/
structure Error where
  cause : Cause
  offset : Nat
  deriving DecidableEq

/-- The place, the cause, and the line with a caret. -/
def Error.message (src : String) (e : Error) : String :=
  s!"Grammar error at {(Position.of src e.offset).render}: {e.cause.text}\n" ++
    caretSnippet src e.offset

end OrderedGrammar.Notation
