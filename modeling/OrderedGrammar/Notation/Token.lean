import OrderedGrammar.Notation.Error
import OrderedGrammar.Text.Class

/-!
Tokens of a grammar source. The lexer is an automaton that takes one character at a time, so the
tokens of a text that goes on are those of its first part continued. Names and runs of flags are
read to their longest; `//`, `/*` and `#` open comments wherever no token is open. What cannot be a
token is kept as one with its cause, since it may stand where another fault shows first.
-/

namespace OrderedGrammar.Notation

open OrderedGrammar.Text

/-- What a token is. -/
inductive Lexeme
  | name (s : List Char)
  | regex (pattern flags : List Char)
  /-- The characters that a quoted literal stands for. -/
  | literal (s : List Char)
  /-- A single character with a meaning of its own, or none. -/
  | mark
  /-- A regex or a literal that is not well formed. -/
  | malformed (e : Error)
  /-- A comment that is not closed; nothing can follow it. -/
  | openComment
  deriving DecidableEq

/-- A token with the character that opens it, where it starts, and where it stops. -/
structure Token where
  head : Char
  start : Nat
  stop : Nat
  lexeme : Lexeme
  deriving DecidableEq

namespace Lexer

/-- What the lexer is in the middle of. Characters read so far are kept last first. -/
inductive Mode
  | gap
  /-- After a slash, which may open a comment or a regex. -/
  | slash (start : Nat)
  | lineComment
  /-- `star` tells that the last character was an asterisk. -/
  | blockComment (start : Nat) (star : Bool)
  | name (start : Nat) (head : Char) (read : List Char)
  | regex (start : Nat) (read : List Char) (escaped : Bool)
  | flags (start : Nat) (pattern read : List Char)
  | literal (start : Nat) (quote : Char) (read : List Char) (escaped : Bool)
  /-- After a malformed token. -/
  | halted
  deriving DecidableEq

/-- The mode, the offset reached, and the tokens so far, the last one first. -/
structure State where
  mode : Mode
  offset : Nat
  tokens : List Token
  deriving DecidableEq

/-- Blanks of the notation. -/
def isGap (c : Char) : Bool := c == ' ' || c == '\t' || c == '\r' || c == '\n'

/-- Letters that may follow a regex. -/
def isFlag (c : Char) : Bool := c == 'i' || c == 'm' || c == 's' || c == 'x'

/-- The character that an escape in a literal stands for. -/
def unescape (c : Char) : Char :=
  if c = 'n' then '\n' else if c = 'r' then '\r' else if c = 't' then '\t' else c

/-- A malformed token, after which nothing more is read. -/
def halt (s : State) (head : Char) (start : Nat) (cause : Cause) (offset : Nat) : State :=
  { s with
    mode := .halted
    tokens := ⟨head, start, s.offset, .malformed ⟨cause, offset⟩⟩ :: s.tokens }

/-- A character where no token is open. -/
def openToken (s : State) (c : Char) : State :=
  if isGap c then { s with mode := .gap }
  else if c = '#' then { s with mode := .lineComment }
  else if c = '/' then { s with mode := .slash s.offset }
  else if c = '\'' ∨ c = '"' then { s with mode := .literal s.offset c [] false }
  else if opensName c then { s with mode := .name s.offset c [c] }
  else { s with mode := .gap, tokens := ⟨c, s.offset, s.offset + 1, .mark⟩ :: s.tokens }

/-- A character of a regex; a backslash keeps the character after it from being looked at. -/
def inRegex (s : State) (start : Nat) (read : List Char) (escaped : Bool) (c : Char) : State :=
  if escaped then { s with mode := .regex start (c :: read) false }
  else if c = '\n' then halt s '/' start .unterminatedRegex start
  else if c = '\\' then { s with mode := .regex start (c :: read) true }
  else if c = '/' then { s with mode := .flags start read.reverse [] }
  else { s with mode := .regex start (c :: read) false }

/-- A character of a quoted literal. -/
def inLiteral (s : State) (start : Nat) (quote : Char) (read : List Char) (escaped : Bool)
    (c : Char) : State :=
  if escaped then { s with mode := .literal start quote (unescape c :: read) false }
  else if c = quote then
    if read.isEmpty then halt s quote start .emptyLiteral start
    else
      { s with
        mode := .gap
        tokens := ⟨quote, start, s.offset + 1, .literal read.reverse⟩ :: s.tokens }
  else if c = '\\' then { s with mode := .literal start quote read true }
  else { s with mode := .literal start quote (c :: read) false }

/-- The token of a name that ends here. -/
def closeName (s : State) (start : Nat) (head : Char) (read : List Char) : State :=
  { s with mode := .gap, tokens := ⟨head, start, s.offset, .name read.reverse⟩ :: s.tokens }

/-- The token of a regex whose flags end here. -/
def closeFlags (s : State) (start : Nat) (pattern read : List Char) : State :=
  { s with mode := .gap, tokens := ⟨'/', start, s.offset, .regex pattern read.reverse⟩ :: s.tokens }

/-- Takes a character in the mode the lexer is in, without moving on. -/
def take (s : State) (c : Char) : State :=
  match s.mode with
  | .gap => openToken s c
  | .slash start =>
    if c = '/' then { s with mode := .lineComment }
    else if c = '*' then { s with mode := .blockComment start false }
    else inRegex s start [] false c
  | .lineComment => if c = '\n' then { s with mode := .gap } else s
  | .blockComment start star =>
    if star && c == '/' then { s with mode := .gap }
    else { s with mode := .blockComment start (c == '*') }
  | .name start head read =>
    if continuesName c then { s with mode := .name start head (c :: read) }
    else openToken (closeName s start head read) c
  | .regex start read escaped => inRegex s start read escaped c
  | .flags start pattern read =>
    if isFlag c then { s with mode := .flags start pattern (c :: read) }
    else openToken (closeFlags s start pattern read) c
  | .literal start quote read escaped => inLiteral s start quote read escaped c
  | .halted => s

/-- Takes a character and moves on. -/
def step (s : State) (c : Char) : State :=
  let s := take s c
  { s with offset := s.offset + 1 }

/-- Closes what is still open at the end. -/
def finish (s : State) : State :=
  match s.mode with
  | .slash start => halt s '/' start .unterminatedRegex start
  | .blockComment start _ =>
    { s with mode := .halted, tokens := ⟨'/', start, s.offset, .openComment⟩ :: s.tokens }
  | .name start head read => closeName s start head read
  | .regex start _ _ => halt s '/' start .unterminatedRegex start
  | .flags start pattern read => closeFlags s start pattern read
  | .literal start quote _ false => halt s quote start .unterminatedString start
  | .literal start quote _ true => halt s quote start .unterminatedEscape s.offset
  | _ => s

/-- The lexer before the first character. -/
def start : State := ⟨.gap, 0, []⟩

end Lexer

/-- The tokens of a source, in order. -/
def tokens (src : List Char) : List Token :=
  (Lexer.finish (src.foldl Lexer.step Lexer.start)).tokens.reverse

end OrderedGrammar.Notation
