import OrderedGrammar.Matching.Engine
import OrderedGrammar.Source.Position

/-!
Matching a text from the entry rule of a grammar. `parse` leaves what follows the match alone,
`parseComplete` wants the whole text to be matched, and `requireMatch` says where it is not: at the
first character that was not taken.
-/

namespace OrderedGrammar

/-- The text does not match, or goes on after the match. -/
structure Mismatch where
  entry : String
  pos : Nat
  deriving DecidableEq

/-- Why a required match is not there. -/
inductive MatchError
  | evaluation (e : EvalError)
  | mismatch (m : Mismatch)
  deriving DecidableEq

/-- Where matching stopped, as shown in messages. -/
def Mismatch.place (m : Mismatch) (src : String) : String :=
  if src.length ≤ m.pos then "EOF" else (Position.of src m.pos).render

/-- The place, and the line that holds it with a caret. -/
def Mismatch.message (m : Mismatch) (src : String) : String :=
  s!"Input does not match grammar '{m.entry}' (stopped at {m.place src})\n" ++
    caretSnippet src m.pos

/-- The tree ends where the text does. -/
def Tree.isComplete (t : Tree) (text : Text) : Bool := t.stop == text.size

variable [Regex]

namespace Grammar

/-- Matches the entry rule at the start of a text. -/
def parse (g : Grammar) (text : Text) : Outcome := g.matchAt (.ref g.entry) text 0 none

/-- Follows the entry rule to the first terminal that is tried. -/
def reachTerminal (g : Grammar) : Except EvalError Unit :=
  Matching.reach g Matching.depthLimit (.ref g.entry)

/-- A match of the whole text. -/
def parseComplete (g : Grammar) (text : Text) : Outcome := do
  return (← g.parse text).filter (·.isComplete text)

/-- A match of the whole text, or where it stopped. -/
def requireMatch (g : Grammar) (text : Text) : Except MatchError Tree :=
  match g.parse text with
  | .error e => .error (.evaluation e)
  | .ok none => .error (.mismatch ⟨g.entry, 0⟩)
  | .ok (some t) => if t.isComplete text then .ok t else .error (.mismatch ⟨g.entry, t.stop⟩)

end Grammar

end OrderedGrammar
