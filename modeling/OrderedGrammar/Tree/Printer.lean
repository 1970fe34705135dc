import OrderedGrammar.Text.Quoted
import OrderedGrammar.Tree.Basic

/-!
Trees printed one node to a line, children indented under their parent. A line gives the rule (in
parentheses for a structural node), the first and the last offset, and the text in quotes; quoting
keeps every text on its line.
-/

namespace OrderedGrammar.Tree

/-- The rule name, in parentheses unless the node was built at a reference. -/
def label (t : Tree) : String := if t.isRule then t.rule else "(" ++ t.rule ++ ")"

/-- The first and the last offset. -/
def span (t : Tree) : String := s!"{t.start}..{t.last}"

/-- The text that a line shows: the value of a text node, else what the node covers. -/
def shownText (src : Text) : Tree → String
  | text _ s => s
  | t => t.source src

/-- The line of a node at a depth. -/
def line (src : Text) (depth : Nat) (t : Tree) : String :=
  "".pushn ' ' (2 * depth) ++ t.label ++ " " ++ t.span ++ " " ++ Text.quoted (t.shownText src)

/-- The lines of all nodes, a node before its children. -/
def lines (src : Text) (t : Tree) : List String :=
  (t.preorder 0).map fun node => node.2.line src node.1

/-- The printed tree, without a line feed at its end. -/
def format (src : Text) (t : Tree) : String := "\n".intercalate (t.lines src)

end OrderedGrammar.Tree
