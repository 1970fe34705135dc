import OrderedGrammar.Pattern.CharSet

/-!
Patterns as trees. An `Expr` says what is matched and in which order its possibilities are tried;
a `Pattern` is an expression with the numbers of its groups. Possessive repetition is an atomic
group around a greedy one.
-/

namespace OrderedGrammar.Pattern

/-- Conditions on a place in the text, which take up no characters. -/
inductive Anchor
  | textStart | textEnd
  /-- Where matching began. -/
  | matchStart
  /-- At the end, or before a line feed that ends the text. -/
  | finalEnd
  | lineStart | lineEnd
  | wordEdge | noWordEdge | wordStart | wordEnd
  deriving DecidableEq

/-- Which way a text is read. -/
inductive Direction
  | forward | backward
  deriving DecidableEq

/-- Whether a repetition tries to go on first, or to stop first. -/
inductive Greed
  | greedy | lazy
  deriving DecidableEq

/-- A group is referred to by its number or by its name. -/
inductive GroupRef
  | number (n : Nat)
  | name (s : String)
  deriving DecidableEq

/-- The number of a group that has one. -/
def GroupRef.resolve? (names : List (String × Nat)) : GroupRef → Option Nat
  | .number n => some n
  | .name s => names.lookup s

/-- What a pattern asks for. -/
inductive Expr
  | empty
  /-- One character of the set; `fold` ignores case. -/
  | one (set : CharSet) (fold : Bool)
  /-- Any one character, a line feed only if it may be one. -/
  | dot (lineFeeds : Bool)
  | cat (first second : Expr)
  | alt (first second : Expr)
  | group (number : Nat) (body : Expr)
  | backref (target : GroupRef) (fold : Bool)
  /-- At least `least` times, at most `most` times if there is such a bound. -/
  | times (least : Nat) (most : Option Nat) (greed : Greed) (body : Expr)
  /-- The first way to match the body is the only one. -/
  | atomic (body : Expr)
  /-- What follows or comes before must match, or must not, and is not taken. -/
  | look (direction : Direction) (positive : Bool) (body : Expr)
  | anchor (a : Anchor)
  deriving DecidableEq

namespace Expr

/-- The parts of a sequence. -/
def items : Expr → List Expr
  | empty => []
  | cat a b => a.items ++ b.items
  | e => [e]

/-- The expressions one after the other; sequences among them are laid out in line. -/
def sequence (es : List Expr) : Expr := inLine (es.flatMap items)
where
  inLine : List Expr → Expr
    | [] => empty
    | [a] => a
    | a :: rest => cat a (inLine rest)

/-- One character of a set. -/
def ofSet (set : CharSet) (fold : Bool) : Expr := if set = .all then dot true else one set fold

/-- No character is left to match. -/
def never : Expr := look .forward false empty

/-- The set of an expression that takes one character of it, and how case is treated. -/
def single? : Expr → Option (CharSet × Bool)
  | one set fold => some (set, fold)
  | dot lineFeeds => some (if lineFeeds then .all else .lacking ['\n'.toNat], false)
  | _ => none

/-- Some part refers back to a group. Rounds that may be made, but only a bounded number of them, do
not count. -/
def refersBack : Expr → Bool
  | backref _ _ => true
  | cat a b => a.refersBack || b.refersBack
  | alt a b => a.refersBack || b.refersBack
  | group _ a => a.refersBack
  | times least most _ a => (least != 0 || most.isNone) && a.refersBack
  | atomic a => a.refersBack
  | look _ _ a => a.refersBack
  | _ => false

/-- The groups that are referred back to. -/
def targets (names : List (String × Nat)) : Expr → List Nat
  | backref target _ => (target.resolve? names).toList
  | cat a b => a.targets names ++ b.targets names
  | alt a b => a.targets names ++ b.targets names
  | group _ a => a.targets names
  | times _ _ _ a => a.targets names
  | atomic a => a.targets names
  | look _ _ a => a.targets names
  | _ => []

end Expr

end OrderedGrammar.Pattern

namespace OrderedGrammar

/-- A pattern ready to be matched. -/
structure Pattern where
  root : Pattern.Expr
  groups : Nat
  groupNames : List (String × Nat)
  deriving DecidableEq

end OrderedGrammar
