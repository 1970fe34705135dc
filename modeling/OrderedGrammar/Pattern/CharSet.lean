import OrderedGrammar.Pattern.CharClass
import OrderedGrammar.Text.CaseVariants

/-!
Sets of characters as patterns write them: ranges of code points, named classes, unions and
complements. `contains` is membership; `admits` is membership when case may be ignored. Then a class
of one case that stands alone takes every cased character; of a union each member is asked on its
own, a complement among them leaving out all characters of which some case variant belongs to its
inside.

All members of a union that leave out a single character count as one, which leaves out all of these
characters together: `[^a]` joined with `[^b]` holds neither `a` nor `b`.
-/

namespace OrderedGrammar.Pattern

open OrderedGrammar.Text

/-- Sets of characters. -/
inductive CharSet
  | none
  /-- The code points from the first to the last. -/
  | range (first last : Nat)
  | named (k : CharClass)
  /-- All code points but these. -/
  | lacking (codes : List Nat)
  | union (a b : CharSet)
  | compl (a : CharSet)
  deriving DecidableEq

namespace CharSet

/-- The set of one character. -/
def single (code : Nat) : CharSet := range code code

/-- The set of all characters. -/
def all : CharSet := compl none

/-- Membership. -/
def contains : CharSet → Char → Bool
  | none, _ => false
  | range first last, c => first ≤ c.toNat && c.toNat ≤ last
  | named k, c => k.contains c
  | lacking codes, c => !codes.contains c.toNat
  | union a b, c => a.contains c || b.contains c
  | compl a, c => !a.contains c

/-- Membership in a union when case is ignored: some member that is not a complement has a case
variant of the character, or some complement leaves none of them out. -/
def containsVariant : CharSet → Char → Bool
  | none, _ => false
  | range first last, c => (caseVariants c.toNat).any fun code => first ≤ code && code ≤ last
  | named k, c => (caseVariants c.toNat).any fun code => k.contains (Char.ofNat code)
  | lacking codes, c => !(caseVariants c.toNat).any codes.contains
  | union a b, c => a.containsVariant c || b.containsVariant c
  | compl a, c => !(caseVariants c.toNat).any fun code => a.contains (Char.ofNat code)

/-- Membership when case is ignored. -/
def containsFolded : CharSet → Char → Bool
  | named k, c => k.ignoringCase.contains c
  | compl (named k), c => !k.ignoringCase.contains c
  | compl s, c => !s.containsVariant c
  | s, c => s.containsVariant c

/-- Whether a character of a text is accepted, `fold` telling that case is ignored. -/
def admits (s : CharSet) (fold : Bool) (c : Char) : Bool :=
  if fold then s.containsFolded c else s.contains c

/-- A range of more than one code point, or all that is outside of it. -/
def isRange : CharSet → Bool
  | range first last => first != last
  | compl s => s.isRange
  | _ => false

/-! ### Unions -/

/-- The members that a union has been made of. -/
def members : CharSet → List CharSet
  | none => []
  | union a b => a.members ++ b.members
  | s => [s]

/-- The members in one set; a single member stands for itself. -/
def ofMembers : List CharSet → CharSet
  | [] => none
  | [s] => s
  | s :: rest => union s (ofMembers rest)

/-- Some class is a member together with its complement. -/
def hasOpposites (ms : List CharSet) : Bool :=
  ms.any fun s => match s with
    | named k => ms.contains (compl (named k))
    | _ => false

/-- The code points that members of the form `lacking` leave out. -/
def leftOut (ms : List CharSet) : List Nat :=
  ms.flatMap fun s => match s with
    | lacking codes => codes
    | _ => []

/-- Sets in one. The same set counts once; a class and its complement make up all characters; and
what is left out singly is left out together. -/
def join (sets : List CharSet) : CharSet :=
  let ms := sets.eraseDups.flatMap members
  let others := ms.filter fun s => (leftOut [s]).isEmpty
  if ms.contains all || hasOpposites ms then all
  else if (leftOut ms).isEmpty then ofMembers others
  else ofMembers (others ++ [lacking (leftOut ms)])

/-! ### Sets in brackets -/

/-- Everything outside a set; twice outside is inside. -/
def outside : CharSet → CharSet
  | compl s => s
  | range first last => if first = last then lacking [first] else compl (range first last)
  | s => compl s

/-- The set that brackets stand for. A class and its complement make up all characters, and that is
so even if the brackets ask for the characters outside. -/
def bracketed (negated : Bool) (s : CharSet) : CharSet :=
  let ms := s.members
  if hasOpposites ms then all
  else if negated then (ofMembers ms).outside else ofMembers ms

end CharSet

end OrderedGrammar.Pattern
