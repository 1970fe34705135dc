/-!
The options of a pattern: ignoring case, anchors at every line, a dot that takes line feeds, and
verbose layout. Options form sets, with union and difference. Inside patterns a sign stands for an
option; most signs are single letters.
-/

namespace OrderedGrammar.Pattern

/-- The options of a pattern. -/
structure Flags where
  ignoreCase : Bool := false
  multiline : Bool := false
  dotAll : Bool := false
  verbose : Bool := false
  deriving DecidableEq

namespace Flags

/-- Each flag has its letter. -/
def ofLetter? : Char → Option Flags
  | 'i' => some { ignoreCase := true }
  | 'm' => some { multiline := true }
  | 's' => some { dotAll := true }
  | 'x' => some { verbose := true }
  | _ => none

/-- Signs that are known inside patterns, but set none of these options; they hold for a whole
pattern and cannot be turned off. -/
def globalSigns : List String := ["b", "e", "p", "r", "V0", "V1"]

/-- Signs that are known inside patterns, but set none of these options; they hold up to the end of
a group. -/
def otherSigns : List String := ["a", "f", "L", "u", "w"]

/-- Signs whose meaning patterns do not have: they change how characters are classed or compared, or
the way a match is searched for. The other signs name what holds anyway, or concern approximate
matches only. -/
def foreignSigns : List String := ["a", "f", "L", "p", "r", "V1", "w"]

/-- The options of a sign that is known inside patterns. -/
def ofSign? (sign : String) : Option Flags :=
  match sign.toList with
  | [c] => ofLetter? c <|> if (globalSigns ++ otherSigns).contains sign then some {} else none
  | _ => if globalSigns.contains sign then some {} else none

/-- The options of either. -/
def union (a b : Flags) : Flags where
  ignoreCase := a.ignoreCase || b.ignoreCase
  multiline := a.multiline || b.multiline
  dotAll := a.dotAll || b.dotAll
  verbose := a.verbose || b.verbose

/-- The options of the first that the second does not have. -/
def minus (a b : Flags) : Flags where
  ignoreCase := a.ignoreCase && !b.ignoreCase
  multiline := a.multiline && !b.multiline
  dotAll := a.dotAll && !b.dotAll
  verbose := a.verbose && !b.verbose

/-- The options of all signs. -/
def ofSigns (signs : List String) : Flags :=
  signs.foldl (fun flags sign => flags.union ((ofSign? sign).getD {})) {}

end Flags

end OrderedGrammar.Pattern
