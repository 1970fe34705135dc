import OrderedGrammar.Pattern.Flags
import OrderedGrammar.Pattern.Literal
import OrderedGrammar.Text.Basic

/-!
Regular expressions, as far as terminals need them. How patterns are compiled and matched is left
open: `Regex` names the operations, and `LawfulRegex` the laws that matching relies on. They are
those of patterns that are matched forwards, from the offset on; a pattern that is searched for
backwards is none of these. What a match takes need not be the text at the offset, since a pattern
may leave out what it begins with. A grammar and everything that is done with it is taken over some
`Regex`; that of the program is in `OrderedGrammar.Pattern.Library`.
-/

namespace OrderedGrammar

/-- The operations on regular expressions. -/
class Regex where
  /-- What patterns compile to. -/
  Compiled : Type
  /-- Compiles a pattern under its options, or says what is wrong with it. -/
  compile : String → Pattern.Flags → Except String Compiled
  /-- The text that is taken by a match at an offset, if there is one. -/
  matched? : Compiled → Text → Nat → Option String

/-- A pattern in which characters stand for themselves: those with a meaning in some pattern, and
blanks, behind a backslash, and all others as they are. -/
inductive Regex.Spells : List Char → List Char → Prop
  | nil : Spells [] []
  | plain {c : Char} {pattern text : List Char} (sign : Pattern.isSign c = false)
      (blank : Text.isBlank c = false) (rest : Spells pattern text) :
      Spells (c :: pattern) (c :: text)
  | escaped {c : Char} {pattern text : List Char} (needed : Pattern.isSign c ∨ Text.isBlank c)
      (rest : Spells pattern text) : Spells ('\\' :: c :: pattern) (c :: text)

/-- The laws of regular expressions that are matched forwards. -/
class LawfulRegex [Regex] : Prop where
  /-- A match lies in the text, from the offset on. -/
  length_le {compiled : Regex.Compiled} {text : Text} {pos : Nat} {taken : String} :
    Regex.matched? compiled text pos = some taken → taken.length ≤ text.size - pos
  /-- A pattern in which characters stand for themselves compiles, and takes exactly these. -/
  spelled {pattern text : String} : Regex.Spells pattern.toList text.toList →
    ∃ compiled, Regex.compile pattern {} = .ok compiled ∧
      ∀ (src : Text) (pos : Nat) (taken : String), Regex.matched? compiled src pos = some taken ↔
        taken = text ∧ text.toList <+: src.toList.drop pos

end OrderedGrammar
