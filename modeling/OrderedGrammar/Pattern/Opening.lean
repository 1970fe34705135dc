import OrderedGrammar.Pattern.Expr
import OrderedGrammar.Text.Basic

/-!
What a match can begin with. Where every way to match an expression begins with a character of some
known set, `openingSet?` is the union of these sets, and a pattern is tried only at a character of
it. The union obeys the rules of joined sets: case is ignored in all of it if it is ignored in a
part, and a match that begins with a character outside is not found.
-/

namespace OrderedGrammar.Pattern

open OrderedGrammar.Text

/-- The sets of first characters, and whether a match may have no character at all. -/
structure Opening where
  sets : List (CharSet × Bool)
  mayBeEmpty : Bool
  deriving DecidableEq

/-- The opening of what takes no characters. -/
def Opening.blank : Opening := ⟨[], true⟩

namespace Expr

/-- How the matches of an expression begin; nothing if that is not known. -/
def opening? : Expr → Option Opening
  | empty => some .blank
  | one set fold => if set.isRange then none else some ⟨[(set, fold)], false⟩
  | dot _ => none
  | cat a b => do
    let x ← a.opening?
    if x.mayBeEmpty then
      let y ← b.opening?
      return ⟨x.sets ++ y.sets, y.mayBeEmpty⟩
    else return x
  | alt a b => do
    let x ← a.opening?
    let y ← b.opening?
    return ⟨x.sets ++ y.sets, x.mayBeEmpty || y.mayBeEmpty⟩
  | group _ a => a.opening?
  | backref _ _ => none
  | times least _ _ a => do
    let x ← a.opening?
    return ⟨x.sets, x.mayBeEmpty || least == 0⟩
  | atomic a => a.opening?
  | look d positive a => if d = .forward && positive then a.opening? else some .blank
  | anchor _ => some .blank

/-- A set that leaves out a single character. -/
def lacksOne : CharSet → Bool
  | .lacking [_] => true
  | _ => false

/-- The characters with which every match begins, if there is such a set. Sets that leave out a
single character are no help in telling where a match may begin. -/
def openingSet? (e : Expr) : Option (CharSet × Bool) := do
  let o ← e.opening?
  let set := CharSet.join (o.sets.map (·.1))
  if o.mayBeEmpty || o.sets.any (lacksOne ·.1) || set = .all then none
  else some (set, o.sets.any (·.2))

/-- A match may begin at an offset. -/
def mayOpenAt (e : Expr) (text : Text) (offset : Nat) : Bool :=
  match e.openingSet? with
  | some (set, fold) => text[offset]?.any (set.admits fold)
  | none => true

end Expr

end OrderedGrammar.Pattern
