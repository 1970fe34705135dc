import OrderedGrammar.Points.Point

/-!
Values that trees are transformed into. `null` is the value that contributes nothing to the node
above; all others, empty and false ones included, contribute one element.
-/

namespace OrderedGrammar

/-- What transforms take and give. -/
inductive Value
  | null
  | truth (b : Bool)
  | integer (n : Int)
  | text (s : String)
  | number (x : Binary64)
  | point (p : Point)
  | list (vs : List Value)
  | record (fields : List (String × Value))

namespace Value

/-- Only `null` contributes nothing. -/
def isNull : Value → Bool
  | null => true
  | _ => false

/-- What a value adds to the list above it. -/
def contribution (v : Value) : List Value := if v.isNull then [] else [v]

end Value

end OrderedGrammar
