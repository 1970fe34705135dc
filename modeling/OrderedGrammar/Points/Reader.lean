import OrderedGrammar.Number.Decimal
import OrderedGrammar.Points.Grammar
import OrderedGrammar.Transform.Basic

/-!
Points read from text. A text must be a point list as a whole; each pair of numbers becomes a point,
blanks and commas are dropped on the way up.
-/

namespace OrderedGrammar.Points

/-- The number that the text of the node stands for. -/
def coordinate (c : Context) : Except TransformError Value :=
  match Decimal.read? c.text with
  | some x => .ok (.number x)
  | none => .error (.notANumber c.text)

/-- Two numbers make a point. -/
def coordinatePair (c : Context) : Except TransformError Value :=
  match c.values with
  | [.number x, .number y] => .ok (.point ⟨x, y⟩)
  | [_, _] => .error .notACoordinate
  | vs => .error (.pointArity vs.length)

/-- The list of pairs, or an empty list where there are none. -/
def listOfPoints (c : Context) : Except TransformError Value :=
  .ok (c.values.headD (.list []))

/-- The transforms of the grammar of point lists. -/
def transforms : TransformMap
  | "list_of_points" => some (.stateless listOfPoints)
  | "coordinate_pairs" => some (.stateless fun c => .ok (.list c.values))
  | "coordinate_pair" => some (.stateless coordinatePair)
  | "coordinate" => some (.stateless coordinate)
  | "negative_coordinate" => some (.stateless coordinate)
  | "comma_wsp" => some (.stateless fun _ => .ok .null)
  | "wsp" => some (.stateless fun _ => .ok .null)
  | _ => none

/-- Why a text gives no points. -/
inductive Error
  | unmatched (e : MatchError)
  | untransformed (e : TransformError)
  deriving DecidableEq

/-- The points in a list of values. -/
def ofValue : Value → List Point
  | .list vs => vs.filterMap fun
    | .point p => some p
    | _ => none
  | _ => []

variable [Regex] [Symbols]

/-- The value of a text that is a point list as a whole. -/
def parseValue (src : String) : Except Error Value := do
  let text := Text.ofString src
  let tree ← (grammar.requireMatch text).mapError .unmatched
  (Transform.apply transforms text tree).1.mapError .untransformed

/-- The points that a text lists. -/
def parse (src : String) : Except Error (List Point) := (parseValue src).map ofValue

end OrderedGrammar.Points
