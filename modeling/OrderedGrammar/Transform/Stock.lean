import OrderedGrammar.Transform.Basic

/-!
Transforms for any grammar, by name: the text of a node or its values, their number or the first of
them, the node's width or span, some constants, a record of rule and values, and a refusal.
-/

namespace OrderedGrammar.Transform

/-- The text with ASCII letters in upper case and all else unchanged. -/
def upper (c : Context) : Value := .text (String.ofList (c.text.toList.map Char.toUpper))

/-- The first and the last offset of the node. -/
def span (c : Context) : Value := .list [.integer c.node.start, .integer c.node.last]

/-- The rule of the node and its values. -/
def wrap (c : Context) : Value := .record [("rule", .text c.node.rule), ("values", .list c.values)]

/-- The transform with this name. -/
def named? (name : String) : Option (Transform Unit) :=
  let total (f : Context → Value) : Option (Transform Unit) := some (stateless fun c => .ok (f c))
  match name with
  | "text" => total fun c => .text c.text
  | "upper" => total upper
  | "values" => total fun c => .list c.values
  | "drop" => total fun _ => .null
  | "first" => total fun c => c.values.headD .null
  | "count" => total fun c => .integer c.values.length
  | "width" => total fun c => .integer c.node.width
  | "span" => total span
  | "empty" => total fun _ => .list []
  | "false" => total fun _ => .truth false
  | "wrap" => total wrap
  | "fail" => some (stateless fun c => .error (.refused c.node.rule))
  | _ => none

end OrderedGrammar.Transform
