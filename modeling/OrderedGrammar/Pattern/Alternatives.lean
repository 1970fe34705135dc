import OrderedGrammar.Pattern.Expr

/-!
Alternatives in their plain form. Alternatives of alternatives are all on one level; what every one
of them begins with (ends with, where the text is read backward) stands once, before or after the
choice; and neighbours that both take one character under the same treatment of case are one set.
The last of these is more than a short form, since a joined set need not hold all that its parts
hold.
-/

namespace OrderedGrammar.Pattern.Expr

/-- The expressions that a choice is between. -/
def branches : Expr → List Expr
  | alt a b => a.branches ++ b.branches
  | e => [e]

/-- A choice, the earlier expressions first. -/
def choice : List Expr → Expr
  | [] => empty
  | [a] => a
  | a :: rest => alt a (choice rest)

/-! ### Common parts -/

/-- An expression of this kind can stand once for all alternatives; groups and repetitions cannot.
-/
def isShareable : Expr → Bool
  | cat a b => a.isShareable && b.isShareable
  | alt a b => a.isShareable && b.isShareable
  | atomic a => a.isShareable
  | look _ _ a => a.isShareable
  | group _ _ => false
  | times _ _ _ _ => false
  | _ => true

/-- What a list and all the others begin with. -/
def sharedStart : List Expr → List (List Expr) → List Expr
  | [], _ => []
  | e :: rest, others =>
    if e.isShareable && others.all (·.head? == some e) then
      e :: sharedStart rest (others.map List.tail)
    else []

/-! ### Neighbours -/

/-- The set of an alternative that can join another one. Ranges do not. -/
def joinable? : Expr → Option (CharSet × Bool)
  | one set fold => if set.isRange then none else some (set, fold)
  | _ => none

/-- Two alternatives make up one set. -/
def joins (a b : Expr) : Bool :=
  match a.joinable?, b.joinable? with
  | some (_, f), some (_, g) => f == g
  | _, _ => false

/-- Neighbours in one. -/
def joined : List Expr → Expr
  | [] => empty
  | [e] => e
  | a :: rest =>
    match a.joinable? with
    | some (_, fold) =>
      ofSet (.join ((a :: rest).filterMap fun e => e.joinable?.map (·.1))) fold
    | none => choice (a :: rest)

/-- The alternatives with joined neighbours. -/
def joinNeighbours (es : List Expr) : List Expr := (es.splitBy joins).map joined

/-! ### The plain form -/

/-- The choice between sequences that have begun with the same parts, given after them. -/
def choiceAfter (start : List Expr) (lists : List (List Expr)) : List Expr :=
  start ++ [choice (joinNeighbours (lists.map fun es => sequence (es.drop start.length)))]

/-- The choice between sequences that end with the same parts, given in their order. -/
def choiceBefore (stop : List Expr) (lists : List (List Expr)) : List Expr :=
  choice (joinNeighbours (lists.map fun es => sequence (es.take (es.length - stop.length)))) :: stop

/-- The expressions to choose from where the text is read in this direction, the earlier ones first.
-/
def alternatives (d : Direction) (es : List Expr) : Expr :=
  match (es.flatMap branches).map items with
  | [] => empty
  | [only] => sequence only
  | first :: others =>
    match d with
    | .forward => sequence (choiceAfter (sharedStart first others) (first :: others))
    | .backward =>
      let shared := sharedStart first.reverse (others.map List.reverse)
      sequence (choiceBefore shared.reverse (first :: others))

end OrderedGrammar.Pattern.Expr
