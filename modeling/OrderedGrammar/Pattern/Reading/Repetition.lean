import OrderedGrammar.Pattern.Reading.Basic

/-!
Repetition signs. A brace that opens no valid count is no sign and stands for itself.
-/

namespace OrderedGrammar.Pattern.Reading

/-- Counts in braces: exactly, at least, at most, or both. Anything else is no count. -/
def counts? : Reading (Option (Nat × Option Nat)) := do
  let start ← get
  let place ← offset
  let least ← takeWhile Char.isDigit
  let bounds ← do
    if ← accept [','] then
      let most ← takeWhile Char.isDigit
      pure (some (value 10 least, if most.isEmpty then none else some (value 10 most)))
    else if least.isEmpty then pure none
    else pure (some (value 10 least, some (value 10 least)))
  match bounds with
  | none =>
    back start.rest
    return none
  | some (least, most) =>
    if ← accept ['\x7d'] then
      let limit := Nat.pow 2 32 - 1
      if limit ≤ least || most.any (limit ≤ ·) then failAt .repeatTooBig place
      if most.any (· < least) then failAt .leastAboveMost place
      return some (least, most)
    else
      back start.rest
      return none

/-- A brace that opens bounds for an approximate match. -/
def opensBounds (rest : List Char) : Bool :=
  match rest.dropWhile Char.isDigit with
  | c :: _ => "deis".toList.contains c || (c == '<' && (rest.head?.map Char.isDigit).getD false)
  | [] => false

/-- The counts of a repetition sign. -/
def repeatSign? (c : Char) : Reading (Option (Nat × Option Nat)) :=
  if c = '?' then return some (0, some 1)
  else if c = '*' then return some (0, none)
  else if c = '+' then return some (1, none)
  else if c = '\x7b' then do
    if opensBounds (← get).rest then fail .unsupported
    counts?
  else return none

/-- A sign after the counts makes the repetition lazy or possessive. -/
def repeated (counts : Nat × Option Nat) (body : Expr) : Reading Expr := do
  let s ← get
  let build ← do
    match ← next with
    | some '?' => pure (Expr.times counts.1 counts.2 .lazy)
    | some '+' => pure fun e => Expr.atomic (.times counts.1 counts.2 .greedy e)
    | _ =>
      back s.rest
      pure (Expr.times counts.1 counts.2 .greedy)
  return if counts.1 = 1 && counts.2 = some 1 then body else build body

end OrderedGrammar.Pattern.Reading
