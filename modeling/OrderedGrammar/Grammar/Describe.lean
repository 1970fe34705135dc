import OrderedGrammar.Grammar.Basic

/-!
Validators written in the notation of grammar sources. Sequences of two or more items are put in
parentheses under a quantifier and nowhere else, so a sequence in a sequence is written flat.
-/

namespace OrderedGrammar

/-- A validator of no kind was met. -/
structure UnknownValidator where
  value : Foreign
  deriving DecidableEq

/-- The wording of the error. -/
def UnknownValidator.message (e : UnknownValidator) : String :=
  "unknown validator: " ++ e.value.render

variable [Regex]

namespace Validator

/-- A sequence that a quantifier would not bind as a whole. -/
def needsParentheses : Validator → Bool
  | sequence (_ :: _ :: _) => true
  | _ => false

mutual

/-- A validator as it would be written in a source. -/
def describe : Validator → Except UnknownValidator String
  | terminal t => .ok ("/" ++ t.pattern ++ "/" ++ t.flags)
  | ref name => .ok name
  | quantified inner arity => do
    let body ← describe inner
    let body := if inner.needsParentheses then "(" ++ body ++ ")" else body
    return body.push arity.sign
  | sequence items => do return " ".intercalate (← describeAll items)
  | foreign v => .error ⟨v⟩

/-- Several validators, one after the other. -/
def describeAll : List Validator → Except UnknownValidator (List String)
  | [] => .ok []
  | v :: rest => do return (← describe v) :: (← describeAll rest)

end

end Validator

/-- Every rule with its alternatives as they would be written. -/
def Grammar.describe (g : Grammar) : Except UnknownValidator (List (String × List String)) :=
  g.rules.mapM fun rule => do return (rule.1, ← Validator.describeAll rule.2)

end OrderedGrammar
