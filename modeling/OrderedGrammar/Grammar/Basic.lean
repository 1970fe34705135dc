import OrderedGrammar.Grammar.Validator

/-!
Grammars with ordered choice. A grammar names its entry rule and lists its rules in the order of
their declaration, each with its alternatives in the order in which they are tried. Names are
distinct: declaring a rule again replaces its alternatives where they stand.
-/

namespace OrderedGrammar

variable [Regex]

/-- The rules of a grammar in order, and the rule at which it is entered. -/
structure Grammar where
  entry : String
  rules : List (String × List Validator)

namespace Grammar

/-- A rule that is declared again keeps its place and takes the new alternatives. -/
def put (name : String) (alternatives : List Validator) :
    List (String × List Validator) → List (String × List Validator)
  | [] => [(name, alternatives)]
  | rule :: rest =>
    if rule.1 = name then (name, alternatives) :: rest else rule :: put name alternatives rest

/-- The alternatives of a rule, if it is declared. -/
def rule? (g : Grammar) (name : String) : Option (List Validator) := g.rules.lookup name

/-- The declared names, in order. -/
def ruleNames (g : Grammar) : List String := g.rules.map (·.1)

/-- The grammar of declarations, whose alternatives may be texts that name rules. -/
def build (entry : String) (declarations : List (String × List Validator)) :
    Except BuildError Grammar := do
  let table := declarations.foldl (fun rules d => put d.1 d.2 rules) []
  let rules ← table.mapM fun d => do return (d.1, ← d.2.mapM Validator.coerce)
  return ⟨entry, rules⟩

/-- The same rules, entered elsewhere. -/
def enteredAt (g : Grammar) (entry : String) : Grammar := { g with entry := entry }

/-- All rules referred to, declared or not, in the order of first sight. -/
def references (g : Grammar) : List String :=
  g.rules.foldl (fun seen rule => Validator.referencesAll seen rule.2) []

/-- How many alternatives there are in all rules together. -/
def alternativeCount (g : Grammar) : Nat := g.rules.foldl (fun n r => n + r.2.length) 0

/-- Equality of rule tables, whatever the order of the rules. -/
def sameRules (a b : Grammar) : Bool :=
  a.rules.length == b.rules.length &&
    a.rules.all fun rule => (b.rule? rule.1).any (Validator.agreesAll rule.2)

end Grammar

end OrderedGrammar
