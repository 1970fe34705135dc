import OrderedGrammar.Proofs.Grammar.Shape

/-!
Sequences in sequences laid out in line. A sequence that is an item of a sequence is replaced by its
items, at any depth and below quantifiers too; a sequence that stands alone stays one.
-/

namespace OrderedGrammar

variable [Regex]

namespace Validator

mutual

/-- The validator with no sequence directly in a sequence. -/
def flatten : Validator → Validator
  | sequence items => sequence (partsAll items)
  | quantified inner arity => quantified inner.flatten arity
  | v => v

/-- What the validator adds to a sequence of which it is an item. -/
def parts : Validator → List Validator
  | sequence items => partsAll items
  | quantified inner arity => [quantified inner.flatten arity]
  | v => [v]

/-- The items in line. -/
def partsAll : List Validator → List Validator
  | [] => []
  | v :: rest => v.parts ++ partsAll rest

end

theorem partsAll_eq (items : List Validator) : partsAll items = items.flatMap parts := by
  induction items with
  | nil => rfl
  | cons v rest ih => rw [partsAll, ih, List.flatMap_cons]

/-- A validator that is no sequence is one part. -/
theorem parts_eq_singleton {v : Validator} (h : ∀ items, v ≠ sequence items) :
    v.parts = [v.flatten] := by
  cases v with
  | sequence items => exact absurd rfl (h items)
  | _ => rfl

end Validator

namespace Grammar

/-- The grammar with all alternatives laid out in line. -/
def flatten (g : Grammar) : Grammar :=
  { g with rules := g.rules.map fun rule => (rule.1, rule.2.map Validator.flatten) }

theorem rule?_flatten (g : Grammar) (name : String) :
    g.flatten.rule? name = (g.rule? name).map (·.map Validator.flatten) := by
  obtain ⟨entry, rules⟩ := g
  unfold rule? flatten
  induction rules with
  | nil => rfl
  | cons rule rest ih =>
    obtain ⟨declared, alternatives⟩ := rule
    simp only [List.map_cons, List.lookup_cons]
    cases name == declared with
    | true => rfl
    | false => exact ih

end Grammar

end OrderedGrammar
