import OrderedGrammar.Proofs.Grammar.Calls

/-!
Which rules a validator leads to. A validator reaches the rules it refers to, and all that these
refer to in turn, so that what a part of it reaches it reaches too, and a reference reaches what the
alternatives of its rule do. Where all references go forward in some order of the rules, no rule is
reached from one behind it (`not_reaches_of_order`).
-/

namespace OrderedGrammar.Grammar

variable [Regex] {g : Grammar} {name : String}

/-- The validator refers to the rule, be it through other rules. -/
def Reaches (g : Grammar) (v : Validator) (name : String) : Prop :=
  ∃ first ∈ v.mentions, Relation.ReflTransGen g.Calls first name

/-- A reference reaches its own rule, and what is reached from there. -/
theorem reaches_ref {rule : String} :
    g.Reaches (.ref rule) name ↔ Relation.ReflTransGen g.Calls rule name := by
  simp [Reaches, Validator.mentions]

theorem Reaches.quantified {inner : Validator} {arity : Arity} (h : g.Reaches inner name) :
    g.Reaches (.quantified inner arity) name := h

theorem Reaches.item {items : List Validator} {v : Validator} (hv : v ∈ items)
    (h : g.Reaches v name) : g.Reaches (.sequence items) name := by
  obtain ⟨first, hf, steps⟩ := h
  exact ⟨first, Validator.mem_mentionsAll hf hv, steps⟩

/-- What an alternative reaches takes a step from its rule at least. -/
theorem Reaches.transGen {rule : String} {alternatives : List Validator} {v : Validator}
    (hr : g.rule? rule = some alternatives) (hv : v ∈ alternatives) (h : g.Reaches v name) :
    Relation.TransGen g.Calls rule name := by
  obtain ⟨first, hf, steps⟩ := h
  exact .head' ⟨alternatives, v, hr, hv, hf⟩ steps

theorem Reaches.alternative {rule : String} {alternatives : List Validator} {v : Validator}
    (hr : g.rule? rule = some alternatives) (hv : v ∈ alternatives) (h : g.Reaches v name) :
    g.Reaches (.ref rule) name :=
  reaches_ref.mpr (h.transGen hr hv).to_reflTransGen

/-- If all references go forward, what is reached from a rule is not before it. -/
theorem not_reaches_of_order (order : String → Nat)
    (h : ∀ rule ∈ g.rules, ∀ v ∈ rule.2, ∀ callee ∈ v.mentions, order rule.1 < order callee)
    {rule : String} (behind : order name < order rule) : ¬ g.Reaches (.ref rule) name := by
  intro reached
  rcases Relation.reflTransGen_iff_eq_or_transGen.mp (reaches_ref.mp reached) with rfl | steps
  · exact Nat.lt_irrefl _ behind
  · exact Nat.lt_asymm behind (order_lt_of_transGen order h steps)

end OrderedGrammar.Grammar
