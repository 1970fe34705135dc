import Mathlib
import OrderedGrammar.Proofs.Grammar.Shape

/-!
Which rules refer to which. If a relation between rules has no cycle, the rules that are reached
from a rule by one step or more are fewer after every step: their number is the rank of the rule. A
grammar is not recursive if the relation of referring has no cycle, for which it is enough that all
references go forward in some order of the rules.
-/

namespace OrderedGrammar

variable [Regex]

namespace Validator

mutual

/-- The rules that a validator refers to, at any depth. -/
def mentions : Validator → List String
  | terminal _ => []
  | ref name => [name]
  | quantified inner _ => inner.mentions
  | sequence items => mentionsAll items
  | foreign _ => []

/-- The rules that several validators refer to. -/
def mentionsAll : List Validator → List String
  | [] => []
  | v :: rest => v.mentions ++ mentionsAll rest

end

theorem mem_mentionsAll {v : Validator} {name : String} (h : name ∈ v.mentions) :
    ∀ {vs : List Validator}, v ∈ vs → name ∈ mentionsAll vs
  | w :: rest, hv => by
    rw [mentionsAll, List.mem_append]
    rcases List.mem_cons.mp hv with rfl | hv
    · exact Or.inl h
    · exact Or.inr (mem_mentionsAll h hv)

end Validator

namespace Grammar

/-! ### Ranks -/

/-- No rule reaches itself. -/
def Acyclic (R : String → String → Prop) : Prop := ∀ name, ¬ Relation.TransGen R name name

section Rank

open scoped Classical

variable {R : String → String → Prop}

/-- How many rules are reached from a rule. -/
noncomputable def rank (g : Grammar) (R : String → String → Prop) (name : String) : Nat :=
  (g.ruleNames.toFinset.filter fun callee => Relation.TransGen R name callee).card

theorem rank_le (g : Grammar) (name : String) : g.rank R name ≤ g.ruleNames.length :=
  (Finset.card_filter_le _ _).trans (List.toFinset_card_le _)

theorem rank_lt {g : Grammar} (acyclic : Acyclic R) {caller callee : String} (h : R caller callee)
    (declared : callee ∈ g.ruleNames) : g.rank R callee < g.rank R caller := by
  apply Finset.card_lt_card
  refine ⟨fun name hn => ?_, fun hsub => ?_⟩
  · obtain ⟨hd, hc⟩ := Finset.mem_filter.mp hn
    exact Finset.mem_filter.mpr ⟨hd, Relation.TransGen.head h hc⟩
  · -- the callee is reached from the caller, but not from itself
    have hc : callee ∈ g.ruleNames.toFinset.filter fun name => Relation.TransGen R caller name :=
      Finset.mem_filter.mpr ⟨List.mem_toFinset.mpr declared, Relation.TransGen.single h⟩
    exact acyclic callee (Finset.mem_filter.mp (hsub hc)).2

end Rank

/-! ### References -/

/-- Some alternative of the first rule refers to the second. -/
def Calls (g : Grammar) (caller callee : String) : Prop :=
  ∃ alternatives v, g.rule? caller = some alternatives ∧ v ∈ alternatives ∧ callee ∈ v.mentions

/-- No rule refers to itself, be it through others. -/
def NonRecursive (g : Grammar) : Prop := Acyclic g.Calls

/-- If all references go forward in some order, so does what is reached through them. -/
theorem order_lt_of_transGen {g : Grammar} (order : String → Nat)
    (h : ∀ rule ∈ g.rules, ∀ v ∈ rule.2, ∀ callee ∈ v.mentions, order rule.1 < order callee)
    {caller callee : String} (hc : Relation.TransGen g.Calls caller callee) :
    order caller < order callee := by
  have forward {caller callee : String} (hc : g.Calls caller callee) :
      order caller < order callee := by
    obtain ⟨alternatives, v, hr, hv, hm⟩ := hc
    exact h _ (mem_rules_of_rule? hr) v hv _ hm
  induction hc with
  | single hc => exact forward hc
  | tail _ hc ih => exact ih.trans (forward hc)

/-- References that all go forward in some order make no cycle. -/
theorem nonRecursive_of_order {g : Grammar} (order : String → Nat)
    (h : ∀ rule ∈ g.rules, ∀ v ∈ rule.2, ∀ callee ∈ v.mentions, order rule.1 < order callee) :
    g.NonRecursive :=
  fun _ hc => Nat.lt_irrefl _ (order_lt_of_transGen order h hc)

end Grammar

end OrderedGrammar
