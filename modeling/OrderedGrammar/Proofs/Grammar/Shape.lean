import Mathlib
import OrderedGrammar.Grammar.Basic

/-!
The shape of validators and of grammars: how deeply validators are nested, what it is to be built
from the four kinds alone, and where the alternatives of a rule come from.
-/

namespace OrderedGrammar

variable [Regex]

namespace Validator

mutual

/-- How many validators stand inside one another. -/
def height : Validator → Nat
  | terminal _ => 1
  | ref _ => 1
  | quantified inner _ => inner.height + 1
  | sequence items => heightAll items + 1
  | foreign _ => 1

/-- The greatest height among several validators. -/
def heightAll : List Validator → Nat
  | [] => 0
  | v :: rest => max v.height (heightAll rest)

end

theorem height_le_heightAll {v : Validator} : ∀ {vs : List Validator}, v ∈ vs →
    v.height ≤ heightAll vs
  | w :: rest, h => by
    rw [heightAll]
    rcases List.mem_cons.mp h with rfl | h
    · exact Nat.le_max_left _ _
    · exact Nat.le_trans (height_le_heightAll h) (Nat.le_max_right _ _)

theorem height_pos (v : Validator) : 0 < v.height := by
  cases v <;> simp [height]

/-- Terminals, references, quantifiers and sequences are all there is at any depth. -/
inductive Proper : Validator → Prop
  | terminal {t} : Proper (terminal t)
  | ref {name} : Proper (ref name)
  | quantified {inner arity} (h : Proper inner) : Proper (quantified inner arity)
  | sequence {items} (h : ∀ v ∈ items, Proper v) : Proper (sequence items)

/-! ### Properties at every depth -/

/-- The validator and all that it is built from are as `P` says. -/
inductive Everywhere (P : Validator → Prop) : Validator → Prop
  | terminal {t} (h : P (terminal t)) : Everywhere P (terminal t)
  | ref {name} (h : P (ref name)) : Everywhere P (ref name)
  | quantified {inner arity} (h : P (quantified inner arity)) (hi : Everywhere P inner) :
    Everywhere P (quantified inner arity)
  | sequence {items} (h : P (sequence items)) (hs : ∀ v ∈ items, Everywhere P v) :
    Everywhere P (sequence items)
  | foreign {x} (h : P (foreign x)) : Everywhere P (foreign x)

variable {P Q : Validator → Prop} {v : Validator}

theorem Everywhere.here (h : v.Everywhere P) : P v := by
  cases h <;> assumption

theorem Everywhere.imp (h : v.Everywhere P) (hPQ : ∀ w, P w → Q w) : v.Everywhere Q := by
  induction h with
  | terminal h => exact .terminal (hPQ _ h)
  | ref h => exact .ref (hPQ _ h)
  | quantified h _ ih => exact .quantified (hPQ _ h) ih
  | sequence h _ ih => exact .sequence (hPQ _ h) ih
  | foreign h => exact .foreign (hPQ _ h)

theorem Everywhere.and (h : v.Everywhere P) (h' : v.Everywhere Q) :
    v.Everywhere fun w => P w ∧ Q w := by
  induction h with
  | terminal h => exact .terminal ⟨h, h'.here⟩
  | ref h => exact .ref ⟨h, h'.here⟩
  | quantified h _ ih =>
    cases h' with
    | quantified h' hi' => exact .quantified ⟨h, h'⟩ (ih hi')
  | sequence h _ ih =>
    cases h' with
    | sequence h' hs' => exact .sequence ⟨h, h'⟩ fun v hv => ih v hv (hs' v hv)
  | foreign h => exact .foreign ⟨h, h'.here⟩

/-- What holds of every validator holds at every depth. -/
theorem everywhere_of_forall (h : ∀ w, P w) : ∀ v : Validator, v.Everywhere P
  | terminal _ => .terminal (h _)
  | ref _ => .ref (h _)
  | quantified inner _ => .quantified (h _) (everywhere_of_forall h inner)
  | sequence _ => .sequence (h _) fun v _ => everywhere_of_forall h v
  | foreign _ => .foreign (h _)

/-- All terminals of the validator are as `T` says. -/
def TerminalsAre (T : Terminal → Prop) (v : Validator) : Prop :=
  v.Everywhere fun w => ∀ t, w = .terminal t → T t

variable {T : Terminal → Prop}

theorem TerminalsAre.inner {inner : Validator} {arity : Arity}
    (h : (quantified inner arity).TerminalsAre T) : inner.TerminalsAre T := by
  cases h with
  | quantified _ hi => exact hi

theorem TerminalsAre.item {items : List Validator} (h : (sequence items).TerminalsAre T)
    {v : Validator} (hv : v ∈ items) : v.TerminalsAre T := by
  cases h with
  | sequence _ hs => exact hs v hv

theorem terminalsAre_of_forall (h : ∀ t, T t) (v : Validator) : v.TerminalsAre T :=
  everywhere_of_forall (fun _ t _ => h t) v

end Validator

namespace Grammar

/-- All terminals of all rules are as `T` says. -/
def TerminalsAre (T : Terminal → Prop) (g : Grammar) : Prop :=
  ∀ rule ∈ g.rules, ∀ v ∈ rule.2, v.TerminalsAre T

theorem terminalsAre_of_forall {T : Terminal → Prop} (h : ∀ t, T t) (g : Grammar) :
    g.TerminalsAre T :=
  fun _ _ v _ => v.terminalsAre_of_forall h

/-- The greatest height of an alternative. -/
def height (g : Grammar) : Nat := Validator.heightAll (g.rules.flatMap (·.2))

/-- All alternatives of all rules are built from the four kinds. -/
def Proper (g : Grammar) : Prop :=
  ∀ name alternatives, g.rule? name = some alternatives → ∀ v ∈ alternatives, v.Proper

theorem mem_rules_of_rule? {g : Grammar} {name : String} {alternatives : List Validator}
    (h : g.rule? name = some alternatives) : (name, alternatives) ∈ g.rules := by
  obtain ⟨_, _, hr, -⟩ := List.lookup_eq_some_iff.mp h
  rw [hr]
  simp

theorem TerminalsAre.alternative {g : Grammar} {T : Terminal → Prop} (h : g.TerminalsAre T)
    {name : String} {alternatives : List Validator} (hr : g.rule? name = some alternatives)
    {v : Validator} (hv : v ∈ alternatives) : v.TerminalsAre T :=
  h _ (mem_rules_of_rule? hr) v hv

theorem mem_ruleNames_of_rule? {g : Grammar} {name : String} {alternatives : List Validator}
    (h : g.rule? name = some alternatives) : name ∈ g.ruleNames :=
  List.mem_map.mpr ⟨_, mem_rules_of_rule? h, rfl⟩

theorem height_le_of_rule? {g : Grammar} {name : String} {alternatives : List Validator}
    (h : g.rule? name = some alternatives) {v : Validator} (hv : v ∈ alternatives) :
    v.height ≤ g.height :=
  Validator.height_le_heightAll (List.mem_flatMap.mpr ⟨_, mem_rules_of_rule? h, hv⟩)

end Grammar

end OrderedGrammar
