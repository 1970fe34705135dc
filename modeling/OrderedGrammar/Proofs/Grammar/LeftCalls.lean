import OrderedGrammar.Proofs.Grammar.Calls

/-!
Which rules are entered where another rule is entered. A rule calls another one on its left if one
of its alternatives refers to it with nothing before the reference but what may match empty.
-/

namespace OrderedGrammar.Grammar

variable [Regex]

/-- What may match empty. -/
inductive Nullable (g : Grammar) : Validator → Prop
  /-- A terminal that matches empty somewhere. -/
  | terminal {t : Terminal} {text pos} (h : t.matched? text pos = some "") :
    Nullable g (.terminal t)
  | opt {v} : Nullable g (.quantified v .zeroOrOne)
  | many {v} : Nullable g (.quantified v .zeroOrMore)
  | some {v} (h : Nullable g v) : Nullable g (.quantified v .oneOrMore)
  | sequence {items} (h : ∀ v ∈ items, Nullable g v) : Nullable g (.sequence items)
  | ref {name alternatives v} (h : g.rule? name = some alternatives) (hv : v ∈ alternatives)
    (nullable : Nullable g v) : Nullable g (.ref name)

/-- The validator holds a reference to the rule before which, in every sequence around it, there is
nothing but what may match empty. -/
inductive LeftRef (g : Grammar) : Validator → String → Prop
  | ref {name} : LeftRef g (.ref name) name
  | quantified {v arity name} (h : LeftRef g v name) : LeftRef g (.quantified v arity) name
  | sequence {before v after name} (nullable : ∀ w ∈ before, Nullable g w) (h : LeftRef g v name) :
    LeftRef g (.sequence (before ++ v :: after)) name

/-- Some alternative of the first rule refers to the second on its left. -/
def LeftCalls (g : Grammar) (caller callee : String) : Prop :=
  ∃ alternatives v, g.rule? caller = some alternatives ∧ v ∈ alternatives ∧ LeftRef g v callee

/-- No rule calls itself on its left, be it through others. -/
def NoLeftRecursion (g : Grammar) : Prop := Acyclic g.LeftCalls

end OrderedGrammar.Grammar
