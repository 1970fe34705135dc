import OrderedGrammar.Proofs.Matching.Spans

/-!
Tags of nodes and the rules around them. `enclosed` lists all nodes, each with the name of the
nearest rule node around it. `retag` gives another tag to the structural nodes outside every rule
node; rule nodes, and all below them, stay as they are (`enclosed_retag`).
-/

namespace OrderedGrammar.Tree

open OrderedGrammar.Matching

/-! ### Rules around nodes -/

mutual

/-- All nodes, a node before its children, each with the name of the nearest rule node around it.
For the root that is the first argument. -/
def enclosed (around : Option String) : Tree → List (Option String × Tree)
  | text i s => [(around, text i s)]
  | single i c => (around, single i c) :: enclosed (if i.isRule then some i.rule else around) c
  | list i cs => (around, list i cs) :: enclosedAll (if i.isRule then some i.rule else around) cs

/-- The nodes of several trees, one tree after the other. -/
def enclosedAll (around : Option String) : List Tree → List (Option String × Tree)
  | [] => []
  | t :: rest => enclosed around t ++ enclosedAll around rest

end

mutual

/-- Every node is listed, in the usual order. -/
theorem map_enclosed (around : Option String) : ∀ t : Tree, (t.enclosed around).map (·.2) = t.nodes
  | text i s => by simp [enclosed]
  | single i c => by simp [enclosed, map_enclosed _ c]
  | list i cs => by simp [enclosed, map_enclosedAll _ cs]

theorem map_enclosedAll (around : Option String) :
    ∀ ts : List Tree, (enclosedAll around ts).map (·.2) = ts.flatMap nodes
  | [] => by simp [enclosedAll]
  | t :: rest => by simp [enclosedAll, map_enclosed around t, map_enclosedAll around rest]

end

theorem mem_enclosedAll {around : Option String} {n : Option String × Tree} {ts : List Tree} :
    n ∈ enclosedAll around ts ↔ ∃ t ∈ ts, n ∈ t.enclosed around := by
  induction ts with
  | nil => simp [enclosedAll]
  | cons t rest ih => simp [enclosedAll, ih]

/-- What is below a rule's node is what is below its alternative's, in the rule. -/
theorem mem_enclosed_asRule {around : Option String} {name : String} {t : Tree}
    {n : Option String × Tree} (h : n ∈ (t.asRule name).enclosed around) :
    n = (around, t.asRule name) ∨ n ∈ t.enclosed (some name) := by
  revert h
  unfold asRule
  split
  · simp [enclosed]
  · next structural =>
    cases t with
    | text i s => simpa [enclosed] using Or.inl
    | single i c =>
      have outside : i.isRule = false := Bool.eq_false_iff.mpr structural
      simpa [enclosed, outside] using fun h => h.imp_right Or.inr
    | list i cs =>
      have outside : i.isRule = false := Bool.eq_false_iff.mpr structural
      simpa [enclosed, outside] using fun h => h.imp_right Or.inr

/-! ### Other tags outside rules -/

mutual

/-- Gives the tag to the structural nodes outside every rule node. -/
def retag (tag : String) : Tree → Tree
  | text i s => if i.isRule then text i s else text { i with rule := tag } s
  | single i c => if i.isRule then single i c else single { i with rule := tag } (retag tag c)
  | list i cs => if i.isRule then list i cs else list { i with rule := tag } (retagAll tag cs)

/-- Gives the tag to the structural nodes of several trees. -/
def retagAll (tag : String) : List Tree → List Tree
  | [] => []
  | t :: rest => retag tag t :: retagAll tag rest

end

theorem retag_of_isRule {tag : String} {t : Tree} (h : t.isRule) : t.retag tag = t := by
  cases t <;> exact if_pos h

@[simp] theorem stop_retag (tag : String) (t : Tree) : (t.retag tag).stop = t.stop := by
  cases t <;> simp only [retag] <;> split <;> rfl

theorem retagAll_eq_map (tag : String) (ts : List Tree) : retagAll tag ts = ts.map (retag tag) := by
  induction ts with
  | nil => rfl
  | cons t rest ih => rw [retagAll, ih, List.map_cons]

theorem stopAfter_map_retag (tag : String) (pos : Nat) (ts : List Tree) :
    stopAfter pos (ts.map (retag tag)) = stopAfter pos ts := by
  induction ts generalizing pos with
  | nil => rfl
  | cons t rest ih => rw [List.map_cons, stopAfter_cons, stopAfter_cons, stop_retag, ih]

/-- The list node with the other tag lists the parts with the other tag. -/
theorem retag_listNode (tag tag' : String) (pos : Nat) (ts : List Tree) :
    (listNode tag pos ts).retag tag' = listNode tag' pos (ts.map (retag tag')) := by
  rw [listNode_eq, listNode_eq, stopAfter_map_retag, ← retagAll_eq_map]
  rfl

/-- Two nodes in one place have the same rule around them, and at or below a rule node they are the
same. -/
def SameInRules (n n' : Option String × Tree) : Prop :=
  n.1 = n'.1 ∧ (n.1.isSome ∨ n.2.isRule → n.2 = n'.2)

mutual

/-- Another tag changes no node at or below a rule node. -/
theorem enclosed_retag (tag : String) : ∀ t : Tree,
    List.Forall₂ SameInRules (t.enclosed none) ((t.retag tag).enclosed none) := by
  intro t
  cases rule : t.isRule with
  | true =>
    rw [retag_of_isRule rule]
    exact List.forall₂_same.mpr fun n _ => ⟨rfl, fun _ => rfl⟩
  | false =>
    have apart {t' : Tree} : SameInRules (none, t) (none, t') := ⟨rfl, by simp [rule]⟩
    match t with
    | text i s =>
      simp only [retag, show i.isRule = false from rule]
      exact .cons apart .nil
    | single i c =>
      simp only [retag, enclosed, show i.isRule = false from rule]
      exact .cons apart (enclosed_retag tag c)
    | list i cs =>
      simp only [retag, enclosed, show i.isRule = false from rule]
      exact .cons apart (enclosedAll_retag tag cs)

theorem enclosedAll_retag (tag : String) : ∀ ts : List Tree,
    List.Forall₂ SameInRules (enclosedAll none ts) (enclosedAll none (retagAll tag ts))
  | [] => .nil
  | t :: rest => List.rel_append (enclosed_retag tag t) (enclosedAll_retag tag rest)

end

end OrderedGrammar.Tree
