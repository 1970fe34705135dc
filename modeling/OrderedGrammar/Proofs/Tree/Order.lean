import OrderedGrammar.Proofs.Matching.Spans

/-!
Orders of the nodes of a tree. `postorder` lists every node once, after everything below it and from
left to right (`postorder_perm_nodes`). `nearest` lists the leaves and rule nodes that are met first
on the way down from a node, with the structural nodes on that way left out. In the trees of a match
only rule nodes are only children (`Gives.singleRule`).
-/

namespace OrderedGrammar

namespace Tree

/-! ### Nodes after what is below them -/

mutual

/-- All nodes, a node after its children. -/
def postorder : Tree → List Tree
  | text i s => [text i s]
  | single i c => postorder c ++ [single i c]
  | list i cs => postorderAll cs ++ [list i cs]

/-- The nodes of several trees, one tree after the other. -/
def postorderAll : List Tree → List Tree
  | [] => []
  | t :: rest => postorder t ++ postorderAll rest

end

mutual

/-- The same nodes as in any other order, each as often. -/
theorem postorder_perm_nodes : ∀ t : Tree, t.postorder.Perm t.nodes
  | text i s => by
    rw [postorder, nodes_text]
  | single i c => by
    rw [postorder, nodes_single]
    exact (List.perm_append_singleton _ _).trans ((postorder_perm_nodes c).cons _)
  | list i cs => by
    rw [postorder, nodes_list]
    exact (List.perm_append_singleton _ _).trans ((postorderAll_perm cs).cons _)

theorem postorderAll_perm : ∀ ts : List Tree, (postorderAll ts).Perm (ts.flatMap nodes)
  | [] => by
    rw [postorderAll, List.flatMap_nil]
  | t :: rest => by
    rw [postorderAll, List.flatMap_cons]
    exact (postorder_perm_nodes t).append (postorderAll_perm rest)

end

/-- The node itself is the last one. -/
theorem dropLast_postorder_append (t : Tree) : t.postorder.dropLast ++ [t] = t.postorder := by
  cases t with
  | text i s => rfl
  | single i c => rw [postorder, List.dropLast_concat]
  | list i cs => rw [postorder, List.dropLast_concat]

/-! ### Leaves and rule nodes nearest below -/

mutual

/-- The leaves and rule nodes that are nearest below a node, from left to right. A node that holds a
text has taken it over from a leaf. -/
def nearest : Tree → List Tree
  | text i s => [text { i with isRule := false } s]
  | single _ c => if c.isRule then [c] else nearest c
  | list _ cs => nearestAll cs

/-- Rule nodes themselves, and what is nearest below the structural nodes. -/
def nearestAll : List Tree → List Tree
  | [] => []
  | t :: rest => (if t.isRule then [t] else nearest t) ++ nearestAll rest

end

theorem nearestAll_append (ts us : List Tree) :
    nearestAll (ts ++ us) = nearestAll ts ++ nearestAll us := by
  induction ts with
  | nil => simp [nearestAll]
  | cons t rest ih => simp [nearestAll, ih]

/-- Only a rule node is an only child. -/
def SingleRule : Tree → Prop
  | single _ c => c.isRule
  | _ => True

theorem nearest_single {i : NodeInfo} {c : Tree} (h : (single i c).SingleRule) :
    (single i c).nearest = [c] :=
  if_pos h

theorem singleRule_asRule {name : String} {t : Tree} (h : ∀ n ∈ t.nodes, n.SingleRule) :
    ∀ n ∈ (t.asRule name).nodes, n.SingleRule := by
  unfold asRule
  split
  · next rule =>
    rw [nodes_single, List.forall_mem_cons]
    exact ⟨rule, h⟩
  · cases t with
    | text i s => simp [SingleRule]
    | single i c =>
      rw [nodes_single, List.forall_mem_cons] at h ⊢
      exact h
    | list i cs =>
      rw [nodes_list, List.forall_mem_cons] at h ⊢
      exact h

end Tree

/-- In the tree of a match only rule nodes are only children. -/
theorem Matching.Gives.singleRule [Regex] [LawfulRegex] {g : Grammar} {text : Text}
    {v : Validator} {pos : Nat} {tag : String} {t : Tree}
    (h : Gives g text v pos tag (.ok (some t))) :
    ∀ n ∈ t.nodes, n.SingleRule := by
  refine tree_induction (P := fun _ _ t => ∀ n ∈ t.nodes, n.SingleRule) ?_ ?_ ?_ h t rfl
  · simp [Tree.SingleRule]
  · intro pos tag name t _ ih
    exact Tree.singleRule_asRule ih
  · intro pos tag ts linked
    rw [listNode_eq, Tree.nodes_list, List.forall_mem_cons]
    refine ⟨trivial, ?_⟩
    intro n hn
    obtain ⟨t, ht, hn⟩ := List.mem_flatMap.mp hn
    obtain ⟨i, hi⟩ := List.getElem?_of_mem ht
    exact (linked i t hi).2 n hn

end OrderedGrammar
