import OrderedGrammar.Proofs.Grammar.Reaches
import OrderedGrammar.Proofs.Matching.Spans

/-!
Which rules the nodes of a tree are of. All rule nodes in the tree of a match are of rules that the
matched validator reaches (`Gives.reaches`), so a rule that is not reached has no nodes in it, and
where no rule refers to itself no node of a rule stands inside another one
(`Gives.ofRule_eq_singleton`).
-/

namespace OrderedGrammar

variable [Regex]

namespace Tree

/-- The nodes of a rule in a tree, in order. -/
def ofRule (name : String) (t : Tree) : List Tree :=
  t.nodes.filter fun n => n.isRule && n.rule == name

omit [Regex] in
/-- The nodes of another rule are those among the children. -/
theorem ofRule_list {name : String} {i : NodeInfo} (ts : List Tree)
    (other : (i.isRule && i.rule == name) = false) :
    (list i ts).ofRule name = ts.flatMap (ofRule name) := by
  rw [ofRule, nodes_list, List.filter_cons_of_neg (by simpa [isRule, rule, info] using other),
    List.filter_flatMap]
  rfl

omit [Regex] in
/-- A rule node in a list that is none itself is in one of its parts. -/
theorem exists_part_of_isRule {i : NodeInfo} {ts : List Tree} {n : Tree}
    (structural : i.isRule = false) (hn : n ∈ (list i ts).nodes) (rule : n.isRule) :
    ∃ (k : Nat) (t : Tree), ts[k]? = some t ∧ n ∈ t.nodes := by
  rw [nodes_list] at hn
  rcases List.mem_cons.mp hn with rfl | hn
  · exact absurd rule (by simp [isRule, info, structural])
  · obtain ⟨t, ht, hn⟩ := List.mem_flatMap.mp hn
    obtain ⟨k, hk⟩ := List.getElem?_of_mem ht
    exact ⟨k, t, hk, hn⟩

end Tree

namespace Matching

variable {g : Grammar} {text : Text} {pos : Nat} {tag : String} {t : Tree}

/-- The rule nodes that matching makes are of rules that are reached. -/
theorem Gives.reaches {v : Validator} {o : Outcome} (h : Gives g text v pos tag o) :
    ∀ t, o = .ok (some t) → ∀ n ∈ t.nodes, n.isRule → g.Reaches v n.rule := by
  induction h with
  | taken =>
    rintro _ ⟨⟩ n hn rule
    rw [Tree.nodes_text, List.mem_singleton] at hn
    subst hn
    cases rule
  | chosen h hi _ _ ih _ =>
    rintro _ ⟨⟩ n hn rule
    rw [← Tree.asRule_eq] at hn
    rcases Tree.mem_nodes_asRule hn with rfl | hn
    · rw [Tree.rule_asRule]
      exact Grammar.reaches_ref.mpr .refl
    · exact (ih _ rfl n hn rule).alternative h (List.mem_of_getElem? hi)
  | @sequence items pos tag ts length chain ih =>
    rintro _ ⟨⟩ n hn rule
    obtain ⟨k, t, hk, hn⟩ := Tree.exists_part_of_isRule rfl hn rule
    have inside : k < items.length := length ▸ (List.getElem?_eq_some_iff.mp hk).1
    have item : items[k]? = some items[k] := List.getElem?_eq_getElem inside
    exact (ih k t hk _ item t rfl n hn rule).item (List.mem_of_getElem? item)
  | once _ ih => exact ih
  | noOnce =>
    rintro _ ⟨⟩ n hn rule
    obtain ⟨k, t, hk, -⟩ := Tree.exists_part_of_isRule rfl hn rule
    cases hk
  | many _ _ _ _ _ ih _ =>
    rintro _ ⟨⟩ n hn rule
    obtain ⟨k, t, hk, hn⟩ := Tree.exists_part_of_isRule rfl hn rule
    exact ih k t hk t rfl n hn rule
  | someEmpty _ _ ih =>
    rintro _ ⟨⟩ n hn rule
    obtain ⟨k, u, hk, hu⟩ := Tree.exists_part_of_isRule rfl hn rule
    rw [List.mem_singleton.mp (List.mem_of_getElem? hk)] at hu
    exact ih _ rfl n hu rule
  | sequenceBroken => exact fun _ h => absurd h broken_ne_some
  | _ => rintro _ ⟨⟩

/-- A rule that is not reached has no nodes. -/
theorem Gives.ofRule_eq_nil {v : Validator} {name : String}
    (h : Gives g text v pos tag (.ok (some t))) (unreached : ¬ g.Reaches v name) :
    t.ofRule name = [] := by
  refine List.filter_eq_nil_iff.mpr fun n hn => ?_
  simp only [Bool.and_eq_true, beq_iff_eq, not_and]
  rintro rule rfl
  exact unreached (h.reaches t rfl n hn rule)

/-- If no rule refers to itself, the node of a rule is the only one of that rule in its tree. -/
theorem Gives.ofRule_eq_singleton {name : String} (acyclic : g.NonRecursive)
    (h : Gives g text (.ref name) pos tag (.ok (some t))) : t.ofRule name = [t] := by
  cases h with
  | @chosen _ _ _ alternatives i v u rule hi matched _ =>
    rw [← Tree.asRule_eq]
    obtain ⟨below, nodes, inside⟩ := Tree.nodes_asRule name u
    have none : below.filter (fun n => n.isRule && n.rule == name) = [] := by
      refine List.filter_eq_nil_iff.mpr fun n hn => ?_
      simp only [Bool.and_eq_true, beq_iff_eq, not_and]
      rintro isRule rfl
      have reached := matched.reaches u rfl n (inside n hn) isRule
      exact acyclic _ (reached.transGen rule (List.mem_of_getElem? hi))
    rw [Tree.ofRule, nodes, List.filter_cons_of_pos (by simp), none]

end Matching

end OrderedGrammar
