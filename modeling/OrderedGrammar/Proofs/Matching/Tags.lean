import OrderedGrammar.Proofs.Matching.Reentry
import OrderedGrammar.Proofs.Tree.Order
import OrderedGrammar.Proofs.Tree.Tags

/-!
Tags in the trees of matches. A structural node carries the name of the nearest rule node around it,
and where there is none the tag that was asked for (`tags_threaded`). That tag is cut off at
references: an evaluation with another tag takes the same course, and gives the same tree but for
the tags of the structural nodes outside every rule node (`tag_changes_no_match`).
-/

namespace OrderedGrammar.Matching

open OrderedGrammar.Tree

section Nodes

variable [Regex] [LawfulRegex] {g : Grammar} {text : Text} {v : Validator} {pos : Nat}
  {tag : String} {t : Tree}

/-! ### Tags of nodes -/

/-- Below a tree that is placed in a rule, or in none but with a tag from outside, structural nodes
carry the name of the nearest rule around them, or that tag. -/
theorem Gives.tagged (h : Gives g text v pos tag (.ok (some t))) :
    ∀ around outer, around.getD outer = tag → ∀ n ∈ t.enclosed around, n.2.isRule = false →
      n.2.rule = n.1.getD outer := by
  refine tree_induction (P := fun _ tag t => ∀ around outer, around.getD outer = tag →
    ∀ n ∈ t.enclosed around, n.2.isRule = false → n.2.rule = n.1.getD outer) ?_ ?_ ?_ h t rfl
  · rintro pos tag taken around outer rfl n hn -
    obtain rfl := List.mem_singleton.mp hn
    rfl
  · intro pos tag name t _ ih around outer _ n hn structural
    rcases mem_enclosed_asRule hn with rfl | hn
    · simp at structural
    · exact ih (some name) outer rfl n hn structural
  · rintro pos tag ts linked around outer rfl n hn structural
    rw [listNode_eq, enclosed, List.mem_cons] at hn
    rcases hn with rfl | hn
    · rfl
    · obtain ⟨t, ht, hn⟩ := mem_enclosedAll.mp hn
      obtain ⟨i, hi⟩ := List.getElem?_of_mem ht
      exact (linked i t hi).2 around outer rfl n hn structural

omit [LawfulRegex] in
/-- A rule that gives a tree is declared. -/
theorem Gives.declared {name : String} (h : Gives g text (.ref name) pos tag (.ok (some t))) :
    name ∈ g.ruleNames := by
  cases h with
  | chosen declared => exact Grammar.mem_ruleNames_of_rule? declared

/-- Only rule nodes have an only child. -/
theorem Gives.isRule_single (h : Gives g text v pos tag (.ok (some t))) :
    ∀ n ∈ t.nodes, ∀ i c, n = .single i c → n.isRule := by
  refine tree_induction (P := fun _ _ t => ∀ n ∈ t.nodes, ∀ i c, n = .single i c → n.isRule)
    ?_ ?_ ?_ h t rfl
  · rintro pos tag taken n hn i c rfl
    simp at hn
  · intro pos tag name t _ ih n hn i c hc
    rcases mem_nodes_asRule hn with rfl | hn
    · exact isRule_asRule name t
    · exact ih n hn i c hc
  · rintro pos tag ts linked n hn i c rfl
    rw [listNode_eq, nodes_list, List.mem_cons] at hn
    obtain ⟨t, ht, hn⟩ := List.mem_flatMap.mp (hn.resolve_left (by simp))
    obtain ⟨k, hk⟩ := List.getElem?_of_mem ht
    exact (linked k t hk).2 _ hn i c rfl

/-- In the tree of a match every structural node carries the name of the nearest rule node around
it, or if there is none the tag that was asked for; every rule node carries the name of a declared
rule; and an only child is a rule node, and so is the node above it. The root of a parse is a rule
node that carries the name of the entry rule. -/
theorem tags_threaded (g : Grammar) (text : Text) :
    (∀ depth v pos tag t, evaluate g text depth v pos tag = .ok (some t) →
      (∀ n ∈ t.enclosed none, n.2.isRule = false → n.2.rule = n.1.getD tag) ∧
      (∀ n ∈ t.nodes, n.isRule → n.rule ∈ g.ruleNames) ∧
      ∀ n ∈ t.nodes, ∀ i c, n = .single i c → n.isRule ∧ c.isRule) ∧
    ∀ t, g.parse text = .ok (some t) → t.isRule ∧ t.rule = g.entry := by
  constructor
  · intro depth v pos tag t h
    have given : Gives g text v pos tag (.ok (some t)) := gives_iff.mpr ⟨by simp, depth, h⟩
    refine ⟨given.tagged none tag rfl, ?_, ?_⟩
    · intro n hn rule
      obtain ⟨p, tag', named⟩ := given.rule_nodes n hn rule
      exact named.declared
    · rintro n hn i c rfl
      exact ⟨given.isRule_single _ hn i c rfl, given.singleRule _ hn⟩
  · intro t h
    have given : Gives g text (.ref g.entry) 0 g.entry (.ok (some t)) :=
      gives_iff.mpr ⟨by simp, depthLimit, h⟩
    exact isRule_of_gives given

end Nodes

/-- The tree of a digit, and a comma with a blank after it, outside every rule. -/
def itemTree : Tree :=
  .list ⟨"item", false, 0, 3⟩ [
    .single ⟨"integer_constant", true, 0, 1⟩
      (.list ⟨"digit_sequence", true, 0, 1⟩ [.text ⟨"digit", true, 0, 1⟩ "5"]),
    .list ⟨"comma_wsp", true, 1, 3⟩ [
      .text ⟨"comma", true, 1, 2⟩ ",",
      .list ⟨"comma_wsp", false, 2, 3⟩ [.text ⟨"wsp", true, 2, 3⟩ " "]]]

/-- The tree of a text with no point in it. -/
def noPointsTree : Tree :=
  .list ⟨"list_of_points", true, 0, 0⟩ [
    .empty 0 "list_of_points", .empty 0 "list_of_points", .empty 0 "list_of_points"]

theorem item_tags_threaded :
    (evaluate Points.grammar #['5', ',', ' '] 6
        (.sequence [.ref "integer_constant", .ref "comma_wsp"]) 0 "item" = .ok (some itemTree) ∧
      (∀ n ∈ itemTree.enclosed none, n.2.isRule = false → n.2.rule = n.1.getD "item") ∧
      (∀ n ∈ itemTree.nodes, n.isRule → n.rule ∈ Points.grammar.ruleNames) ∧
      ∀ n ∈ itemTree.nodes, ∀ i c, n = .single i c → n.isRule ∧ c.isRule) ∧
    Points.grammar.parse #[] = .ok (some noPointsTree) ∧
      noPointsTree.isRule ∧ noPointsTree.rule = Points.grammar.entry := by
  have matched : evaluate Points.grammar #['5', ',', ' '] 6
      (.sequence [.ref "integer_constant", .ref "comma_wsp"]) 0 "item" = .ok (some itemTree) := by
    cbv
  have parsed : Points.grammar.parse #[] = .ok (some noPointsTree) := by cbv
  exact ⟨⟨matched, (tags_threaded Points.grammar _).1 _ _ _ _ _ matched⟩,
    parsed, (tags_threaded Points.grammar _).2 _ parsed⟩

/-! ### Evaluations with another tag -/

theorem kept_retag (tag tag' : String) : Kept (fun t u => t.retag tag' = u) tag tag' where
  stop := by
    rintro t _ rfl
    exact (stop_retag tag' t).symm
  list := by
    intro pos ts us same
    have parts : ts.map (retag tag') = us := by
      rw [← List.forall₂_eq_eq_eq, List.forall₂_map_left_iff]
      exact same
    rw [retag_listNode, parts]

theorem isRule_of_evaluate_ref [Regex] {g : Grammar} {text : Text} {depth pos : Nat}
    {name tag : String} {t : Tree}
    (h : evaluate g text (depth + 1) (.ref name) pos tag = .ok (some t)) : t.isRule = true := by
  cases rule : g.rule? name with
  | none =>
    rw [evaluate_ref_of_none rule] at h
    cases h
  | some alternatives =>
    rw [evaluate_ref rule, map_eq_some_iff] at h
    obtain ⟨u, -, rfl⟩ := h
    exact isRule_asRule name u

/-- Evaluating with another tag gives the tree with the other tag, within the same depth. -/
theorem tracks_retag [Regex] (g : Grammar) (text : Text) (depth : Nat) (v : Validator) (pos : Nat)
    (tag tag' : String) : Tracks (Option.Rel fun t u => t.retag tag' = u)
      (evaluate g text depth v pos tag) (evaluate g text depth v pos tag') := by
  induction depth generalizing v pos with
  | zero => exact tracks_zero
  | succ depth ih =>
    cases v with
    | terminal term =>
      refine tracks_ok ?_
      rw [Terminal.evaluate, Terminal.evaluate]
      cases term.matched? text pos with
      | none => exact .none
      | some taken => exact .some rfl
    | ref name =>
      -- a reference sets the tag, so both evaluations are one, of a rule node that keeps its tags
      rw [evaluate_ref_tag name (depth + 1) pos tag' tag]
      exact tracks_self fun t h => retag_of_isRule (isRule_of_evaluate_ref h)
    | quantified inner arity =>
      exact tracks_quantified (kept_retag tag tag') (fun p => ih inner p) arity pos
    | sequence items => exact tracks_sequence (kept_retag tag tag') ih items pos
    | foreign x => exact tracks_error _

/-- Whatever two tags are asked for, an evaluation ends in the same way: in the same error, in no
match, or in trees each of which is the other one with another tag on the structural nodes outside
every rule node. No node at or below a rule node differs. -/
theorem tag_changes_no_match [Regex] (g : Grammar) (text : Text) (depth : Nat) (v : Validator)
    (pos : Nat) (r₁ r₂ : String) :
    Agree (Option.Rel fun t u => u = t.retag r₂ ∧ t = u.retag r₁ ∧
        List.Forall₂ SameInRules (t.enclosed none) (u.enclosed none))
      (evaluate g text depth v pos r₁) (evaluate g text depth v pos r₂) := by
  have there := tracks_retag g text depth v pos r₁ r₂
  have back := tracks_retag g text depth v pos r₂ r₁
  refine (there.agree back).imp fun found found' ⟨hthere, hback⟩ => ?_
  cases hthere with
  | none => exact .none
  | @some t u renamed =>
    cases hback with
    | some unrenamed =>
      subst renamed
      exact .some ⟨rfl, unrenamed.symm, enclosed_retag r₂ t⟩

end OrderedGrammar.Matching
