import OrderedGrammar.Points.Grammar
import OrderedGrammar.Proofs.Grammar.Shape
import OrderedGrammar.Proofs.Matching.Meaning
import OrderedGrammar.Proofs.Pattern.Lawful

/-!
The shape of the trees that matching gives. All of them are built in three ways: from a terminal, at
a reference, and from parts that follow one another (`tree_induction`). At every node of them the
text and the children are in their places: a text is what stands between the bounds of its node, an
only child has the bounds of its parent, and the children of a list are laid end to end from the
first bound to the last (`Gives.inPlace`). So the texts of the leaves, one after the other, are
what the root covers (`Gives.join_leafTexts`).
-/

namespace OrderedGrammar

namespace Tree

/-! ### Nodes and leaves -/

/-- All nodes, a node before its children. -/
def nodes (t : Tree) : List Tree := (t.preorder 0).map (·.2)

mutual

theorem map_preorder (d e : Nat) :
    ∀ t : Tree, (t.preorder d).map (·.2) = (t.preorder e).map (·.2)
  | text _ _ => rfl
  | single _ c => by
    simp only [preorder, List.map_cons]
    rw [map_preorder (d + 1) (e + 1) c]
  | list _ cs => by
    simp only [preorder, List.map_cons]
    rw [map_preorderAll (d + 1) (e + 1) cs]

theorem map_preorderAll (d e : Nat) :
    ∀ ts : List Tree, (preorderAll d ts).map (·.2) = (preorderAll e ts).map (·.2)
  | [] => rfl
  | t :: ts => by
    simp only [preorderAll, List.map_append]
    rw [map_preorder d e t, map_preorderAll d e ts]

end

theorem map_preorderAll_eq (d : Nat) (ts : List Tree) :
    (preorderAll d ts).map (·.2) = ts.flatMap nodes := by
  induction ts with
  | nil => rfl
  | cons t ts ih =>
    simp only [preorderAll, List.map_append, List.flatMap_cons]
    rw [ih, map_preorder d 0 t]
    rfl

@[simp] theorem nodes_text (i : NodeInfo) (s : String) : (text i s).nodes = [text i s] := rfl

@[simp] theorem nodes_single (i : NodeInfo) (c : Tree) :
    (single i c).nodes = single i c :: c.nodes := by
  simp only [nodes, preorder, List.map_cons]
  rw [map_preorder 1 0 c]

@[simp] theorem nodes_list (i : NodeInfo) (cs : List Tree) :
    (list i cs).nodes = list i cs :: cs.flatMap nodes := by
  simp only [nodes, preorder, List.map_cons, map_preorderAll_eq]

theorem mem_nodes_self (t : Tree) : t ∈ t.nodes := by
  cases t <;> simp

/-- Below a rule's node there are nodes of its alternative only. -/
theorem nodes_asRule (name : String) (t : Tree) :
    ∃ below, (t.asRule name).nodes = t.asRule name :: below ∧ ∀ n ∈ below, n ∈ t.nodes := by
  unfold asRule
  split
  · exact ⟨t.nodes, nodes_single _ _, fun _ h => h⟩
  · cases t with
    | text i s => exact ⟨[], nodes_text _ _, by simp⟩
    | single i c =>
      exact ⟨c.nodes, nodes_single _ _, fun n hn => by simp [hn]⟩
    | list i cs =>
      refine ⟨cs.flatMap nodes, nodes_list _ _, fun n hn => ?_⟩
      rw [nodes_list]
      exact List.mem_cons_of_mem _ hn

/-- The nodes of a rule's node are itself and nodes of its alternative. -/
theorem mem_nodes_asRule {name : String} {t n : Tree} (h : n ∈ (t.asRule name).nodes) :
    n = t.asRule name ∨ n ∈ t.nodes := by
  obtain ⟨below, nodes, inside⟩ := nodes_asRule name t
  rw [nodes] at h
  exact (List.mem_cons.mp h).imp_right (inside n)

/-- The texts of the leaves, in order. -/
def leafTexts (t : Tree) : List String :=
  t.nodes.filterMap fun
    | text _ s => some s
    | _ => none

@[simp] theorem leafTexts_text (i : NodeInfo) (s : String) : (text i s).leafTexts = [s] := rfl

@[simp] theorem leafTexts_single (i : NodeInfo) (c : Tree) :
    (single i c).leafTexts = c.leafTexts := by
  simp [leafTexts]

@[simp] theorem leafTexts_list (i : NodeInfo) (cs : List Tree) :
    (list i cs).leafTexts = cs.flatMap leafTexts := by
  simp only [leafTexts, nodes_list, List.filterMap_cons, List.filterMap_flatMap]
  rfl

theorem leafTexts_asRule (name : String) (t : Tree) : (t.asRule name).leafTexts = t.leafTexts := by
  unfold asRule
  split
  · rw [leafTexts_single]
  · cases t <;> simp

/-! ### Text and children in place -/

/-- The text of a node, or its children, are where the bounds of the node say: the first child of a
list begins where the list does, each other child where the one before it stops, and the list stops
with the last of them, or where it begins if there is none. -/
def InPlace (src : Text) : Tree → Prop
  | text i s => s = src.slice i.start i.stop
  | single i c => c.start = i.start ∧ c.stop = i.stop
  | list i cs =>
    Matching.Linked (fun _ p c => c.start = p) i.start cs ∧ Matching.stopAfter i.start cs = i.stop

theorem inPlace_asRule {src : Text} {name : String} {t : Tree}
    (h : ∀ n ∈ t.nodes, n.InPlace src) : ∀ n ∈ (t.asRule name).nodes, n.InPlace src := by
  unfold asRule
  split
  · simp only [nodes_single, List.forall_mem_cons]
    exact ⟨⟨rfl, rfl⟩, h⟩
  · cases t with
    | text i s => simpa [InPlace, start, stop, info] using h
    | single i c =>
      simp only [nodes_single, List.forall_mem_cons] at h ⊢
      exact h
    | list i cs =>
      simp only [nodes_list, List.forall_mem_cons] at h ⊢
      exact h

end Tree

namespace Matching

section Trees

variable [Regex] [LawfulRegex] {g : Grammar} {text : Text}

theorem Gives.covers {v : Validator} {pos : Nat} {tag : String} {t : Tree}
    (h : Gives g text v pos tag (.ok (some t))) : Covers text pos t := by
  obtain ⟨-, depth, hd⟩ := gives_iff.mp h
  exact evaluate_bounds hd

/-- All trees are built from terminals that the validator has, at references, and from parts that
follow one another. -/
theorem tree_induction_of_terminals {T : Terminal → Prop} {P : Nat → String → Tree → Prop}
    (terminal : ∀ t pos tag taken, T t → t.matched? text pos = some taken →
      P pos tag (.text ⟨tag, false, pos, pos + taken.length⟩ taken))
    (rule : ∀ pos tag name t, Gives g text (.ref name) pos tag (.ok (some (t.asRule name))) →
      P pos name t → P pos tag (t.asRule name))
    (parts : ∀ pos tag ts, Linked (fun _ p t => Covers text p t ∧ P p tag t) pos ts →
      P pos tag (listNode tag pos ts))
    (hg : g.TerminalsAre T) {v : Validator} {pos : Nat} {tag : String} {o : Outcome}
    (h : Gives g text v pos tag o) (hv : v.TerminalsAre T) :
    ∀ t, o = .ok (some t) → P pos tag t := by
  induction h with
  | taken h =>
    rintro _ ⟨⟩
    exact terminal _ _ _ _ (hv.here _ rfl) h
  | chosen h hi matched before ih _ =>
    rintro _ ⟨⟩
    rw [← Tree.asRule_eq]
    exact rule _ _ _ _ (Tree.asRule_eq _ _ ▸ .chosen h hi matched before)
      (ih (hg.alternative h (List.mem_of_getElem? hi)) _ rfl)
  | sequence length chain ih =>
    rintro _ ⟨⟩
    have built := Linked.items (R := fun _ p t => Covers text p t ∧ P p _ t)
      (fun i t ht v hi => ⟨(chain i t ht v hi).covers,
        ih i t ht v hi (hv.item (List.mem_of_getElem? hi)) t rfl⟩) (Nat.le_of_eq length)
    exact parts _ _ _ (built.imp fun _ _ _ ⟨_, _, h⟩ => h)
  | once _ ih => exact ih hv.inner
  | noOnce => rintro _ ⟨⟩; exact parts _ _ _ linked_nil
  | many _ chain _ _ _ ih _ =>
    rintro _ ⟨⟩
    exact parts _ _ _ fun i t ht => ⟨(chain i t ht).covers, ih i t ht hv.inner t rfl⟩
  | someEmpty matched _ ih =>
    rintro _ ⟨⟩
    exact parts _ _ _ (linked_cons.mpr ⟨⟨matched.covers, ih hv.inner _ rfl⟩, linked_nil⟩)
  | sequenceBroken => exact fun _ h => absurd h broken_ne_some
  | _ => rintro _ ⟨⟩

/-- All trees are built from texts, at references, and from parts that follow one another. -/
theorem tree_induction {P : Nat → String → Tree → Prop}
    (terminal : ∀ pos tag (taken : String),
      P pos tag (.text ⟨tag, false, pos, pos + taken.length⟩ taken))
    (rule : ∀ pos tag name t, Gives g text (.ref name) pos tag (.ok (some (t.asRule name))) →
      P pos name t → P pos tag (t.asRule name))
    (parts : ∀ pos tag ts, Linked (fun _ p t => Covers text p t ∧ P p tag t) pos ts →
      P pos tag (listNode tag pos ts))
    {v : Validator} {pos : Nat} {tag : String} {o : Outcome} (h : Gives g text v pos tag o) :
    ∀ t, o = .ok (some t) → P pos tag t :=
  tree_induction_of_terminals (fun _ pos tag taken _ _ => terminal pos tag taken) rule parts
    (g.terminalsAre_of_forall fun _ => trivial) h (v.terminalsAre_of_forall fun _ => trivial)

omit [LawfulRegex] in
/-- What a reference gives is a node of its rule. -/
theorem isRule_of_gives {name : String} {pos : Nat} {tag : String} {t : Tree}
    (h : Gives g text (.ref name) pos tag (.ok (some t))) : t.isRule = true ∧ t.rule = name := by
  cases h with
  | chosen _ _ _ _ =>
    rw [← Tree.asRule_eq]
    exact ⟨Tree.isRule_asRule _ _, Tree.rule_asRule _ _⟩

/-- Every rule node is what its rule has to say somewhere. -/
theorem Gives.rule_nodes {v : Validator} {pos : Nat} {tag : String} {t : Tree}
    (h : Gives g text v pos tag (.ok (some t))) : ∀ n ∈ t.nodes, n.isRule →
      ∃ p tag', Gives g text (.ref n.rule) p tag' (.ok (some n)) := by
  refine tree_induction (P := fun _ _ t => ∀ n ∈ t.nodes, n.isRule →
    ∃ p tag', Gives g text (.ref n.rule) p tag' (.ok (some n))) ?_ ?_ ?_ h t rfl
  · intro pos tag taken n hn hr
    obtain rfl := List.mem_singleton.mp hn
    cases hr
  · intro pos tag name t given ih n hn hr
    rcases Tree.mem_nodes_asRule hn with rfl | hn
    · rw [Tree.rule_asRule]
      exact ⟨pos, tag, given⟩
    · exact ih n hn hr
  · intro pos tag ts hl n hn hr
    rw [listNode_eq, Tree.nodes_list, List.mem_cons] at hn
    rcases hn with rfl | hn
    · cases hr
    · obtain ⟨t, ht, hn⟩ := List.mem_flatMap.mp hn
      obtain ⟨i, hi⟩ := List.getElem?_of_mem ht
      exact (hl i t hi).2 n hn hr

theorem Gives.inPlace (hg : g.TerminalsAre Terminal.TakesSlices) {v : Validator}
    (hv : v.TerminalsAre Terminal.TakesSlices) {pos : Nat} {tag : String} {t : Tree}
    (h : Gives g text v pos tag (.ok (some t))) : ∀ n ∈ t.nodes, n.InPlace text := by
  refine tree_induction_of_terminals (P := fun _ _ t => ∀ n ∈ t.nodes, n.InPlace text) ?_ ?_ ?_
    hg h hv t rfl
  · intro t pos tag taken slices matched n hn
    obtain rfl := List.mem_singleton.mp hn
    exact slices text pos taken matched
  · intro pos tag name t _ ih
    exact Tree.inPlace_asRule ih
  · intro pos tag ts hl
    rw [listNode_eq, Tree.nodes_list, List.forall_mem_cons]
    refine ⟨⟨hl.imp fun _ _ _ h => h.1.1, rfl⟩, fun n hn => ?_⟩
    obtain ⟨t, ht, hn⟩ := List.mem_flatMap.mp hn
    obtain ⟨i, hi⟩ := List.getElem?_of_mem ht
    exact (hl i t hi).2 n hn

omit [Regex] [LawfulRegex] in
/-- Slices that follow one another make up what they cover together. -/
theorem join_linked {ts : List Tree} {pos : Nat} (h : Linked
      (fun _ p t => Covers text p t ∧ String.join t.leafTexts = text.slice p t.stop) pos ts) :
    String.join (ts.flatMap Tree.leafTexts) = text.slice pos (stopAfter pos ts) := by
  induction ts generalizing pos with
  | nil =>
    rw [stopAfter_nil, Text.slice_of_le (by omega)]
    rfl
  | cons t ts ih =>
    obtain ⟨⟨⟨-, hle, -⟩, ht⟩, hr⟩ := linked_cons.mp h
    have hts : t.stop ≤ stopAfter t.stop ts :=
      Linked.stopAfter_rel (Q := (· ≤ ·)) Nat.le_refl Nat.le_trans
        (hr.imp fun _ _ _ h => h.1.2.1)
    rw [List.flatMap_cons, String.join_append, ht, ih hr, stopAfter_cons]
    exact Text.slice_append text hle hts

/-- The texts of the leaves, one after the other, are what the tree covers. -/
theorem Gives.join_leafTexts (hg : g.TerminalsAre Terminal.TakesSlices) {v : Validator}
    (hv : v.TerminalsAre Terminal.TakesSlices) {pos : Nat} {tag : String} {t : Tree}
    (h : Gives g text v pos tag (.ok (some t))) :
    String.join t.leafTexts = text.slice pos t.stop := by
  refine tree_induction_of_terminals
    (P := fun pos _ t => String.join t.leafTexts = text.slice pos t.stop) ?_ ?_ ?_ hg h hv t rfl
  · intro t pos tag taken slices matched
    simpa using slices text pos taken matched
  · intro pos tag name t _ ih
    rw [Tree.leafTexts_asRule, ih, Tree.stop_asRule]
  · intro pos tag ts hl
    rw [listNode_eq, Tree.leafTexts_list]
    exact join_linked hl

/-- If the terminals take slices, a match begins where it was asked for, ends in the text or before
the place where it began, has the texts and children of all its nodes in place, and its leaves read
what it covers. -/
theorem matched_tree_in_place (hg : g.TerminalsAre Terminal.TakesSlices) {v : Validator}
    (hv : v.TerminalsAre Terminal.TakesSlices) {depth pos : Nat} {tag : String} {t : Tree}
    (h : evaluate g text depth v pos tag = .ok (some t)) :
    t.start = pos ∧ (pos : Int) - 1 ≤ t.last ∧ t.last + 1 ≤ max pos text.size ∧
      (∀ n ∈ t.nodes, n.InPlace text) ∧
      String.join t.leafTexts = text.slice t.start t.stop := by
  have given : Gives g text v pos tag (.ok (some t)) := gives_iff.mpr ⟨by simp, depth, h⟩
  obtain ⟨hs, h1, h2⟩ := given.covers
  refine ⟨hs, ?_, ?_, given.inPlace hg hv, hs ▸ given.join_leafTexts hg hv⟩
  · unfold Tree.last; omega
  · unfold Tree.last; omega

end Trees

/-- The tree of a comma and a blank. -/
def separatorTree : Tree :=
  .list ⟨"comma_wsp", true, 0, 2⟩ [
    .text ⟨"comma", true, 0, 1⟩ ",",
    .list ⟨"comma_wsp", false, 1, 2⟩ [.text ⟨"wsp", true, 1, 2⟩ " "]]

theorem separatorTree_in_place :
    Points.grammar.TerminalsAre Terminal.TakesSlices ∧
      (Validator.ref "comma_wsp").TerminalsAre Terminal.TakesSlices ∧
      evaluate Points.grammar #[',', ' '] 5 (.ref "comma_wsp") 0 "" = .ok (some separatorTree) ∧
      separatorTree.start = 0 ∧ ((0 : Nat) : Int) - 1 ≤ separatorTree.last ∧
      separatorTree.last + 1 ≤ max 0 2 ∧
      (∀ n ∈ separatorTree.nodes, n.InPlace #[',', ' ']) ∧
      String.join separatorTree.leafTexts =
        Text.slice #[',', ' '] separatorTree.start separatorTree.stop :=
  have matched : evaluate Points.grammar #[',', ' '] 5 (.ref "comma_wsp") 0 "" =
      .ok (some separatorTree) := by cbv
  have slices : Points.grammar.TerminalsAre Terminal.TakesSlices :=
    Points.grammar.terminalsAre_of_forall Pattern.takesSlices
  have atReference : (Validator.ref "comma_wsp").TerminalsAre Terminal.TakesSlices :=
    Validator.terminalsAre_of_forall Pattern.takesSlices _
  ⟨slices, atReference, matched, matched_tree_in_place slices atReference matched⟩

end Matching

end OrderedGrammar
