import OrderedGrammar.Proofs.Matching.Depth
import OrderedGrammar.Transform.Basic

/-!
How high trees are. The nodes of a tree lie less deep than the tree is high
(`preorder_depth_lt`), so that its height bounds how deeply printing nests; and gathering values
from it, level by level, runs out of levels for no tree of that height (`collectWithin_of_le`). The
tree of a match is no higher than evaluations were nested for it (`height_le_of_evaluate`), since a
repetition adds trees beside one another and not on top.
-/

namespace OrderedGrammar

namespace Tree

/-! ### Heights -/

mutual

/-- How many nodes stand on top of one another. -/
def height : Tree → Nat
  | text _ _ => 1
  | single _ c => c.height + 1
  | list _ cs => heightAll cs + 1

/-- The greatest height among several trees. -/
def heightAll : List Tree → Nat
  | [] => 0
  | t :: rest => max t.height (heightAll rest)

end

theorem heightAll_le {ts : List Tree} {n : Nat} (h : ∀ t ∈ ts, t.height ≤ n) :
    heightAll ts ≤ n := by
  induction ts with
  | nil => exact Nat.zero_le n
  | cons t rest ih =>
    obtain ⟨first, others⟩ := List.forall_mem_cons.mp h
    exact Nat.max_le.mpr ⟨first, ih others⟩

/-- A rule's node adds one level at most to the node of its alternative. -/
theorem height_asRule_le (name : String) (t : Tree) : (t.asRule name).height ≤ t.height + 1 := by
  unfold asRule
  split
  · exact Nat.le_refl _
  · cases t <;> simp [height]

/-! ### Depths of nodes -/

mutual

/-- Every node lies less deep than the tree is high. -/
theorem preorder_depth_lt (depth : Nat) : ∀ t : Tree, ∀ node ∈ t.preorder depth,
    node.1 < depth + t.height
  | text i s => by
    simp [preorder, height]
  | single i c => by
    have below := preorder_depth_lt (depth + 1) c
    simp only [preorder, height, List.forall_mem_cons]
    refine ⟨by omega, fun node hn => ?_⟩
    have := below node hn
    omega
  | list i cs => by
    have below := preorderAll_depth_lt (depth + 1) cs
    simp only [preorder, height, List.forall_mem_cons]
    refine ⟨by omega, fun node hn => ?_⟩
    have := below node hn
    omega

theorem preorderAll_depth_lt (depth : Nat) : ∀ ts : List Tree, ∀ node ∈ preorderAll depth ts,
    node.1 < depth + heightAll ts
  | [] => by
    simp [preorderAll]
  | t :: rest => by
    have first := preorder_depth_lt depth t
    have others := preorderAll_depth_lt depth rest
    simp only [preorderAll, heightAll, List.forall_mem_append]
    refine ⟨fun node hn => ?_, fun node hn => ?_⟩
    · have := first node hn
      omega
    · have := others node hn
      omega

end

end Tree

/-! ### Transforms level by level -/

namespace Transform

variable {σ : Type} (fs : Transforms σ) (src : Text)

mutual

/-- The values that a node gathers from below, if there are levels enough for it: each node takes
one for what is below it. -/
def collectWithin : Nat → Tree → OptionT (Traced σ) (List Value)
  | 0, _ => failure
  | _ + 1, .text _ s => return [.text s]
  | levels + 1, .single _ child => do
    contribution fs src child (← collectWithin levels child)
  | levels + 1, .list _ children => collectAllWithin levels children

/-- The values that several nodes contribute, in order, if there are levels enough for each. -/
def collectAllWithin : Nat → List Tree → OptionT (Traced σ) (List Value)
  | _, [] => return []
  | levels, t :: rest => do
    let first ← contribution fs src t (← collectWithin levels t)
    return first ++ (← collectAllWithin levels rest)

end

mutual

/-- As many levels as the tree is high are enough. -/
theorem collectWithin_of_le {levels : Nat} : ∀ {t : Tree}, t.height ≤ levels →
    collectWithin fs src levels t = OptionT.lift (collect fs src t)
  | .text i s, h => by
    cases levels with
    | zero => simp [Tree.height] at h
    | succ levels =>
      rw [collectWithin, collect]
      rfl
  | .single i c, h => by
    cases levels with
    | zero => simp [Tree.height] at h
    | succ levels =>
      have below := collectWithin_of_le (Nat.le_of_succ_le_succ h)
      rw [collectWithin, collect, below, OptionT.lift_bind]
      rfl
  | .list i cs, h => by
    cases levels with
    | zero => simp [Tree.height] at h
    | succ levels =>
      rw [collectWithin, collect]
      exact collectAllWithin_of_le (Nat.le_of_succ_le_succ h)

theorem collectAllWithin_of_le {levels : Nat} : ∀ {ts : List Tree}, Tree.heightAll ts ≤ levels →
    collectAllWithin fs src levels ts = OptionT.lift (collectAll fs src ts)
  | [], _ => by
    rw [collectAllWithin, collectAll]
    rfl
  | t :: rest, h => by
    obtain ⟨first, others⟩ := Nat.max_le.mp h
    rw [collectAllWithin, collectAll, collectWithin_of_le first, collectAllWithin_of_le others]
    simp only [OptionT.lift_bind]
    rfl

end

end Transform

/-! ### Trees of matches -/

namespace Matching

variable [Regex] {g : Grammar} {text : Text}

omit [Regex] in
theorem height_listNode_le {tag : String} {pos n : Nat} {ts : List Tree}
    (h : Linked (fun _ _ t => t.height ≤ n) pos ts) : (listNode tag pos ts).height ≤ n + 1 := by
  refine Nat.succ_le_succ (Tree.heightAll_le fun t ht => ?_)
  obtain ⟨i, hi⟩ := List.getElem?_of_mem ht
  exact h i t hi

/-- The tree of a match is no higher than evaluations were nested for it. -/
theorem height_le_of_evaluate [LawfulRegex] {depth : Nat} {v : Validator} {pos : Nat} {tag : String}
    {t : Tree} (h : evaluate g text depth v pos tag = .ok (some t)) : t.height ≤ depth := by
  induction depth generalizing v pos tag t with
  | zero => rw [evaluate] at h; cases h
  | succ depth ih =>
    have repeated {inner : Validator} {required : Bool}
        (h : repetition (fun p => evaluate g text depth inner p tag) required text pos tag =
          .ok (some t)) : t.height ≤ depth + 1 := by
      obtain ⟨ts, rfl, hl⟩ := repetition_eq_some (bounded_evaluate depth inner tag) h
      exact height_listNode_le (hl.imp fun _ _ _ hu => ih hu)
    cases v with
    | terminal term =>
      rw [evaluate] at h
      obtain ⟨taken, -, rfl⟩ := Terminal.evaluate_eq_some.mp (Except.ok.inj h)
      exact Nat.succ_le_succ (Nat.zero_le depth)
    | ref name =>
      cases hr : g.rule? name with
      | none => rw [evaluate_ref_of_none hr] at h; cases h
      | some alternatives =>
        rw [evaluate_ref hr, map_eq_some_iff] at h
        obtain ⟨u, hu, rfl⟩ := h
        obtain ⟨_, w, _, hw, -⟩ := (firstMatch_eq_iff (by simp)).mp hu
        exact (Tree.height_asRule_le name u).trans (Nat.succ_le_succ (ih hw))
    | quantified inner arity =>
      cases arity with
      | zeroOrOne =>
        rw [evaluate_opt] at h
        rcases ho : evaluate g text depth inner pos tag with e | _ | u
        · rw [ho] at h; cases h
        · rw [ho] at h; cases h
          exact height_listNode_le linked_nil
        · rw [ho] at h; cases h
          exact (ih ho).trans (Nat.le_succ depth)
      | zeroOrMore => rw [evaluate] at h; exact repeated h
      | oneOrMore => rw [evaluate] at h; exact repeated h
    | sequence items =>
      rw [evaluate_sequence, map_eq_some_iff] at h
      obtain ⟨ts, hts, rfl⟩ := h
      obtain ⟨hl, hp⟩ := chain_eq_some_iff.mp hts
      have taken := Linked.items (R := fun v p u => evaluate g text depth v p tag = .ok (some u))
        hp (Nat.le_of_eq hl)
      refine height_listNode_le (taken.imp fun _ _ _ hu => ?_)
      obtain ⟨_, _, hu⟩ := hu
      exact ih hu
    | foreign x => rw [evaluate] at h; cases h

end Matching

end OrderedGrammar
