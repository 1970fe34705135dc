import OrderedGrammar.Matching.Entry
import OrderedGrammar.Points.Grammar
import OrderedGrammar.Proofs.Matching.Agreement
import OrderedGrammar.Proofs.Pattern.Lawful
import OrderedGrammar.Proofs.Transform.Alike

/-!
What a grammar means does not change when sequences in sequences are laid out in line. An evaluation
that does not run out of depth is followed by one of the grammar in line within the same depth: both
end in the same error, or fail, or give trees that are alike (`followed`). The trees differ in the
structural nodes of nested groups only, which leave no trace when they are transformed.
-/

namespace OrderedGrammar.Matching

open OrderedGrammar.Tree

/-! ### Alike trees of attempts -/

/-- Both fail, or both give trees, which are alike. -/
abbrev AlikeFound : Option Tree → Option Tree → Prop := Option.Rel Alike

theorem stopAfter_alike {ts us : List Tree} (h : List.Forall₂ Alike ts us) (pos : Nat) :
    stopAfter pos ts = stopAfter pos us := by
  induction h generalizing pos with
  | nil => rfl
  | cons first _ ih => rw [stopAfter_cons, stopAfter_cons, first.stop_eq, ih]

theorem alike_listNode {pos : Nat} {tag : String} {ts us : List Tree}
    (h : AlikeAll (nearestAll ts) (nearestAll us))
    (stop : stopAfter pos us = stopAfter pos ts) :
    Alike (listNode tag pos ts) (listNode tag pos us) := by
  rw [listNode_eq, listNode_eq, stop]
  exact .list h

theorem kept_alike (tag : String) : Kept Alike tag tag where
  stop _ _ alike := alike.stop_eq
  list pos _ _ alike :=
    alike_listNode (alikeAll_nearestAll alike) (stopAfter_alike alike pos).symm

/-! ### Chains in line -/

section Chains

variable [Regex] {attempt attempt' : Validator → Nat → Outcome} {pos : Nat}

omit [Regex] in
theorem stopAfter_append (pos : Nat) (ts us : List Tree) :
    stopAfter pos (ts ++ us) = stopAfter (stopAfter pos ts) us := by
  induction ts generalizing pos with
  | nil => rfl
  | cons t ts ih => rw [List.cons_append, stopAfter_cons, stopAfter_cons, ih]

/-- A first tree, and then the trees of the others. -/
theorem chain_cons (attempt : Validator → Nat → Outcome) (v : Validator) (rest : List Validator)
    (pos : Nat) : chain attempt (v :: rest) pos = attempt v pos >>= fun
      | some t => (chain attempt rest t.stop).map (·.map (t :: ·))
      | none => .ok none := by
  rcases h : attempt v pos with e | _ | t
  · exact chain_broken (b := some e) h
  · exact chain_broken (b := none) h
  · exact chain_some h

/-- The trees of the first items, and then those of the others. -/
theorem chain_append (attempt : Validator → Nat → Outcome) (vs ws : List Validator) (pos : Nat) :
    chain attempt (vs ++ ws) pos = chain attempt vs pos >>= fun
      | some ts => (chain attempt ws (stopAfter pos ts)).map (·.map (ts ++ ·))
      | none => .ok none := by
  induction vs generalizing pos with
  | nil =>
    change chain attempt ws pos = (chain attempt ws pos).map (·.map ([] ++ ·))
    rcases chain attempt ws pos with e | _ | us <;> rfl
  | cons v vs ih =>
    rw [List.cons_append, chain_cons, chain_cons]
    rcases attempt v pos with e | _ | t
    · rfl
    · rfl
    · change (chain attempt (vs ++ ws) t.stop).map _ = (chain attempt vs t.stop).map _ >>= _
      rw [ih]
      rcases chain attempt vs t.stop with e | _ | ts
      · rfl
      · rfl
      · change ((chain attempt ws (stopAfter t.stop ts)).map _).map _ =
          (chain attempt ws (stopAfter pos (t :: ts))).map _
        rw [stopAfter_cons]
        rcases chain attempt ws (stopAfter t.stop ts) with e | _ | us <;> rfl

/-- Both break, or the trees have alike leaves and rule nodes and stop at the same place. -/
abbrev AlikeChains (pos : Nat) : Option (List Tree) → Option (List Tree) → Prop :=
  Option.Rel fun ts us =>
    AlikeAll (nearestAll ts) (nearestAll us) ∧ stopAfter pos us = stopAfter pos ts

/-- A tree, and the trees of the parts in line that come in its place. -/
abbrev AlikeParts (pos : Nat) : Option Tree → Option (List Tree) → Prop :=
  Option.Rel fun t us => AlikeAll (nearestAll [t]) (nearestAll us) ∧ stopAfter pos us = t.stop

/-- If the parts of each item follow the item, the parts of all items follow the items. -/
theorem tracks_chain_parts
    (h : ∀ v p, Tracks (AlikeParts p) (attempt v p) (chain attempt' v.parts p))
    (items : List Validator) (p : Nat) : Tracks (AlikeChains p) (chain attempt items p)
      (chain attempt' (Validator.partsAll items) p) := by
  induction items generalizing p with
  | nil => exact tracks_ok (.some ⟨.nil, rfl⟩)
  | cons v rest ih =>
    rw [Validator.partsAll, chain_cons, chain_append]
    refine (h v p).bind fun found found' hfound => ?_
    cases hfound with
    | none => exact tracks_ok .none
    | @some t us alike =>
      obtain ⟨first, stop⟩ := alike
      simp only [stop]
      refine (ih t.stop).map fun others others' hothers => ?_
      cases hothers with
      | none => exact .none
      | @some ts ws alike =>
        obtain ⟨others, last⟩ := alike
        refine .some ⟨?_, ?_⟩
        · change AlikeAll (nearestAll ([t] ++ ts)) (nearestAll (us ++ ws))
          rw [nearestAll_append, nearestAll_append]
          exact first.append others
        · change stopAfter p (us ++ ws) = stopAfter p (t :: ts)
          rw [stopAfter_append, stop, stopAfter_cons, last]

/-- What follows a single part follows as the tree of it. -/
theorem tracks_part {o : Outcome} {w : Validator} (h : Tracks AlikeFound o (attempt' w pos)) :
    Tracks (AlikeParts pos) o (chain attempt' [w] pos) := by
  rw [chain_cons, ← bind_pure o]
  refine h.bind fun found found' hfound => ?_
  cases hfound with
  | none => exact tracks_ok .none
  | @some t t' alike =>
    refine tracks_ok (.some ⟨alikeAll_nearestAll (.cons alike .nil), ?_⟩)
    exact alike.stop_eq.symm

end Chains

/-! ### Evaluations in line -/

section Evaluations

variable [Regex] {g : Grammar} {text : Text} {depth : Nat}

/-- Evaluations within a depth are followed under the grammar in line: by what is laid out in line,
and by its parts. -/
structure Followed (g : Grammar) (text : Text) (depth : Nat) : Prop where
  whole : ∀ v pos tag, Tracks AlikeFound (evaluate g text depth v pos tag)
    (evaluate g.flatten text depth v.flatten pos tag)
  parts : ∀ v pos tag, Tracks (AlikeParts pos) (evaluate g text depth v pos tag)
    (chain (fun w p => evaluate g.flatten text depth w p tag) v.parts pos)

theorem followed_zero : Followed g text 0 where
  whole _ _ _ := tracks_zero
  parts _ _ _ := tracks_zero

/-- The parts of the items, within the same depth. -/
theorem Followed.items (ih : Followed g text depth) (items : List Validator) (pos : Nat)
    (tag : String) :
    Tracks (AlikeChains pos) (chain (fun v p => evaluate g text depth v p tag) items pos)
      (chain (fun w p => evaluate g.flatten text depth w p tag) (Validator.partsAll items) pos) :=
  tracks_chain_parts (fun v p => ih.parts v p tag) items pos

theorem Followed.sequence (ih : Followed g text depth) (items : List Validator) (pos : Nat)
    (tag : String) :
    Tracks AlikeFound (evaluate g text (depth + 1) (.sequence items) pos tag)
      (evaluate g.flatten text (depth + 1) (.sequence (Validator.partsAll items)) pos tag) := by
  rw [evaluate_sequence, evaluate_sequence]
  refine (ih.items items pos tag).map fun parts parts' hparts => ?_
  cases hparts with
  | none => exact .none
  | some alike => exact .some (alike_listNode alike.1 alike.2)

/-- The parts of a sequence are tried one level less deep than the sequence is. -/
theorem Followed.sequence_parts (ih : Followed g text depth) (items : List Validator) (pos : Nat)
    (tag : String) :
    Tracks (AlikeParts pos) (evaluate g text (depth + 1) (.sequence items) pos tag)
      (chain (fun w p => evaluate g.flatten text (depth + 1) w p tag)
        (Validator.partsAll items) pos) := by
  have within : Tracks (AlikeParts pos) (evaluate g text (depth + 1) (.sequence items) pos tag)
      (chain (fun w p => evaluate g.flatten text depth w p tag)
        (Validator.partsAll items) pos) := by
    rw [evaluate_sequence]
    refine (ih.items items pos tag).mapLeft fun parts parts' hparts => ?_
    cases hparts with
    | none => exact .none
    | @some ts us alike =>
      obtain ⟨same, stop⟩ := alike
      refine .some ⟨?_, stop⟩
      simpa [nearestAll, listNode, Tree.isRule, Tree.info, Tree.nearest] using same
  exact within.extend (extends_chain (fun w p => extends_evaluate depth w p tag) _ pos)

theorem Followed.step (ih : Followed g text depth) : Followed g text (depth + 1) := by
  have whole : ∀ v pos tag, Tracks AlikeFound (evaluate g text (depth + 1) v pos tag)
      (evaluate g.flatten text (depth + 1) v.flatten pos tag) := by
    intro v pos tag
    cases v with
    | terminal t =>
      refine tracks_ok ?_
      rw [Terminal.evaluate]
      cases t.matched? text pos with
      | none => exact .none
      | some taken => exact .some .text
    | ref name =>
      refine tracks_ref (f := Validator.flatten) (g.rule?_flatten name) ?_ ?_
      · exact fun _ _ alike => alike_asRule name alike
      · exact fun v => ih.whole v pos name
    | quantified inner arity =>
      exact tracks_quantified (kept_alike tag) (fun p => ih.whole inner p tag) arity pos
    | sequence items => exact ih.sequence items pos tag
    | foreign x => exact tracks_error _
  refine ⟨whole, ?_⟩
  intro v pos tag
  cases v with
  | sequence items => exact ih.sequence_parts items pos tag
  | terminal t =>
    refine tracks_part ?_
    exact whole (.terminal t) pos tag
  | ref name =>
    refine tracks_part ?_
    exact whole (.ref name) pos tag
  | quantified inner arity =>
    refine tracks_part ?_
    exact whole (.quantified inner arity) pos tag
  | foreign x =>
    refine tracks_part ?_
    exact whole (.foreign x) pos tag

theorem followed (depth : Nat) : Followed g text depth := by
  induction depth with
  | zero => exact followed_zero
  | succ depth ih => exact ih.step

end Evaluations

/-! ### What a grammar comes to -/

section Meaning

variable [Regex] {g : Grammar} {text : Text} {v : Validator} {pos : Nat} {tag : String}

/-- If evaluations run out of every depth, they do so in line too. -/
theorem Ends.endless_flatten [LawfulRegex] (h : Ends g text v pos tag (.error .depthExceeded)) :
    Ends g.flatten text v.flatten pos tag (.error .depthExceeded) := by
  refine ⟨0, fun depth _ => ?_⟩
  by_contra ends
  have stops : Stops g.flatten text v.flatten pos
      (stopOf (evaluate g.flatten text depth v.flatten pos tag)) :=
    (stops_iff tag).mpr
      ⟨fun he => ends (stopOf_eq_broken (b := some .depthExceeded) he), depth, rfl⟩
  have before := (stops_flatten v pos _).mpr (stops_flatten_grammar.mpr stops)
  obtain ⟨hne, depth', hd⟩ := (stops_iff tag).mp before
  have ended : evaluate g text depth' v pos tag ≠ .error .depthExceeded := by
    intro he
    rw [he] at hd
    exact hne hd.symm
  exact ended ((ends_of_evaluate rfl ended).unique h)

/-- What evaluations end with is alike in line. -/
theorem Ends.flatten [LawfulRegex] {o : Outcome} (h : Ends g text v pos tag o) :
    ∃ o', Ends g.flatten text v.flatten pos tag o' ∧ Agree AlikeFound o o' := by
  by_cases endless : o = .error .depthExceeded
  · subst endless
    exact ⟨_, h.endless_flatten, .error _⟩
  · obtain ⟨depth, hd⟩ := h
    have agree : Tracks AlikeFound (evaluate g text depth v pos tag)
        (evaluate g.flatten text depth v.flatten pos tag) := (followed depth).whole v pos tag
    rw [hd depth (Nat.le_refl depth)] at agree
    exact ⟨_, ends_of_evaluate rfl ((agree endless).not_depthExceeded endless), agree endless⟩

/-- The same error, or no match, or trees that cover the same stretch and cannot be told apart by
transforms that look at the rule, the span, the values and the text only: these are called for the
same rules and stretches in the same order, with the same values and text, give the same value or
error and leave the same state. -/
def SameMeaning (text : Text) : Outcome → Outcome → Prop :=
  Agree (Option.Rel fun t t' => t.info = t'.info ∧
    ∀ (σ : Type) (fs : Transforms σ), Transform.IgnoresShape fs → ∀ s,
      Transform.AlikeResults (Transform.applyFrom fs text t s) (Transform.applyFrom fs text t' s))

omit [Regex] in
theorem Agree.sameMeaning {o o' : Outcome} (h : Agree AlikeFound o o') : SameMeaning text o o' := by
  refine h.imp fun found found' hfound => ?_
  cases hfound with
  | none => exact .none
  | some alike =>
    exact .some ⟨alike.info_eq, fun σ fs ignores s => Transform.apply_alike ignores alike s⟩

/-- A grammar and the one with its sequences in line come to the same on every text, also where they
do not end. A parse under the first that does not run too deep is matched by one under the
second. -/
theorem flatten_preserves_meaning [LawfulRegex] (g : Grammar) (text : Text) :
    (∃ o o', Ends g text (.ref g.entry) 0 g.entry o ∧
      Ends g.flatten text (.ref g.flatten.entry) 0 g.flatten.entry o' ∧ SameMeaning text o o') ∧
    (g.parse text ≠ .error .depthExceeded →
      SameMeaning text (g.parse text) (g.flatten.parse text)) := by
  constructor
  · obtain ⟨o, ho⟩ := exists_ends g text (.ref g.entry) 0 g.entry
    obtain ⟨o', ho', agree⟩ := ho.flatten
    exact ⟨o, o', ho, ho', agree.sameMeaning⟩
  · intro ends
    exact ((followed depthLimit).whole (.ref g.entry) 0 g.entry ends).sameMeaning

end Meaning

/-- A digit and a comma in a group, and another digit behind it. -/
def grouped : Grammar :=
  ⟨"pair", [("pair", [.sequence [.sequence [Points.one .digitCharacter, Points.one .commaSign],
    Points.one .digitCharacter]])]⟩

/-- The tree of two digits with a comma between them. -/
def groupedTree : Tree :=
  .list ⟨"pair", true, 0, 3⟩ [
    .list ⟨"pair", false, 0, 2⟩ [.text ⟨"pair", false, 0, 1⟩ "1", .text ⟨"pair", false, 1, 2⟩ ","],
    .text ⟨"pair", false, 2, 3⟩ "2"]

theorem grouped_means_the_same_in_line :
    grouped.parse (.ofString "1,2") = .ok (some groupedTree) ∧
      SameMeaning (.ofString "1,2") (grouped.parse (.ofString "1,2"))
        (grouped.flatten.parse (.ofString "1,2")) := by
  have parsed : grouped.parse (.ofString "1,2") = .ok (some groupedTree) := by cbv
  exact ⟨parsed, (flatten_preserves_meaning grouped (.ofString "1,2")).2 (by simp [parsed])⟩

end OrderedGrammar.Matching
