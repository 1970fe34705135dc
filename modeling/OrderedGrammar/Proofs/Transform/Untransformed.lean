import OrderedGrammar.Proofs.Transform.Calls

/-!
Trees that are turned into values without any transform. The value of a node is made of texts and
lists only, and the texts in it are those of the leaves below the node, in order
(`Yields.texts_eq`). In the tree of a match these read what the tree covers, if its terminals take
slices of the text.
-/

namespace OrderedGrammar

namespace Value

mutual

/-- The texts in a value, in order, at whatever depth of lists. -/
def texts : Value → List String
  | text s => [s]
  | list vs => textsAll vs
  | _ => []

/-- The texts in several values. -/
def textsAll : List Value → List String
  | [] => []
  | v :: rest => texts v ++ textsAll rest

end

/-- A text, or a list of such values. -/
inductive Textual : Value → Prop
  | text (s : String) : Textual (text s)
  | list {vs : List Value} (h : ∀ v ∈ vs, Textual v) : Textual (list vs)

theorem Textual.ne_null {v : Value} (h : v.Textual) : v ≠ null := by
  rintro rfl
  cases h

end Value

namespace Tree

mutual

/-- No leaf is left out and none is met twice on the way to what is nearest below a node. -/
theorem leafTexts_nearest : ∀ t : Tree, t.nearest.flatMap leafTexts = t.leafTexts
  | text i s => by simp [nearest]
  | single i c => by
    rw [nearest, leafTexts_single]
    split
    · simp
    · exact leafTexts_nearest c
  | list i cs => by
    rw [nearest, leafTexts_list]
    exact leafTexts_nearestAll cs

theorem leafTexts_nearestAll :
    ∀ ts : List Tree, (nearestAll ts).flatMap leafTexts = ts.flatMap leafTexts
  | [] => rfl
  | t :: rest => by
    rw [nearestAll, List.flatMap_append, leafTexts_nearestAll rest, List.flatMap_cons]
    split
    · simp
    · rw [leafTexts_nearest t]

end

end Tree

namespace Transform

variable {src : Text} {s s' : Unit}

/-- No rule has a transform. -/
def noTransforms : TransformMap := fun _ => none

theorem transformOf_noTransforms (t : Tree) : transformOf noTransforms t = none :=
  ite_self none

mutual

/-- The texts in the value of a node are those of the leaves below it. -/
theorem Yields.texts_eq {t : Tree} {v : Value} (h : Yields noTransforms src s t v s') :
    v.Textual ∧ v.texts = t.leafTexts := by
  match h with
  | .called hf _ _ => cases (transformOf_noTransforms t).symm.trans hf
  | .text _ => exact ⟨.text _, by rw [Value.texts, Tree.leafTexts_text]⟩
  | .single _ h =>
    rw [Tree.leafTexts_single]
    exact h.texts_eq
  | .list _ below =>
    obtain ⟨textual, texts⟩ := below.texts_eq
    exact ⟨.list textual, by rw [Value.texts, texts, Tree.leafTexts_nearest]⟩

theorem Gathers.texts_eq {ts : List Tree} {vs : List Value} 
    (h : Gathers noTransforms src s ts vs s') :
    (∀ v ∈ vs, v.Textual) ∧ Value.textsAll vs = ts.flatMap Tree.leafTexts := by
  match h with
  | .nil => exact ⟨by simp, rfl⟩
  | .dropped h _ => exact absurd rfl h.texts_eq.1.ne_null
  | .kept h _ hs =>
    obtain ⟨first, firstTexts⟩ := h.texts_eq
    obtain ⟨others, otherTexts⟩ := hs.texts_eq
    rw [Value.textsAll, List.flatMap_cons, firstTexts, otherTexts]
    exact ⟨List.forall_mem_cons.mpr ⟨first, others⟩, rfl⟩

end

/-- Without transforms no call is made that could fail. -/
theorem apply_noTransforms {t : Tree} (single : ∀ n ∈ t.nodes, n.SingleRule) :
    ∃ w, (apply noTransforms src t).1 = .ok w ∧ Yields noTransforms src () t w () := by
  have makes : Makes noTransforms src () [] ()
      (do valueOf noTransforms src t (← collect noTransforms src t)) _
      (Yields noTransforms src () t) := makes_apply single ()
  obtain ⟨calls, -, -, completed, failed⟩ := makes #[]
  cases result : (apply noTransforms src t).1 with
  | ok w => exact ⟨w, rfl, (completed w result).2⟩
  | error e =>
    obtain ⟨_, last, _, -, -, -, f, hf, -⟩ := failed e result
    cases (transformOf_noTransforms last.node).symm.trans hf

/-- Without transforms nothing is lost, repeated or put in another order. The tree of a match, be it
of a parse or of any validator, has a value, which is not `null` but a text or a list of such
values, nested to any depth, and the texts in it are those of the leaves, in order. If every
terminal takes the slice of the text where it matches, these, one after the other, are what the tree
covers. -/
theorem untransformed_reads_source [Regex] [LawfulRegex] {g : Grammar} {text : Text} {depth : Nat}
    {v : Validator} {pos : Nat} {tag : String} {t : Tree}
    (h : Matching.evaluate g text depth v pos tag = .ok (some t)) :
    ∃ w, (apply noTransforms text t).1 = .ok w ∧ w ≠ .null ∧ w.Textual ∧ w.texts = t.leafTexts ∧
      (g.TerminalsAre Terminal.TakesSlices → v.TerminalsAre Terminal.TakesSlices →
        String.join w.texts = text.slice t.start t.stop) := by
  have given : Matching.Gives g text v pos tag (.ok (some t)) :=
    Matching.gives_iff.mpr ⟨by simp, depth, h⟩
  obtain ⟨w, value, yields⟩ := apply_noTransforms given.singleRule
  obtain ⟨textual, texts⟩ := yields.texts_eq
  refine ⟨w, value, textual.ne_null, textual, texts, fun hg hv => ?_⟩
  rw [texts, given.join_leafTexts hg hv, given.covers.1]

/-- A separator, parsed as a text of its own. -/
theorem untransformed_separator :
    (Points.grammar.enteredAt "comma_wsp").parse (.ofString ", ") =
        .ok (some Matching.separatorTree) ∧
      (Points.grammar.enteredAt "comma_wsp").TerminalsAre Terminal.TakesSlices ∧
      (Validator.ref "comma_wsp").TerminalsAre Terminal.TakesSlices ∧
      ∃ w, (apply noTransforms (.ofString ", ") Matching.separatorTree).1 = .ok w ∧ w ≠ .null ∧
        w.Textual ∧ w.texts = Matching.separatorTree.leafTexts ∧ String.join w.texts = ", " := by
  have parsed : (Points.grammar.enteredAt "comma_wsp").parse (.ofString ", ") =
      .ok (some Matching.separatorTree) := by cbv
  have slices : (Points.grammar.enteredAt "comma_wsp").TerminalsAre Terminal.TakesSlices :=
    Grammar.terminalsAre_of_forall Pattern.takesSlices _
  have atEntry : (Validator.ref "comma_wsp").TerminalsAre Terminal.TakesSlices :=
    Validator.terminalsAre_of_forall Pattern.takesSlices _
  obtain ⟨w, value, present, textual, leaves, covered⟩ := untransformed_reads_source parsed
  exact ⟨parsed, slices, atEntry, w, value, present, textual, leaves,
    (covered slices atEntry).trans (by cbv)⟩

end Transform

end OrderedGrammar
