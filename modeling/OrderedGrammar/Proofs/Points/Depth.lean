import OrderedGrammar.Proofs.Points.Accepts
import OrderedGrammar.Proofs.Tree.Height

/-!
How deep parsing goes. If no rule of a grammar refers to itself, one bound holds for all texts: for
the evaluations that are nested, for the height of the tree, and so for whatever follows the tree
down, when it is printed or transformed. Long texts make trees wide and not high. The grammar of
point lists is of this kind, so that no list of points is too long for it.
-/

namespace OrderedGrammar

open Matching

section Bound

variable [Regex]

/-- What parsing comes to with a number of levels. -/
def Grammar.parseWithin (g : Grammar) (depth : Nat) (text : Text) : Outcome :=
  evaluate g text depth (.ref g.entry) 0 g.entry

theorem Grammar.parse_eq (g : Grammar) (text : Text) :
    g.parse text = g.parseWithin depthLimit text := by
  rfl

/-- How deeply evaluations may be nested from the entry rule on, if no rule refers to itself. -/
def Grammar.nestingBound (g : Grammar) : Nat :=
  levels (max g.height 1) (g.ruleNames.length + 1) 1

variable [LawfulRegex]

/-- Parsing from the entry rule with the levels of the bound. -/
theorem Grammar.NonRecursive.parse_ends {g : Grammar} (acyclic : g.NonRecursive) (text : Text) :
    g.parseWithin g.nestingBound text ≠ .error .depthExceeded :=
  have low : (Validator.ref g.entry).height ≤ max g.height 1 := Nat.le_max_right _ _
  nonRecursive_ends acyclic (Nat.le_max_left _ _) low (Nat.le_refl _)

/-- More levels than those of the bound change nothing. -/
theorem Grammar.NonRecursive.parseWithin_eq {g : Grammar} (acyclic : g.NonRecursive) (text : Text)
    {depth : Nat} (hd : g.nestingBound ≤ depth) :
    g.parseWithin depth text = g.parseWithin g.nestingBound text :=
  evaluate_mono rfl (acyclic.parse_ends text) hd

/-- The bound holds for the height of trees too. -/
theorem Grammar.NonRecursive.height_le {g : Grammar} (acyclic : g.NonRecursive) {text : Text}
    {depth : Nat} {t : Tree} (h : g.parseWithin depth text = .ok (some t)) :
    t.height ≤ g.nestingBound := by
  have deeper : g.parseWithin (max depth g.nestingBound) text = .ok (some t) :=
    evaluate_mono h (by simp) (Nat.le_max_left depth g.nestingBound)
  rw [acyclic.parseWithin_eq text (Nat.le_max_right _ _)] at deeper
  exact height_le_of_evaluate deeper

end Bound

namespace Points

theorem nestingBound_eq [Regex] [Symbols] : grammar.nestingBound = 86 := by
  rw [Grammar.nestingBound, grammar_height, ruleNames_eq]
  rfl

/-- If no rule of a grammar refers to itself, there is a bound that depends on the grammar only. For
every text, evaluations nest no deeper than that from the entry rule on, and more room changes
nothing; no tree that is found is higher, printing it goes no deeper, and transforming it needs no
more levels. The grammar of point lists is such a grammar, and neither parsing under it nor reading
points ever runs too deep. -/
theorem depth_bounded_by_grammar [Regex] [Symbols] [LawfulRegex] [LawfulSymbols] :
    (∀ g : Grammar, g.NonRecursive → ∀ text : Text,
      g.parseWithin g.nestingBound text ≠ .error .depthExceeded ∧
      (∀ depth, g.nestingBound ≤ depth →
        g.parseWithin depth text = g.parseWithin g.nestingBound text) ∧
      ∀ depth t, g.parseWithin depth text = .ok (some t) →
        t.height ≤ g.nestingBound ∧ (∀ node ∈ t.preorder 0, node.1 < g.nestingBound) ∧
        ∀ (σ : Type) (fs : Transforms σ), Transform.collectWithin fs text g.nestingBound t =
          OptionT.lift (Transform.collect fs text t)) ∧
    grammar.NonRecursive ∧ grammar.nestingBound = 86 ∧
    (∀ text, grammar.parse text ≠ .error .depthExceeded) ∧
    ∀ src, parse src ≠ .error (.unmatched (.evaluation .depthExceeded)) := by
  refine ⟨fun g acyclic text => ?_, grammar_nonRecursive, nestingBound_eq, fun text => ?_,
    fun src => ?_⟩
  · refine ⟨acyclic.parse_ends text, fun depth hd => acyclic.parseWithin_eq text hd, ?_⟩
    intro depth t h
    have height := acyclic.height_le h
    refine ⟨height, fun node hn => ?_, fun σ fs => Transform.collectWithin_of_le fs text height⟩
    have := t.preorder_depth_lt 0 node hn
    omega
  · obtain ⟨root, _, hparse, -⟩ := parse_longest text
    simp [hparse]
  · rcases parse_cases src with ⟨points, h⟩ | ⟨m, h⟩
    · simp [h]
    · simp [h]

/-- Two points, for which the bound of their grammar is enough. -/
theorem two_points_within_bound :
    grammar.NonRecursive ∧
      grammar.parseWithin grammar.nestingBound (.ofString "1,2 3,4") ≠ .error .depthExceeded ∧
      ∀ depth t, grammar.parseWithin depth (.ofString "1,2 3,4") = .ok (some t) →
        t.height ≤ 86 := by
  have acyclic : grammar.NonRecursive := grammar_nonRecursive
  obtain ⟨ends, -, found⟩ := depth_bounded_by_grammar.1 grammar acyclic (.ofString "1,2 3,4")
  refine ⟨acyclic, ends, fun depth t h => ?_⟩
  rw [← nestingBound_eq]
  exact (found depth t h).1

end Points

end OrderedGrammar
