import OrderedGrammar.Proofs.Matching.Nesting
import OrderedGrammar.Proofs.Points.Munch
import OrderedGrammar.Points.Reader

/-!
Parsing point lists. No rule of their grammar refers to itself, so that matching ends whatever the
text, and it takes the longest prefix that is a point list.
-/

namespace OrderedGrammar.Points

open Matching Words

section Rules

variable [Regex] [Symbols]

theorem ruleNames_eq : grammar.ruleNames = ["list_of_points", "coordinate_pairs",
    "coordinate_pair", "coordinate", "number", "negative_coordinate", "comma_wsp", "comma",
    "integer_constant", "floating_point_constant", "fractional_constant", "exponent", "sign",
    "digit_sequence", "digit", "wsp"] :=
  rfl

/-- All references go forward in the order of the rules. -/
theorem references_forward : ∀ rule ∈ grammar.rules, ∀ v ∈ rule.2, ∀ callee ∈ v.mentions,
    grammar.ruleNames.idxOf rule.1 < grammar.ruleNames.idxOf callee := by
  rw [ruleNames_eq]
  -- only names are left, whatever the terminals compile to
  simp only [grammar, listRules, coordinateRules, separatorRules, numberRules, blankRules,
    List.cons_append, List.nil_append, List.forall_mem_cons, List.not_mem_nil, false_implies,
    implies_true, and_true, true_and, anyOf, someOf, maybe, one, Validator.mentions,
    Validator.mentionsAll]
  decide

theorem grammar_nonRecursive : grammar.NonRecursive :=
  Grammar.nonRecursive_of_order (grammar.ruleNames.idxOf ·) references_forward

theorem grammar_height : grammar.height = 4 := by
  simp [Grammar.height, grammar, listRules, coordinateRules, separatorRules, numberRules,
    blankRules, anyOf, someOf, maybe, one, Validator.height, Validator.heightAll]

end Rules

variable [Regex] [Symbols] [LawfulRegex]

/-- Matching at a rule ends whatever the text. -/
theorem evaluate_gives (text : Text) (rule : String) (pos : Nat) (tag : String) :
    Gives grammar text (.ref rule) pos tag
      (evaluate grammar text depthLimit (.ref rule) pos tag) := by
  refine gives_iff.mpr ⟨nonRecursive_ends grammar_nonRecursive (Nat.le_of_eq grammar_height) ?_ ?_,
    depthLimit, rfl⟩
  · rw [Validator.height]; omega
  · rw [Validator.height, ruleNames_eq]; decide

variable [LawfulSymbols]

/-- A tree is always found; it covers the longest prefix of the text that is a point list. -/
theorem parse_longest (text : Text) : ∃ root w, grammar.parse text = .ok (some root) ∧
    Gives grammar text (.ref "list_of_points") 0 "list_of_points" (.ok (some root)) ∧
    Longest (words "list_of_points") text.toList w ∧ root.stop = w.length := by
  have given : Gives grammar text (.ref "list_of_points") 0 "list_of_points"
      (grammar.parse text) := evaluate_gives text "list_of_points" 0 "list_of_points"
  rcases hp : grammar.parse text with e | _ | root
  · rw [hp] at given
    exact absurd given munches_list_of_points.no_error
  · rw [hp] at given
    -- the empty text is a point list
    have nil : [] ∈ words "list_of_points" := by
      simp [words_list_of_points, Language.nil_mem_kstar]
    exact absurd List.nil_prefix (munches_list_of_points.missing given [] nil)
  · rw [hp] at given
    obtain ⟨w, hw, hstop⟩ := munches_list_of_points.longest given
    exact ⟨root, w, rfl, given, hw, by rw [hstop, Nat.zero_add]⟩

end OrderedGrammar.Points
