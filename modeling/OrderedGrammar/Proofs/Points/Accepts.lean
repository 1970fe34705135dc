import OrderedGrammar.Proofs.Matching.Entry
import OrderedGrammar.Proofs.Pattern.Lawful
import OrderedGrammar.Proofs.Points.Values

/-!
What is accepted as a list of points. The texts that are read are exactly the words of the grammar
taken without order, and any other text is refused at the end of its longest prefix that is such a
word.
-/

namespace OrderedGrammar.Points

open Matching Words

section Accepted

variable [Regex] [Symbols] [LawfulRegex] [LawfulSymbols]

/-- A text gives the value of its tree, or it is refused where the match stopped. -/
theorem parseValue_eq {src : String} {root : Tree} (given : Gives grammar (.ofString src)
      (.ref grammar.entry) 0 grammar.entry (.ok (some root)))
    (hparse : grammar.parse (.ofString src) = .ok (some root)) :
    ∃ v, (Transform.apply transforms (.ofString src) root).1 = .ok v ∧ parseValue src =
      if root.stop = (Text.ofString src).size then .ok v
      else .error (.unmatched (.mismatch ⟨grammar.entry, root.stop⟩)) := by
  obtain ⟨v, hv⟩ := apply_ok_of_gives given
  refine ⟨v, hv, ?_⟩
  rw [parseValue, requireMatch_of_parse hparse]
  split
  · simp only [Except.mapError, bind, Except.bind, hv]
  · rfl

/-- A text gives points, or it is refused where the match stopped. -/
theorem parse_cases (src : String) :
    (∃ points, parse src = .ok points) ∨ ∃ m, parse src = .error (.unmatched (.mismatch m)) := by
  obtain ⟨root, _, hparse, given, -, -⟩ := parse_longest (.ofString src)
  obtain ⟨v, -, value⟩ := parseValue_eq given hparse
  rw [parse, value]
  split
  · exact Or.inl ⟨_, rfl⟩
  · exact Or.inr ⟨_, rfl⟩

/-- The words of a terminal of the grammar are the single characters that its symbol is. Parsing
takes the longest prefix of the text that the grammar, taken without order, derives from its entry
rule. A text is accepted, and gives points, if and only if it is derived as a whole; any other text
is refused at the end of that prefix. -/
theorem point_lists_accepted (src : String) :
    (∀ (symbol : Symbol) (v : List Char), v ∈ grammar.language (one symbol) ↔
      ∃ c, symbol.Is c ∧ v = [c]) ∧
    ∃ w, Longest (grammar.language (.ref grammar.entry)) src.toList w ∧
      (∃ root, grammar.parse (.ofString src) = .ok (some root) ∧ root.start = 0 ∧
        root.stop = w.length ∧ root.source (.ofString src) = String.ofList w) ∧
      ((∃ root, grammar.requireMatch (.ofString src) = .ok root) ↔
        src.toList ∈ grammar.language (.ref grammar.entry)) ∧
      ((∃ points, parse src = .ok points) ↔
        src.toList ∈ grammar.language (.ref grammar.entry)) ∧
      (src.toList ∉ grammar.language (.ref grammar.entry) →
        grammar.requireMatch (.ofString src) = .error (.mismatch ⟨grammar.entry, w.length⟩) ∧
          parse src = .error (.unmatched (.mismatch ⟨grammar.entry, w.length⟩))) := by
  refine ⟨mem_language_one, ?_⟩
  obtain ⟨root, w, hparse, given, longest, hstop⟩ := parse_longest (.ofString src)
  have required := requireMatch_of_parse hparse
  obtain ⟨v, -, value⟩ := parseValue_eq given hparse
  have whole := longest.mem_iff
  change src.toList ∈ grammar.language (.ref grammar.entry) ↔ w.length = src.toList.length at whole
  rw [hstop, show (Text.ofString src).size = src.toList.length from rfl] at required value
  have source : root.source (.ofString src) = String.ofList w :=
    source_eq given.covers.1 longest.isPrefix (by omega)
  refine ⟨w, longest, ⟨root, hparse, given.covers.1, hstop, source⟩, ?_⟩
  by_cases hmem : src.toList ∈ grammar.language (.ref grammar.entry)
  · rw [if_pos (whole.mp hmem)] at required value
    have points : parse src = .ok (ofValue v) := by rw [parse, value]; rfl
    exact ⟨⟨fun _ => hmem, fun _ => ⟨root, required⟩⟩, ⟨fun _ => hmem, fun _ => ⟨_, points⟩⟩,
      fun h => absurd hmem h⟩
  · rw [if_neg fun h => hmem (whole.mpr h)] at required value
    have refused : parse src = .error (.unmatched (.mismatch ⟨grammar.entry, w.length⟩)) := by
      rw [parse, value]; rfl
    refine ⟨⟨?_, fun h => absurd h hmem⟩, ⟨?_, fun h => absurd h hmem⟩,
      fun _ => ⟨required, refused⟩⟩
    · rintro ⟨root, h⟩
      cases required.symm.trans h
    · rintro ⟨points, h⟩
      cases refused.symm.trans h

end Accepted

/-- A comma alone is refused where it stands, and so it is no word of the grammar. -/
theorem comma_refused :
    grammar.requireMatch (.ofString ",") = .error (.mismatch ⟨"list_of_points", 0⟩) ∧
      ",".toList ∉ grammar.language (.ref grammar.entry) := by
  have refused : grammar.requireMatch (.ofString ",") =
      .error (.mismatch ⟨"list_of_points", 0⟩) := by
    cbv
  obtain ⟨-, _, -, -, accepted, -⟩ := point_lists_accepted ","
  refine ⟨refused, fun derived => ?_⟩
  obtain ⟨root, h⟩ := accepted.mpr derived
  cases refused.symm.trans h

end OrderedGrammar.Points
