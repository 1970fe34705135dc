import OrderedGrammar.Proofs.Points.RoundTrip

/-!
The calls that reading a list of points makes. Transforms take what they rely on for granted: two
numbers below a pair, a numeral in the text of a coordinate, and below a list at most one value, a
list of points. In the tree of a match every call is supplied with it (`supplied_of_gives`), so that
no transform fails on any text.
-/

namespace OrderedGrammar.Points

open Matching Words Transform

variable {text : Text} {pos : Nat} {tag : String}

/-- The call is made with what its transform relies on. -/
structure Supplied (text : Text) (c : Context) : Prop where
  /-- Two numbers below a pair. -/
  pair : c.node.rule = "coordinate_pair" → ∃ x y, c.values = [.number x, .number y]
  /-- A numeral without blanks in the text of a coordinate. -/
  numeral : c.node.rule = "coordinate" ∨ c.node.rule = "negative_coordinate" →
    Decimal.IsNumeral c.text.toList ∧ ∀ ch ∈ c.text.toList, Text.isWhiteSpace ch = false
  /-- Nothing below a list without pairs, and else the list of the points of its pairs. -/
  list : c.node.rule = "list_of_points" → ∃ points, PairsYield text c.node points ∧
    (points = [] ∧ c.values = [] ∨ c.values = [.list (points.map .point)])

section Supplied

variable [Regex] [Symbols] [LawfulRegex] [LawfulSymbols]

/-- Calls for the nodes of a match are supplied. -/
theorem supplied_of_gives {c : Context}
    (given : Gives grammar text (.ref c.node.rule) pos tag (.ok (some c.node)))
    (source : c.text = c.node.source text)
    (gathers : Gathers transforms text () c.node.nearest c.values ()) : Supplied text c := by
  obtain ⟨s, gathered⟩ : ∃ s, Runs (collect transforms text c.node) ((), #[]) c.values s :=
    gathers.runs given.singleRule (fine_below given) #[]
  refine ⟨?_, ?_, ?_⟩
  · intro rule
    rw [rule] at given
    obtain ⟨_, _, q, -, -, -, values⟩ := collect_pair given gathered
    exact ⟨q.x, q.y, values⟩
  · intro rule
    obtain ⟨w, numeral, spelled⟩ := isNumeral_source rule given
    rw [source, spelled, String.toList_ofList]
    exact ⟨numeral, fun ch hch => (Decimal.isPlain_of_isNumeral numeral ch hch).not_white⟩
  · intro rule
    rw [rule] at given
    obtain ⟨_, _, points, -, -, -, yields, values⟩ := gathered_list given gathered
    exact ⟨points, yields, values⟩

/-- Whatever the text, the tree that is found in it, be it of all of it or not, has a value, and
every call on the way is made with what its transform relies on. So reading a list of points fails
only where the text as a whole is none, and else its value is a list of points. -/
theorem transforms_never_fail (src : String) :
    (∃ root v, grammar.parse (.ofString src) = .ok (some root) ∧
      (Transform.apply transforms (.ofString src) root).1 = .ok v ∧
      ∀ c ∈ (Transform.apply transforms (.ofString src) root).2, Supplied (.ofString src) c) ∧
    ((∃ points, parseValue src = .ok (.list (points.map .point)) ∧ parse src = .ok points) ∨
      ∃ m, parseValue src = .error (.unmatched (.mismatch m)) ∧
        parse src = .error (.unmatched (.mismatch m))) := by
  constructor
  · obtain ⟨root, -, hparse, given, -, -⟩ := parse_longest (.ofString src)
    obtain ⟨v, value⟩ := apply_ok_of_gives given
    refine ⟨root, v, hparse, value, ?_⟩
    intro c hc
    obtain ⟨inside, rule, source, gathers⟩ := informed_calls given.singleRule value c hc
    obtain ⟨_, _, below⟩ := given.rule_nodes c.node inside rule
    exact supplied_of_gives below source gathers
  · rcases parseValue_cases src with ⟨points, h⟩ | ⟨m, h⟩
    · exact Or.inl ⟨points, h, parse_of_parseValue h⟩
    · exact Or.inr ⟨m, h, by rw [parse, h]; rfl⟩

end Supplied

/-- A list whose last pair is not finished: the pair before it and the blank are transformed, and
reading is refused behind them. -/
theorem unfinished_pair_supplied :
    parseValue "1,2 3" = .error (.unmatched (.mismatch ⟨"list_of_points", 4⟩)) ∧
      ∃ root v, grammar.parse (.ofString "1,2 3") = .ok (some root) ∧
        (Transform.apply transforms (.ofString "1,2 3") root).1 = .ok v ∧
        ∀ c ∈ (Transform.apply transforms (.ofString "1,2 3") root).2,
          Supplied (.ofString "1,2 3") c := by
  have refused : parseValue "1,2 3" = .error (.unmatched (.mismatch ⟨"list_of_points", 4⟩)) := by
    cbv
  exact ⟨refused, (transforms_never_fail "1,2 3").1⟩

end OrderedGrammar.Points
