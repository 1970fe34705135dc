import OrderedGrammar.Matching.Entry
import OrderedGrammar.Points.Grammar
import OrderedGrammar.Proofs.Matching.Depth
import OrderedGrammar.Proofs.Pattern.Lawful
import OrderedGrammar.Proofs.Source.Position

/-!
The three ways to match a text from the entry rule of a grammar. They end in the same errors, and in
the same tree if it is the tree of the whole text. Otherwise a required match is told to be missing
at a place (`requireMatch_eq_mismatch`), which is where the text goes on and so lies in the text
unless there is none (`pos_lt_of_mismatch`).
-/

namespace OrderedGrammar

/-- Requiring a match of the whole text. -/
theorem requireMatch_of_parse [Regex] {g : Grammar} {text : Text} {root : Tree}
    (h : g.parse text = .ok (some root)) :
    g.requireMatch text =
      if root.stop = text.size then .ok root else .error (.mismatch ⟨g.entry, root.stop⟩) := by
  rw [Grammar.requireMatch, h]
  simp only [Tree.isComplete, beq_iff_eq]

namespace Grammar

variable [Regex] {g : Grammar} {text : Text} {e : EvalError} {m : Mismatch}

theorem parseComplete_eq_error : g.parseComplete text = .error e ↔ g.parse text = .error e := by
  unfold parseComplete
  cases g.parse text with
  | error e' => exact Iff.rfl
  | ok found => simp [bind, Except.bind, pure, Except.pure]

theorem requireMatch_eq_evaluation :
    g.requireMatch text = .error (.evaluation e) ↔ g.parse text = .error e := by
  unfold requireMatch
  rcases g.parse text with e' | _ | t
  · simp
  · simp
  · dsimp only
    split <;> simp

theorem parseComplete_of_parse {t : Tree} (h : g.parse text = .ok (some t)) :
    g.parseComplete text = .ok (if t.stop = text.size then some t else none) := by
  rw [parseComplete, h]
  simp only [bind, Except.bind, pure, Except.pure, Option.filter, Tree.isComplete, beq_iff_eq]

theorem parseComplete_of_none (h : g.parse text = .ok none) : g.parseComplete text = .ok none := by
  rw [parseComplete, h]
  rfl

theorem requireMatch_of_none (h : g.parse text = .ok none) :
    g.requireMatch text = .error (.mismatch ⟨g.entry, 0⟩) := by
  rw [requireMatch, h]

variable [LawfulRegex]

/-- A parse never goes beyond the text. -/
theorem stop_le_of_parse {t : Tree} (h : g.parse text = .ok (some t)) : t.stop ≤ text.size := by
  obtain ⟨-, -, hstop⟩ := Matching.evaluate_bounds (g := g) h
  rwa [Nat.max_eq_right (Nat.zero_le _)] at hstop

/-- A required match is missing where nothing matches, or after a match that leaves some of the
text. -/
theorem requireMatch_eq_mismatch : g.requireMatch text = .error (.mismatch m) ↔
    g.parse text = .ok none ∧ m = ⟨g.entry, 0⟩ ∨
      ∃ t, g.parse text = .ok (some t) ∧ t.stop < text.size ∧ m = ⟨g.entry, t.stop⟩ := by
  rcases hp : g.parse text with e | _ | t
  · rw [requireMatch_eq_evaluation.mpr hp]
    simp
  · rw [requireMatch_of_none hp]
    simp [eq_comm]
  · have inside := stop_le_of_parse hp
    rw [requireMatch_of_parse hp]
    split
    · next whole => simp [whole]
    · next short => simp [Nat.lt_of_le_of_ne inside short, eq_comm]

theorem entry_of_mismatch (h : g.requireMatch text = .error (.mismatch m)) : m.entry = g.entry := by
  obtain ⟨-, rfl⟩ | ⟨t, -, -, rfl⟩ := requireMatch_eq_mismatch.mp h <;> rfl

/-- The place of a mismatch is in the text, unless the text is empty. -/
theorem pos_lt_of_mismatch (h : g.requireMatch text = .error (.mismatch m)) (pos : 0 < text.size) :
    m.pos < text.size := by
  obtain ⟨-, rfl⟩ | ⟨t, -, short, rfl⟩ := requireMatch_eq_mismatch.mp h
  · exact pos
  · exact short

end Grammar

/-! ### What is said of a mismatch -/

namespace Mismatch

variable {src : String} {m : Mismatch}

/-- In the text a mismatch is told by line and column, and it is not said to be at the end. -/
theorem place_of_lt (h : m.pos < src.length) :
    m.place src ≠ "EOF" ∧ ∃ c p, src.toList[m.pos]? = some c ∧
      Position.Locates src.toList m.pos p ∧ m.place src = s!"{p.line}:{p.column}" := by
  have shown : m.place src = (Position.of src m.pos).render := if_neg (Nat.not_le.mpr h)
  constructor
  · intro eof
    have colon := (Position.of src m.pos).colon_mem_render
    rw [← shown, eof] at colon
    simp at colon
  · have inside : m.pos < src.toList.length := h
    exact ⟨src.toList[m.pos], Position.of src m.pos, List.getElem?_eq_getElem inside,
      Position.locates_of (Nat.le_of_lt h), shown⟩

end Mismatch

namespace Grammar

/-- The entry points agree. Whatever error a parse ends in, all three end in it. A tree that ends
with the text is given by all three. Otherwise there is no complete match, and a required match is
missing at the start of the text if nothing matched, and else at the first character that was not
taken. The message about it names the end of the text just if the text is empty, and otherwise the
line and column of the character at that place. -/
theorem entry_points_agree [Regex] [LawfulRegex] (g : Grammar) (src : String) :
    (∀ e, g.parse (.ofString src) = .error e → g.parseComplete (.ofString src) = .error e ∧
      g.requireMatch (.ofString src) = .error (.evaluation e)) ∧
    (∀ t, g.parse (.ofString src) = .ok (some t) → t.last = (src.length : Int) - 1 →
      g.parseComplete (.ofString src) = .ok (some t) ∧ g.requireMatch (.ofString src) = .ok t) ∧
    (g.parse (.ofString src) = .ok none → g.parseComplete (.ofString src) = .ok none ∧
      g.requireMatch (.ofString src) = .error (.mismatch ⟨g.entry, 0⟩)) ∧
    (∀ t, g.parse (.ofString src) = .ok (some t) → t.last ≠ (src.length : Int) - 1 →
      g.parseComplete (.ofString src) = .ok none ∧ ∃ pos : Nat, (pos : Int) = t.last + 1 ∧
        g.requireMatch (.ofString src) = .error (.mismatch ⟨g.entry, pos⟩)) ∧
    ∀ m, g.requireMatch (.ofString src) = .error (.mismatch m) →
      m.message src = s!"Input does not match grammar '{g.entry}' (stopped at {m.place src})\n" ++
        caretSnippet src m.pos ∧
      (m.place src = "EOF" ↔ src = "") ∧
      (src ≠ "" → m.pos < src.length ∧ ∃ c p, src.toList[m.pos]? = some c ∧
        Position.Locates src.toList m.pos p ∧ m.place src = s!"{p.line}:{p.column}") := by
  have size : (Text.ofString src).size = src.length := rfl
  refine ⟨?errors, ?whole, ?nothing, ?rest, ?told⟩
  case errors =>
    intro e h
    exact ⟨parseComplete_eq_error.mpr h, requireMatch_eq_evaluation.mpr h⟩
  case whole =>
    intro t h last
    have whole : t.stop = (Text.ofString src).size := by
      unfold Tree.last at last
      omega
    rw [parseComplete_of_parse h, requireMatch_of_parse h, if_pos whole, if_pos whole]
    exact ⟨rfl, rfl⟩
  case nothing => exact fun h => ⟨parseComplete_of_none h, requireMatch_of_none h⟩
  case rest =>
    intro t h last
    have short : t.stop ≠ (Text.ofString src).size := by
      unfold Tree.last at last
      omega
    rw [parseComplete_of_parse h, requireMatch_of_parse h, if_neg short, if_neg short]
    exact ⟨rfl, t.stop, by unfold Tree.last; omega, rfl⟩
  case told =>
    intro m h
    refine ⟨by rw [← entry_of_mismatch h]; rfl, ?_⟩
    by_cases empty : src = ""
    · subst empty
      simp [Mismatch.place]
    · have inside : m.pos < src.length := by
        refine pos_lt_of_mismatch h (Nat.pos_of_ne_zero fun hs => empty ?_)
        exact String.length_eq_zero_iff.mp hs
      obtain ⟨notEnd, position⟩ := Mismatch.place_of_lt inside
      exact ⟨⟨fun eof => absurd eof notEnd, fun hs => absurd hs empty⟩, fun _ => ⟨inside, position⟩⟩

/-- Behind a point there is no comma, so the comma is where a required match is missing. -/
theorem comma_behind_point_mismatch :
    Points.grammar.requireMatch (.ofString "1 2,") = .error (.mismatch ⟨"list_of_points", 3⟩) ∧
      "1 2," ≠ "" ∧ ∃ c p, "1 2,".toList[3]? = some c ∧ Position.Locates "1 2,".toList 3 p ∧
        Mismatch.place ⟨"list_of_points", 3⟩ "1 2," = s!"{p.line}:{p.column}" := by
  have missing : Points.grammar.requireMatch (.ofString "1 2,") =
      .error (.mismatch ⟨"list_of_points", 3⟩) := by cbv
  have filled : "1 2," ≠ "" := by decide
  exact ⟨missing, filled,
    (((entry_points_agree Points.grammar "1 2,").2.2.2.2 _ missing).2.2 filled).2⟩

end Grammar

end OrderedGrammar
