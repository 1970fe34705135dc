import OrderedGrammar.Points.Grammar
import OrderedGrammar.Proofs.Grammar.Shape
import OrderedGrammar.Proofs.Matching.Depth
import OrderedGrammar.Proofs.Pattern.Lawful

/-!
Matching does not depend on what stands before the place where it begins, if the terminals do not
look there. Put other characters before a text, and the validator comes to the same at the place
that has moved on by their number; in a tree that it gives all spans have moved on with it
(`matching_translates`). Terminals of fixed texts never look back (`ignoresBefore_ofText`).
-/

namespace OrderedGrammar

/-! ### Trees moved on -/

/-- The same node, so many characters later. -/
def NodeInfo.shift (n : Nat) (i : NodeInfo) : NodeInfo :=
  { i with start := n + i.start, stop := n + i.stop }

namespace Tree

open Matching

mutual

/-- The same tree, so many characters later. -/
def shift (n : Nat) : Tree → Tree
  | text i s => text (i.shift n) s
  | single i c => single (i.shift n) (shift n c)
  | list i cs => list (i.shift n) (shiftAll n cs)

/-- The same trees, so many characters later. -/
def shiftAll (n : Nat) : List Tree → List Tree
  | [] => []
  | t :: rest => shift n t :: shiftAll n rest

end

variable {n : Nat}

@[simp] theorem info_shift (t : Tree) : (t.shift n).info = t.info.shift n := by
  cases t <;> rfl

@[simp] theorem start_shift (t : Tree) : (t.shift n).start = n + t.start := by
  rw [start, info_shift]
  rfl

@[simp] theorem stop_shift (t : Tree) : (t.shift n).stop = n + t.stop := by
  rw [stop, info_shift]
  rfl

@[simp] theorem isRule_shift (t : Tree) : (t.shift n).isRule = t.isRule := by
  rw [isRule, info_shift]
  rfl

theorem shiftAll_eq_map (ts : List Tree) : shiftAll n ts = ts.map (shift n) := by
  induction ts with
  | nil => rfl
  | cons t rest ih => rw [shiftAll, ih, List.map_cons]

theorem shift_asRule (name : String) (t : Tree) :
    (t.asRule name).shift n = (t.shift n).asRule name := by
  unfold asRule
  rw [isRule_shift, start_shift, stop_shift]
  split
  · rfl
  · cases t <;> rfl

theorem stopAfter_map_shift (pos : Nat) (ts : List Tree) :
    stopAfter (n + pos) (ts.map (shift n)) = n + stopAfter pos ts := by
  induction ts generalizing pos with
  | nil => rfl
  | cons t rest ih => rw [List.map_cons, stopAfter_cons, stopAfter_cons, stop_shift, ih]

/-- Parts that are moved on are listed by a node that is moved on. -/
theorem shift_listNode (tag : String) (pos : Nat) (ts : List Tree) :
    (listNode tag pos ts).shift n = listNode tag (n + pos) (ts.map (shift n)) := by
  rw [listNode_eq, listNode_eq, stopAfter_map_shift, ← shiftAll_eq_map]
  rfl

end Tree

/-! ### Terminals that do not look back -/

/-- Whether the terminal matches in the text, and what it takes, depends on nothing but what the
text goes on with. -/
def Terminal.IgnoresBefore [Regex] (t : Terminal) : Prop :=
  ∃ taken : List Char → Option String, ∀ (text : Text) (pos : Nat), pos ≤ text.size →
    t.matched? text pos = taken (text.toList.drop pos)

/-- The terminal of a fixed text does not look back. -/
theorem Terminal.ignoresBefore_ofText [Regex] [LawfulRegex] (s : String) :
    (ofText s).IgnoresBefore :=
  ⟨fun rest => if s.toList <+: rest then some s else none, fun text pos _ =>
    matched?_ofText s text pos⟩

/-- Behind the characters before it a text goes on as it did. -/
theorem Text.drop_append (before text : Text) (pos : Nat) :
    (before ++ text).toList.drop (before.size + pos) = text.toList.drop pos := by
  rw [Array.toList_append, ← Array.length_toList, List.drop_length_add_append]

namespace Matching

section Moved

variable [Regex] [LawfulRegex] {g : Grammar} {before text : Text} {tag : String} {pos pos' : Nat}

/-! ### Two evaluations side by side -/

/-- A place of a text, and the place that it has behind other characters. -/
def Moved (before text : Text) (p p' : Nat) : Prop := p' = before.size + p ∧ p ≤ text.size

/-- A tree in a text, and the tree that it is behind other characters. -/
def MovedTree (before text : Text) (t u : Tree) : Prop :=
  u = t.shift before.size ∧ t.stop ≤ text.size

omit [Regex] [LawfulRegex] in
theorem moved_parts {ts us : List Tree} (related : List.Forall₂ (MovedTree before text) ts us)
    (inside : pos ≤ text.size) :
    us = ts.map (Tree.shift before.size) ∧ stopAfter pos ts ≤ text.size := by
  induction related generalizing pos with
  | nil => exact ⟨rfl, inside⟩
  | @cons t _ ts _ first _ ih =>
    obtain ⟨rfl, within⟩ := first
    obtain ⟨rfl, last⟩ := ih within
    exact ⟨rfl, by rwa [stopAfter_cons]⟩

omit [Regex] [LawfulRegex] in
theorem kept_moved (before text : Text) (tag : String) :
    KeptAlong (Moved before text) (MovedTree before text) tag tag where
  order := by
    rintro p _ q _ ⟨rfl, -⟩ ⟨rfl, -⟩
    exact Nat.add_le_add_iff_left.symm
  stop := by
    rintro t _ ⟨rfl, inside⟩
    exact ⟨Tree.stop_shift t, inside⟩
  list := by
    rintro p _ ⟨rfl, inside⟩ ts us related
    obtain ⟨rfl, last⟩ := moved_parts related inside
    exact ⟨(Tree.shift_listNode tag p ts).symm, last⟩

/-- A terminal that does not look back takes the same behind other characters. -/
theorem moved_terminal {t : Terminal} (h : t.IgnoresBefore) (here : Moved before text pos pos') :
    Option.Rel (MovedTree before text) (t.evaluate text pos tag)
      (t.evaluate (before ++ text) pos' tag) := by
  obtain ⟨taken, htaken⟩ := h
  obtain ⟨rfl, inside⟩ := here
  have there : before.size + pos ≤ (before ++ text).size := by
    rw [Array.size_append]
    exact Nat.add_le_add_left inside _
  rw [Terminal.evaluate, Terminal.evaluate, htaken _ _ there, Text.drop_append, htaken _ _ inside]
  cases hs : taken (text.toList.drop pos) with
  | none => exact .none
  | some s =>
    have within : s.length ≤ text.size - pos :=
      Terminal.length_matched?_le ((htaken _ _ inside).trans hs)
    refine .some ⟨?_, by simp only [Tree.stop_text]; omega⟩
    simp only [Tree.shift, NodeInfo.shift, Nat.add_assoc]

/-- As many rounds as there may be in a text are enough behind other characters. -/
theorem enough_rounds {depth : Nat} {v : Validator} (here : Moved before text pos pos') :
    iterate (fun p => evaluate g (before ++ text) depth v p tag) ((before ++ text).size + 1) pos' =
      iterate (fun p => evaluate g (before ++ text) depth v p tag) (text.size + 1) pos' := by
  obtain ⟨rfl, -⟩ := here
  refine iterate_fuel (bounded_evaluate depth v tag) (by omega) (by omega) (by omega) ?_
  rw [Array.size_append]
  omega

/-- Within every depth the two evaluations take the same course. -/
theorem agree_moved (hg : g.TerminalsAre Terminal.IgnoresBefore) (depth : Nat) {v : Validator}
    (hv : v.TerminalsAre Terminal.IgnoresBefore) (here : Moved before text pos pos') :
    AgreeUnless (fun _ => False) (Option.Rel (MovedTree before text))
      (evaluate g text depth v pos tag) (evaluate g (before ++ text) depth v pos' tag) := by
  induction depth generalizing v pos pos' tag with
  | zero => exact agreeUnless_error .depthExceeded
  | succ depth ih =>
    cases hv with
    | terminal h => exact agreeUnless_ok (moved_terminal (h _ rfl) here)
    | @ref name _ =>
      cases rule : g.rule? name with
      | none =>
        rw [evaluate_ref_of_none rule, evaluate_ref_of_none rule]
        exact agreeUnless_error _
      | some alternatives =>
        have listed := Grammar.mem_rules_of_rule? rule
        refine agreeUnless_ref rule (by rw [List.map_id']; exact rule) ?_
          fun v hv => ih (hg _ listed v hv) here
        rintro t _ ⟨rfl, inside⟩
        exact ⟨(Tree.shift_asRule name t).symm, by rwa [Tree.stop_asRule]⟩
    | @quantified inner arity _ hi =>
      exact agreeUnless_quantified_along (kept_moved before text tag) (fun p p' => ih hi)
        (fun q q' => enough_rounds) arity here
    | @sequence items _ hs =>
      exact agreeUnless_sequence_along (kept_moved before text tag)
        (fun v hv p p' => ih (hs v hv)) here
    | foreign _ => exact agreeUnless_error _

omit [Regex] [LawfulRegex] in
/-- What has moved is the outcome with its tree moved on. -/
theorem eq_map_of_agree {x y : Outcome} (h : Agree (Option.Rel (MovedTree before text)) x y) :
    y = x.map (·.map (Tree.shift before.size)) := by
  cases h with
  | error e => rfl
  | ok related =>
    cases related with
    | none => rfl
    | some moved => rw [moved.1]; rfl

/-- Whatever is put before a text, a validator comes to the same at every place of the text, moved
on: to no match, to the same error within the same depth, or to the tree that has moved on. This
holds of every grammar and validator whose terminals do not look back, and those of fixed texts
never do. -/
theorem matching_translates (g : Grammar) :
    (∀ s t, Terminal.literal s = .ok t → t.IgnoresBefore) ∧
    ∀ v : Validator, g.TerminalsAre Terminal.IgnoresBefore → v.TerminalsAre Terminal.IgnoresBefore →
      ∀ (before text : Text) (pos : Nat), pos ≤ text.size → ∀ depth tag,
        evaluate g (before ++ text) depth v (before.size + pos) tag =
          (evaluate g text depth v pos tag).map (·.map (Tree.shift before.size)) := by
  constructor
  · intro s t h
    rw [Terminal.literal_eq] at h
    cases h
    exact Terminal.ignoresBefore_ofText s
  · intro v hg hv before text pos inside depth tag
    exact eq_map_of_agree (agree_moved hg depth hv ⟨rfl, inside⟩ fun _ no => no.elim)

end Moved

/-- Rows of points between commas. -/
def dotList : Grammar :=
  ⟨"dots", [
    ("dots", [.sequence [.ref "row",
      .quantified (.sequence [Points.one .commaSign, .ref "row"]) .zeroOrMore]]),
    ("row", [.quantified (Points.one .decimalPoint) .oneOrMore])]⟩

theorem dotList_terminalsAre {P : Terminal → Prop} (comma : P Points.Symbol.commaSign.terminal)
    (point : P Points.Symbol.decimalPoint.terminal) : dotList.TerminalsAre P := by
  have row : (Validator.ref "row").TerminalsAre P := .ref (by rintro _ ⟨⟩)
  have next : (Validator.sequence [Points.one .commaSign, .ref "row"]).TerminalsAre P :=
    .sequence (by rintro _ ⟨⟩) (by simpa using ⟨.terminal (by rintro _ ⟨⟩; exact comma), row⟩)
  have dots : (Validator.sequence [.ref "row", .quantified
      (.sequence [Points.one .commaSign, .ref "row"]) .zeroOrMore]).TerminalsAre P :=
    .sequence (by rintro _ ⟨⟩) (by simpa using ⟨row, .quantified (by rintro _ ⟨⟩) next⟩)
  have points : (Validator.quantified (Points.one .decimalPoint) .oneOrMore).TerminalsAre P :=
    .quantified (by rintro _ ⟨⟩) (.terminal (by rintro _ ⟨⟩; exact point))
  simpa [Grammar.TerminalsAre, dotList] using ⟨dots, points⟩

/-- The tree of two rows behind a semicolon. -/
def twoRowsTree : Tree :=
  .list ⟨"dots", true, 1, 5⟩ [
    .list ⟨"row", true, 1, 3⟩ [.text ⟨"row", false, 1, 2⟩ ".", .text ⟨"row", false, 2, 3⟩ "."],
    .list ⟨"dots", false, 3, 5⟩ [
      .list ⟨"dots", false, 3, 5⟩ [
        .text ⟨"dots", false, 3, 4⟩ ",",
        .list ⟨"row", true, 4, 5⟩ [.text ⟨"row", false, 4, 5⟩ "."]]]]

/-- A comma and a point are terminals of fixed texts, so behind three other characters the rows are
found three places later. -/
theorem twoRows_translated :
    Terminal.literal "," = .ok Points.Symbol.commaSign.terminal ∧
    Terminal.literal "." = .ok Points.Symbol.decimalPoint.terminal ∧
    dotList.TerminalsAre Terminal.IgnoresBefore ∧
    (Validator.ref "dots").TerminalsAre Terminal.IgnoresBefore ∧
    1 ≤ (#[';', '.', '.', ',', '.'] : Text).size ∧
    evaluate dotList #[';', '.', '.', ',', '.'] 7 (.ref "dots") 1 "" = .ok (some twoRowsTree) ∧
    evaluate dotList (#['.', ',', '.'] ++ #[';', '.', '.', ',', '.']) 7 (.ref "dots") (3 + 1) "" =
      .ok (some (twoRowsTree.shift 3)) := by
  have comma : Terminal.literal "," = .ok Points.Symbol.commaSign.terminal :=
    Terminal.make_eq_ok.mpr ⟨by decide +kernel, rfl⟩
  have point : Terminal.literal "." = .ok Points.Symbol.decimalPoint.terminal :=
    Terminal.make_eq_ok.mpr ⟨by decide +kernel, rfl⟩
  have fixed := (matching_translates dotList).1
  have terminals : dotList.TerminalsAre Terminal.IgnoresBefore :=
    dotList_terminalsAre (fixed _ _ comma) (fixed _ _ point)
  have entry : (Validator.ref "dots").TerminalsAre Terminal.IgnoresBefore :=
    .ref (by rintro _ ⟨⟩)
  have inside : 1 ≤ (#[';', '.', '.', ',', '.'] : Text).size := by decide
  have matched : evaluate dotList #[';', '.', '.', ',', '.'] 7 (.ref "dots") 1 "" =
      .ok (some twoRowsTree) := by cbv
  have moved := (matching_translates dotList).2 _ terminals entry #['.', ',', '.'] _ 1 inside 7 ""
  rw [matched] at moved
  exact ⟨comma, point, terminals, entry, inside, matched, moved⟩

end Matching

end OrderedGrammar
