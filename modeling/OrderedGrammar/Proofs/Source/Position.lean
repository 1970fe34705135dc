import Mathlib
import OrderedGrammar.Source.Position

/-!
Lines and columns of offsets. What stands before an offset falls into the lines before its own, each
with its line feed, and the part of its own line (`take_eq_append_lineHead`): the line is told by
the first part and the column by the second (`locates_of`).
-/

namespace OrderedGrammar.Position

/-- The line and column of an offset: the lines before its own hold all line feeds that stand before
it, and the column counts what stands before it on its own line. -/
def Locates (src : List Char) (offset : Nat) (p : Position) : Prop :=
  ∃ before head, src.take offset = before ++ head ∧ '\n' ∉ head ∧
    (before = [] ∨ before.getLast? = some '\n') ∧
    p.line = before.count '\n' + 1 ∧ p.column = head.length + 1

variable {src : List Char} {offset : Nat}

theorem lineFeed_notMem_lineHead : '\n' ∉ lineHead src offset := by
  intro h
  have := List.mem_takeWhile_imp (List.mem_reverse.mp h)
  simp at this

/-- The lines before that of an offset. -/
def linesBefore (src : List Char) (offset : Nat) : List Char :=
  ((src.take offset).reverse.dropWhile (· ≠ '\n')).reverse

theorem take_eq_append_lineHead :
    src.take offset = linesBefore src offset ++ lineHead src offset := by
  rw [linesBefore, lineHead, ← List.reverse_append, List.takeWhile_append_dropWhile,
    List.reverse_reverse]

theorem length_linesBefore : (linesBefore src offset).length = lineStart src offset := by
  rw [lineStart, take_eq_append_lineHead, List.length_append, Nat.add_sub_cancel]

/-- A line opens with the text, or after a line feed. -/
theorem linesBefore_ends :
    linesBefore src offset = [] ∨ (linesBefore src offset).getLast? = some '\n' := by
  unfold linesBefore
  rw [List.reverse_eq_nil_iff, List.getLast?_reverse]
  cases h : (src.take offset).reverse.dropWhile (· ≠ '\n') with
  | nil => exact Or.inl rfl
  | cons c rest =>
    have := List.head?_dropWhile_not (· ≠ '\n') (src.take offset).reverse
    rw [h] at this
    exact Or.inr (by simpa using this)

/-- The position of an offset in a text is its line and column. -/
theorem locates_of {src : String} (h : offset ≤ src.length) :
    Locates src.toList offset (of src offset) := by
  have cut : src.toList.take offset = linesBefore src.toList offset ++ lineHead src.toList offset :=
    take_eq_append_lineHead
  refine ⟨_, _, cut, lineFeed_notMem_lineHead, linesBefore_ends, ?_, ?_⟩
  · have head : (lineHead src.toList offset).count '\n' = 0 :=
      List.count_eq_zero.mpr lineFeed_notMem_lineHead
    simp only [of]
    rw [cut, List.count_append, head]
  · have lengths := congrArg List.length cut
    rw [List.length_append, length_linesBefore, List.length_take, String.length_toList] at lengths
    simp only [of]
    omega

/-- A position is written with a colon. -/
theorem colon_mem_render (p : Position) : ':' ∈ p.render.toList := by
  have colon : ':' ∈ (toString ":").toList := by
    change ':' ∈ ":".toList
    simp
  simp only [render, String.toList_append, List.mem_append]
  exact Or.inl (Or.inr colon)

end OrderedGrammar.Position
