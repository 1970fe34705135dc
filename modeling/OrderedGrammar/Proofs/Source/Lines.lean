import OrderedGrammar.Proofs.Source.Position

/-!
Lines of a source and the positions that point into them. The lines are what the source splits into
at its line feeds. The lines before that of an offset come first (`splitOn_eq`), so the number of a
position picks its line and the column counts on from where that line begins (`positions_exact`).
-/

namespace OrderedGrammar.Position

/-! ### Splitting at line feeds -/

/-- A text splits into one line more than it has line feeds. -/
theorem length_splitOn (s : List Char) : (s.splitOn '\n').length = s.count '\n' + 1 := by
  induction s with
  | nil => rfl
  | cons c s ih =>
    rw [List.splitOn_cons_eq_if_modifyHead]
    by_cases feed : c = '\n'
    · rw [if_pos (beq_iff_eq.mpr feed), List.length_cons, ih, feed, List.count_cons_self]
    · rw [if_neg (by simpa using feed), List.length_modifyHead, ih, List.count_cons_of_ne feed]

/-- The characters of some lines, each with its line feed. -/
def extent (lines : List (List Char)) : Nat := (lines.map fun line => line.length + 1).sum

/-- With a line feed behind it a text is as long as its lines with theirs. -/
theorem extent_splitOn (s : List Char) : extent (s.splitOn '\n') = s.length + 1 := by
  induction s with
  | nil => rfl
  | cons c s ih =>
    rw [List.splitOn_cons_eq_if_modifyHead]
    split
    · rw [extent, List.map_cons, List.sum_cons, ← extent, ih, List.length_cons]
      simp [Nat.add_comm]
    · obtain ⟨line, more, split⟩ := List.exists_cons_of_ne_nil (List.splitOn_ne_nil '\n' s)
      rw [split] at ih ⊢
      simp only [extent, List.modifyHead_cons, List.map_cons, List.sum_cons, List.length_cons]
        at ih ⊢
      omega

/-- Where line number `n` begins, counted from one. -/
def lineOffset (src : List Char) (n : Nat) : Nat := extent ((src.splitOn '\n').take (n - 1))

/-! ### The line of an offset -/

variable {src : List Char} {offset : Nat}

/-- The lines before that of an offset are as many as the line feeds in them, and they take up what
stands before the line. -/
theorem exists_lines_before (src : List Char) (offset : Nat) :
    ∃ lines, lines.length = (linesBefore src offset).count '\n' ∧
      extent lines = lineStart src offset ∧
      ∀ rest, (linesBefore src offset ++ rest).splitOn '\n' = lines ++ rest.splitOn '\n' := by
  have start : (linesBefore src offset).length = lineStart src offset := length_linesBefore
  have ends : linesBefore src offset = [] ∨ (linesBefore src offset).getLast? = some '\n' :=
    linesBefore_ends
  rcases ends with none | feed
  · rw [none] at start ⊢
    exact ⟨[], rfl, start, fun _ => rfl⟩
  · obtain ⟨before, closed⟩ := List.getLast?_eq_some_iff.mp feed
    rw [closed, List.length_append, List.length_singleton, ← extent_splitOn] at start
    refine ⟨before.splitOn '\n', ?_, start, fun rest => ?_⟩
    · rw [closed, List.count_append, length_splitOn]
      rfl
    · rw [closed, List.append_assoc, List.singleton_append, List.splitOn_append_cons_self]

/-- The text of the line that holds an offset. -/
def lineText (src : List Char) (offset : Nat) : List Char :=
  lineHead src offset ++ lineTail src offset

theorem lineFeed_notMem_lineText : '\n' ∉ lineText src offset := by
  intro h
  rcases List.mem_append.mp h with h | h
  · exact lineFeed_notMem_lineHead h
  · have := List.mem_takeWhile_imp h
    simp at this

/-- Behind its head and its tail a line has ended. -/
theorem splitOn_line (src : List Char) (offset : Nat) : ∃ more,
    (lineHead src offset ++ src.drop offset).splitOn '\n' = lineText src offset :: more := by
  have cut : lineHead src offset ++ src.drop offset =
      lineText src offset ++ (src.drop offset).dropWhile (· ≠ '\n') := by
    rw [lineText, lineTail, List.append_assoc, List.takeWhile_append_dropWhile]
  rw [cut]
  cases after : (src.drop offset).dropWhile (· ≠ '\n') with
  | nil => exact ⟨[], by rw [List.append_nil, List.splitOn_eq_singleton lineFeed_notMem_lineText]⟩
  | cons c rest =>
    have ends := List.head?_dropWhile_not (· ≠ '\n') (src.drop offset)
    rw [after] at ends
    obtain rfl : c = '\n' := by simpa using ends
    exact ⟨_, List.splitOn_append_cons_self_of_not_mem lineFeed_notMem_lineText rest⟩

/-- The lines of a source are those before the line of an offset, this line, and others. -/
theorem splitOn_eq (src : List Char) (offset : Nat) :
    ∃ lines more, lines.length = (src.take offset).count '\n' ∧
      extent lines = lineStart src offset ∧
      src.splitOn '\n' = lines ++ lineText src offset :: more := by
  obtain ⟨lines, number, start, split⟩ := exists_lines_before src offset
  obtain ⟨more, line⟩ := splitOn_line src offset
  have whole : src = linesBefore src offset ++ (lineHead src offset ++ src.drop offset) := by
    rw [← List.append_assoc, ← take_eq_append_lineHead, List.take_append_drop]
  refine ⟨lines, more, ?_, start, ?_⟩
  · have head : (lineHead src offset).count '\n' = 0 :=
      List.count_eq_zero.mpr lineFeed_notMem_lineHead
    rw [take_eq_append_lineHead, List.count_append, head, number, Nat.add_zero]
  · conv_lhs => rw [whole]
    rw [split, line]

theorem lineStart_le (src : List Char) (offset : Nat) : lineStart src offset ≤ offset :=
  Nat.le_trans (Nat.sub_le _ _) (List.length_take_le _ _)

/-- The line that holds an offset begins where the head of the line does. -/
theorem lineOffset_eq (src : String) (offset : Nat) :
    lineOffset src.toList (of src offset).line = lineStart src.toList offset := by
  obtain ⟨lines, more, number, start, split⟩ := splitOn_eq src.toList offset
  have before : (of src offset).line - 1 = lines.length := number.symm
  rw [lineOffset, split, before, List.take_left, start]

/-- The position of an offset picks its line, and its column counts on from there. -/
theorem offset_eq (src : String) (offset : Nat) :
    offset = lineOffset src.toList (of src offset).line + ((of src offset).column - 1) := by
  have inside := lineStart_le src.toList offset
  rw [lineOffset_eq]
  simp only [of]
  omega

theorem line_of (src : String) (offset : Nat) :
    (src.toList.splitOn '\n')[(of src offset).line - 1]? = some (lineText src.toList offset) := by
  obtain ⟨lines, more, number, -, split⟩ := splitOn_eq src.toList offset
  have before : (of src offset).line - 1 = lines.length := number.symm
  rw [split, before, List.getElem?_append_right (Nat.le_refl _), Nat.sub_self]
  rfl

theorem counted_from_one (src : String) (offset : Nat) :
    1 ≤ (of src offset).line ∧ 1 ≤ (of src offset).column :=
  ⟨Nat.succ_pos _, Nat.succ_pos _⟩

/-- Later offsets have later positions: on a later line, or further on in the same one. -/
theorem of_lt_of {src : String} {p q : Nat} (h : p < q) :
    toLex ((of src p).line, (of src p).column) < toLex ((of src q).line, (of src q).column) := by
  have lines : (of src p).line ≤ (of src q).line :=
    Nat.succ_le_succ ((List.take_sublist_take_left (Nat.le_of_lt h)).count_le '\n')
  rw [Prod.Lex.toLex_lt_toLex]
  refine (Nat.lt_or_eq_of_le lines).imp_right fun same => ⟨same, ?_⟩
  have hp := offset_eq src p
  have hq := offset_eq src q
  have columns : 1 ≤ (of src p).column ∧ 1 ≤ (of src q).column :=
    ⟨(counted_from_one src p).2, (counted_from_one src q).2⟩
  simp only at same ⊢
  rw [same] at hp
  omega

/-- Below the line a caret stands under the column. -/
theorem toList_caretSnippet (src : String) (offset : Nat) : (caretSnippet src offset).toList =
    lineText src.toList offset ++
      '\n' :: (List.replicate ((of src offset).column - 1) ' ' ++ ['^']) := by
  rw [caretSnippet, String.toList_ofList]
  simp [lineText, of]

/-- A snippet is two lines. -/
theorem splitOn_caretSnippet (src : String) (offset : Nat) :
    (caretSnippet src offset).toList.splitOn '\n' =
      [lineText src.toList offset, List.replicate ((of src offset).column - 1) ' ' ++ ['^']] := by
  rw [toList_caretSnippet, List.splitOn_append_cons_self_of_not_mem lineFeed_notMem_lineText,
    List.splitOn_eq_singleton (by simp)]

/-- The character at an offset stands in its line above the caret, unless it ends the line. -/
theorem lineText_getElem? {src : String} {c : Char} (here : src.toList[offset]? = some c)
    (inLine : c ≠ '\n') :
    (lineText src.toList offset)[(of src offset).column - 1]? = some c := by
  have inside : offset < src.toList.length := (List.getElem?_eq_some_iff.mp here).1
  have column : (of src offset).column - 1 = (lineHead src.toList offset).length := by
    have cut : src.toList.take offset =
        linesBefore src.toList offset ++ lineHead src.toList offset := take_eq_append_lineHead
    have lengths := congrArg List.length cut
    rw [List.length_append, length_linesBefore, List.length_take] at lengths
    simp only [of]
    omega
  have tail : (lineTail src.toList offset).head? = some c := by
    rw [← List.head?_drop] at here
    obtain ⟨rest, left⟩ := List.head?_eq_some_iff.mp here
    rw [lineTail, left, List.takeWhile_cons_of_pos (by simpa using inLine), List.head?_cons]
  rw [column, lineText, List.getElem?_append_right (Nat.le_refl _), Nat.sub_self,
    ← List.head?_eq_getElem?, tail]

/-- Positions tell offsets exactly, beyond the end of the source too. Later offsets have later
positions; lines and columns are counted from one; the line of a position is the one of that number
among the lines of the source, and the offset is as far behind its beginning as the column says. A
snippet is two lines, this one and a caret under the column, so that the character at the offset
stands above the caret unless it is a line feed. -/
theorem positions_exact (src : String) :
    (∀ p q, p < q → toLex ((of src p).line, (of src p).column) <
      toLex ((of src q).line, (of src q).column)) ∧
    ∀ p, (1 ≤ (of src p).line ∧ 1 ≤ (of src p).column) ∧
      p = lineOffset src.toList (of src p).line + ((of src p).column - 1) ∧
      (caretSnippet src p).toList.count '\n' = 1 ∧
      ∃ text, (src.toList.splitOn '\n')[(of src p).line - 1]? = some text ∧
        (caretSnippet src p).toList.splitOn '\n' =
          [text, List.replicate ((of src p).column - 1) ' ' ++ ['^']] ∧
        ∀ c, src.toList[p]? = some c → c ≠ '\n' → text[(of src p).column - 1]? = some c := by
  refine ⟨fun p q => of_lt_of, fun p => ?_⟩
  have snippet := splitOn_caretSnippet src p
  refine ⟨counted_from_one src p, offset_eq src p, ?_, _, line_of src p, snippet,
    fun _ => lineText_getElem?⟩
  have feeds := length_splitOn (caretSnippet src p).toList
  rw [snippet] at feeds
  exact (Nat.succ.inj feeds).symm

end OrderedGrammar.Position
