/-!
Line ends of files. A carriage return, alone or before a line feed, is one line end, and every line
end is kept as a single line feed, so a text holds no carriage return once it has been read.
-/

namespace OrderedGrammar.Source

/-- Every line end becomes one line feed. -/
def unifyLineEnds : List Char → List Char
  | '\r' :: '\n' :: rest => '\n' :: unifyLineEnds rest
  | '\r' :: rest => '\n' :: unifyLineEnds rest
  | c :: rest => c :: unifyLineEnds rest
  | [] => []

/-- No carriage return is left. -/
theorem not_mem_unifyLineEnds (s : List Char) : '\r' ∉ unifyLineEnds s := by
  fun_induction unifyLineEnds s with
  | case1 rest ih => simp [ih]
  | case2 rest _ ih => simp [ih]
  | case3 c rest _ h ih =>
    have hc : c ≠ '\r' := fun e => h e
    simp [ih, hc.symm]
  | case4 => simp

/-- A text without carriage returns stays as it is. -/
theorem unifyLineEnds_eq_self {s : List Char} (h : '\r' ∉ s) : unifyLineEnds s = s := by
  fun_induction unifyLineEnds s with
  | case1 rest ih => simp at h
  | case2 rest _ ih => simp at h
  | case3 c rest _ _ ih => rw [ih fun m => h (List.mem_cons_of_mem _ m)]
  | case4 => rfl

/-- Each carriage return with a line feed behind it becomes one line feed. -/
def replacePairs : List Char → List Char
  | '\r' :: '\n' :: rest => '\n' :: replacePairs rest
  | c :: rest => c :: replacePairs rest
  | [] => []

/-- Each carriage return becomes a line feed. -/
def replaceReturns (s : List Char) : List Char := s.map fun c => if c = '\r' then '\n' else c

/-- Line ends unified by two replacements. -/
def replaceLineEnds (s : List Char) : List Char := replaceReturns (replacePairs s)

/-- The text of a file: strict UTF-8 with its line ends unified, or nothing for malformed bytes. -/
def decodeText? (bytes : ByteArray) : Option String :=
  (String.fromUTF8? bytes).map fun s => String.ofList (unifyLineEnds s.toList)

end OrderedGrammar.Source
