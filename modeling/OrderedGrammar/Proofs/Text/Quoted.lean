import Mathlib
import OrderedGrammar.Text.Quoted

/-!
Texts in quotes are told apart, and none breaks a line. Each character can be read back from how it
is written, whatever comes after it (`readChar_encodeChar`), so the marks and what stands between
them determine the text (`quoted_inj`). A line feed is always written as an escape
(`lineFeed_notMem_quoted`).
-/

namespace OrderedGrammar.Text

/-! ### Hexadecimal digits -/

/-- The number that hexadecimal digits stand for. -/
def hexValue (s : List Char) : Nat :=
  s.foldl (fun n c => 16 * n + "0123456789abcdef".toList.idxOf c) 0

theorem idxOf_digitChar (n : Nat) (h : n < 16) :
    "0123456789abcdef".toList.idxOf n.digitChar = n := by
  have digits : ∀ n < 16, "0123456789abcdef".toList.idxOf n.digitChar = n := by decide
  exact digits n h

theorem hexValue_hexDigits (width n : Nat) : hexValue (hexDigits width n) = n % 16 ^ width := by
  induction width generalizing n with
  | zero => simp [hexDigits, hexValue, Nat.mod_one]
  | succ width ih =>
    rw [hexDigits, hexValue, List.foldl_append, ← hexValue, ih]
    simp only [List.foldl_cons, List.foldl_nil]
    rw [idxOf_digitChar _ (Nat.mod_lt _ (by decide)), Nat.pow_succ', Nat.mod_mul]
    exact Nat.add_comm _ _

theorem digitChar_of_mem_hexDigits {width n : Nat} {c : Char} (h : c ∈ hexDigits width n) :
    ∃ d < 16, c = Nat.digitChar d := by
  induction width generalizing n with
  | zero => cases h
  | succ width ih =>
    rcases List.mem_append.mp h with h | h
    · exact ih h
    · exact ⟨n % 16, Nat.mod_lt _ (by decide), List.mem_singleton.mp h⟩

namespace Quoted

/-! ### Characters -/

/-- A code point in hexadecimal digits, and what is left after them. -/
def readCode (width : Nat) (s : List Char) : Char × List Char :=
  (Char.ofNat (hexValue (s.take width)), s.drop width)

/-- The character that is written first, and what is left after it. -/
def readChar : List Char → Option (Char × List Char)
  | '\\' :: 'x' :: s => some (readCode 2 s)
  | '\\' :: 'u' :: s => some (readCode 4 s)
  | '\\' :: 'U' :: s => some (readCode 8 s)
  | '\\' :: 'n' :: s => some ('\n', s)
  | '\\' :: 'r' :: s => some ('\r', s)
  | '\\' :: 't' :: s => some ('\t', s)
  | '\\' :: c :: s => some (c, s)
  | c :: s => some (c, s)
  | [] => none

theorem readCode_hexDigits {width : Nat} {c : Char} (h : c.toNat < 16 ^ width) (s : List Char) :
    readCode width (hexDigits width c.toNat ++ s) = (c, s) := by
  rw [readCode, List.take_left' (length_hexDigits _ _), List.drop_left' (length_hexDigits _ _),
    hexValue_hexDigits, Nat.mod_eq_of_lt h, Char.ofNat_toNat]

theorem readChar_encodeCode (c : Char) (s : List Char) :
    readChar (encodeCode c.toNat ++ s) = some (c, s) := by
  have valid : c.toNat < 16 ^ 8 := c.val.toNat_lt
  unfold encodeCode
  split_ifs with two four
  · exact congrArg some (readCode_hexDigits two s)
  · exact congrArg some (readCode_hexDigits four s)
  · exact congrArg some (readCode_hexDigits valid s)

theorem readChar_plain {c : Char} (plain : c ≠ '\\') (s : List Char) :
    readChar (c :: s) = some (c, s) := by
  unfold readChar
  split <;> simp_all

/-- A mark of quotes. -/
def IsMark (q : Char) : Prop := q = '\'' ∨ q = '"'

theorem isMark_mark (text : List Char) : IsMark (mark text) := by
  unfold mark
  split_ifs
  · exact Or.inr rfl
  · exact Or.inl rfl

/-- A character is read back from how it is written, whatever comes after it. -/
theorem readChar_encodeChar {q : Char} (hq : IsMark q) (c : Char) (s : List Char) :
    readChar (encodeChar q c ++ s) = some (c, s) := by
  unfold encodeChar
  split_ifs with escaped feed returns tab printable
  · rcases escaped with rfl | rfl
    · rcases hq with rfl | rfl <;> rfl
    · rfl
  · rw [feed]; rfl
  · rw [returns]; rfl
  · rw [tab]; rfl
  · have plain : c ≠ '\\' := fun backslash => escaped (Or.inr backslash)
    exact readChar_plain plain s
  · exact readChar_encodeCode c s

/-- No character is written with a line feed. -/
theorem lineFeed_notMem_encodeChar {q : Char} (hq : IsMark q) (c : Char) :
    '\n' ∉ encodeChar q c := by
  have code (width n : Nat) : '\n' ∉ hexDigits width n := fun h => by
    obtain ⟨d, hd, feed⟩ := digitChar_of_mem_hexDigits h
    have digits : ∀ d < 16, '\n' ≠ Nat.digitChar d := by decide
    exact digits d hd feed
  unfold encodeChar encodeCode
  split_ifs with escaped feed returns tab printable two four
  · rcases escaped with rfl | rfl
    · rcases hq with rfl | rfl <;> decide
    · decide
  · decide
  · decide
  · decide
  · simpa using Ne.symm feed
  · simpa using code 2 c.toNat
  · simpa using code 4 c.toNat
  · simpa using code 8 c.toNat

/-! ### Texts -/

theorem flatMap_encodeChar_inj {q : Char} (hq : IsMark q) {s t : List Char}
    (h : s.flatMap (encodeChar q) = t.flatMap (encodeChar q)) : s = t := by
  induction s generalizing t with
  | nil =>
    cases t with
    | nil => rfl
    | cons d t =>
      have read := readChar_encodeChar hq d (t.flatMap (encodeChar q))
      rw [← List.flatMap_cons, ← h] at read
      cases read
  | cons c s ih =>
    have read := readChar_encodeChar hq c (s.flatMap (encodeChar q))
    rw [← List.flatMap_cons, h] at read
    cases t with
    | nil => cases read
    | cons d t =>
      rw [List.flatMap_cons, readChar_encodeChar hq] at read
      obtain ⟨same, others⟩ := Prod.mk.inj (Option.some.inj read)
      rw [same, ih others.symm]

theorem encode_inj {s t : List Char} (h : encode s = encode t) : s = t := by
  simp only [encode, List.cons_append] at h
  obtain ⟨marks, between⟩ := List.cons.inj h
  rw [marks] at between
  exact flatMap_encodeChar_inj (isMark_mark t) (List.append_cancel_right between)

theorem lineFeed_notMem_encode (s : List Char) : '\n' ∉ encode s := by
  have hq := isMark_mark s
  have mark : '\n' ≠ mark s := by rcases hq with h | h <;> rw [h] <;> decide
  simp only [encode, List.cons_append, List.mem_cons, List.mem_append, List.mem_flatMap,
    List.not_mem_nil, or_false, not_or]
  refine ⟨mark, ?_, mark⟩
  rintro ⟨c, -, feed⟩
  exact lineFeed_notMem_encodeChar hq c feed

end Quoted

/-- Different texts are different in quotes. -/
theorem quoted_inj {s t : String} : quoted s = quoted t ↔ s = t := by
  refine ⟨fun h => ?_, congrArg quoted⟩
  exact String.toList_inj.mp (Quoted.encode_inj (String.ofList_injective h))

/-- A text in quotes stays on its line. -/
theorem lineFeed_notMem_quoted (s : String) : '\n' ∉ (quoted s).toList := by
  rw [quoted, String.toList_ofList]
  exact Quoted.lineFeed_notMem_encode _

end OrderedGrammar.Text
