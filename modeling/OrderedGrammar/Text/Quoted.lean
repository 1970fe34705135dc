import OrderedGrammar.Text.Class

/-!
Text shown between quote marks, on one line whatever it holds. The mark is a single quote unless the
text has single quotes and no double ones; the mark and the backslash are escaped, line feed, return
and tab have short escapes, and what cannot be printed is written by its code point in two, four or
eight hexadecimal digits.
-/

namespace OrderedGrammar.Text

/-- The digits of `n` in base sixteen, the last `width` of them. -/
def hexDigits : Nat → Nat → List Char
  | 0, _ => []
  | width + 1, n => hexDigits width (n / 16) ++ [Nat.digitChar (n % 16)]

@[simp] theorem length_hexDigits (width n : Nat) : (hexDigits width n).length = width := by
  induction width generalizing n with
  | zero => rfl
  | succ width ih => simp [hexDigits, ih]

namespace Quoted

/-- Double quotes are used only where they spare escapes. -/
def mark (text : List Char) : Char :=
  if text.contains '\'' && !text.contains '"' then '"' else '\''

/-- A code point written in the shortest of its three hexadecimal forms. -/
def encodeCode (code : Nat) : List Char :=
  if code < 0x100 then '\\' :: 'x' :: hexDigits 2 code
  else if code < 0x10000 then '\\' :: 'u' :: hexDigits 4 code
  else '\\' :: 'U' :: hexDigits 8 code

/-- How one character is written between marks `q`. -/
def encodeChar (q c : Char) : List Char :=
  if c = q ∨ c = '\\' then ['\\', c]
  else if c = '\n' then ['\\', 'n']
  else if c = '\r' then ['\\', 'r']
  else if c = '\t' then ['\\', 't']
  else if isPrintable c then [c]
  else encodeCode c.toNat

/-- The marks around the characters, each written by `encodeChar`. -/
def encode (text : List Char) : List Char :=
  let q := mark text
  q :: text.flatMap (encodeChar q) ++ [q]

end Quoted

/-- The text between quote marks. -/
def quoted (text : String) : String := String.ofList (Quoted.encode text.toList)

end OrderedGrammar.Text
