import Mathlib
import OrderedGrammar.Notation.Token

/-!
How the parts of a grammar source are spelled. A gap is what may stand between tokens: blanks, and
comments that are complete. A token is a name, a regex with its flags, a quoted literal, or a single
mark. Each relation tells a text and what is left of it, and gaps, names and runs of flags are told
to their longest, so that there is at most one way to go on.
-/

namespace OrderedGrammar.Notation

open OrderedGrammar.Text Lexer

/-- A run of characters of a class ends where the text begins. -/
def EndsRun (p : Char → Bool) (s : List Char) : Prop := ∀ c ∈ s.head?, p c = false

/-! ### Gaps -/

/-- The text begins with a blank or opens a comment. -/
def opensGap : List Char → Bool
  | '/' :: '/' :: _ => true
  | '/' :: '*' :: _ => true
  | c :: _ => isGap c || c == '#'
  | [] => false

/-- What is left of a text after its first line; the line feed is left too. -/
def afterLine (s : List Char) : List Char := s.dropWhile (· != '\n')

/-- What is left of a text after the first end of a block comment. -/
inductive PastClose : List Char → List Char → Prop
  | close {r} : PastClose ('*' :: '/' :: r) r
  | skip {c s r} (hc : ¬ ['*', '/'] <+: c :: s) (h : PastClose s r) : PastClose (c :: s) r

/-- What is left of a text after a blank or a complete comment. -/
inductive Filler : List Char → List Char → Prop
  | blank {c s} (hc : isGap c) : Filler (c :: s) s
  | hashComment {s} : Filler ('#' :: s) (afterLine s)
  | slashComment {s} : Filler ('/' :: '/' :: s) (afterLine s)
  | blockComment {s r} (h : PastClose s r) : Filler ('/' :: '*' :: s) r

/-- What is left of a text after all the blanks and complete comments that it begins with. -/
inductive Gap : List Char → List Char → Prop
  | done {s} (h : opensGap s = false) : Gap s s
  | more {s t r} (h : Filler s t) (hr : Gap t r) : Gap s r

theorem PastClose.suffix {s r : List Char} (h : PastClose s r) : r <:+ s := by
  induction h with
  | close => exact ⟨['*', '/'], rfl⟩
  | skip _ _ ih => exact ih.trans (List.suffix_cons _ _)

theorem Filler.suffix {s r : List Char} (h : Filler s r) : r <:+ s := by
  cases h with
  | blank _ => exact List.suffix_cons _ _
  | hashComment => exact (List.dropWhile_suffix _).trans (List.suffix_cons _ _)
  | slashComment => exact (List.dropWhile_suffix _).trans ⟨['/', '/'], rfl⟩
  | blockComment h => exact h.suffix.trans ⟨['/', '*'], rfl⟩

theorem Filler.length_lt {s r : List Char} (h : Filler s r) : r.length < s.length := by
  have line (s : List Char) : (afterLine s).length ≤ s.length := List.length_dropWhile_le _ _
  cases h with
  | blank => exact Nat.lt_succ_self _
  | @hashComment s => exact Nat.lt_succ_of_le (line s)
  | @slashComment s => exact Nat.lt_succ_of_le (Nat.le_succ_of_le (line s))
  | blockComment h => exact Nat.lt_succ_of_le (Nat.le_succ_of_le h.suffix.length_le)

/-- What is left behind a gap is an end of the text. -/
theorem Gap.suffix {s r : List Char} (h : Gap s r) : r <:+ s := by
  induction h with
  | done => exact List.suffix_rfl
  | more h _ ih => exact ih.trans h.suffix

theorem Gap.length_le {s r : List Char} (h : Gap s r) : r.length ≤ s.length :=
  h.suffix.length_le

/-! ### Tokens -/

/-- The text of a regex. A backslash protects the character after it; slashes and line feeds stand
in it only where they are protected. -/
inductive RegexText : List Char → Prop
  | nil : RegexText []
  | plain {c s} (hc : c ≠ '\\' ∧ c ≠ '/' ∧ c ≠ '\n') (h : RegexText s) : RegexText (c :: s)
  | escaped {c s} (h : RegexText s) : RegexText ('\\' :: c :: s)

/-- How a text is spelled between quotes. -/
inductive Spelled (q : Char) : List Char → List Char → Prop
  | nil : Spelled q [] []
  | plain {c s t} (hc : c ≠ '\\' ∧ c ≠ q) (h : Spelled q s t) : Spelled q (c :: s) (c :: t)
  | escaped {c s t} (h : Spelled q s t) : Spelled q ('\\' :: c :: s) (unescape c :: t)

/-- A character that opens neither a gap nor a name, a regex or a literal. -/
def isMark (c : Char) : Bool :=
  !(isGap c || c == '#' || c == '/' || c == '\'' || c == '"' || opensName c)

/-- The text begins with a token, and what is left after it. Two slashes, and a slash with an
asterisk, open comments and never a regex. -/
inductive Begins : List Char → Lexeme → List Char → Prop
  | name {w r} (hw : isName w) (hr : EndsRun continuesName r) : Begins (w ++ r) (.name w) r
  | regex {pattern flags r} (hp : RegexText pattern)
    (opens : pattern ≠ [] ∧ pattern.head? ≠ some '*') (hf : flags.all isFlag)
    (hr : EndsRun isFlag r) :
    Begins ('/' :: (pattern ++ '/' :: (flags ++ r))) (.regex pattern flags) r
  | literal {q spelling text r} (hq : q = '\'' ∨ q = '"') (hs : Spelled q spelling text)
    (hne : text ≠ []) : Begins (q :: (spelling ++ q :: r)) (.literal text) r
  | mark {c r} (hc : isMark c) : Begins (c :: r) .mark r

theorem Begins.length_lt {s r : List Char} {l : Lexeme} (h : Begins s l r) :
    r.length < s.length := by
  cases h with
  | @name w _ hw _ =>
    cases w with
    | nil => simp [isName] at hw
    | cons c w => simp
  | regex => simp only [List.length_cons, List.length_append]; omega
  | literal => simp only [List.length_cons, List.length_append]; omega
  | mark => simp

theorem Begins.suffix {s r : List Char} {l : Lexeme} (h : Begins s l r) : r <:+ s := by
  cases h with
  | @name w => exact ⟨w, rfl⟩
  | @regex pattern flags => exact ⟨'/' :: (pattern ++ '/' :: flags), by simp⟩
  | @literal q spelling => exact ⟨q :: (spelling ++ [q]), by simp⟩
  | @mark c => exact ⟨[c], rfl⟩

end OrderedGrammar.Notation
