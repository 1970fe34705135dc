import OrderedGrammar.Regex.Basic
import OrderedGrammar.Text.Quoted

/-!
Terminals of a grammar: a pattern and its flags as they were written, together with what they
compile to. A terminal exists only if it compiles, so matching one cannot go wrong; two terminals
with the same pattern and flags are equal.
-/

namespace OrderedGrammar

/-- Why a pattern and its flags are no terminal. -/
inductive TerminalError
  | unsupportedFlag (flag : Char)
  | badPattern (pattern message : String)
  deriving DecidableEq

/-- The wording of the error. -/
def TerminalError.message : TerminalError → String
  | unsupportedFlag flag => "unsupported terminal flag " ++ Text.quoted flag.toString
  | badPattern _ message => message

/-- The options that flag letters stand for, or the first letter that stands for none. -/
def Pattern.Flags.ofLetters : List Char → Except Char Pattern.Flags
  | [] => .ok {}
  | c :: rest =>
    match Pattern.Flags.ofLetter? c with
    | some f => (Pattern.Flags.ofLetters rest).map f.union
    | none => .error c

variable [Regex]

/-- Flags are looked at before the pattern is compiled. -/
def Terminal.compile (pattern flags : String) : Except TerminalError Regex.Compiled :=
  match Pattern.Flags.ofLetters flags.toList with
  | .error c => .error (.unsupportedFlag c)
  | .ok f => (Regex.compile pattern f).mapError (.badPattern pattern)

/-- Without flags there are no options. -/
theorem Terminal.compile_noFlags (pattern : String) :
    Terminal.compile pattern "" = (Regex.compile pattern {}).mapError (.badPattern pattern) := by
  rw [Terminal.compile, String.toList_empty]
  rfl

/-- A pattern and its flags, and what they compile to. -/
structure Terminal where
  pattern : String
  flags : String
  compiled : Regex.Compiled
  compile_eq : Terminal.compile pattern flags = .ok compiled

namespace Terminal

/-- The terminal of a pattern and flags, if they compile. -/
def make (pattern flags : String) : Except TerminalError Terminal :=
  match h : compile pattern flags with
  | .ok compiled => .ok ⟨pattern, flags, compiled, h⟩
  | .error e => .error e

/-- The pattern of a terminal that stands for a fixed text. -/
def literalPattern (text : String) : String := String.ofList (Pattern.escape text.toList)

/-- The terminal that stands for a fixed text. -/
def literal (text : String) : Except TerminalError Terminal := make (literalPattern text) ""

/-- What was written decides what it compiles to. -/
theorem ext_written {a b : Terminal} (hp : a.pattern = b.pattern) (hf : a.flags = b.flags) :
    a = b := by
  obtain ⟨pa, fa, ca, ha⟩ := a
  obtain ⟨pb, fb, cb, hb⟩ := b
  simp only at hp hf
  subst hp hf
  have : ca = cb := Except.ok.inj (ha.symm.trans hb)
  subst this
  rfl

/-- Terminals are compared as they were written. -/
instance : DecidableEq Terminal := fun a b =>
  if h : a.pattern = b.pattern ∧ a.flags = b.flags then isTrue (ext_written h.1 h.2)
  else isFalse fun e => h (e ▸ ⟨rfl, rfl⟩)

/-- The text that a match of the terminal takes at an offset. -/
def matched? (t : Terminal) (text : Text) (offset : Nat) : Option String :=
  Regex.matched? t.compiled text offset

end Terminal

end OrderedGrammar
