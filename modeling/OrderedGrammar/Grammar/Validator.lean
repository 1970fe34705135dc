import OrderedGrammar.Grammar.Terminal
import OrderedGrammar.Number.Shortest

/-!
Validators: what a rule of a grammar asks of the text. There are four kinds, terminals, references
to rules, quantified validators and sequences. A fifth constructor holds values that are none of
these; the combinators refuse them, but a sequence or quantifier built bare may hold one, which then
shows when it is evaluated.
-/

namespace OrderedGrammar

/-- A value that is no validator, kept as it was given. -/
inductive Foreign
  | text (s : String)
  | integer (n : Int)
  | real (x : Binary64)
  | truth (b : Bool)
  | nothing
  deriving DecidableEq

namespace Foreign

/-- How the value is shown in messages. -/
def render : Foreign → String
  | text s => Text.quoted s
  | integer n => toString n
  | real x => Shortest.render x
  | truth true => "True"
  | truth false => "False"
  | nothing => "None"

/-- The amount that a value stands for, as a quotient; truth values count as one and zero. Infinity
and the value that is no number have no amount. -/
def amount? : Foreign → Option (Int × Nat)
  | integer n => some (n, 1)
  | truth b => some (if b then 1 else 0, 1)
  | real x =>
    if x.isInfinite || x.isNaN then none
    else
      let (num, den) := x.magnitude
      some (if x.isNegative then -num else num, den)
  | _ => none

/-- Equality of values; numbers are compared by amount. -/
def agrees (a b : Foreign) : Bool :=
  match a.amount?, b.amount? with
  | some (m, p), some (n, q) => m * q == n * p
  | _, _ => a == b

end Foreign

/-- How often a quantified validator may match. -/
inductive Arity
  | zeroOrMore | oneOrMore | zeroOrOne
  deriving DecidableEq

namespace Arity

/-- Each arity has its sign. -/
def sign : Arity → Char
  | zeroOrMore => '*'
  | oneOrMore => '+'
  | zeroOrOne => '?'

/-- The arity with this sign. -/
def ofSign? : Char → Option Arity
  | '*' => some zeroOrMore
  | '+' => some oneOrMore
  | '?' => some zeroOrOne
  | _ => none

end Arity

variable [Regex]

/-- What a rule asks of the text at a place. -/
inductive Validator
  | terminal (t : Terminal)
  | ref (rule : String)
  | quantified (inner : Validator) (arity : Arity)
  | sequence (items : List Validator)
  | foreign (v : Foreign)

/-- Why a validator cannot be built. -/
inductive BuildError
  | notAValidator (v : Foreign)
  | unknownArity (text : String)
  | terminal (e : TerminalError)
  deriving DecidableEq

/-- The wording of the error. -/
def BuildError.message : BuildError → String
  | notAValidator v => "not a validator: " ++ v.render
  | unknownArity text => "unknown arity " ++ Text.quoted text
  | terminal e => e.message

namespace Validator

/-! ### Building validators -/

/-- A text where a validator is wanted names a rule; any other foreign value is refused. -/
def coerce : Validator → Except BuildError Validator
  | foreign (.text s) => .ok (ref s)
  | foreign v => .error (.notAValidator v)
  | v => .ok v

/-- The terminal of a pattern and flags. -/
def term (pattern flags : String) : Except BuildError Validator :=
  (Terminal.make pattern flags).map terminal |>.mapError BuildError.terminal

/-- The terminal of a fixed text. -/
def lit (text : String) : Except BuildError Validator :=
  (Terminal.literal text).map terminal |>.mapError BuildError.terminal

/-- The items one after the other. -/
def seq (items : List Validator) : Except BuildError Validator :=
  (items.mapM coerce).map sequence

/-- The validator or nothing. -/
def opt (v : Validator) : Except BuildError Validator :=
  v.coerce.map (quantified · .zeroOrOne)

/-- The validator any number of times. -/
def many (v : Validator) : Except BuildError Validator :=
  v.coerce.map (quantified · .zeroOrMore)

/-- The validator at least once. -/
def some (v : Validator) : Except BuildError Validator :=
  v.coerce.map (quantified · .oneOrMore)

/-- A quantified validator whose arity is written out; what it quantifies is not looked at. -/
def quantify (inner : Validator) (sign : String) : Except BuildError Validator :=
  match sign.toList with
  | [c] =>
    match Arity.ofSign? c with
    | .some arity => .ok (quantified inner arity)
    | none => .error (.unknownArity sign)
  | _ => .error (.unknownArity sign)

/-! ### Rules referred to -/

/-- Adds a name that has not been seen. -/
def addName (seen : List String) (name : String) : List String :=
  if seen.contains name then seen else seen ++ [name]

mutual

/-- The rules that a validator refers to, after those seen before, in the order of first sight. -/
def references (seen : List String) : Validator → List String
  | terminal _ => seen
  | ref name => addName seen name
  | quantified inner _ => references seen inner
  | sequence items => referencesAll seen items
  | foreign _ => seen

/-- The rules that several validators refer to. -/
def referencesAll (seen : List String) : List Validator → List String
  | [] => seen
  | v :: rest => referencesAll (references seen v) rest

end

/-! ### Equality -/

mutual

/-- Equality of validators; terminals are compared by pattern and flags. -/
def agrees : Validator → Validator → Bool
  | terminal s, terminal t => s.pattern == t.pattern && s.flags == t.flags
  | ref a, ref b => a == b
  | quantified v a, quantified w b => v.agrees w && a == b
  | sequence vs, sequence ws => agreesAll vs ws
  | foreign a, foreign b => a.agrees b
  | _, _ => false

/-- Equality of lists of validators. -/
def agreesAll : List Validator → List Validator → Bool
  | [], [] => true
  | v :: vs, w :: ws => v.agrees w && agreesAll vs ws
  | _, _ => false

end

end Validator

end OrderedGrammar
