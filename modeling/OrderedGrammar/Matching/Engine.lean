import OrderedGrammar.Grammar.Describe
import OrderedGrammar.Tree.Basic

/-!
Matching a validator at a place of a text. Choice is ordered and final: the first alternative of a
rule that matches is taken, and a repetition takes all it can, with no way back. Nothing is kept
from a failed attempt. An evaluation gives a tree, no match, or an error; left recursion would never
end, and shows as the depth limit.
-/

namespace OrderedGrammar

/-- Why an evaluation gives no answer. -/
inductive EvalError
  | undefinedRule (name : String)
  | unknownValidator (value : Foreign)
  | depthExceeded
  deriving DecidableEq

/-- The wording of the error; running too deep has none. -/
def EvalError.message : EvalError → String
  | undefinedRule name => s!"undefined rule '{name}'"
  | unknownValidator value => (UnknownValidator.mk value).message
  | depthExceeded => ""

/-- A tree, no match, or an error. -/
abbrev Outcome := Except EvalError (Option Tree)

variable [Regex]

/-- The node of a terminal's match holds the text that was taken, and is as wide. -/
def Terminal.evaluate (t : Terminal) (text : Text) (pos : Nat) (tag : String) : Option Tree :=
  (t.matched? text pos).map fun taken => .text ⟨tag, false, pos, pos + taken.length⟩ taken

namespace Matching

/-- The first alternative that matches. -/
def firstMatch (attempt : Validator → Outcome) : List Validator → Outcome
  | [] => .ok none
  | v :: rest => do
    match ← attempt v with
    | some t => return some t
    | none => firstMatch attempt rest

/-- Every item in turn, each from where the one before it stopped. -/
def chain (attempt : Validator → Nat → Outcome) :
    List Validator → Nat → Except EvalError (Option (List Tree))
  | [], _ => .ok (some [])
  | v :: rest, pos => do
    match ← attempt v pos with
    | some t => return (← chain attempt rest t.stop).map (t :: ·)
    | none => return none

/-- Matches one after the other, until one fails or is empty. The first argument bounds their
number. -/
def iterate (attempt : Nat → Outcome) : Nat → Nat → Except EvalError (List Tree)
  | 0, _ => .ok []
  | fuel + 1, pos => do
    match ← attempt pos with
    | some t => if t.stop ≤ pos then return [] else return t :: (← iterate attempt fuel t.stop)
    | none => return []

/-- The list node of parts that follow one another from `pos` on. -/
def listNode (tag : String) (pos : Nat) (parts : List Tree) : Tree :=
  .list ⟨tag, false, pos, (parts.getLast?.map Tree.stop).getD pos⟩ parts

/-- A repetition from its first match on. If at least one match is required, an empty first match
counts as one. -/
def repetition (attempt : Nat → Outcome) (required : Bool) (text : Text) (pos : Nat)
    (tag : String) : Outcome := do
  match ← attempt pos with
  | none => return if required then none else some (.empty pos tag)
  | some first =>
    if first.stop ≤ pos then
      return some (if required then listNode tag pos [first] else .empty pos tag)
    else
      return some (listNode tag pos (first :: (← iterate attempt (text.size + 1) first.stop)))

/-- Matches a validator at an offset. Nodes outside every rule carry `tag`. The first argument
bounds the depth of nested evaluations. -/
def evaluate (g : Grammar) (text : Text) : Nat → Validator → Nat → String → Outcome
  | 0, _, _, _ => .error .depthExceeded
  | _ + 1, .terminal t, pos, tag => .ok (t.evaluate text pos tag)
  | depth + 1, .ref name, pos, _ =>
    match g.rule? name with
    | none => .error (.undefinedRule name)
    | some alternatives => do
      return (← firstMatch (fun v => evaluate g text depth v pos name) alternatives).map
        (Tree.asRule name)
  | depth + 1, .quantified inner .zeroOrOne, pos, tag => do
    return some ((← evaluate g text depth inner pos tag).getD (.empty pos tag))
  | depth + 1, .quantified inner .zeroOrMore, pos, tag =>
    repetition (fun p => evaluate g text depth inner p tag) false text pos tag
  | depth + 1, .quantified inner .oneOrMore, pos, tag =>
    repetition (fun p => evaluate g text depth inner p tag) true text pos tag
  | depth + 1, .sequence items, pos, tag => do
    return (← chain (fun v p => evaluate g text depth v p tag) items pos).map (listNode tag pos)
  | _ + 1, .foreign v, _, _ => .error (.unknownValidator v)

/-- Follows a validator to the first terminal that is tried, before which no text is looked at. The
first argument bounds the depth. -/
def reach (g : Grammar) : Nat → Validator → Except EvalError Unit
  | 0, _ => .error .depthExceeded
  | _ + 1, .terminal _ => .ok ()
  | depth + 1, .ref name =>
    match g.rule? name with
    | none => .error (.undefinedRule name)
    | some [] => .ok ()
    | some (v :: _) => reach g depth v
  | depth + 1, .quantified inner _ => reach g depth inner
  | _ + 1, .sequence [] => .ok ()
  | depth + 1, .sequence (v :: _) => reach g depth v
  | _ + 1, .foreign v => .error (.unknownValidator v)

/-- How deeply evaluations may be nested. -/
def depthLimit : Nat := 10000

end Matching

namespace Grammar

/-- Matches a validator at an offset; nodes outside every rule carry the tag, or else the name of
the entry rule. -/
def matchAt (g : Grammar) (v : Validator) (text : Text) (pos : Nat) (tag : Option String) :
    Outcome :=
  Matching.evaluate g text Matching.depthLimit v pos (tag.getD g.entry)

end Grammar

end OrderedGrammar
