import OrderedGrammar.Transform.Value
import OrderedGrammar.Tree.Basic

/-!
Turning a tree into a value. Each rule node whose rule has a transform is handed to it once, after
everything below it and from left to right, with the values gathered from below: texts of leaves and
values of rule nodes, structural nodes between them leaving no trace. Rule nodes without a transform
pass on their text, the value of their only child, or the list of values. Every call is recorded, so
that the record is there when a transform fails; what transforms remember from one call to the next
is handed on with it.
-/

namespace OrderedGrammar

/-- What a transform gets to see. -/
structure Context where
  node : Tree
  /-- The values from below, in order. -/
  values : List Value
  /-- The characters that the node covers. -/
  text : String

/-- Why a transform gives no value. -/
inductive TransformError
  | refused (rule : String)
  | notANumber (text : String)
  | pointArity (count : Nat)
  | notACoordinate
  deriving DecidableEq

/-- The value of a node, given its context. Transforms may keep a state from call to call: each is
given what the one before has left, and leaves one itself, also when it fails. -/
abbrev Transform (σ : Type) := σ → Context → Except TransformError Value × σ

/-- The transforms of a grammar's rules, by name, with a state that all of them share. -/
abbrev Transforms (σ : Type) := String → Option (Transform σ)

/-- Transforms that keep no state. -/
abbrev TransformMap := Transforms Unit

/-- A computation that keeps the state of transforms and records calls, and has both when it
fails. -/
abbrev Traced (σ : Type) := ExceptT TransformError (StateM (σ × Array Context))

namespace Transform

variable {σ : Type}

/-- A transform that has no use for the state. -/
def stateless (f : Context → Except TransformError Value) : Transform σ := fun s c => (f c, s)

/-- Records a call and makes it. -/
def call (f : Transform σ) (c : Context) : Traced σ Value := ExceptT.mk fun (s, calls) =>
  let (result, s') := f s c
  (result, s', calls.push c)

/-- The value of a node that no transform is asked about. -/
def passOn (t : Tree) (values : List Value) : Value :=
  match t with
  | .text _ s => .text s
  | .single _ _ => values.headD .null
  | .list _ _ => .list values

/-- The value of a node whose values from below are known. -/
def valueOf (fs : Transforms σ) (src : Text) (t : Tree) (values : List Value) :
    Traced σ Value :=
  match if t.isRule then fs t.rule else none with
  | some f => call f ⟨t, values, t.source src⟩
  | none => return passOn t values

/-- What a node adds to the values of the node above it: a structural node all it has gathered, a
rule node its value. -/
def contribution (fs : Transforms σ) (src : Text) (t : Tree) (values : List Value) :
    Traced σ (List Value) := do
  if t.isRule then return (← valueOf fs src t values).contribution else return values

mutual

/-- The values that a node gathers from below. -/
def collect (fs : Transforms σ) (src : Text) : Tree → Traced σ (List Value)
  | .text _ s => return [.text s]
  | .single _ child => do contribution fs src child (← collect fs src child)
  | .list _ children => collectAll fs src children

/-- The values that several nodes contribute, in order. -/
def collectAll (fs : Transforms σ) (src : Text) : List Tree → Traced σ (List Value)
  | [] => return []
  | t :: rest => do
    let first ← contribution fs src t (← collect fs src t)
    return first ++ (← collectAll fs src rest)

end

/-- The value of a tree, with the state that is left and the calls that were made in order. -/
def applyFrom (fs : Transforms σ) (src : Text) (t : Tree) (s : σ) :
    Except TransformError Value × σ × Array Context :=
  ((do valueOf fs src t (← collect fs src t)) : Traced σ Value).run.run (s, #[])

/-- The value of a tree under transforms that keep no state, with the calls that were made. -/
def apply (fs : TransformMap) (src : Text) (t : Tree) :
    Except TransformError Value × Array Context :=
  let (result, _, calls) := applyFrom fs src t ()
  (result, calls)

end Transform

/-- The wording of the error. -/
def TransformError.message : TransformError → String
  | refused rule => "fail " ++ rule
  | notANumber text => "could not convert string to float: " ++ Text.quoted text
  | pointArity count =>
    if count = 0 then
      "Point.__init__() missing 2 required positional arguments: 'x' and 'y'"
    else if count = 1 then "Point.__init__() missing 1 required positional argument: 'y'"
    else s!"Point.__init__() takes 3 positional arguments but {count + 1} were given"
  | notACoordinate => "required argument is not a float"

end OrderedGrammar
