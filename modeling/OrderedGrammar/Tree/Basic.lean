import OrderedGrammar.Text.Basic

/-!
Trees of a match. A node covers the characters from `start` up to `stop`, which is one past its last
character, so an empty match has `stop = start`. A node built at a reference to a rule is a rule
node; all others are structural and carry the tag of the rule around them.
-/

namespace OrderedGrammar

/-- What every node tells: its rule, whether it was built at a reference, and the span it covers. -/
structure NodeInfo where
  rule : String
  isRule : Bool
  start : Nat
  stop : Nat
  deriving DecidableEq, Repr

/-- A node holds the text it took, or one rule node, or a list of nodes. -/
inductive Tree
  | text (info : NodeInfo) (value : String)
  | single (info : NodeInfo) (child : Tree)
  | list (info : NodeInfo) (children : List Tree)

namespace Tree

/-- What the node tells about itself. -/
def info : Tree → NodeInfo
  | text i _ => i
  | single i _ => i
  | list i _ => i

/-- The offset of the first character. -/
def start (t : Tree) : Nat := t.info.start

/-- The offset after the last character. -/
def stop (t : Tree) : Nat := t.info.stop

/-- The rule whose name the node carries. -/
def rule (t : Tree) : String := t.info.rule

/-- Whether the node was built at a reference to its rule. -/
def isRule (t : Tree) : Bool := t.info.isRule

/-- How many characters the node covers. -/
def width (t : Tree) : Nat := t.stop - t.start

/-- The offset of the last character, which is one before `start` for an empty match. -/
def last (t : Tree) : Int := (t.stop : Int) - 1

/-- The nodes right below. -/
def children : Tree → List Tree
  | text _ _ => []
  | single _ child => [child]
  | list _ cs => cs

/-- The characters that the node covers. -/
def source (t : Tree) (src : Text) : String := src.slice t.start t.stop

/-- A node that covers nothing. -/
def empty (pos : Nat) (tag : String) : Tree := list ⟨tag, false, pos, pos⟩ []

/-- The node of a rule over the node of its alternative: a rule node becomes its only child, the
value of a structural node is taken over. -/
def asRule (name : String) (t : Tree) : Tree :=
  let i : NodeInfo := ⟨name, true, t.start, t.stop⟩
  if t.isRule then single i t
  else match t with
    | text _ s => text i s
    | single _ c => single i c
    | list _ cs => list i cs

@[simp] theorem isRule_asRule (name : String) (t : Tree) : (t.asRule name).isRule = true := by
  unfold asRule
  split
  · rfl
  · cases t <;> rfl

@[simp] theorem rule_asRule (name : String) (t : Tree) : (t.asRule name).rule = name := by
  unfold asRule
  split
  · rfl
  · cases t <;> rfl

@[simp] theorem start_asRule (name : String) (t : Tree) : (t.asRule name).start = t.start := by
  unfold asRule
  split
  · rfl
  · cases t <;> rfl

@[simp] theorem stop_asRule (name : String) (t : Tree) : (t.asRule name).stop = t.stop := by
  unfold asRule
  split
  · rfl
  · cases t <;> rfl

mutual

/-- All nodes with their depth, a node before its children. -/
def preorder (depth : Nat) : Tree → List (Nat × Tree)
  | text i s => [(depth, text i s)]
  | single i c => (depth, single i c) :: preorder (depth + 1) c
  | list i cs => (depth, list i cs) :: preorderAll (depth + 1) cs

/-- The nodes of several trees, one tree after the other. -/
def preorderAll (depth : Nat) : List Tree → List (Nat × Tree)
  | [] => []
  | t :: rest => preorder depth t ++ preorderAll depth rest

end

end Tree

end OrderedGrammar
