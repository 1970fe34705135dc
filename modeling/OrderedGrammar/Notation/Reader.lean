import OrderedGrammar.Grammar.Basic
import OrderedGrammar.Notation.Token

/-!
Grammars read from their notation:

    %entry list ;
    list : item (sep item)* | item ;
    item : /[0-9]+/ ;
    sep  : "," ;

A rule lists alternatives of one or more items; an item is a name, a regex, a quoted literal or a
group in parentheses, with at most one suffix directly after it. One item stands for itself, several
for a sequence. The reader takes one token at a time, with the open groups on a stack, and stops at
the first token that cannot go on.
-/

namespace OrderedGrammar.Notation

variable [Regex]

/-- A rule whose end has not been read. Lists hold the latest part first. -/
structure OpenRule where
  name : String
  /-- Where the name stands. -/
  offset : Nat
  alternatives : List Validator
  /-- For each open group the items before it, innermost group first. -/
  outer : List (List Validator)
  /-- The items of the innermost group, or of the alternative. -/
  items : List Validator
  /-- Where the last item ends, as long as a suffix may follow it. -/
  suffixAt : Option Nat

/-- What the reader waits for. -/
inductive Phase
  /-- The next rule or directive. -/
  | between
  /-- The name of the directive whose percent sign ends here. -/
  | directive (offset : Nat)
  | entryName
  | entryEnd (name : String)
  /-- The colon after the name of a rule. -/
  | colon (name : String) (offset : Nat)
  | body (rule : OpenRule)

/-- The rules that are complete, the entry if a directive gave it, and what comes next. -/
structure Draft where
  rules : List (String × List Validator)
  entry : Option String
  phase : Phase

/-- A step of the reader. -/
abbrev Step := Except Error Draft

/-- One item stands for itself, several are a sequence. -/
def ofItems : List Validator → Validator
  | [v] => v
  | vs => .sequence vs

namespace Draft

/-- The draft before the first token. -/
def start : Draft := ⟨[], none, .between⟩

/-- An item joins the innermost group. -/
def addItem (d : Draft) (r : OpenRule) (v : Validator) (stop : Nat) : Step :=
  .ok { d with phase := .body { r with items := v :: r.items, suffixAt := some stop } }

/-- A terminal joins the innermost group if it compiles. -/
def addTerminal (d : Draft) (r : OpenRule) (made : Except TerminalError Terminal)
    (t : Token) : Step :=
  match made with
  | .ok terminal => d.addItem r (.terminal terminal) t.stop
  | .error e => .error ⟨.badRegex e, t.start⟩

/-- A semicolon or a bar closes an alternative, which must not be empty. -/
def closeAlternative (r : OpenRule) (offset : Nat) : Except Error (List Validator) :=
  match r.items with
  | [] => .error ⟨.emptyAlternative, offset⟩
  | items => .ok (ofItems items.reverse :: r.alternatives)

/-- A semicolon closes the rule, whose name must be new. -/
def closeRule (d : Draft) (r : OpenRule) (t : Token) : Step :=
  if !r.outer.isEmpty then .error ⟨.unclosedGroup, t.start⟩
  else do
    let alternatives ← closeAlternative r t.start
    if (d.rules.lookup r.name).isSome then .error ⟨.duplicateRule r.name, r.offset⟩
    else .ok ⟨d.rules ++ [(r.name, alternatives.reverse)], d.entry, .between⟩

/-- A bar goes on to the next alternative; in a group it has no place. -/
def nextAlternative (d : Draft) (r : OpenRule) (t : Token) : Step :=
  if !r.outer.isEmpty then .error ⟨.barInGroup, t.start⟩
  else do
    let alternatives ← closeAlternative r t.start
    .ok { d with phase := .body { r with alternatives, items := [], suffixAt := none } }

/-- A closing parenthesis turns the items of the group into one. -/
def closeGroup (d : Draft) (r : OpenRule) (t : Token) : Step :=
  match r.outer with
  | [] => do
    discard (closeAlternative r t.start)
    .error ⟨.expected ';' (some ')'), t.start⟩
  | before :: outer =>
    match r.items with
    | [] => .error ⟨.emptyGroup, t.stop⟩
    | items => d.addItem { r with outer, items := before } (ofItems items.reverse) t.stop

/-- A suffix applies to the item that ends where it starts; anywhere else it has no place. -/
def applySuffix (d : Draft) (r : OpenRule) (t : Token) (arity : Arity) : Step :=
  match r.items with
  | v :: rest =>
    if r.suffixAt = some t.start then
      let items := .quantified v arity :: rest
      .ok { d with phase := .body { r with items := items, suffixAt := none } }
    else .error ⟨.expectedRuleName, t.start⟩
  | [] => .error ⟨.expectedRuleName, t.start⟩

/-- A mark inside a rule. -/
def bodyMark (d : Draft) (r : OpenRule) (t : Token) : Step :=
  if t.head = ';' then d.closeRule r t
  else if t.head = '|' then d.nextAlternative r t
  else if t.head = ')' then d.closeGroup r t
  else if t.head = '(' then
    let outer := r.items :: r.outer
    .ok { d with phase := .body { r with outer := outer, items := [], suffixAt := none } }
  else match Arity.ofSign? t.head with
    | some arity => d.applySuffix r t arity
    | none => .error ⟨.expectedRuleName, t.start⟩

/-- A token inside a rule. -/
def bodyToken (d : Draft) (r : OpenRule) (t : Token) : Step :=
  match t.lexeme with
  | .name s => d.addItem r (.ref (String.ofList s)) t.stop
  | .regex pattern flags =>
    d.addTerminal r (Terminal.make (String.ofList pattern) (String.ofList flags)) t
  | .literal s => d.addTerminal r (Terminal.literal (String.ofList s)) t
  | .malformed e => .error e
  | .mark => d.bodyMark r t
  | .openComment => .error ⟨.unclosedComment, t.start⟩

/-- A rule opens with its name, a directive with a percent sign. -/
def betweenToken (d : Draft) (t : Token) : Step :=
  match t.lexeme with
  | .name s => .ok { d with phase := .colon (String.ofList s) t.start }
  | .mark =>
    if t.head = '%' then .ok { d with phase := .directive t.stop }
    else .error ⟨.expectedRuleName, t.start⟩
  | _ => .error ⟨.expectedRuleName, t.start⟩

/-- The only directive is `entry`, at most once. -/
def directiveToken (d : Draft) (offset : Nat) (t : Token) : Step :=
  match t.lexeme with
  | .name s =>
    if String.ofList s ≠ "entry" then .error ⟨.unknownDirective (String.ofList s), offset⟩
    else if d.entry.isSome then .error ⟨.duplicateEntry, offset⟩
    else .ok { d with phase := .entryName }
  | _ => .error ⟨.expectedRuleName, t.start⟩

/-- The name of the entry rule, which may be declared later or not at all. -/
def entryNameToken (d : Draft) (t : Token) : Step :=
  match t.lexeme with
  | .name s => .ok { d with phase := .entryEnd (String.ofList s) }
  | _ => .error ⟨.expectedRuleName, t.start⟩

/-- One particular mark and nothing else. -/
def expectMark (mark : Char) (t : Token) (next : Draft) : Step :=
  if t.lexeme = .mark ∧ t.head = mark then .ok next
  else .error ⟨.expected mark (some t.head), t.start⟩

/-- Takes a token. A comment that is not closed is a fault whatever the reader waits for. -/
def step (d : Draft) (t : Token) : Step :=
  if t.lexeme = .openComment then .error ⟨.unclosedComment, t.start⟩
  else match d.phase with
    | .between => d.betweenToken t
    | .directive offset => d.directiveToken offset t
    | .entryName => d.entryNameToken t
    | .entryEnd name => expectMark ';' t ⟨d.rules, some name, .between⟩
    | .colon name offset =>
      expectMark ':' t { d with phase := .body ⟨name, offset, [], [], [], none⟩ }
    | .body r => d.bodyToken r t

/-- The grammar, if the source may end here. Without a directive the first rule is the entry. -/
def finish (d : Draft) (length : Nat) : Except Error Grammar :=
  match d.phase with
  | .between =>
    match d.rules with
    | [] => .error ⟨.emptyGrammar, length⟩
    | first :: _ => .ok ⟨d.entry.getD first.1, d.rules⟩
  | .directive _ => .error ⟨.expectedRuleName, length⟩
  | .entryName => .error ⟨.expectedRuleName, length⟩
  | .entryEnd _ => .error ⟨.expected ';' none, length⟩
  | .colon _ _ => .error ⟨.expected ':' none, length⟩
  | .body r =>
    if !r.outer.isEmpty then .error ⟨.unclosedGroup, length⟩
    else if r.items.isEmpty then .error ⟨.emptyAlternative, length⟩
    else .error ⟨.expected ';' none, length⟩

end Draft

/-- The grammar that a source stands for. -/
def read (src : String) : Except Error Grammar := do
  let chars := src.toList
  (← (tokens chars).foldlM Draft.step .start).finish chars.length

end OrderedGrammar.Notation
