import OrderedGrammar.Pattern.Error
import OrderedGrammar.Pattern.Expr
import OrderedGrammar.Pattern.Flags

/-!
The steps of which the reading of a pattern is made. A step moves on in the pattern, learns about
its groups, and may stop with a fault. In verbose mode blanks and comments between the parts are
layout, and `next`, `accept` and `takeWhile` pass over it.
-/

namespace OrderedGrammar.Pattern

open OrderedGrammar.Text

/-- What is left of the pattern and what has been learnt from the part before it. -/
structure Progress where
  /-- The number of characters of the whole pattern. -/
  length : Nat
  rest : List Char
  /-- Flags in force here. -/
  flags : Flags
  /-- Blanks and comments are layout here. -/
  skipsLayout : Bool
  /-- Which way a text will be read here. -/
  direction : Direction := .forward
  groups : Nat := 0
  names : List (String × Nat) := []
  opened : List Nat := []
  /-- References to groups and where they end, the latest first. -/
  references : List (GroupRef × Nat) := []

/-- A step of the reader. -/
abbrev Reading := StateT Progress (Except Fault)

/-- Where reading starts. -/
def Progress.start (text : List Char) (flags : Flags) : Progress where
  length := text.length
  rest := text
  flags := flags
  skipsLayout := flags.verbose

namespace Reading

/-! ### Characters and layout -/

/-- Drops blanks and comments; a comment runs from a hash sign to the end of its line. -/
def dropLayout : Bool → List Char → List Char
  | _, [] => []
  | true, c :: rest => dropLayout (c != '\n') rest
  | false, c :: rest =>
    if isBlank c then dropLayout false rest
    else if c = '#' then dropLayout true rest
    else c :: rest

/-- Takes characters of a class and drops layout between and after them. -/
def spanLayout (p : Char → Bool) : Bool → List Char → List Char × List Char
  | _, [] => ([], [])
  | true, c :: rest => spanLayout p (c != '\n') rest
  | false, c :: rest =>
    if isBlank c then spanLayout p false rest
    else if c = '#' then spanLayout p true rest
    else if p c then
      let (taken, left) := spanLayout p false rest
      (c :: taken, left)
    else ([], c :: rest)

/-- The offset reached. -/
def offset : Reading Nat := do
  let s ← get
  return s.length - s.rest.length

/-- Stops at an offset. -/
def failAt {α : Type} (cause : Cause) (place : Nat) : Reading α := throw ⟨cause, place⟩

/-- Stops at the offset reached. -/
def fail {α : Type} (cause : Cause) : Reading α := do failAt cause (← offset)

/-- The next character as it stands, layout or not. -/
def nextBare : Reading (Option Char) := do
  let s ← get
  match s.rest with
  | [] => return none
  | c :: rest =>
    set { s with rest := rest }
    return some c

/-- The next character after layout. -/
def next : Reading (Option Char) := do
  modify fun s => { s with rest := if s.skipsLayout then dropLayout false s.rest else s.rest }
  nextBare

/-- The rest after these characters, with layout allowed before each. -/
def afterAll? (skips : Bool) : List Char → List Char → Option (List Char)
  | [], rest => some rest
  | c :: more, rest =>
    match if skips then dropLayout false rest else rest with
    | found :: rest => if found = c then afterAll? skips more rest else none
    | [] => none

/-- Takes these characters if they come next. -/
def accept (text : List Char) : Reading Bool := do
  let s ← get
  match afterAll? s.skipsLayout text s.rest with
  | some rest =>
    set { s with rest := rest }
    return true
  | none => return false

/-- Takes a character that has to come next. -/
def expect (c : Char) : Reading Unit := do
  unless ← accept [c] do fail (.missing c)

/-- Takes characters of a class. -/
def takeWhile (p : Char → Bool) : Reading (List Char) := do
  let s ← get
  let (taken, rest) := if s.skipsLayout then spanLayout p false s.rest else s.rest.span p
  set { s with rest := rest }
  return taken

/-- Goes back to an earlier rest. -/
def back (rest : List Char) : Reading Unit := modify fun s => { s with rest := rest }

/-- The value of digits in a base. -/
def value (base : Nat) (digits : List Char) : Nat :=
  digits.foldl (fun n c =>
    base * n + (if c.isDigit then c.toNat - 48 else c.toLower.toNat - 87)) 0

/-! ### Groups -/

/-- Opens a group; a name that has been used keeps its number. -/
def openGroup (name : Option String) : Reading Nat := do
  let s ← get
  match name.bind fun n => s.names.lookup n with
  | some number =>
    set { s with opened := number :: s.opened }
    return number
  | none =>
    let number := s.groups + 1
    let names := match name with
      | some n => s.names ++ [(n, number)]
      | none => s.names
    set { s with groups := number, names := names, opened := number :: s.opened }
    return number

/-- The group opened last is complete. -/
def closeGroup : Reading Unit := modify fun s => { s with opened := s.opened.tail }

/-- A name of digits is a number. -/
def groupRefOf (name : List Char) : GroupRef :=
  if name.all Char.isDigit then .number ((String.ofList name).toNat?.getD 0)
  else .name (String.ofList name)

/-- Refers back to a group that is not open; whether there is one is settled at the end. -/
def refer (target : GroupRef) (place : Nat) : Reading Expr := do
  let s ← get
  if (target.resolve? s.names).any s.opened.contains then failAt .openGroup place
  set { s with references := (target, place) :: s.references }
  return .backref target s.flags.ignoreCase

/-- The name of a group, up to a closing mark. -/
def groupName (allowsNumber : Bool) : Reading (List Char) := do
  let name ← takeWhile fun c => c != ')' && c != '>'
  if name.isEmpty then fail .missingGroupName
  if allowsNumber && name.all Char.isDigit then
    if name.all (· == '0') then fail .badGroupName
  else if !isIdentifier name then fail .badGroupName
  return name

end Reading

end OrderedGrammar.Pattern
