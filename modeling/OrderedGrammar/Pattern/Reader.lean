import OrderedGrammar.Pattern.Alternatives
import OrderedGrammar.Pattern.Reading.Bracket
import OrderedGrammar.Pattern.Reading.Repetition

/-!
Reading patterns. `Pattern.read` turns a pattern's text and its flags into a tree, or says what is
wrong and where. Flags set in the middle hold up to the end of the group around them. Regular
expressions can say more than patterns do; what has no meaning here is refused and not passed over.
-/

namespace OrderedGrammar.Pattern

open OrderedGrammar.Text

namespace Reading

/-! ### Flags and comments -/

/-- The next sign of a flag, if one comes next. -/
def flagSign? : Reading (Option String) := do
  let s ← get
  let sign ← do
    match ← next with
    | some 'V' => pure ("V" ++ ((← next).map Char.toString).getD "")
    | some c => pure c.toString
    | none => pure ""
  if (Flags.ofSign? sign).isSome then return some sign
  back s.rest
  return none

/-- The signs that follow. -/
def flagSigns : Nat → Reading (List String)
  | 0 => return []
  | fuel + 1 => do
    match ← flagSign? with
    | some sign => return sign :: (← flagSigns fuel)
    | none => return []

/-- Signs of flags to turn on and, after a hyphen, of flags to turn off. -/
def flagChange (fuel : Nat) : Reading (List String × List String) := do
  let on ← flagSigns fuel
  let off ← do
    if ← accept ['-'] then
      let off ← flagSigns fuel
      if off.isEmpty then fail .noFlagsOff
      pure off
    else pure []
  if off.any Flags.globalSigns.contains then fail .globalFlagOff
  if on.any off.contains then fail .flagOnAndOff
  return (on, off)

/-- The change of flags that signs stand for. -/
def changeOf (on off : List String) : Reading (Flags → Flags) := do
  if (on ++ off).any Flags.foreignSigns.contains then fail .unsupported
  return fun flags => (flags.union (Flags.ofSigns on)).minus (Flags.ofSigns off)

/-- The rest from the closing parenthesis of a comment on; a backslash hides one character. -/
def commentEnd : List Char → List Char
  | '\\' :: _ :: rest => commentEnd rest
  | ['\\'] => []
  | ')' :: rest => ')' :: rest
  | _ :: rest => commentEnd rest
  | [] => []

/-- Puts other flags in force. -/
def useFlags (flags : Flags) : Reading Unit :=
  modify fun s => { s with flags := flags, skipsLayout := flags.verbose }

/-- From here on a text will be read in this direction. -/
def turn (d : Direction) : Reading Unit := modify fun s => { s with direction := d }

/-! ### Verbs -/

/-- Only the verb of failure is there; the others would cut off possibilities that come before. -/
def verbNamed : String → Except Cause Expr
  | "FAIL" => .ok .never
  | "F" => .ok .never
  | "PRUNE" => .error .unsupported
  | "SKIP" => .error .unsupported
  | _ => .error .unknownVerb

/-- A verb after its asterisk, up to the closing parenthesis. Only a letter opens a verb. -/
def verb? : Reading (Option Expr) := do
  let place ← offset
  let word ← takeWhile fun c => c != ')' && c != '>'
  if (word.head?.map isLetter).getD false then
    match verbNamed (String.ofList word) with
    | .ok e =>
      expect ')'
      return some e
    | .error cause => failAt cause place
  else return none

/-! ### Branches and groups -/

/-- The character that a repetition sign or any other character stands for. -/
def literal (c : Char) : Reading Expr := do
  return .one (.single c.toNat) (← get).flags.ignoreCase

/-- An atom that opens with this character, parentheses and repetition signs apart. -/
def atom (fuel : Nat) (c : Char) : Reading Expr := do
  let flags := (← get).flags
  if c = '\\' then
    match ← escape false with
    | .code n => return .one (.single n) flags.ignoreCase
    | .set s => return .one s flags.ignoreCase
    | .expr e => return e
  else if c = '.' then return .dot flags.dotAll
  else if c = '[' then return .ofSet (← charSet fuel) flags.ignoreCase
  else if c = '^' then return .anchor (if flags.multiline then .lineStart else .textStart)
  else if c = '$' then return .anchor (if flags.multiline then .lineEnd else .finalEnd)
  else literal c

mutual

/-- Alternatives separated by bars; `done` are those before, reversed. -/
def branches : Nat → List Expr → Reading Expr
  | 0, _ => fail .tooDeep
  | fuel + 1, done => do
    let last ← sequence fuel [] false
    if ← accept ['|'] then branches fuel (last :: done)
    else return Expr.alternatives (← get).direction (last :: done).reverse

/-- Items up to a bar, a closing parenthesis or the end. `items` are those read so far, reversed;
`repeatable` tells that the last one has not been repeated yet. -/
def sequence : Nat → List Expr → Bool → Reading Expr
  | 0, _, _ => fail .tooDeep
  | fuel + 1, items, repeatable => do
    let start ← get
    let place ← offset
    match ← next with
    | none =>
      back start.rest
      return Expr.sequence items.reverse
    | some c =>
      if c = ')' ∨ c = '|' then
        back start.rest
        return Expr.sequence items.reverse
      else if c = '(' then
        match ← parenthesis fuel with
        | some e => sequence fuel (e :: items) true
        | none => sequence fuel items repeatable
      else
        match ← repeatSign? c with
        | some counts =>
          match repeatable, items with
          | true, last :: before => sequence fuel ((← repeated counts last) :: before) false
          | _, [] => failAt .nothingToRepeat place
          | _, _ => failAt .multipleRepeat place
        | none => sequence fuel ((← atom fuel c) :: items) true

/-- What stands after an opening parenthesis, up to the closing one. Comments and changes
of flags match nothing and are no items. -/
def parenthesis : Nat → Reading (Option Expr)
  | 0 => fail .tooDeep
  | fuel + 1 => do
    let start ← get
    match ← nextBare with
    | some '?' => extension fuel
    | some '*' =>
      match ← verb? with
      | some e => return some e
      | none =>
        back start.rest
        return some (← group fuel none)
    | _ =>
      back start.rest
      return some (← group fuel none)

/-- What stands after an opening parenthesis and a question mark. -/
def extension : Nat → Reading (Option Expr)
  | 0 => fail .tooDeep
  | fuel + 1 => do
    let start ← get
    match ← nextBare with
    | some '=' => return some (← looking fuel .forward true)
    | some '!' => return some (← looking fuel .forward false)
    | some '>' => return some (.atomic (← enclosed fuel id))
    | some '<' =>
      let behind ← get
      match ← next with
      | some '=' => return some (← looking fuel .backward true)
      | some '!' => return some (← looking fuel .backward false)
      | _ =>
        back behind.rest
        let name ← groupName false
        return some (← group fuel (some (String.ofList name)))
    | some 'P' =>
      let place ← offset
      match ← next with
      | some '<' =>
        let name ← groupName false
        return some (← group fuel (some (String.ofList name)))
      | some '=' =>
        let name ← groupName true
        expect ')'
        return some (← refer (groupRefOf name) place)
      | _ => failAt .unknownExtension place
    | some '#' =>
      modify fun s => { s with rest := commentEnd s.rest }
      expect ')'
      return none
    | _ =>
      back start.rest
      let (on, off) ← flagChange fuel
      if ← accept [':'] then
        return some (← enclosed fuel (← changeOf on off))
      if ← accept [')'] then
        useFlags ((← changeOf on off) (← get).flags)
        return none
      fail .unknownExtension

/-- A numbered group, from after its name on. -/
def group : Nat → Option String → Reading Expr
  | 0, _ => fail .tooDeep
  | fuel + 1, name => do
    let number ← openGroup name
    if name.isSome then expect '>'
    let body ← enclosed fuel id
    closeGroup
    return .group number body

/-- A condition on what follows or comes before. -/
def looking : Nat → Direction → Bool → Reading Expr
  | 0, _, _ => fail .tooDeep
  | fuel + 1, d, positive => do
    let outer := (← get).direction
    turn d
    let body ← enclosed fuel id
    turn outer
    return .look d positive body

/-- Alternatives and the closing parenthesis under changed flags; the flags of the outside are in
force again after it. -/
def enclosed : Nat → (Flags → Flags) → Reading Expr
  | 0, _ => fail .tooDeep
  | fuel + 1, change => do
    let outer := (← get).flags
    useFlags (change outer)
    let body ← branches fuel []
    expect ')'
    useFlags outer
    return body

end

/-- The first reference, in the order of the text, to a group that does not exist. -/
def danglingReference? (s : Progress) : Option Fault :=
  s.references.reverse.findSome? fun (target, place) =>
    match target.resolve? s.names with
    | none => some ⟨.unknownGroup, place⟩
    | some n => if 1 ≤ n && n ≤ s.groups then none else some ⟨.invalidReference, place⟩

/-- Every step either takes a character or opens a part that follows a taken one; no part needs more
than seven steps besides. -/
def stepLimit (length : Nat) : Nat := 8 * length + 8

/-- The whole pattern: nothing may be left over, and every reference needs its group. -/
def whole : Reading Pattern := do
  let root ← branches (stepLimit (← get).length) []
  let s ← get
  let left := if s.skipsLayout then dropLayout false s.rest else s.rest
  if !left.isEmpty then fail .unbalanced
  match danglingReference? s with
  | some f => throw f
  | none => return ⟨root, s.groups, s.names⟩

end Reading

/-- The pattern that a text stands for under flags. -/
def read (text : List Char) (flags : Flags) : Except Fault Pattern :=
  (Reading.whole.run (Progress.start text flags)).map (·.1)

end OrderedGrammar.Pattern
