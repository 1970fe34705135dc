import OrderedGrammar.Pattern.Reading.Basic

/-!
Escapes. After a backslash a letter may name a class, a place or a control character, digits give
a code point or a group, and punctuation and blanks stand for themselves.
-/

namespace OrderedGrammar.Pattern.Reading

open OrderedGrammar.Text

/-- What a backslash and the characters after it stand for. -/
inductive Escape
  | code (n : Nat)
  | set (s : CharSet)
  | expr (e : Expr)

/-- Classes of one letter; the capital is the complement. -/
def classLetter? : Char → Option CharSet
  | 'd' => some (.named (.category .decimalDigit))
  | 'D' => some (.compl (.named (.category .decimalDigit)))
  | 's' => some (.named .whiteSpace)
  | 'S' => some (.compl (.named .whiteSpace))
  | 'w' => some (.named .word)
  | 'W' => some (.compl (.named .word))
  | 'h' => some (.named .horizontalBlank)
  | _ => none

/-- Control characters with a letter of their own. -/
def controlLetter? : Char → Option Nat
  | 'a' => some 7
  | 'b' => some 8
  | 't' => some 9
  | 'n' => some 10
  | 'v' => some 11
  | 'f' => some 12
  | 'r' => some 13
  | _ => none

/-- Places with a letter of their own, outside sets. -/
def anchorLetter? : Char → Option Anchor
  | 'A' => some .textStart
  | 'Z' => some .textEnd
  | 'G' => some .matchStart
  | 'b' => some .wordEdge
  | 'B' => some .noWordEdge
  | 'm' => some .wordStart
  | 'M' => some .wordEnd
  | _ => none

/-- Digits of base eight. -/
def isOctalDigit (c : Char) : Bool := '0' ≤ c && c ≤ '7'

/-- The digits of a hexadecimal escape, `count` of them; `taken` are those read so far, reversed. -/
def hexEscape (letter : Char) (start : Nat) : Nat → List Char → Reading Escape
  | 0, taken =>
    let code := value 16 taken.reverse
    if code < 0x110000 then return .code code
    else failAt (.badHexEscape (String.ofList (letter :: taken.reverse))) start
  | count + 1, taken => do
    match ← next with
    | some c =>
      if CharClass.isAsciiHexDigit c then hexEscape letter start count (c :: taken)
      else failAt (.incompleteEscape (String.ofList (letter :: taken.reverse))) start
    | none => failAt (.incompleteEscape (String.ofList (letter :: taken.reverse))) start

/-- Up to `count` more octal digits; `taken` are those read so far, reversed. -/
def octalDigits : Nat → List Char → Reading (List Char)
  | 0, taken => return taken.reverse
  | count + 1, taken => do
    let s ← get
    match ← next with
    | some c =>
      if isOctalDigit c then octalDigits count (c :: taken)
      else
        back s.rest
        return taken.reverse
    | none =>
      back s.rest
      return taken.reverse

/-- A digit opens an octal code in a set, or when it is zero. -/
def octalEscape (first : Char) : Reading Escape := do
  let digits ← octalDigits 2 [first]
  if digits.all isOctalDigit then return .code (value 8 digits)
  else if isOctalDigit first then fail (.incompleteEscape (String.ofList digits))
  else fail (.badEscape first)

/-- One or two digits are the number of a group, three octal ones a code. -/
def numberEscape (first : Char) : Reading Escape := do
  let s ← get
  match ← next with
  | some second =>
    if second.isDigit then
      let s ← get
      match ← next with
      | some third =>
        if [first, second, third].all isOctalDigit then
          return .code (value 8 [first, second, third] % 512)
        back s.rest
      | none => back s.rest
      return .expr (← refer (groupRefOf [first, second]) (← offset))
    back s.rest
  | none => back s.rest
  return .expr (← refer (groupRefOf [first]) (← offset))

/-- Characters of the name of a property. -/
def isPropertyChar (c : Char) : Bool := c.isAlphanum || " &_-.".toList.contains c

/-- A property in braces or of one letter; anything else leaves the letter itself. -/
def propertyEscape (letter : Char) : Reading Escape := do
  let s ← get
  let positive := letter == 'p'
  match ← next with
  | some '\x7b' =>
    let negated ← accept ['^']
    let name ← takeWhile isPropertyChar
    if ← accept ['\x7d'] then
      match CharClass.ofPropertyName? name with
      | some k => return .set (if positive != negated then .named k else .compl (.named k))
      | none => fail .unknownProperty
    else
      back s.rest
      return .code letter.toNat
  | some c =>
    match CharClass.ofGroupLetter? c with
    | some k => return .set (if positive then .named k else .compl (.named k))
    | none =>
      back s.rest
      return .code letter.toNat
  | none => return .code letter.toNat

/-- A group by its number or name between angle brackets. -/
def namedReference : Reading Expr := do
  expect '<'
  let place ← offset
  let name ← groupName true
  expect '>'
  refer (groupRefOf name) place

/-- A reference after the letter `g`; where none can be read the letter stands for itself. -/
def referenceEscape : Reading Escape := do
  let start ← get
  match namedReference.run start with
  | .ok (e, after) =>
    set after
    return .expr e
  | .error _ => return .code 'g'.toNat

/-- A list of words by its name; there are no such lists. -/
def listEscape : Reading Escape := do
  expect '<'
  let _ ← groupName true
  expect '>'
  fail .undefinedList

/-- The end of a line: a carriage return with a line feed, or one of the characters that end lines.
-/
def lineBreak : Expr :=
  .atomic (.alt (.cat (.one (.single 13) false) (.one (.single 10) false))
    (.one (.ofMembers ([10, 11, 12, 13, 0x85, 0x2028, 0x2029].map .single)) false))

/-- Letters: a place, a class or a control character; the letter `N` stands for itself, and other
letters have no meaning. Classes and control characters outside brackets do not ignore case. -/
def letterEscape (inSet : Bool) (c : Char) : Reading Escape :=
  match if inSet then none else anchorLetter? c with
  | some a => return .expr (.anchor a)
  | none =>
    match classLetter? c with
    | some s => return if inSet then .set s else .expr (.one s false)
    | none =>
      match controlLetter? c with
      | some code => return if inSet then .code code else .expr (.one (.single code) false)
      | none => if c = 'N' then return .code c.toNat else fail (.badEscape c)

/-- What follows a backslash. -/
def escape (inSet : Bool) : Reading Escape := do
  match ← nextBare with
  | none => fail .unfinishedEscape
  | some c =>
    if c = 'x' then hexEscape c (← offset) 2 []
    else if c = 'u' then hexEscape c (← offset) 4 []
    else if c = 'U' then hexEscape c (← offset) 8 []
    else if c = 'p' ∨ c = 'P' then propertyEscape c
    else if c = 'g' ∧ !inSet then referenceEscape
    else if c = 'L' ∧ !inSet then listEscape
    else if c = 'R' ∧ !inSet then return .expr lineBreak
    else if c.isAlpha then letterEscape inSet c
    else if c.isDigit then
      if inSet ∨ c = '0' then octalEscape c else numberEscape c
    else return .code c.toNat

end OrderedGrammar.Pattern.Reading
