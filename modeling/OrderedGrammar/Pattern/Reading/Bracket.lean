import OrderedGrammar.Pattern.Reading.Escape

/-!
Sets in brackets. Members are characters, ranges, escapes and named classes; inside the brackets
nothing is layout.
-/

namespace OrderedGrammar.Pattern.Reading

/-- A class named between `[:` and `:]`, or nothing if it is not closed so. -/
def bracketClass? : Reading (Option CharSet) := do
  let s ← get
  if ← accept ['[', ':'] then
    let negated ← accept ['^']
    let name ← takeWhile isPropertyChar
    if ← accept [':', ']'] then
      match CharClass.ofBracketName? name with
      | some k => return some (if negated then .compl (.named k) else .named k)
      | none => fail .unknownProperty
    back s.rest
  return none

/-- A member is a character or a set. -/
def setItem : Reading (Nat ⊕ CharSet) := do
  if ← accept ['\\'] then
    match ← escape true with
    | .code n => return .inl n
    | .set s => return .inr s
    | .expr _ => return .inr .none
  match ← bracketClass? with
  | some s => return .inr s
  | none =>
    match ← nextBare with
    | some c => return .inl c.toNat
    | none => fail .unterminatedSet

/-- A member, or a range from one character to another; a hyphen before the end stands for itself.
-/
def setMember : Reading CharSet := do
  match ← setItem with
  | .inr s => return s
  | .inl first =>
    let s ← get
    if ← accept ['-'] then
      let hyphen := CharSet.union (.single first) (.single '-'.toNat)
      let afterHyphen ← get
      if ← accept [']'] then
        back afterHyphen.rest
        return hyphen
      match ← setItem with
      | .inr last => return .union hyphen last
      | .inl last =>
        if last < first then fail .badRange
        return .range first last
    back s.rest
    return .single first

/-- The members up to the closing bracket. -/
def setMembers : Nat → Reading CharSet
  | 0 => fail .tooDeep
  | fuel + 1 => do
    if ← accept [']'] then return .none
    let member ← setMember
    return .union member (← setMembers fuel)

/-- A set after its opening bracket; a closing bracket that comes first is a member. -/
def charSet (fuel : Nat) : Reading CharSet := do
  let skips := (← get).skipsLayout
  modify fun s => { s with skipsLayout := false }
  let negated ← accept ['^']
  let first ← setMember
  let members := CharSet.union first (← setMembers fuel)
  modify fun s => { s with skipsLayout := skips }
  return members.bracketed negated

end OrderedGrammar.Pattern.Reading
