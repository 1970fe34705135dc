import OrderedGrammar.Pattern.Opening
import Std.Data.HashSet.Basic

/-!
Matching with backtracking, leftmost possibility first. `Expr.run` carries the expression's
possibilities in order into a continuation and stops at the first that the continuation accepts;
`Pattern.matchAt` anchors a pattern at an offset and gives the offset after the match. Text before
the offset is seen by anchors and by looking behind.

A search remembers where repetitions have failed: that neither one more round, nor an end of the
rounds, led to a match from some offset. The same repetition does not try the same again from there,
whatever the groups hold meanwhile, which keeps the number of steps in bounds. Where a later
reference to a group could tell the difference nothing is remembered, so that such references see
all possibilities.
-/

namespace OrderedGrammar.Pattern

open OrderedGrammar.Text

/-- The place reached in the text, and for each group that has matched its first and last bound. -/
structure State where
  offset : Nat
  captures : List (Nat × Nat × Nat) := []
  /-- How often a group that is referred back to has got other bounds. -/
  changes : Nat := 0
  deriving DecidableEq

namespace State

/-- The bounds of a group, the latest ones only, in the place where it first matched. -/
def putCapture (number first last : Nat) : List (Nat × Nat × Nat) → List (Nat × Nat × Nat)
  | [] => [(number, first, last)]
  | c :: rest =>
    if c.1 = number then (number, first, last) :: rest else c :: putCapture number first last rest

/-- The group has matched between its two bounds, in either order; `counted` tells that it is
referred back to. -/
def capture (s : State) (counted : Bool) (number a b : Nat) : State :=
  let bounds := (min a b, max a b)
  { s with
    captures := putCapture number bounds.1 bounds.2 s.captures
    changes := if counted && s.captures.lookup number != some bounds then s.changes + 1
      else s.changes }

end State

/-! ### Reading the text -/

/-- The next character in the direction of reading, with the offset after it. -/
def Direction.next? (text : Text) : Direction → Nat → Option (Char × Nat)
  | .forward, offset => text[offset]?.map (·, offset + 1)
  | .backward, 0 => none
  | .backward, offset + 1 => text[offset]?.map (·, offset)

/-- Whether the character before an offset belongs to a word. -/
def wordBefore (text : Text) : Nat → Bool
  | 0 => false
  | offset + 1 => text[offset]?.any CharClass.isWordCharacter

/-- Whether the character at an offset belongs to a word. -/
def wordAt (text : Text) (offset : Nat) : Bool := text[offset]?.any CharClass.isWordCharacter

/-- What an anchor asks of an offset, matching having begun at `start`. -/
def Anchor.holds (text : Text) (start offset : Nat) : Anchor → Bool
  | .textStart => offset == 0
  | .textEnd => text.size ≤ offset
  | .matchStart => offset == start
  | .finalEnd => text.size ≤ offset || (offset + 1 == text.size && text[offset]? == some '\n')
  | .lineStart => offset == 0 || text[offset - 1]? == some '\n'
  | .lineEnd => text.size ≤ offset || text[offset]? == some '\n'
  | .wordEdge => wordBefore text offset != wordAt text offset
  | .noWordEdge => wordBefore text offset == wordAt text offset
  | .wordStart => !wordBefore text offset && wordAt text offset
  | .wordEnd => wordBefore text offset && !wordAt text offset

/-- Two characters that a back reference takes for the same. -/
def sameChar (fold : Bool) (a b : Char) : Bool := (CharSet.single a.toNat).admits fold b

/-- Reads the given characters in one direction; backwards they come last first. -/
def readAll (text : Text) (d : Direction) (fold : Bool) : List Char → Nat → Option Nat
  | [], offset => some offset
  | c :: rest, offset =>
    match d.next? text offset with
    | some (found, after) => if sameChar fold c found then readAll text d fold rest after else none
    | none => none

/-- The characters that a group holds, in the order in which a direction reads them. -/
def captured? (text : Text) (names : List (String × Nat)) (s : State) (d : Direction)
    (target : GroupRef) : Option (List Char) := do
  let (first, last) ← s.captures.lookup (← target.resolve? names)
  let chars := (text.extract first last).toList
  return match d with
    | .forward => chars
    | .backward => chars.reverse

/-- The offsets after each of the characters of a set that follow, up to a number of them, the
farthest first and put before those given. -/
def stretch (text : Text) (d : Direction) (set : CharSet) (fold : Bool) :
    Nat → Nat → List Nat → List Nat
  | 0, _, reached => reached
  | fuel + 1, offset, reached =>
    match d.next? text offset with
    | some (c, after) =>
      if set.admits fold c then stretch text d set fold fuel after (after :: reached) else reached
    | none => reached

/-! ### Searches -/

/-- A failure worth remembering: from this offset neither one more round (`goingOn`) nor, otherwise,
an end of the rounds helps the repetition at this place of the pattern. -/
structure Mark where
  place : List Nat
  goingOn : Bool
  offset : Nat
  deriving DecidableEq, Hashable

/-- A search gives the state after the first match, if any, and changes what is remembered. -/
abbrev Search := StateM (Std.HashSet Mark) (Option State)

namespace Search

/-- The search that finds nothing. -/
def nothing : Search := pure none

/-- The second search is made only if the first finds nothing. -/
def orElse (a : Search) (b : Unit → Search) : Search := do
  match ← a with
  | some s => return some s
  | none => b ()

/-- A search whose failure is remembered, if failures are kept in mind here. -/
def noting (kept : Bool) (m : Mark) (a : Unit → Search) : Search := do
  match ← a () with
  | some s => return some s
  | none =>
    if kept then modify (·.insert m)
    return none

/-- A search that is left out when `heeded` and an earlier failure of it is remembered, and whose
own failure is remembered if `kept`. -/
def remembering (heeded kept : Bool) (m : Mark) (a : Unit → Search) : Search := do
  if heeded && (← get).contains m then return none
  noting kept m a

end Search

/-- A choice between going on and stopping. -/
def Greed.choose (goOn stop : Unit → Search) : Greed → Search
  | .greedy => (goOn ()).orElse stop
  | .lazy => (stop ()).orElse goOn

/-- Where an expression stands in its pattern. -/
structure Site where
  /-- The way down to it, and the rounds on that way that are told apart. -/
  place : List Nat := []
  /-- What follows, up to the end of the rounds or of the lookaround around it, refers back to a
  group. -/
  refersAhead : Bool := false
  /-- Failures are remembered here. -/
  kept : Bool := true

namespace Site

/-- The site of a part, with what follows it there. -/
def part (site : Site) (n : Nat) (refers : Bool) : Site :=
  { site with place := n :: site.place, refersAhead := site.refersAhead || refers }

/-- The site of a part that is matched for itself. -/
def apart (site : Site) (n : Nat) : Site :=
  { site with place := n :: site.place, refersAhead := false }

end Site

/-- What stays the same throughout a search. -/
structure Setting where
  text : Text
  /-- Where matching began. -/
  start : Nat
  names : List (String × Nat)
  /-- The groups that are referred back to. -/
  targets : List Nat

namespace Setting

/-- No group is referred back to, so that matching goes on in the same way from an offset whatever
the groups hold. -/
def isPlain (g : Setting) : Bool := g.targets.isEmpty

/-- A round has moved on in the text, or has changed a group that is referred back to. -/
def progressed (before after : State) : Bool :=
  before.offset != after.offset || before.changes != after.changes

/-- Rounds of any expression, as many as are wanted up to a bound. -/
structure Loop where
  site : Site
  most : Option Nat
  greed : Greed
  /-- The body refers back to a group. -/
  refersBack : Bool
  /-- What is known without a search of whether the body can begin at an offset. -/
  mayBegin : Nat → Bool

namespace Loop

/-- A bounded number of rounds. -/
def isBounded (l : Loop) : Bool := l.most.isSome

/-- The place of the loop, once `done` rounds have been made. Bounded rounds are told apart, since
each leaves another number of them. -/
def place (l : Loop) (g : Setting) (done : Nat) : List Nat :=
  if l.isBounded && g.isPlain then done :: l.site.place else l.site.place

/-- The site of the body in the round that follows `done` others. -/
def body (l : Loop) (g : Setting) (done : Nat) : Site where
  place := 0 :: l.place g done
  refersAhead := false
  kept := g.isPlain || (l.site.kept && !l.isBounded)

/-- A failure to go on is remembered. -/
def keepsGoing (l : Loop) (g : Setting) : Bool :=
  g.isPlain || (l.site.kept && !l.isBounded && !l.refersBack && !l.site.refersAhead)

/-- A failure to stop is remembered. -/
def keepsStopping (l : Loop) : Bool := l.site.kept && !l.site.refersAhead

end Loop

/-- Rounds after `done` others, the last of which began at `since`. It goes on only if that round
progressed; `greed` tells which of going on and stopping is tried first. Before the first round a
failure to stop counts as one only if going on was a choice too. The first number bounds the rounds.
-/
def rounds (g : Setting) (step : Site → State → (State → Search) → Search) (l : Loop)
    (k : State → Search) : Nat → Nat → Option State → State → Search
  | 0, _, _, _ => .nothing
  | fuel + 1, done, since, s => do
    let memory ← get
    let onward : Mark := ⟨l.place g done, true, s.offset⟩
    let stopping : Mark := ⟨l.place g done, false, s.offset⟩
    let goes := since.all (progressed · s) && l.most.all (done < ·) &&
      !(l.keepsGoing g && memory.contains onward) && l.mayBegin s.offset
    let again := since.isSome || g.isPlain
    let stops := !(again && l.keepsStopping && memory.contains stopping)
    l.greed.choose
      (fun _ => if goes then
          Search.noting (l.keepsGoing g) onward fun _ =>
            step (l.body g done) s (rounds g step l k fuel (done + 1) (some s))
        else .nothing)
      (fun _ => if stops then
          Search.noting (l.keepsStopping && (again || goes)) stopping fun _ => k s
        else .nothing)

/-- A fixed number of copies of an expression, each with a site of its own; `refers` tells that a
copy refers back to a group, `further` that what comes after the copies does so for their sake. -/
def copies (step : Site → State → (State → Search) → Search) (refers further : Bool) (site : Site)
    (k : State → Search) : Nat → State → Search
  | 0, s => k s
  | n + 1, s =>
    step (site.part (n + 1) (refers && (n != 0 || further))) s
      (copies step refers further site k n)

/-- More rounds than any repetition can make: each one moves on in the text or sets a group. -/
def roundLimit (g : Setting) : Nat := (g.text.size + 2) * (g.targets.length + 2)

/-- Ends of a stretch of single characters, in the order in which they are tried. A failure at the
last of them is remembered only if `last`. -/
def ends (site : Site) (kept last : Bool) (s : State) (k : State → Search) : List Nat → Search
  | [] => .nothing
  | offset :: rest =>
    (Search.remembering kept (kept && (last || !rest.isEmpty)) ⟨site.place, false, offset⟩ fun _ =>
      k { s with offset := offset }).orElse fun _ => ends site kept last s k rest

/-- Single characters, at least `least` and at most `most` of them. -/
def characters (g : Setting) (set : CharSet) (fold : Bool) (least : Nat) (most : Option Nat)
    (greed : Greed) (site : Site) (d : Direction) (s : State) (k : State → Search) : Search :=
  let limit := match most with
    | some n => min n g.text.size
    | none => g.text.size
  let reached := stretch g.text d set fold limit s.offset [s.offset]
  let allowed := reached.take (reached.length - least)
  match greed with
  | .greedy => ends site (site.kept && !site.refersAhead) g.isPlain s k allowed
  | .lazy => Search.remembering g.isPlain g.isPlain ⟨site.place, true, s.offset⟩ fun _ =>
      ends site g.isPlain true s k allowed.reverse

end Setting

namespace Expr

/-- What is known without a search of whether an expression can begin at an offset, `after` being
known of what comes after it. Only single characters and anchors in front are looked at. -/
def mayBegin (g : Setting) (d : Direction) (offset : Nat) : Expr → Bool → Bool
  | empty, after => after
  | one set fold, _ => (d.next? g.text offset).any fun next => set.admits fold next.1
  | dot lineFeeds, _ => (d.next? g.text offset).any fun next => lineFeeds || next.1 != '\n'
  | cat a b, after =>
    match d with
    | .forward => a.mayBegin g d offset (b.mayBegin g d offset after)
    | .backward => b.mayBegin g d offset (a.mayBegin g d offset after)
  | group _ body, after => body.mayBegin g d offset after
  | times least most _ body, after =>
    if least = 0 || body.single?.isSome then true
    else body.mayBegin g d offset (most != some least || after)
  | anchor a, _ => a.holds g.text g.start offset
  | _, _ => true

/-- Tries the possibilities of an expression in order, each handed on to `k`. -/
def run (g : Setting) :
    Expr → Site → Direction → State → (State → Search) → Search
  | empty, _, _, s, k => k s
  | one set fold, _, d, s, k =>
    match d.next? g.text s.offset with
    | some (c, after) => if set.admits fold c then k { s with offset := after } else .nothing
    | none => .nothing
  | dot lineFeeds, _, d, s, k =>
    match d.next? g.text s.offset with
    | some (c, after) => if lineFeeds || c != '\n' then k { s with offset := after } else .nothing
    | none => .nothing
  | cat a b, site, d, s, k =>
    match d with
    | .forward =>
      a.run g (site.part 0 b.refersBack) d s fun s' => b.run g (site.part 1 false) d s' k
    | .backward =>
      b.run g (site.part 1 a.refersBack) d s fun s' => a.run g (site.part 0 false) d s' k
  | alt a b, site, d, s, k =>
    (a.run g (site.part 0 false) d s k).orElse fun _ => b.run g (site.part 1 false) d s k
  | group number body, site, d, s, k =>
    let counted := g.targets.contains number
    body.run g site d s fun s' => k (s'.capture counted number s.offset s'.offset)
  | backref target fold, _, d, s, k =>
    match captured? g.text g.names s d target with
    | some chars =>
      match readAll g.text d fold chars s.offset with
      | some after => k { s with offset := after }
      | none => .nothing
    | none => .nothing
  | times least most greed body, site, d, s, k =>
    match body.single? with
    | some (set, fold) => g.characters set fold least most greed site d s k
    | none =>
      let loop : Setting.Loop := {
        site := site.part 0 false
        most := most.map (· - least)
        greed := greed
        refersBack := body.refersBack
        mayBegin := fun offset => body.mayBegin g d offset true }
      let further := fun s =>
        if most = some least then k s
        else g.rounds (fun site s k => body.run g site d s k) loop k g.roundLimit 0 none s
      Setting.copies (fun site s k => body.run g site d s k) body.refersBack most.isNone site
        further least s
  | atomic body, site, d, s, k => do
    match ← body.run g (site.apart 0) d s fun s' => pure (some s') with
    | some s' => k s'
    | none => return none
  | look direction positive body, site, _, s, k => do
    match ← body.run g (site.apart 0) direction s fun s' => pure (some s') with
    | some s' => if positive then k { s' with offset := s.offset } else return none
    | none => if positive then return none else k s
  | anchor a, _, _, s, k => if a.holds g.text g.start s.offset then k s else .nothing

end Expr

end OrderedGrammar.Pattern

namespace OrderedGrammar

/-- Where the match that begins at an offset ends, if there is one. -/
def Pattern.matchAt (p : Pattern) (text : Text) (offset : Nat) : Option Nat :=
  if p.root.mayOpenAt text offset then
    let g : Pattern.Setting := ⟨text, offset, p.groupNames, p.root.targets p.groupNames⟩
    let found := p.root.run g {} .forward { offset := offset } fun s => pure (some s)
    (found.run {}).1.map (·.offset)
  else none

end OrderedGrammar
