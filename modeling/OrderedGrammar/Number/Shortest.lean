import OrderedGrammar.Number.Layout

/-!
Numbers shown in full. A number is written with the fewest digits that read back as the same number,
and among those with the digits nearest to it, a tie going to the even digit. Whole numbers show a
point and a zero, so that they are told from integers; an exponent is written below the power -4 and
from 16 on.
-/

namespace OrderedGrammar.Shortest

/-- Sixteen digits stand before the point at most. -/
def layout : Layout := ⟨-4, 16, true⟩

/-- Seventeen digits tell any two numbers of the format apart. -/
def enough : Nat := 17

/-- The decimal fraction of a number of the format ends within so many places. -/
def places : Nat := 1074

/-- The quotient `num / den` times `10 ^ shift`, as a quotient. -/
def shifted (num den : Nat) (shift : Int) : Nat × Nat :=
  if shift < 0 then (num, den * Nat.pow 10 (-shift).toNat) else (num * Nat.pow 10 shift.toNat, den)

/-- Whether `n * 10 ^ -shift` reads back as the number nearest to `num / den`. -/
def readsBack (num den : Nat) (shift : Int) (n : Nat) : Bool :=
  let (p, q) := shifted n 1 (-shift)
  Binary64.ofRatio false p q == Binary64.ofRatio false num den

/-- The two integers around `num / den * 10 ^ shift`, the nearer one first. -/
def neighbours (num den : Nat) (shift : Int) : List Nat :=
  let (p, q) := shifted num den shift
  if Binary64.roundToEven p q = p / q then [p / q, p / q + 1] else [p / q + 1, p / q]

/-- The integer of so many digits that reads back, if there is one. -/
def ofLength? (num den : Nat) (x : Int) (length : Nat) : Option (Nat × Int) :=
  let shift : Int := (length : Int) - 1 - x
  ((neighbours num den shift).find? (readsBack num den shift)).map (·, shift)

/-- The integer of the fewest digits that reads back, with the power of ten it is taken times. Were
there none, the exact value would be written. -/
def shortest (num den : Nat) : Nat × Int :=
  let x := Layout.order num den
  let lengths := (List.range enough).map (· + 1)
  (lengths.findSome? (ofLength? num den x)).getD (num * Nat.pow 10 places / den, places)

/-- The fewest digits of a quotient other than zero, with the power of ten of the first. -/
def digits (num den : Nat) : List Char × Int :=
  let (n, shift) := shortest num den
  let shown := Nat.toDigits 10 n
  (shown, (shown.length : Int) - 1 - shift)

/-- The number as it is shown. -/
def render (x : Binary64) : String := layout.render digits x

end OrderedGrammar.Shortest
