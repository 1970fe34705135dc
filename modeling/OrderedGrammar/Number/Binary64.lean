import OrderedGrammar.Text.Quoted

/-!
Numbers of the binary64 format, kept as their bits. `ofRatio` rounds a quotient of natural numbers
to the nearest such number, a tie going to the even significand and what is too large to infinity;
`magnitude` gives back the exact quotient of a finite number.
-/

namespace OrderedGrammar

/-- A number of the binary64 format: a sign bit, eleven bits of exponent, 52 bits of fraction. -/
structure Binary64 where
  bits : UInt64
  deriving DecidableEq

namespace Binary64

/-- The integer nearest to a quotient; a tie goes to the even one. -/
def roundToEven (num den : Nat) : Nat :=
  let q := num / den
  let r := num % den
  if 2 * r < den then q else if den < 2 * r then q + 1 else q + q % 2

/-- The bit that marks negative numbers. -/
def signBit (negative : Bool) : Nat := if negative then Nat.pow 2 63 else 0

/-- The bits of infinity without the sign; greater ones are no number. -/
def infinityBits : Nat := 0x7FF0000000000000

/-- Infinity of either sign. -/
def infinity (negative : Bool) : Binary64 := ⟨UInt64.ofNat (signBit negative + infinityBits)⟩

/-- The value that is no number, with a sign bit. -/
def nan (negative : Bool) : Binary64 := ⟨UInt64.ofNat (signBit negative + 0x7FF8000000000000)⟩

/-- The quotient `num / den` in units of `2 ^ e`, rounded. -/
def inUnits (num den : Nat) (e : Int) : Nat :=
  if e < 0 then roundToEven (num * Nat.pow 2 (-e).toNat) den
  else roundToEven num (den * Nat.pow 2 e.toNat)

/-- The exponent of the unit in which a quotient has 53 binary digits, or the least exponent there
is. -/
def unitExponent (num den : Nat) : Int :=
  let e : Int := (num.log2 : Int) - den.log2 - 52
  let tooLarge := if e < 0 then num * Nat.pow 2 (-e).toNat < den * Nat.pow 2 52
    else num < den * Nat.pow 2 e.toNat * Nat.pow 2 52
  max (if tooLarge then e - 1 else e) (-1074)

/-- The number nearest to `num / den`. The count of units is added to the exponent field, so a count
that rounds up to the next power of two carries into it. -/
def ofRatio (negative : Bool) (num den : Nat) : Binary64 :=
  if num = 0 then ⟨UInt64.ofNat (signBit negative)⟩
  else
    let e := unitExponent num den
    let magnitude := (e + 1074).toNat * Nat.pow 2 52 + inUnits num den e
    ⟨UInt64.ofNat (signBit negative + min magnitude infinityBits)⟩

/-- The sign bit is set. -/
def isNegative (x : Binary64) : Bool := Nat.pow 2 63 ≤ x.bits.toNat

/-- The bits without the sign. -/
def magnitudeBits (x : Binary64) : Nat := x.bits.toNat % Nat.pow 2 63

/-- Infinity of either sign. -/
def isInfinite (x : Binary64) : Bool := x.magnitudeBits == infinityBits

/-- No number at all. -/
def isNaN (x : Binary64) : Bool := infinityBits < x.magnitudeBits

/-- The absolute value of a finite number as a quotient. -/
def magnitude (x : Binary64) : Nat × Nat :=
  let exponent := x.magnitudeBits / Nat.pow 2 52
  let fraction := x.magnitudeBits % Nat.pow 2 52
  let units := if exponent = 0 then fraction else Nat.pow 2 52 + fraction
  let e : Int := (max exponent 1 : Nat) - 1075
  if e < 0 then (units, Nat.pow 2 (-e).toNat) else (units * Nat.pow 2 e.toNat, 1)

/-- The bits in sixteen hexadecimal digits. -/
def hex (x : Binary64) : String := String.ofList (Text.hexDigits 16 x.bits.toNat)

end Binary64

end OrderedGrammar
