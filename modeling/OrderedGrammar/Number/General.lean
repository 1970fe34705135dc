import OrderedGrammar.Number.Layout

/-!
Numbers shown for reading. A number is rounded to six significant digits, a tie going to the even
digit; it is written with a point when its power of ten lies between -4 and 5, and with an exponent
otherwise. A whole number has no point.
-/

namespace OrderedGrammar.General

/-- How many digits are kept. -/
def significant : Nat := 6

/-- An exponent is written where the digits kept would not reach the point. -/
def layout : Layout := ⟨-4, significant, false⟩

/-- The quotient rounded to the significant digits, as an integer with the power of its first
digit. -/
def rounded (num den : Nat) : Nat × Int :=
  let x := Layout.order num den
  let shift : Int := (significant : Int) - 1 - x
  let n := if shift < 0 then Binary64.roundToEven num (den * Nat.pow 10 (-shift).toNat)
    else Binary64.roundToEven (num * Nat.pow 10 shift.toNat) den
  if n = Nat.pow 10 significant then (Nat.pow 10 (significant - 1), x + 1) else (n, x)

/-- The digits kept of a quotient, with the power of the first. -/
def digits (num den : Nat) : List Char × Int :=
  let (n, x) := rounded num den
  (Nat.toDigits 10 n, x)

/-- The number as it is shown. -/
def render (x : Binary64) : String := layout.render digits x

end OrderedGrammar.General
