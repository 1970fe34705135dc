import OrderedGrammar.Number.Binary64

/-!
How the digits of a number are laid out: with a point among them while its power of ten is moderate,
otherwise with an exponent of at least two digits. Zeros at the end of the fraction are left out.
The decisions in which two formats may differ are the fields of `Layout`.
-/

namespace OrderedGrammar

/-- The decisions of a format of numbers. -/
structure Layout where
  /-- The least power of ten of the first digit that is written without an exponent. -/
  leastPositional : Int
  /-- The powers of ten from here on are written with an exponent. -/
  leastExponential : Int
  /-- A number without a fraction shows a point and a zero unless it has an exponent. -/
  marksWhole : Bool
  deriving DecidableEq

namespace Layout

/-- The least `k` up to a bound for which `num * 10 ^ k` reaches `den`. -/
def firstPower (num den : Nat) : Nat → Nat → Nat
  | 0, k => k
  | fuel + 1, k => if den ≤ num * Nat.pow 10 k then k else firstPower num den fuel (k + 1)

/-- The power of ten of the first digit of a quotient other than zero. -/
def order (num den : Nat) : Int :=
  if den ≤ num then ((Nat.toDigits 10 (num / den)).length : Int) - 1
  else -(firstPower num den 400 1 : Int)

/-- Digits without zeros at the end. -/
def dropTrailingZeros (s : List Char) : List Char := (s.reverse.dropWhile (· == '0')).reverse

/-- A whole part and a fraction, with a point if there is a fraction. -/
def withPoint (whole fraction : List Char) : List Char :=
  match dropTrailingZeros fraction with
  | [] => whole
  | digits => whole ++ '.' :: digits

/-- An exponent with its sign and at least two digits. -/
def exponentText (x : Int) : List Char :=
  'e' :: (if x < 0 then '-' else '+') :: (Nat.toDigits 10 x.natAbs).leftpad 2 '0'

/-- The whole part and the fraction of digits whose first has the power of ten `x`. -/
def parts (digits : List Char) (x : Int) : List Char × List Char :=
  if x < 0 then (['0'], List.replicate ((-x).toNat - 1) '0' ++ digits)
  else
    let places := x.toNat + 1
    (digits.take places ++ List.replicate (places - digits.length) '0', digits.drop places)

/-- Digits whose first has the power of ten `x`, laid out. -/
def place (layout : Layout) (digits : List Char) (x : Int) : List Char :=
  if x < layout.leastPositional ∨ layout.leastExponential ≤ x then
    withPoint (digits.take 1) (digits.drop 1) ++ exponentText x
  else
    let (whole, fraction) := parts digits x
    let body := withPoint whole fraction
    if layout.marksWhole && body.length == whole.length then body ++ ['.', '0'] else body

/-- A number without its sign; `digits` gives the digits of a quotient other than zero and the power
of ten of the first. -/
def unsigned (layout : Layout) (digits : Nat → Nat → List Char × Int) (x : Binary64) : List Char :=
  if x.isNaN then "nan".toList
  else if x.isInfinite then "inf".toList
  else
    let (num, den) := x.magnitude
    if num = 0 then layout.place ['0'] 0
    else
      let (shown, order) := digits num den
      layout.place shown order

/-- A number with its sign; the value that is no number has none. -/
def render (layout : Layout) (digits : Nat → Nat → List Char × Int) (x : Binary64) : String :=
  let body := layout.unsigned digits x
  String.ofList (if x.isNegative && !x.isNaN then '-' :: body else body)

end Layout

end OrderedGrammar
