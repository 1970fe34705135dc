import OrderedGrammar.Number.Binary64

/-!
Decimal numbers read from text: a sign, digits with a point, and a power of ten, or one of the names
of infinity and of the value that is no number. White space around the number is dropped, digits of
any alphabet count, and single underscores may stand between digits. The value is rounded once, to
the nearest number of the binary64 format.
-/

namespace OrderedGrammar.Decimal

open OrderedGrammar.Text

/-- The value of a decimal digit: digits of one alphabet stand in order, and a run of digits starts
with a zero. -/
def digitValue (c : Char) : Nat :=
  if isAscii c then c.toNat - '0'.toNat
  else (c.toNat - (Category.runOf c.toNat).first) % 10

/-- A digit of any alphabet written in ASCII; other characters stay as they are. -/
def toAsciiDigit (c : Char) : Char :=
  if isDecimalDigit c then Nat.digitChar (digitValue c) else c

/-- The text without white space at its ends; an information separator is none. -/
def trim (s : List Char) : List Char :=
  ((s.dropWhile isWhiteSpace).reverse.dropWhile isWhiteSpace).reverse

/-- The text without its underscores, each of which must stand between digits. -/
def dropUnderscores (previous : Char) : List Char → Option (List Char)
  | [] => if previous = '_' then none else some []
  | c :: rest =>
    if c = '_' then
      if previous.isDigit then dropUnderscores c rest else none
    else if previous = '_' && !c.isDigit then none
    else (dropUnderscores c rest).map (c :: ·)

/-- A sign that may be missing. -/
def takeSign : List Char → Bool × List Char
  | '-' :: rest => (true, rest)
  | '+' :: rest => (false, rest)
  | rest => (false, rest)

/-- The number that digits stand for. -/
def ofDigits (digits : List Char) : Nat :=
  digits.foldl (fun n c => 10 * n + (c.toNat - '0'.toNat)) 0

/-- The power of ten after the digits: none, or a letter and digits with a sign. -/
def exponent? : List Char → Option Int
  | [] => some 0
  | letter :: rest =>
    let (negative, digits) := takeSign rest
    if (letter = 'e' || letter = 'E') && !digits.isEmpty && digits.all Char.isDigit then
      some (if negative then -(ofDigits digits : Int) else ofDigits digits)
    else none

/-- The digits, how many of them follow the point, and what is left. -/
def takeMantissa (s : List Char) : List Char × Nat × List Char :=
  let (whole, rest) := s.span Char.isDigit
  match rest with
  | '.' :: more =>
    let (fraction, rest) := more.span Char.isDigit
    (whole ++ fraction, fraction.length, rest)
  | _ => (whole, 0, rest)

/-- The number `digits * 10 ^ scale`. Beyond any number of the format it is infinite, and below half
of the least one it is zero, whatever the digits. -/
def scaled (negative : Bool) (digits : List Char) (scale : Int) : Binary64 :=
  let n := ofDigits digits
  let order : Int := (digits.dropWhile (· == '0')).length + scale
  if n = 0 then .ofRatio negative 0 1
  else if 400 < order then .infinity negative
  else if order < -400 then .ofRatio negative 0 1
  else if scale < 0 then .ofRatio negative n (Nat.pow 10 (-scale).toNat)
  else .ofRatio negative (n * Nat.pow 10 scale.toNat) 1

/-- The number without its sign. -/
def unsigned? (negative : Bool) (s : List Char) : Option Binary64 :=
  match String.ofList (s.map Char.toLower) with
  | "inf" => some (.infinity negative)
  | "infinity" => some (.infinity negative)
  | "nan" => some (.nan negative)
  | _ =>
    let (digits, places, rest) := takeMantissa s
    if digits.isEmpty then none
    else (exponent? rest).map fun e => scaled negative digits (e - places)

/-- The number that a text stands for, if it is one. -/
def read? (s : String) : Option Binary64 := do
  let chars ← dropUnderscores ' ' ((trim s.toList).map toAsciiDigit)
  let (negative, rest) := takeSign chars
  unsigned? negative rest

end OrderedGrammar.Decimal
