import OrderedGrammar.Matching.Entry
import OrderedGrammar.Points.Symbol

/-!
The grammar of point lists, the value of the `points` attribute of SVG polygons: pairs of numbers
with blanks and at most one comma between numbers. A number with a minus sign may follow the one
before it directly. Longer alternatives come first, since the first that matches is taken; lists are
repetitions, so long texts do not nest.
-/

namespace OrderedGrammar.Points

open Validator

variable [Regex]

/-- The rule, any number of times. -/
def anyOf (rule : String) : Validator := quantified (ref rule) .zeroOrMore

/-- The rule, at least once. -/
def someOf (rule : String) : Validator := quantified (ref rule) .oneOrMore

/-- The rule or nothing. -/
def maybe (rule : String) : Validator := quantified (ref rule) .zeroOrOne

variable [Symbols]

/-- A single character. -/
def one (symbol : Symbol) : Validator := terminal symbol.terminal

/-- Blanks around an optional list of pairs. -/
def listRules : List (String × List Validator) := [
  ("list_of_points", [
    sequence [anyOf "wsp", maybe "coordinate_pairs", anyOf "wsp"]]),
  ("coordinate_pairs", [
    sequence [ref "coordinate_pair",
      quantified (sequence [ref "comma_wsp", ref "coordinate_pair"]) .zeroOrMore]]),
  ("coordinate_pair", [
    sequence [ref "coordinate", ref "comma_wsp", ref "coordinate"],
    sequence [ref "coordinate", ref "negative_coordinate"]])]

/-- Numbers with a sign; fractions and exponents are tried before plain integers. -/
def coordinateRules : List (String × List Validator) := [
  ("coordinate", [ref "number"]),
  ("number", [
    sequence [maybe "sign", ref "floating_point_constant"],
    sequence [maybe "sign", ref "integer_constant"]]),
  ("negative_coordinate", [
    sequence [one .minusSign, ref "floating_point_constant"],
    sequence [one .minusSign, ref "integer_constant"]])]

/-- Blanks with at most one comma among them, but not nothing. -/
def separatorRules : List (String × List Validator) := [
  ("comma_wsp", [
    sequence [someOf "wsp", maybe "comma", anyOf "wsp"],
    sequence [ref "comma", anyOf "wsp"]]),
  ("comma", [one .commaSign])]

/-- The parts of a number. -/
def numberRules : List (String × List Validator) := [
  ("integer_constant", [ref "digit_sequence"]),
  ("floating_point_constant", [
    sequence [ref "fractional_constant", maybe "exponent"],
    sequence [ref "digit_sequence", ref "exponent"]]),
  ("fractional_constant", [
    sequence [maybe "digit_sequence", one .decimalPoint, ref "digit_sequence"],
    sequence [ref "digit_sequence", one .decimalPoint]]),
  ("exponent", [sequence [one .exponentLetter, maybe "sign", ref "digit_sequence"]]),
  ("sign", [one .signCharacter]),
  ("digit_sequence", [someOf "digit"]),
  ("digit", [one .digitCharacter])]

/-- The four blanks. -/
def blankRules : List (String × List Validator) := [
  ("wsp", [one .space, one .tab, one .carriageReturn, one .lineFeed])]

/-- The grammar of point lists. -/
def grammar : Grammar :=
  ⟨"list_of_points", listRules ++ coordinateRules ++ separatorRules ++ numberRules ++ blankRules⟩

end OrderedGrammar.Points
