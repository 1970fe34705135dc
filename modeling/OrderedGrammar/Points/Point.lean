import OrderedGrammar.Number.Binary64

/-!
Points of the plane with binary64 coordinates.
-/

namespace OrderedGrammar

/-- A point by its two coordinates. -/
structure Point where
  x : Binary64
  y : Binary64
  deriving DecidableEq

end OrderedGrammar
