import Mathlib
import OrderedGrammar.Pattern.Library

/-!
Patterns that take one character of a set. Such a pattern matches where the next character belongs
to the set, and takes it; it never matches empty.
-/

namespace OrderedGrammar

namespace Pattern

/-- The set tells by itself where the pattern may begin. -/
def PlainSet (set : CharSet) : Prop :=
  (Expr.one set false).openingSet? = none ∨ (Expr.one set false).openingSet? = some (set, false)

theorem run_one (g : Setting) (set : CharSet) (site : Site) (s : State) (k : State → Search) :
    (Expr.one set false).run g site .forward s k =
      match g.text[s.offset]? with
      | some c => if set.contains c then k { s with offset := s.offset + 1 } else .nothing
      | none => .nothing := by
  rw [Expr.run, Direction.next?]
  cases g.text[s.offset]? <;> rfl

theorem matchAt_oneOf {set : CharSet} (plain : PlainSet set) (text : Text) (offset : Nat) :
    (Points.oneOf set).matchAt text offset =
      if text[offset]?.any set.contains then some (offset + 1) else none := by
  have opens : (Expr.one set false).mayOpenAt text offset = true ∨
      (Expr.one set false).mayOpenAt text offset = text[offset]?.any set.contains := by
    unfold Expr.mayOpenAt
    rcases plain with h | h
    · exact Or.inl (by rw [h])
    · exact Or.inr (by rw [h]; rfl)
  unfold Pattern.matchAt Points.oneOf
  simp only [run_one]
  cases hc : text[offset]? with
  | none => simp [Search.nothing, StateT.run, pure, StateT.pure]
  | some c =>
    rw [hc] at opens
    by_cases hs : set.contains c = true
    · simp_all [StateT.run, pure, StateT.pure]
    · simp_all [Search.nothing, StateT.run, pure, StateT.pure]

end Pattern

end OrderedGrammar
