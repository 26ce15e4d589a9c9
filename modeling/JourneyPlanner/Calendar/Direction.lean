/-!
# Directions through time
-/

namespace JourneyPlanner

/-- Which way a search moves through time: forward from a departure, or backward from an arrival. -/
inductive Direction where
  | forward
  | backward
  deriving DecidableEq, Repr, Inhabited

namespace Direction

/-- The other way. -/
def reverse : Direction → Direction
  | forward => backward
  | backward => forward

@[simp] theorem reverse_reverse (d : Direction) : d.reverse.reverse = d := by cases d <;> rfl

end Direction

end JourneyPlanner
