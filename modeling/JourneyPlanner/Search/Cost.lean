import JourneyPlanner.Network.Edge
/-!
# What taking an edge costs
-/

namespace JourneyPlanner

/-- The event that a label used on a route edge. -/
structure UsedConnection where
  edge : EdgeId
  trip : Nat
  day : Nat
  category : CategoryId
  deriving DecidableEq, Repr

/-- The trip that a label rides, and the day on which it started. -/
structure Ride where
  trip : Nat
  day : Nat
  deriving DecidableEq, Repr

/-- The effect of taking one edge. -/
structure EdgeCost where
  /-- Minutes, with those of waiting. -/
  time : Nat := 0
  price : Nat := 0
  /-- A vehicle is boarded after an earlier one. -/
  transfer : Bool := false
  /-- The event used, on a route edge. -/
  connection : Option UsedConnection := none
  /-- What is ridden after the edge. -/
  ride : Option Ride := none
  /-- After the edge one is about to board. -/
  boarding : Bool := false
  /-- The edge is a night at a hotel. -/
  hotel : Bool := false
  deriving DecidableEq, Repr

end JourneyPlanner
