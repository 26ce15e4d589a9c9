import JourneyPlanner.Bounded
import JourneyPlanner.Query.Graph
import JourneyPlanner.Storage.BucketQueue
/-!
# Lower bounds

For every node, the least that is still to come before the goal: minutes, boardings and price, each
along its own best path and without regard to the time of day. The bounds are distances to the goal in
the direction of the search. They spread out from the goal, against that direction: of the nodes on an
agenda the nearest is taken, and every node that an edge leads from to it is reached anew. A node that
comes nearer so goes on the agenda again; what it left there before has been overtaken, and is passed
over when its turn comes. A node that cannot reach the goal, or only at a distance past every number,
keeps the ceiling as its bound.
-/

namespace JourneyPlanner

/-- The three bounds of every node. -/
structure LowerBounds where
  minutes : Array Nat
  boardings : Array Nat
  price : Array Nat

namespace LowerBounds

open Bounded

/-- The distance of a node, or the ceiling where there is no such node. -/
def distanceAt (distances : Array Nat) (node : NodeId) : Nat := distances[node]?.getD ceiling

/-- A node on the agenda, with the distance at which it was put there. -/
structure Entry where
  distance : Nat
  node : NodeId
  deriving DecidableEq, Repr

/-- The nearer entry goes first, of two as near the one with the lesser node. -/
def Entry.order (a b : Entry) : Ordering :=
  (compare a.distance b.distance).then (compare a.node b.node)

/-- The distances as far as they have spread, and the nodes from which they have yet to go on, in the
order in which they are taken. -/
structure Spread where
  distances : Array Nat
  agenda : List Entry

namespace Spread

/-- At first the goal alone has been reached. -/
def opening (nodes : Nat) (goal : NodeId) : Spread :=
  { distances := (Array.replicate nodes ceiling).setIfInBounds goal 0, agenda := [⟨0, goal⟩] }

/-- A node is reached at a distance. If that is nearer than before, it is on the agenda once more. -/
def reach (s : Spread) (node : NodeId) (distance : Nat) : Spread :=
  if node < s.distances.size ∧ distance < distanceAt s.distances node then
    { distances := s.distances.setIfInBounds node distance
      agenda := BucketQueue.insertSorted Entry.order ⟨distance, node⟩ s.agenda }
  else s

section Turns

variable (graph : QueryGraph) (direction : Direction) (weight : EdgeKind → Nat)

/-- Reaches the nodes from which an edge leads to the node of an entry. -/
def expand (s : Spread) (entry : Entry) : Spread :=
  (graph.edgesAt entry.node direction.reverse).foldl
    (fun s ref => s.reach (graph.target ref direction.reverse)
      (add entry.distance (weight (graph.edge ref).kind))) s

/-- Takes the first entry off the agenda, and goes on from there unless it has been overtaken. -/
def turn (s : Spread) : Spread :=
  match s.agenda with
  | [] => s
  | entry :: rest =>
    let s := { s with agenda := rest }
    if distanceAt s.distances entry.node < entry.distance then s
    else s.expand graph direction weight entry

/-- Takes turns until the agenda is empty, at most so many. -/
def settle : Nat → Spread → Spread
  | 0, s => s
  | turns + 1, s => if s.agenda.isEmpty then s else settle turns (s.turn graph direction weight)

end Turns

/-- More turns than there can be: a turn takes one entry off the agenda, and for every entry that goes
on it some node comes nearer. -/
def allowance (s : Spread) : Nat := 2 * s.distances.toList.foldr (· + ·) 0 + s.agenda.length

end Spread

/-- How the distances of all nodes to `goal` have spread in the end. -/
def spread (graph : QueryGraph) (goal : NodeId) (direction : Direction) (weight : EdgeKind → Nat) :
    Spread :=
  let opening := Spread.opening graph.timetable.nodes.size goal
  opening.settle graph direction weight opening.allowance

/-- The distance of every node to `goal`. -/
def distances (graph : QueryGraph) (goal : NodeId) (direction : Direction)
    (weight : EdgeKind → Nat) : Array Nat :=
  (spread graph goal direction weight).distances

/-- The least minutes that an edge takes. -/
def minutesOf : EdgeKind → Nat
  | .route legs => EdgeKind.minDuration legs
  | .enter | .exit | .through _ => 0
  | .foot duration _ => duration
  | .mumo ride => ride.duration
  | .hotel stay => stay.minStay

/-- One for an edge by which a vehicle is boarded in a direction. -/
def boardingsOf (direction : Direction) : EdgeKind → Nat
  | .enter => if direction = .forward then 1 else 0
  | .exit => if direction = .backward then 1 else 0
  | _ => 0

/-- The least price of an edge. -/
def priceOf (tt : Timetable) : EdgeKind → Nat
  | .route legs => (legs.toList.map fun leg => (tt.info leg.info).price).min?.getD 0
  | .enter | .exit | .through _ => 0
  | .foot _ price => price
  | .mumo ride => ride.price
  | .hotel stay => stay.price

/-- The bounds towards `goal` for a search in `direction`. -/
def compute (graph : QueryGraph) (goal : NodeId) (direction : Direction) : LowerBounds :=
  { minutes := distances graph goal direction minutesOf
    boardings := distances graph goal direction (boardingsOf direction)
    price := distances graph goal direction (priceOf graph.timetable) }

/-- The least minutes from a node to the goal. -/
def minutesAt (bounds : LowerBounds) (node : NodeId) : Nat := distanceAt bounds.minutes node

/-- The least number of vehicles to board between a node and the goal. -/
def boardingsAt (bounds : LowerBounds) (node : NodeId) : Nat := distanceAt bounds.boardings node

/-- The least price from a node to the goal. -/
def priceAt (bounds : LowerBounds) (node : NodeId) : Nat := distanceAt bounds.price node

/-- Whether the goal can be reached from a node. -/
def isReachable (bounds : LowerBounds) (node : NodeId) : Bool := bounds.minutesAt node != ceiling

end LowerBounds

end JourneyPlanner
