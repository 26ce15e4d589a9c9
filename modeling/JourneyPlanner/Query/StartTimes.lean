import JourneyPlanner.Network.Window
import JourneyPlanner.Query.Graph
/-!
# Start times

When a traveller may leave the origin. On a trip there is one such time. Before a trip there is one for
every vehicle that leaves the origin within the interval, and one for every vehicle that leaves a
station one walk away, set back by the time of the walk; backward, likewise with arrivals at the
destination. The times are ascending and distinct.
-/

namespace JourneyPlanner

namespace Timetable

/-- The events of a route edge met in `[begin, finish)` on the days of the schedule. -/
def window (tt : Timetable) (legs : Array Leg) (begin finish : Time) (direction : Direction) :
    Window :=
  Window.make legs begin finish direction tt.period.days

/-- The node of the vehicle that an edge boards, in a direction. -/
def boardedNode? (edge : Edge) : Direction → Option NodeId
  | .forward => match edge.kind with
    | .enter => some edge.head
    | _ => none
  | .backward => match edge.kind with
    | .exit => some edge.tail
    | _ => none

/-- The route edges to go on by from a node. -/
def ridesAt (tt : Timetable) (node : NodeId) (direction : Direction) : List (Array Leg) :=
  (tt.edgesAt node direction).filterMap fun id =>
    match (tt.edge id).kind with
    | .route legs => some legs
    | _ => none

/-- Departures, or backward arrivals, of the vehicles at a station in `[begin, finish]`. -/
def stationTimes (tt : Timetable) (station : NodeId) (begin finish : Time)
    (direction : Direction) : List Time :=
  (tt.edgesAt station direction).flatMap fun id =>
    match boardedNode? (tt.edge id) direction with
    | none => []
    | some node =>
      (tt.ridesAt node direction).flatMap fun legs =>
        (tt.window legs begin (Bounded.add finish 1) direction).events.map
          fun event => event.key direction

end Timetable

namespace EdgeKind

/-- How long a walk takes that can be set out on at any time; none for other edges. -/
def anytimeWalk? : EdgeKind → Option Nat
  | foot duration _ => some duration
  | mumo ride => if ride.window.isNone then some ride.duration else none
  | _ => none

end EdgeKind

namespace QueryGraph

/-- The times at which one may set out on a walk of `minutes` to the station `other` so as to take a
vehicle there without waiting. -/
def walkTimes (graph : QueryGraph) (other : NodeId) (minutes : Nat) (begin finish : Time) :
    Direction → List Time
  | .forward =>
    match Bounded.add? begin minutes, Bounded.add? finish minutes with
    | some first, some last =>
      (graph.timetable.stationTimes other first last .forward).filterMap
        (Bounded.sub? · minutes)
    | _, _ => []
  | .backward =>
    match Bounded.sub? finish minutes with
    | some last =>
      (graph.timetable.stationTimes other (begin - minutes) last .backward).filterMap
        (Bounded.add? · minutes)
    | none => []

/-- The times found by way of one edge at the origin. -/
def edgeTimes (graph : QueryGraph) (begin finish : Time) (direction : Direction) (ref : EdgeRef) :
    List Time :=
  match (graph.edge ref).kind.anytimeWalk? with
  | some minutes => graph.walkTimes (graph.target ref direction) minutes begin finish direction
  | none => []

/-- Removes repetitions that stand next to each other. -/
def dropRepeats : List Time → List Time
  | first :: second :: rest =>
    if first = second then dropRepeats (second :: rest) else first :: dropRepeats (second :: rest)
  | times => times

/-- The start times at `origin` for the interval `[begin, finish]`. -/
def startTimes (graph : QueryGraph) (origin : NodeId) (begin finish : Time) (tripType : TripType)
    (direction : Direction) : List Time :=
  match tripType, direction with
  | .onTrip, .forward => [begin]
  | .onTrip, .backward => [finish]
  | .preTrip, _ =>
    let here := graph.timetable.stationTimes origin begin finish direction
    let nearby := (graph.edgesAt origin direction).flatMap
      (graph.edgeTimes begin finish direction)
    dropRepeats ((here ++ nearby).mergeSort fun a b => decide (a ≤ b))

end QueryGraph

end JourneyPlanner
