import JourneyPlanner.Calendar.Direction
import JourneyPlanner.Calendar.Period
import JourneyPlanner.Network.Edge
import JourneyPlanner.Network.StationId
/-!
# Timetables

A `Timetable` is the finished graph with the tables its edges refer to. It is only read: the edges at
a node in either direction, the data of a trip, the time a change of vehicle takes. Look-ups are total;
a position beyond a table gives an empty entry, and no timetable that was built from valid parts ever
asks for one.
-/

namespace JourneyPlanner

/-- How long a change takes at a station from a vehicle of one category to one of another. -/
structure InterchangeRule where
  arriving : CategoryId
  departing : CategoryId
  minutes : Nat
  deriving DecidableEq, Repr

/-- A station. -/
structure Station where
  id : StationId
  name : String
  /-- Minutes that a change takes where no rule says otherwise. -/
  transferTime : Nat
  /-- At most one rule for each pair of categories. -/
  rules : List InterchangeRule
  node : NodeId

namespace Station

/-- Minutes that a change between two categories takes. -/
def interchangeTime (station : Station) (arriving departing : CategoryId) : Nat :=
  match station.rules.find? fun r => r.arriving == arriving && r.departing == departing with
  | some rule => rule.minutes
  | none => station.transferTime

/-- The station with a rule added; a rule for the same categories gives way to it. -/
def setRule (station : Station) (rule : InterchangeRule) : Station :=
  { station with
    rules := rule :: station.rules.filter fun r =>
      !(r.arriving == rule.arriving && r.departing == rule.departing) }

end Station

/-- A node: a station itself, or a stop of a route there. -/
inductive Node where
  | station (station : StationIndex)
  | route (station : StationIndex) (route : RouteId)
  deriving DecidableEq, Repr, Inhabited

/-- The station that a node belongs to. -/
def Node.stationIndex : Node → StationIndex
  | station s | route s _ => s

/-- The finished graph. -/
structure Timetable where
  period : Period
  stations : Array Station
  nodes : Array Node
  edges : Array Edge
  /-- For each node the edges that leave it, ascending. -/
  outEdges : Array (List EdgeId)
  /-- For each node the edges that enter it, ascending. -/
  inEdges : Array (List EdgeId)
  infos : Array TripInfo
  categories : Array String
  tracks : Array String

namespace Timetable

/-- The position of the station with an identifier. A text that is no identifier names none. -/
def stationIndex? (tt : Timetable) (id : String) : Option StationIndex :=
  tt.stations.findIdx? fun s => s.id.text == id

/-- The node of the station with an identifier. -/
def stationNode? (tt : Timetable) (id : String) : Option NodeId := do
  return (← tt.stations[← tt.stationIndex? id]?).node

/-- The node at a position. -/
def node (tt : Timetable) (id : NodeId) : Node := tt.nodes[id]?.getD default

/-- The edge at a position. -/
def edge (tt : Timetable) (id : EdgeId) : Edge := tt.edges[id]?.getD default

/-- The station at a node, if the node is there. -/
def stationAt? (tt : Timetable) (id : NodeId) : Option Station :=
  tt.stations[(tt.node id).stationIndex]?

/-- The edges to go on from a node: those that leave it, or, against the direction of travel, those
that enter it. -/
def edgesAt (tt : Timetable) (id : NodeId) : Direction → List EdgeId
  | .forward => tt.outEdges[id]?.getD []
  | .backward => tt.inEdges[id]?.getD []

/-- The description of a trip. -/
def info (tt : Timetable) (id : InfoId) : TripInfo := tt.infos[id]?.getD default

/-- The name of a category. -/
def categoryName (tt : Timetable) (id : CategoryId) : String := tt.categories[id]?.getD ""

/-- The name of a track. -/
def trackName (tt : Timetable) (id : TrackId) : String := tt.tracks[id]?.getD ""

/-- Minutes that a change takes at the station of a node. -/
def interchangeTime (tt : Timetable) (id : NodeId) (arriving departing : CategoryId) : Nat :=
  match tt.stationAt? id with
  | some station => station.interchangeTime arriving departing
  | none => 0

end Timetable

end JourneyPlanner
