import JourneyPlanner.Calendar.Clock
import JourneyPlanner.Network.DayMask
/-!
# The edges of a timetable

A timetable is a graph. A station has one node of its own and one more for every stop of a route
there. Between the stops of a route lie route edges, which hold one `Leg` for every trip; entering and
leaving a vehicle are edges between the two sorts of nodes; a vehicle that goes on under another route
has a through edge; and between station nodes one walks, rides something unscheduled, or spends the
night.
-/

namespace JourneyPlanner

/-- A position in the list of nodes. -/
abbrev NodeId := Nat

/-- A position in the list of edges. -/
abbrev EdgeId := Nat

/-- A position in the list of stations. -/
abbrev StationIndex := Nat

/-- A position in the list of routes. -/
abbrev RouteId := Nat

/-- A position in the list of vehicle categories. -/
abbrev CategoryId := Nat

/-- A position in the list of track names. -/
abbrev TrackId := Nat

/-- A position in the list of trip descriptions. -/
abbrev InfoId := Nat

/-- Something a vehicle offers, such as room for bicycles. -/
structure ServiceAttribute where
  code : String
  text : String
  deriving DecidableEq, Repr

/-- What all legs of one trip have in common. -/
structure TripInfo where
  category : CategoryId
  trainNumber : Nat
  line : String
  attributes : List ServiceAttribute
  /-- What riding one route edge costs. -/
  price : Nat
  deriving DecidableEq, Repr, Inhabited

/-- One trip over one route edge. Times are minutes from midnight of the day on which the trip
started, so those of the following night are greater than a day. -/
structure Leg where
  departure : Nat
  arrival : Nat
  info : InfoId
  days : DayMask
  departureTrack : Option TrackId
  arrivalTrack : Option TrackId
  deriving DecidableEq, Inhabited

/-- Minutes of riding. -/
def Leg.duration (leg : Leg) : Nat := leg.arrival - leg.departure

/-- When an unscheduled ride may set out. -/
inductive RideWindow where
  /-- At a time in `[begin, finish)`. -/
  | absolute (begin finish : Time)
  /-- At a minute of the day in `[begin, finish)`, every day. -/
  | daily (begin finish : Nat)
  deriving DecidableEq, Repr

/-- An unscheduled ride, such as a taxi or a hired bicycle. -/
structure Mumo where
  id : Nat
  name : String
  duration : Nat
  price : Nat
  window : Option RideWindow
  deriving DecidableEq, Repr

/-- A night's stay. -/
structure Hotel where
  /-- The minute of the day at which guests leave. -/
  checkout : Nat
  minStay : Nat
  price : Nat
  deriving DecidableEq, Repr

/-- What an edge is. -/
inductive EdgeKind where
  /-- From one stop of a route to the next; the leg at position `i` belongs to trip `i`. -/
  | route (legs : Array Leg)
  /-- From a station into its vehicles. -/
  | enter
  /-- From a vehicle out to the station. -/
  | exit
  /-- From the last stop of a route to the first of another: position `i` holds the trip that
  continues trip `i`. -/
  | through (trips : List (Option Nat))
  /-- On foot. -/
  | foot (duration price : Nat)
  | mumo (ride : Mumo)
  | hotel (stay : Hotel)
  deriving Inhabited

/-- An edge of the graph, in the direction of travel. -/
structure Edge where
  tail : NodeId
  head : NodeId
  kind : EdgeKind
  deriving Inhabited

namespace EdgeKind

/-- Edges for someone who is on no vehicle. -/
def isWalk : EdgeKind → Bool
  | foot .. | mumo _ | hotel _ => true
  | _ => false

/-- The shortest time that any trip takes over a route edge; zero where there is no trip. -/
def minDuration (legs : Array Leg) : Nat := (legs.toList.map Leg.duration).min?.getD 0

/-- The trip that continues `trip`. -/
def continuation? (trips : List (Option Nat)) (trip : Nat) : Option Nat := trips[trip]?.join

/-- The trip that `trip` continues: the first that names it. -/
def origin? (trips : List (Option Nat)) (trip : Nat) : Option Nat :=
  trips.findIdx? (· == some trip)

end EdgeKind

end JourneyPlanner
