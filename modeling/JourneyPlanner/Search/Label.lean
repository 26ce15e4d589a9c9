import JourneyPlanner.Query.Graph
import JourneyPlanner.Search.Criteria
/-!
# Labels

A label is a journey as far as it has got: where it is, when, what it rides, and what it has cost. Each
label but a start label points to the one it came from. `Label.comparable` says when one label of a node
may take the place of another, costs aside: both can go on in the same ways, and the first has spent no
more time and is no later.
-/

namespace JourneyPlanner

/-- A slot in the pool of labels. -/
abbrev LabelId := Nat

/-- A journey as far as it has got. Going forward `start` is the departure at the origin; going
backward it is the arrival at the destination, and time runs down from there. -/
structure Label where
  node : NodeId
  /-- The edge by which the node was reached; none at the start. -/
  edge : Option EdgeRef
  pred : Option LabelId
  start : Time
  now : Time
  /-- The event used on `edge`, if it is a route edge. -/
  connection : Option UsedConnection
  /-- The event used last on the whole way. -/
  lastConnection : Option UsedConnection
  ride : Option Ride
  /-- At the stop of a route and about to board. -/
  boarding : Bool
  /-- A night at a hotel lies on the way. -/
  hotel : Bool
  /-- Not boarded yet, and not allowed to wait: the first vehicle has to leave, or going backward to
  arrive, at `now` exactly. -/
  pinned : Bool
  /-- How many of the stations to pass have been passed. -/
  progress : Nat
  criteria : Criteria
  deriving DecidableEq

namespace Label

/-- The label of someone who is at `node` from `time` on. -/
def atStart (node : NodeId) (time : Time) (progress : Nat) (pinned : Bool) (criteria : Criteria) :
    Label :=
  { node, edge := none, pred := none, start := time, now := time, connection := none,
    lastConnection := none, ride := none, boarding := false, hotel := false, pinned, progress,
    criteria }

/-- The label after an edge has been taken from this one, which is kept in slot `id`. Progress and
criteria stay as they are. A label stays pinned until it uses a vehicle. -/
def successor (label : Label) (id : LabelId) (edge : EdgeRef) (node : NodeId) (now : Time)
    (cost : EdgeCost) : Label :=
  { node
    edge := some edge
    pred := some id
    start := label.start
    now
    connection := cost.connection
    lastConnection := cost.connection.or label.lastConnection
    ride := cost.ride
    boarding := cost.boarding
    hotel := label.hotel || cost.hotel
    pinned := label.pinned && cost.connection.isNone
    progress := label.progress
    criteria := label.criteria }

/-- Minutes between the start and now. -/
def travelTime (label : Label) : Nat := Bounded.distance label.now label.start

/-- The category of the vehicle used last. -/
def lastCategory (label : Label) : Option CategoryId := label.lastConnection.map (·.category)

/-- Whether two labels can go on in the same ways, the first at least in those of the second. -/
def sameState (label other : Label) : Bool :=
  label.progress == other.progress && label.ride == other.ride &&
    label.boarding == other.boarding && label.lastCategory == other.lastCategory &&
    (!label.hotel || other.hotel) && label.pinned == other.pinned &&
    (!label.pinned || label.now == other.now)

/-- Whether a label started no earlier than another and is no later, as seen in a direction. -/
def withinTimes (label other : Label) : Direction → Bool
  | .forward => other.start ≤ label.start && label.now ≤ other.now
  | .backward => label.start ≤ other.start && other.now ≤ label.now

/-- Whether a label may take the place of another at the same node, costs aside. -/
def comparable (label other : Label) (direction : Direction) : Bool :=
  label.sameState other && label.withinTimes other direction

theorem travelTime_atStart (node : NodeId) (time : Time) (progress : Nat) (pinned : Bool)
    (criteria : Criteria) : (atStart node time progress pinned criteria).travelTime = 0 := by
  simp [atStart, travelTime, Bounded.distance]

theorem comparable_self (label : Label) (direction : Direction) :
    label.comparable label direction = true := by
  cases direction <;> simp [comparable, sameState, withinTimes]

end Label

end JourneyPlanner
