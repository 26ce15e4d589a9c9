import JourneyPlanner.Itinerary.Journey
import JourneyPlanner.Search.Run
/-!
# Writing out a journey

The labels from a result back to its start are put into the order of travel, so that journeys found in
either direction are written out alike. Each two neighbours give a `Step` over one edge; a `Draft` takes
the steps one by one. It always stands at the last stop so far, and holds the ride under way, if any.
A ride is closed on leaving the vehicle, or where the vehicle goes on as another train.
-/

namespace JourneyPlanner

/-- One edge of a journey in the order of travel. -/
structure Step where
  edge : EdgeRef
  connection : Option UsedConnection
  /-- The times at the tail and at the head of the edge. -/
  atTail : Time
  atHead : Time
  deriving DecidableEq

/-- A ride under way, from the stop at position `stop` on. -/
structure OpenRide where
  stop : Nat
  info : InfoId
  departure : Time
  arrival : Time
  deriving DecidableEq

/-- A journey in the making. Lists hold the latest first. -/
structure Draft where
  /-- The stops before the present one. -/
  past : List Stop
  /-- The stop where the journey has got to. -/
  here : Stop
  transports : List Transport
  attributes : List Attribute
  ride : Option OpenRide
  boardings : Nat
  price : Nat
  deriving DecidableEq

namespace Draft

/-- A stop at the station of a node. -/
def stopAt (tt : Timetable) (node : NodeId) : Stop :=
  match tt.stationAt? node with
  | some station => Stop.at station.id.text station.name
  | none => Stop.at "" ""

/-- A journey that has not left the station of a node. -/
def start (tt : Timetable) (node : NodeId) : Draft :=
  { past := [], here := stopAt tt node, transports := [], attributes := [], ride := none,
    boardings := 0, price := 0 }

/-- The position of the present stop. -/
def position (d : Draft) : Nat := d.past.length

/-- The journey at one more stop. -/
def moveTo (d : Draft) (stop : Stop) : Draft := { d with past := d.here :: d.past, here := stop }

/-- The journey with a departure at the present stop, unless it has one. -/
def depart (d : Draft) (event : StopEvent) : Draft :=
  { d with here := { d.here with departure := d.here.departure.or (some event) } }

/-- What happens at a time, on a track if it is known. -/
def eventAt (tt : Timetable) (time : Time) (track : Option TrackId) : StopEvent :=
  { time := tt.period.toInstant time, platform := track.map tt.trackName }

/-- Boards a vehicle here; from the second on it is an interchange. -/
def board (d : Draft) : Draft :=
  { d with
    here := { d.here with enter := true, interchange := decide (0 < d.boardings) }
    boardings := d.boardings + 1 }

/-- The journey with a ride written down that ends here. -/
def writeRide (tt : Timetable) (d : Draft) (ride : OpenRide) : Draft :=
  let info := tt.info ride.info
  let move := Move.connection (tt.categoryName info.category) info.trainNumber info.line
    (ride.arrival - ride.departure)
  { d with
    transports := { first := ride.stop, last := d.position, move } :: d.transports
    ride := none }

/-- Leaves the vehicle here. -/
def leave (tt : Timetable) (d : Draft) : Except Inconsistency Draft :=
  match d.ride with
  | none => .error .exitWithoutRide
  | some ride =>
    let d := d.writeRide tt ride
    .ok { d with here := { d.here with exit := true } }

/-- Stretches an attribute to the next stop: the latest with the same code that reaches up to `place`,
or else a new one. -/
def stretch (place : Nat) (offer : ServiceAttribute) (attributes : List Attribute) : List Attribute :=
  match attributes.findIdx? fun a => a.code == offer.code && a.last == place with
  | some i => attributes.modify i fun a => { a with last := place + 1 }
  | none => { first := place, last := place + 1, code := offer.code, text := offer.text } :: attributes

/-- Rides one section to the station of a node. A ride under way goes on if it is the same train. -/
def rideTo (tt : Timetable) (d : Draft) (event : Event) (node : NodeId) : Draft :=
  let leg := event.leg
  let d := match d.ride with
    | some ride => if ride.info = leg.info then d else d.writeRide tt ride
    | none => d
  let d := d.depart (eventAt tt event.departure leg.departureTrack)
  let place := d.position
  let ride : OpenRide := match d.ride with
    | some ride => { ride with arrival := event.arrival }
    | none => { stop := place, info := leg.info, departure := event.departure, arrival := event.arrival }
  let info := tt.info leg.info
  let arrival := eventAt tt event.arrival leg.arrivalTrack
  { d.moveTo { stopAt tt node with arrival := some arrival } with
    ride := some ride
    price := d.price + info.price
    attributes := info.attributes.foldl (fun as offer => stretch place offer as) d.attributes }

/-- The times at which a walk sets out and arrives. Waiting lies at the end where the search came
from. -/
def walkTimes (step : Step) (duration : Nat) : Direction → Time × Time
  | .forward => (step.atHead - duration, step.atHead)
  | .backward => (step.atTail, Bounded.add step.atTail duration)

/-- Walks along an edge. A walk within one station leads to no new stop. -/
def walk (tt : Timetable) (direction : Direction) (d : Draft) (step : Step) (edge : Edge)
    (duration price : Nat) (kind : WalkKind) : Draft :=
  let (departure, arrival) := walkTimes step duration direction
  let d := d.depart (eventAt tt departure none)
  let first := d.position
  let d :=
    if (tt.node edge.tail).stationIndex = (tt.node edge.head).stationIndex then d
    else d.moveTo { stopAt tt edge.head with arrival := some (eventAt tt arrival none) }
  { d with
    transports := { first, last := d.position, move := .walk kind duration } :: d.transports
    price := d.price + price }

/-- Stays for the night. -/
def sleep (d : Draft) (step : Step) (price : Nat) : Draft :=
  let move := Move.walk .hotel (step.atHead - step.atTail)
  { d with
    transports := { first := d.position, last := d.position, move } :: d.transports
    price := d.price + price }

/-- Takes one step. -/
def take (graph : QueryGraph) (direction : Direction) (d : Draft) (step : Step) :
    Except Inconsistency Draft :=
  let tt := graph.timetable
  let edge := graph.edge step.edge
  match edge.kind with
  | .enter => .ok d.board
  | .exit => d.leave tt
  | .through _ => .ok d
  | .route legs =>
    match step.connection with
    | none => .error .missingConnection
    | some used =>
      match Event.at? legs used.trip used.day with
      | none => .error (.missingTrip used.trip used.edge)
      | some event => .ok (d.rideTo tt event edge.head)
  | .foot duration price => .ok (d.walk tt direction step edge duration price .foot)
  | .mumo ride =>
    .ok (d.walk tt direction step edge ride.duration ride.price (.mumo ride.id ride.name))
  | .hotel stay => .ok (d.sleep step stay.price)

/-- The journey as it stands, if it is on no vehicle. -/
def finish (d : Draft) (duration : Nat) : Except Inconsistency Journey :=
  match d.ride with
  | some _ => .error .endsOnBoard
  | none =>
    match Journey.make (d.here :: d.past).reverse d.transports.reverse d.attributes.reverse duration
      (d.boardings - 1) d.price with
    | .ok journey => .ok journey
    | .error fault => .error (.badRange fault.message)

end Draft

namespace Frontier

/-- The labels from one back to its start, `turns` of them at most. -/
def chainWithin (pool : Pool Label) : Nat → Option LabelId → List (LabelId × Label)
  | 0, _ | _, none => []
  | turns + 1, some id =>
    match pool.get? id with
    | none => []
    | some label => (id, label) :: chainWithin pool turns label.pred

/-- The labels from one back to its start. No label comes twice on the way, so there are no more of
them than slots in use. -/
def chain (f : Frontier) (id : LabelId) : List (LabelId × Label) :=
  chainWithin f.pool f.pool.size (some id)

end Frontier

namespace Journey

/-- The step between two neighbours in the order of travel. The edge is kept by the one that the
search came to later. -/
def stepBetween (direction : Direction) (first second : Label) : Except Inconsistency Step :=
  let later := match direction with
    | .forward => second
    | .backward => first
  match later.edge with
  | none => .error .missingEdge
  | some edge =>
    .ok { edge, connection := later.connection, atTail := first.now, atHead := second.now }

/-- The steps between labels in the order of travel. -/
def steps (direction : Direction) (labels : List Label) : Except Inconsistency (List Step) :=
  (labels.zip labels.tail).mapM fun (first, second) => stepBetween direction first second

/-- Labels from a result back to its start, in the order of travel. -/
def inTravelOrder (labels : List Label) : Direction → List Label
  | .forward => labels.reverse
  | .backward => labels

/-- The journey of a result, given with the labels that lead back to its start. -/
def ofChain (graph : QueryGraph) (direction : Direction) (labels : List Label) :
    Except Inconsistency Journey :=
  match labels, inTravelOrder labels direction with
  | result :: _, first :: rest => do
    let steps ← steps direction (first :: rest)
    let draft ← steps.foldlM (Draft.take graph direction) (Draft.start graph.timetable first.node)
    draft.finish result.travelTime
  | _, _ => .error .emptyChain

end Journey

end JourneyPlanner
