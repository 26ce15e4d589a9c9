import JourneyPlanner.Network.Fault
import JourneyPlanner.Network.Timetable
/-!
# Putting a timetable together

A `Builder` takes the parts of a timetable one by one. Every operation that can refuse a part answers
with the fault or with the builder after it, so a refused part leaves nothing behind. What is accepted
keeps the rules that a search relies on: the stops of a trip never go back in time, the legs of a
route edge are ordered by departure and by arrival, trip `i` is leg `i` on every edge of its route, and
a through edge joins a last stop to a first stop at one station, from an arrival to a later departure.
-/

namespace JourneyPlanner

/-- Arrival and departure of a trip at one stop, in minutes from the day on which it started. -/
structure StopTime where
  arrival : Option Nat
  departure : Option Nat
  arrivalTrack : Option TrackId
  departureTrack : Option TrackId
  deriving DecidableEq

/-- A trip as it is handed to the builder. -/
structure Trip where
  info : InfoId
  days : DayMask
  stops : List StopTime
  deriving DecidableEq

/-- A route that has been added: its nodes and route edges in order, and how many trips it has. -/
structure Route where
  nodes : List NodeId
  edges : List EdgeId
  trips : Nat
  deriving DecidableEq

/-- The parts added so far. -/
structure Builder where
  period : Period
  stations : Array Station
  nodes : Array Node
  edges : Array Edge
  infos : Array TripInfo
  categories : Array String
  tracks : Array String
  routes : Array Route

namespace Trip

/-- The legs of a trip from its stop number `stop` on, where the vehicle was last somewhere at minute
`reached`. Each section needs the departure at one stop and the arrival at the next, and time must
not run back. -/
def legsFrom (trip : Nat) (info : InfoId) (days : DayMask) (stop reached : Nat) :
    List StopTime → Except NetworkFault (List Leg)
  | here :: next :: rest =>
    match here.departure with
    | none => .error (.missingTime trip stop .departure)
    | some departure =>
      match next.arrival with
      | none => .error (.missingTime trip (stop + 1) .arrival)
      | some arrival =>
        if departure < reached then .error (.timeTravel trip stop)
        else if arrival < departure then .error (.timeTravel trip (stop + 1))
        else
          match legsFrom trip info days (stop + 1) arrival (next :: rest) with
          | .error fault => .error fault
          | .ok legs =>
            .ok ({ departure, arrival, info, days, departureTrack := here.departureTrack,
                   arrivalTrack := next.arrivalTrack } :: legs)
  | _ => .ok []

/-- The day past the schedule's `days` on which a mask still runs. A trip that runs every day is
never past the schedule. -/
def dayBeyond? (mask : DayMask) (days : Nat) : Option Nat :=
  if mask = DayMask.all then none else mask.lastDay?.filter fun day => days ≤ day

/-- The legs of trip number `number` of a route with `stops` stops. -/
def legs (trip : Trip) (number stops days : Nat) : Except NetworkFault (List Leg) :=
  if trip.stops.length ≠ stops then
    .error (.misalignedTrip number stops trip.stops.length)
  else
    match dayBeyond? trip.days days with
    | some day => .error (.dayBeyondSchedule number day days)
    | none => legsFrom number trip.info trip.days 0 0 trip.stops

end Trip

namespace Builder

/-- A timetable with no parts. -/
def new (period : Period) : Builder :=
  { period, stations := #[], nodes := #[], edges := #[], infos := #[], categories := #[],
    tracks := #[], routes := #[] }

/-- Identifiers of categories and tracks are their positions in sixteen bits. -/
def shortId (position : Nat) : Nat := position % 65536

/-- Identifiers of trip descriptions are their positions in thirty-two bits. -/
def longId (position : Nat) : Nat := position % 4294967296

/-- Adds a vehicle category. -/
def addCategory (b : Builder) (name : String) : CategoryId × Builder :=
  (shortId b.categories.size, { b with categories := b.categories.push name })

/-- Adds a track. -/
def addTrack (b : Builder) (name : String) : TrackId × Builder :=
  (shortId b.tracks.size, { b with tracks := b.tracks.push name })

/-- Adds the description of a trip. -/
def addInfo (b : Builder) (info : TripInfo) : InfoId × Builder :=
  (longId b.infos.size, { b with infos := b.infos.push info })

/-- Adds a station and its node. The identifier must be valid and new. -/
def addStation (b : Builder) (id name : String) (transferTime : Nat) :
    Except NetworkFault (StationIndex × Builder) :=
  match StationId.parse id with
  | .error fault => .error (.invalidStationId fault)
  | .ok id =>
    if b.stations.any (·.id = id) then .error (.duplicateStation id.text)
    else
      let index := b.stations.size
      let station : Station := { id, name, transferTime, rules := [], node := b.nodes.size }
      .ok (index,
        { b with stations := b.stations.push station, nodes := b.nodes.push (.station index) })

/-- Sets the interchange time between two categories at a station; nothing happens at a station
that is not there. -/
def setInterchange (b : Builder) (station : StationIndex) (rule : InterchangeRule) : Builder :=
  { b with stations := b.stations.modify station (·.setRule rule) }

/-- Fails unless there is a station at the position. -/
def checkStation (b : Builder) (station : StationIndex) : Except NetworkFault Unit :=
  if station < b.stations.size then .ok () else .error (.unknownStation ("#" ++ toString station))

/-- The first fault in the order of a route edge's legs: a departure, or else an arrival, before the
one of the leg ahead. -/
def orderFault? (edge : EdgeId) : List Leg → Option NetworkFault
  | first :: second :: rest =>
    if second.departure < first.departure then some (.unsortedLegs edge)
    else if second.arrival < first.arrival then some (.overtaking edge)
    else orderFault? edge (second :: rest)
  | _ => none

/-- For each section of a route the legs of all its trips. -/
def legsBySection (sections : Nat) (trips : List (List Leg)) : List (List Leg) :=
  (List.range sections).map fun i => trips.filterMap (·[i]?)

/-- The edges into and out of the vehicles at the stops of a route, of which `here` is the node at
stop number `stop`: one enters anywhere but at the last stop and leaves anywhere but at the first. -/
def accessEdges (stop : Nat) : List (NodeId × NodeId) → List Edge
  | [] => []
  | (station, here) :: rest =>
    (if rest.isEmpty then [] else [{ tail := station, head := here, kind := .enter }]) ++
    (if stop = 0 then [] else [{ tail := here, head := station, kind := .exit }]) ++
    accessEdges (stop + 1) rest

/-- The node of a station that is there. -/
def stationNode (b : Builder) (station : StationIndex) : NodeId :=
  match b.stations[station]? with
  | some s => s.node
  | none => 0

/-- Adds a route that has been checked: a node for every stop, the route edges, then the edges into
and out of the vehicles. -/
def pushRoute (b : Builder) (stops : List StationIndex) (trips : Nat)
    (sections : List (List Leg)) : RouteId × Builder :=
  let route := b.routes.size
  let nodes := (List.range stops.length).map (b.nodes.size + ·)
  let edges := (List.range sections.length).map (b.edges.size + ·)
  let rides := (nodes.zip (nodes.drop 1)).zipWith
    (fun ends legs => { tail := ends.1, head := ends.2, kind := .route legs.toArray }) sections
  let access := accessEdges 0 ((stops.map b.stationNode).zip nodes)
  (route,
    { b with
      nodes := b.nodes ++ (stops.map fun s => Node.route s route)
      edges := b.edges ++ (rides ++ access : List Edge)
      routes := b.routes.push { nodes, edges, trips } })

/-- Adds a route over `stops` with the given trips, which must be in the order of their departures.
The stops are checked first, then each trip for itself, then the order of the trips on each edge. -/
def addRoute (b : Builder) (stops : List StationIndex) (trips : List Trip) :
    Except NetworkFault (RouteId × Builder) := do
  if stops.length < 2 then throw (.routeTooShort stops.length)
  stops.forM b.checkStation
  let legs ← trips.zipIdx.mapM fun (trip, number) => trip.legs number stops.length b.period.days
  let sections := legsBySection (stops.length - 1) legs
  match sections.zipIdx.findSome? fun (legs, i) => orderFault? (b.edges.size + i) legs with
  | some fault => throw fault
  | none => return b.pushRoute stops trips.length sections

/-- The legs of a route edge; none where there is no such edge. -/
def legsOf (b : Builder) (edge : Option EdgeId) : Array Leg :=
  match edge.bind (b.edges[·]?) with
  | some { kind := .route legs, .. } => legs
  | _ => #[]

/-- The first fault in a mapping of trips, from trip number `number` on: a trip that continues as
none there is, or one that leaves before it has arrived. -/
def mappingFault? (arriving departing : Array Leg) (number : Nat) :
    List (Option Nat) → Option ThroughFault
  | [] => none
  | none :: rest => mappingFault? arriving departing (number + 1) rest
  | some target :: rest =>
    match arriving[number]?, departing[target]? with
    | some arrival, some departure =>
      if departure.departure < arrival.arrival then some (.tooEarly number)
      else mappingFault? arriving departing (number + 1) rest
    | _, _ => some (.noTrip target)

/-- The node of one route's last stop and that of another's first, and what is wrong with going on
from the one to the other. -/
def joinRoutes (b : Builder) (source target : Route) (trips : List (Option Nat)) :
    Except ThroughFault (NodeId × NodeId) :=
  match source.nodes.getLast?, target.nodes.head? with
  | some last, some first =>
    if b.nodes[last]?.map Node.stationIndex ≠ b.nodes[first]?.map Node.stationIndex then
      .error .apart
    else if trips.length ≠ source.trips then .error (.wrongCount trips.length source.trips)
    else
      match mappingFault? (b.legsOf source.edges.getLast?) (b.legsOf target.edges.head?) 0 trips with
      | some fault => .error fault
      | none => .ok (last, first)
  | _, _ => .error .emptyRoute

/-- Joins the last stop of one route to the first of another; trip `i` continues as `trips[i]`. -/
def addThrough (b : Builder) (source target : RouteId) (trips : List (Option Nat)) :
    Except NetworkFault (EdgeId × Builder) :=
  match b.routes[source]?, b.routes[target]? with
  | none, _ => .error (.unknownRoute source)
  | _, none => .error (.unknownRoute target)
  | some first, some second =>
    match b.joinRoutes first second trips with
    | .error fault => .error (.invalidThrough fault)
    | .ok (tail, head) =>
      .ok (b.edges.size, { b with edges := b.edges.push { tail, head, kind := .through trips } })

/-- Adds a footpath in one direction. -/
def addFootpath (b : Builder) (source target : StationIndex) (duration : Nat) :
    Except NetworkFault (EdgeId × Builder) := do
  b.checkStation source
  b.checkStation target
  let edge : Edge :=
    { tail := b.stationNode source, head := b.stationNode target, kind := .foot duration 0 }
  return (b.edges.size, { b with edges := b.edges.push edge })

/-- The positions, ascending, of the edges whose end `side` is at a node, for every node. -/
def edgesBySide (nodes : Nat) (edges : Array Edge) (side : Edge → NodeId) : Array (List EdgeId) :=
  edges.toList.zipIdx.foldr (fun (edge, id) table => table.modify (side edge) (id :: ·))
    (Array.replicate nodes [])

/-- The finished timetable. -/
def build (b : Builder) : Timetable :=
  { period := b.period
    stations := b.stations
    nodes := b.nodes
    edges := b.edges
    outEdges := edgesBySide b.nodes.size b.edges Edge.tail
    inEdges := edgesBySide b.nodes.size b.edges Edge.head
    infos := b.infos
    categories := b.categories
    tracks := b.tracks }

end Builder

end JourneyPlanner
