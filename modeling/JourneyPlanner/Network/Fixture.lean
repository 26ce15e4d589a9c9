import JourneyPlanner.Network.Builder
/-!
# Timetable fixtures

A `Fixture` is a timetable as a person writes it down: stations and categories by name, times of day as
text, tracks by their labels. `Fixture.build` turns it into a `Timetable` or names the first fault, in
the order categories, stations, interchange rules, routes, footpaths, through connections.
-/

namespace JourneyPlanner

namespace Fixture

/-- The minutes for a change between two categories. -/
structure Interchange where
  arriving : String
  departing : String
  minutes : Nat

/-- A station. -/
structure StationEntry where
  id : String
  name : String
  transferTime : Nat
  interchange : List Interchange

/-- A trip. For each stop `times` holds arrival and departure, and `tracks` the two tracks; a trip
without `days` runs daily. -/
structure TripEntry where
  category : String
  trainNumber : Nat
  line : String
  price : Nat
  attributes : List ServiceAttribute
  days : Option (List Nat)
  times : List (Option String × Option String)
  tracks : List (Option String × Option String)

/-- A route with its trips. -/
structure RouteEntry where
  stops : List String
  trips : List TripEntry

/-- A footpath in one direction. -/
structure FootpathEntry where
  source : String
  target : String
  duration : Nat

/-- A through connection between two routes, by their positions. -/
structure ThroughEntry where
  source : Nat
  target : Nat
  trips : List (Option Nat)

end Fixture

/-- A timetable in writing. -/
structure Fixture where
  firstDay : Date
  days : Nat
  categories : List String
  stations : List Fixture.StationEntry
  routes : List Fixture.RouteEntry
  footpaths : List Fixture.FootpathEntry
  through : List Fixture.ThroughEntry

namespace Fixture

/-- A timetable in the making, with the names given so far, the latest first. -/
structure Draft where
  builder : Builder
  categories : List (String × CategoryId)
  stations : List (String × StationIndex)
  tracks : List (String × TrackId)
  routes : Array RouteId

namespace Draft

/-- The category of a name; of two with one name, the later. -/
def category (draft : Draft) (name : String) : Except NetworkFault CategoryId :=
  match draft.categories.lookup name with
  | some id => .ok id
  | none => .error (.unknownCategory name)

/-- The station of an identifier. -/
def station (draft : Draft) (id : String) : Except NetworkFault StationIndex :=
  match draft.stations.lookup id with
  | some index => .ok index
  | none => .error (.unknownStation id)

/-- The route at a position in the fixture. -/
def route (draft : Draft) (position : Nat) : Except NetworkFault RouteId :=
  match draft.routes[position]? with
  | some id => .ok id
  | none => .error (.unknownRoute position)

/-- Adds a category. -/
def addCategory (draft : Draft) (name : String) : Draft :=
  let (id, builder) := draft.builder.addCategory name
  { draft with builder, categories := (name, id) :: draft.categories }

/-- Adds a station. -/
def addStation (draft : Draft) (entry : StationEntry) : Except NetworkFault Draft := do
  let (index, builder) ← draft.builder.addStation entry.id entry.name entry.transferTime
  return { draft with builder, stations := (entry.id, index) :: draft.stations }

/-- Adds one interchange rule at a station. -/
def addRule (station : StationIndex) (draft : Draft) (rule : Interchange) :
    Except NetworkFault Draft := do
  let arriving ← draft.category rule.arriving
  let departing ← draft.category rule.departing
  let minutes := rule.minutes
  return { draft with
    builder := draft.builder.setInterchange station { arriving, departing, minutes } }

/-- Adds the interchange rules of a station. -/
def addRules (draft : Draft) (entry : StationEntry) : Except NetworkFault Draft := do
  entry.interchange.foldlM (addRule (← draft.station entry.id)) draft

/-- The identifier of a track label, which is given when the label is met for the first time. -/
def track (draft : Draft) : Option String → Option TrackId × Draft
  | none => (none, draft)
  | some label =>
    match draft.tracks.lookup label with
    | some id => (some id, draft)
    | none =>
      let (id, builder) := draft.builder.addTrack label
      (some id, { draft with builder, tracks := (label, id) :: draft.tracks })

/-- The minute that a text writes, counted from the day on which a trip starts. -/
def minute : Option String → Except NetworkFault (Option Nat)
  | none => .ok none
  | some text =>
    match Time.parse text 0 with
    | .ok minute => .ok (some minute)
    | .error fault => .error (.malformedFixture (.time text fault))

/-- Reads the stops of a trip: the times at each and its tracks, of which there may be fewer. -/
def stops (draft : Draft) : List (Option String × Option String) →
    List (Option String × Option String) → Except NetworkFault (List StopTime × Draft)
  | [], _ => .ok ([], draft)
  | (arrival, departure) :: times, tracks => do
    let arrival ← minute arrival
    let departure ← minute departure
    let labels := tracks.head?.getD (none, none)
    let (arrivalTrack, draft) := draft.track labels.1
    let (departureTrack, draft) := draft.track labels.2
    let (rest, draft) ← stops draft times tracks.tail
    return ({ arrival, departure, arrivalTrack, departureTrack } :: rest, draft)

/-- The days of traffic of a trip. -/
def days (entry : TripEntry) : Except NetworkFault DayMask :=
  match entry.days with
  | none => .ok DayMask.all
  | some days =>
    match DayMask.ofDays? days with
    | some mask => .ok mask
    | none => .error (.malformedFixture (.dayOfTrain entry.trainNumber))

/-- Reads a trip, whose description is added at once. -/
def trip (draft : Draft) (entry : TripEntry) : Except NetworkFault (Trip × Draft) := do
  let category ← draft.category entry.category
  let (info, builder) := draft.builder.addInfo
    { category, trainNumber := entry.trainNumber, line := entry.line,
      attributes := entry.attributes, price := entry.price }
  let days ← days entry
  let (stops, draft) ← stops { draft with builder } entry.times entry.tracks
  return ({ info, days, stops }, draft)

/-- Reads the trips of a route in order. -/
def trips (draft : Draft) : List TripEntry → Except NetworkFault (List Trip × Draft)
  | [] => .ok ([], draft)
  | entry :: entries => do
    let (first, draft) ← draft.trip entry
    let (rest, draft) ← draft.trips entries
    return (first :: rest, draft)

/-- Adds a route. -/
def addRoute (draft : Draft) (entry : RouteEntry) : Except NetworkFault Draft := do
  let stops ← entry.stops.mapM draft.station
  let (trips, draft) ← draft.trips entry.trips
  let (id, builder) ← draft.builder.addRoute stops trips
  return { draft with builder, routes := draft.routes.push id }

/-- Adds a footpath. -/
def addFootpath (draft : Draft) (entry : FootpathEntry) : Except NetworkFault Draft := do
  let source ← draft.station entry.source
  let target ← draft.station entry.target
  let (_, builder) ← draft.builder.addFootpath source target entry.duration
  return { draft with builder }

/-- Adds a through connection. -/
def addThrough (draft : Draft) (entry : ThroughEntry) : Except NetworkFault Draft := do
  let source ← draft.route entry.source
  let target ← draft.route entry.target
  let (_, builder) ← draft.builder.addThrough source target entry.trips
  return { draft with builder }

end Draft

/-- Everything of the fixture put into a draft. -/
def draft (fixture : Fixture) : Except NetworkFault Draft := do
  let builder := Builder.new { firstDay := fixture.firstDay, days := fixture.days }
  let draft : Draft := { builder, categories := [], stations := [], tracks := [], routes := #[] }
  let draft := fixture.categories.foldl Draft.addCategory draft
  let draft ← fixture.stations.foldlM Draft.addStation draft
  let draft ← fixture.stations.foldlM Draft.addRules draft
  let draft ← fixture.routes.foldlM Draft.addRoute draft
  let draft ← fixture.footpaths.foldlM Draft.addFootpath draft
  fixture.through.foldlM Draft.addThrough draft

/-- The timetable that a fixture describes. A schedule has at least one day and at most as many as
a mask of days can tell apart. -/
def build (fixture : Fixture) : Except NetworkFault Timetable :=
  if fixture.days = 0 ∨ DayMask.maxDays < fixture.days then
    .error (.malformedFixture (.dayCount fixture.days))
  else fixture.draft.map fun draft => draft.builder.build

end Fixture

end JourneyPlanner
