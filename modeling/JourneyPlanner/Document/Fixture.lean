import JourneyPlanner.Json.Decode
import JourneyPlanner.Json.Reader
import JourneyPlanner.Network.Fixture
/-!
# Fixtures as documents

The Json form of a timetable fixture. Its first day is a date, times of day are texts or `null`, and
everything that a small timetable does not need may be left out.
-/

namespace JourneyPlanner.Fixture

open Json

/-- A text or `null`. -/
def label? : Json → Option (Option String) := asOption? asString?

/-- What a vehicle offers. -/
def attributeOfJson? (value : Json) : Option ServiceAttribute := do
  let f ← fields? ["code", "text"] value
  return { code := ← f.required? "code" asString?, text := ← f.required? "text" asString? }

/-- An interchange rule. -/
def interchangeOfJson? (value : Json) : Option Interchange := do
  let f ← fields? ["from", "to", "minutes"] value
  return {
    arriving := ← f.required? "from" asString?
    departing := ← f.required? "to" asString?
    minutes := ← f.required? "minutes" asNat32? }

/-- A station. -/
def stationOfJson? (value : Json) : Option StationEntry := do
  let f ← fields? ["id", "name", "transfer_time", "interchange"] value
  return {
    id := ← f.required? "id" asString?
    name := ← f.required? "name" asString?
    transferTime := ← f.optional? "transfer_time" 0 asNat32?
    interchange := ← f.optional? "interchange" [] (asList? interchangeOfJson?) }

/-- A trip. -/
def tripOfJson? (value : Json) : Option TripEntry := do
  let f ← fields? ["category", "train_nr", "line", "price", "attributes", "days", "times", "tracks"]
    value
  return {
    category := ← f.required? "category" asString?
    trainNumber := ← f.required? "train_nr" asNat32?
    line := ← f.optional? "line" "" asString?
    price := ← f.optional? "price" 0 asNat32?
    attributes := ← f.optional? "attributes" [] (asList? attributeOfJson?)
    days := ← f.optional? "days" none (asOption? (asList? asNat32?))
    times := ← f.required? "times" (asList? (asPair? label?))
    tracks := ← f.optional? "tracks" [] (asList? (asPair? label?)) }

/-- A route. -/
def routeOfJson? (value : Json) : Option RouteEntry := do
  let f ← fields? ["stops", "trips"] value
  return {
    stops := ← f.required? "stops" (asList? asString?)
    trips := ← f.required? "trips" (asList? tripOfJson?) }

/-- A footpath. -/
def footpathOfJson? (value : Json) : Option FootpathEntry := do
  let f ← fields? ["from", "to", "duration"] value
  return {
    source := ← f.required? "from" asString?
    target := ← f.required? "to" asString?
    duration := ← f.required? "duration" asNat32? }

/-- A through connection. -/
def throughOfJson? (value : Json) : Option ThroughEntry := do
  let f ← fields? ["from_route", "to_route", "trips"] value
  return {
    source := ← f.required? "from_route" asNat32?
    target := ← f.required? "to_route" asNat32?
    trips := ← f.required? "trips" (asList? (asOption? asNat32?)) }

/-- A date. -/
def dateOfJson? (value : Json) : Option Date := (asString? value).bind Date.parse?

/-- A fixture. -/
def ofJson? (value : Json) : Option Fixture := do
  let f ← fields?
    ["first_day", "days", "categories", "stations", "routes", "footpaths", "through"] value
  return {
    firstDay := ← f.required? "first_day" dateOfJson?
    days := ← f.required? "days" asNat32?
    categories := ← f.optional? "categories" [] (asList? asString?)
    stations := ← f.required? "stations" (asList? stationOfJson?)
    routes := ← f.optional? "routes" [] (asList? routeOfJson?)
    footpaths := ← f.optional? "footpaths" [] (asList? footpathOfJson?)
    through := ← f.optional? "through" [] (asList? throughOfJson?) }

/-- The timetable that a value describes. -/
def load (value : Option Json) : Except NetworkFault Timetable :=
  match value.bind ofJson? with
  | some fixture => fixture.build
  | none => .error (.malformedFixture .unreadable)

end JourneyPlanner.Fixture
