import JourneyPlanner.Json.Decode
import JourneyPlanner.Query.Request
/-!
# Requests as documents

The Json form of requests, read and written. Additional edges say by a tag what they are, and so do the
windows of unscheduled rides. A tagged value is held in memory before its tag is known, so it may not
reach deeper than `Json.nestingLimit`, counted from the outermost value of the document;
`Request.ofJson?` is told how many arrays and objects lie around the request.
-/

namespace JourneyPlanner

open Json

namespace Direction

/-- The names of the directions. -/
def names : List (String × Direction) := [("forward", .forward), ("backward", .backward)]

/-- The name of a direction. -/
def name : Direction → String
  | .forward => "forward"
  | .backward => "backward"

/-- A direction by its name. -/
def ofJson? : Json → Option Direction := asName? names

end Direction

namespace TripType

/-- The names of the types of trip. -/
def names : List (String × TripType) := [("pre_trip", .preTrip), ("on_trip", .onTrip)]

/-- The name of a type of trip. -/
def name : TripType → String
  | .preTrip => "pre_trip"
  | .onTrip => "on_trip"

/-- A type of trip by its name. -/
def ofJson? : Json → Option TripType := asName? names

end TripType

namespace RequestedWindow

/-- The fields of each kind of window, in their declared order. -/
def kinds : Kinds := [("absolute", ["begin", "end"]), ("daily", ["begin_minute", "end_minute"])]

/-- A window, which always stands inside an edge. -/
def ofJson? (value : Json) : Option RequestedWindow := do
  match ← tagged? "type" kinds true value with
  | ("absolute", f) =>
    return .absolute (← f.required? "begin" asInt64?) (← f.required? "end" asInt64?)
  | (_, f) =>
    return .daily (← f.required? "begin_minute" asNat32?) (← f.required? "end_minute" asNat32?)

/-- A window in Json. -/
def toJson : RequestedWindow → Json
  | .absolute begin finish =>
    .record [("type", .str "absolute"), ("begin", .int begin), ("end", .int finish)]
  | .daily begin finish =>
    .record [("type", .str "daily"), ("begin_minute", .nat begin), ("end_minute", .nat finish)]

end RequestedWindow

namespace AdditionalEdge

/-- The fields of each kind of edge, in their declared order. -/
def kinds : Kinds :=
  [("hotel", ["station_id", "checkout_time", "min_stay", "price"]),
    ("mumo", ["from_station_id", "to_station_id", "duration", "price", "id", "name", "window"])]

/-- An additional edge. -/
def ofJson? (value : Json) : Option AdditionalEdge := do
  match ← tagged? "kind" kinds false value with
  | ("hotel", f) =>
    return .hotel (← f.required? "station_id" asString?) (← f.required? "checkout_time" asNat32?)
      (← f.required? "min_stay" asNat32?) (← f.required? "price" asNat32?)
  | (_, f) =>
    return .mumo (← f.required? "from_station_id" asString?)
      (← f.required? "to_station_id" asString?) (← f.required? "duration" asNat32?)
      (← f.required? "price" asNat32?) (← f.optional? "id" 0 asNat32?)
      (← f.optional? "name" "" asString?)
      (← f.optional? "window" none (asOption? RequestedWindow.ofJson?))

/-- An additional edge in Json. -/
def toJson : AdditionalEdge → Json
  | .hotel station checkout minStay price =>
    .record [("kind", .str "hotel"), ("station_id", .str station),
      ("checkout_time", .nat checkout), ("min_stay", .nat minStay), ("price", .nat price)]
  | .mumo source target duration price id name window =>
    .record [("kind", .str "mumo"), ("from_station_id", .str source),
      ("to_station_id", .str target), ("duration", .nat duration), ("price", .nat price),
      ("id", .nat id), ("name", .str name), ("window", .ofOption RequestedWindow.toJson window)]

end AdditionalEdge

/-- An interval. -/
def Interval.ofJson? (value : Json) : Option Interval := do
  let f ← fields? ["begin", "end"] value
  return { begin := ← f.required? "begin" asInt64?, finish := ← f.required? "end" asInt64? }

/-- A station on a path. -/
def PathStop.ofJson? (value : Json) : Option PathStop := do
  let f ← fields? ["station_id", "name"] value
  return {
    station := ← f.required? "station_id" asString?
    name := ← f.optional? "name" "" asString? }

namespace Request

/-- An additional edge with `around` arrays and objects about it. -/
def edgeOfJson? (around : Nat) (value : Json) : Option AdditionalEdge :=
  if around + value.height ≤ nestingLimit then AdditionalEdge.ofJson? value else none

/-- A request with `around` arrays and objects about it. -/
def ofJson? (around : Nat) (value : Json) : Option Request := do
  let f ← fields? ["interval", "path", "trip_type", "direction", "additional_edges"] value
  return {
    interval := ← f.required? "interval" Interval.ofJson?
    path := ← f.required? "path" (asList? PathStop.ofJson?)
    tripType := ← f.optional? "trip_type" .preTrip TripType.ofJson?
    direction := ← f.optional? "direction" .forward Direction.ofJson?
    additionalEdges := ← f.optional? "additional_edges" [] (asList? (edgeOfJson? (around + 2))) }

/-- Requests in an array. -/
def listOfJson? : Json → Option (List Request) := asList? (ofJson? 1)

/-- A request in Json, with every field there. -/
def toJson (request : Request) : Json :=
  .record [
    ("interval", .record [("begin", .int request.interval.begin),
      ("end", .int request.interval.finish)]),
    ("path", .list (fun (stop : PathStop) =>
      .record [("station_id", .str stop.station), ("name", .str stop.name)]) request.path),
    ("trip_type", .str request.tripType.name),
    ("direction", .str request.direction.name),
    ("additional_edges", .list AdditionalEdge.toJson request.additionalEdges)]

end Request

end JourneyPlanner
