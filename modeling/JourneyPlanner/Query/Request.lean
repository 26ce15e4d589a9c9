import JourneyPlanner.Calendar.Direction
import JourneyPlanner.Query.Fault
/-!
# Requests

A `Request` asks for journeys along a path of stations within an interval of time, and may bring edges
of its own: nights at a hotel and unscheduled rides. `Request.fault?` judges its shape; whether its
stations are known is found out when it meets a timetable.
-/

namespace JourneyPlanner

/-- A span of instants, both ends included. -/
structure Interval where
  begin : Int
  finish : Int
  deriving DecidableEq, Repr

/-- A station on the path of a request. -/
structure PathStop where
  station : String
  name : String := ""
  deriving DecidableEq, Repr

/-- Whether the traveller is still free to choose when to leave. -/
inductive TripType where
  /-- Any departure within the interval. -/
  | preTrip
  /-- Already at the origin, at the begin of the interval, or at its end when searching backward. -/
  | onTrip
  deriving DecidableEq, Repr

/-- When an unscheduled ride of a request may set out. -/
inductive RequestedWindow where
  /-- At an instant in `[begin, finish)`. -/
  | absolute (begin finish : Int)
  /-- At a minute of the day in `[begin, finish)`. -/
  | daily (begin finish : Nat)
  deriving DecidableEq, Repr

/-- An edge that holds for one request only. -/
inductive AdditionalEdge where
  | hotel (station : String) (checkout minStay price : Nat)
  | mumo (source target : String) (duration price id : Nat) (name : String)
      (window : Option RequestedWindow)
  deriving DecidableEq, Repr

/-- A query for journeys. -/
structure Request where
  interval : Interval
  /-- Origin, the stations to pass in order, destination. -/
  path : List PathStop
  tripType : TripType := .preTrip
  direction : Direction := .forward
  additionalEdges : List AdditionalEdge := []
  deriving DecidableEq, Repr

namespace Request

/-- A query forward from one station to another, leaving within the interval. -/
def between (source target : String) (begin finish : Int) : Request :=
  { interval := { begin, finish }, path := [{ station := source }, { station := target }] }

/-- The query with one more station to pass, just before the destination. -/
def via (request : Request) (station : String) : Request :=
  { request with
    path := request.path.insertIdx (request.path.length - 1) { station : PathStop } }

/-- The query with one more edge of its own. -/
def withEdge (request : Request) (edge : AdditionalEdge) : Request :=
  { request with additionalEdges := request.additionalEdges ++ [edge] }

/-- What is wrong with the shape of a request, if anything: an interval that ends before it begins,
or else a path without two ends. -/
def fault? (request : Request) : Option SearchFault :=
  if request.interval.finish < request.interval.begin then
    some (.malformedInterval request.interval.begin request.interval.finish)
  else if request.path.length < 2 then some (.invalidRequest .noEnds)
  else none

end Request

end JourneyPlanner
