import JourneyPlanner.Itinerary.Draft
import JourneyPlanner.Itinerary.Ranking
/-!
# Answering requests

A `Router` answers requests over timetables with the journeys that no other beats. It keeps the storage
of one search for the next; every answer, also one that is a fault, leaves it empty of labels.
-/

namespace JourneyPlanner

/-- The answer to a request. -/
structure Response where
  journeys : List Journey
  statistics : Statistics

/-- The most stations that a path may pass on the way. -/
def maxVias : Nat := 255

namespace Request

/-- The nodes of the path's stations. -/
def pathNodes (tt : Timetable) (request : Request) : Except SearchFault (List NodeId) :=
  request.path.mapM fun stop =>
    match tt.stationNode? stop.station with
    | some node => .ok node
    | none => .error (.stationNotFound stop.station)

/-- Origin, goal and stations to pass, in the order of the search. -/
def target (tt : Timetable) (request : Request) : Except SearchFault Target := do
  match ← request.pathNodes tt with
  | [] => throw (.invalidRequest .emptyPath)
  | first :: rest =>
    let last := rest.getLast?.getD first
    let vias := rest.dropLast
    if first = last ∧ vias.isEmpty then throw (.invalidRequest .sameEnds)
    if maxVias < vias.length then throw (.invalidRequest .tooManyVias)
    match request.direction with
    | .forward => return { origin := first, goal := last, vias }
    | .backward => return { origin := last, goal := first, vias := vias.reverse }

/-- The interval in schedule time, cut to the schedule. Its begin moves up and its end down to a
full minute. -/
def scheduleInterval (period : Period) (interval : Interval) : Except SearchFault (Time × Time) :=
  let first := period.toInstant 0
  let last := period.toInstant period.finish
  if interval.finish < first ∨ last < interval.begin then .error .outsideSchedule
  else
    match period.toTimeUp? (max interval.begin first), period.toTime? (min interval.finish last) with
    | some begin, some finish => .ok (begin, finish)
    | _, _ => .error .outsideSchedule

/-- The search that a request asks for. There are no start times if the goal is out of reach. -/
def toQuery (tt : Timetable) (request : Request) : Except SearchFault Query := do
  match request.fault? with
  | some fault => throw fault
  | none =>
    let target ← request.target tt
    let (begin, finish) ← scheduleInterval tt.period request.interval
    let graph := QueryGraph.make tt request.additionalEdges
    let direction := request.direction
    let tripType := request.tripType
    let bounds := LowerBounds.compute graph target.goal direction
    let startTimes :=
      if bounds.isReachable target.origin then
        graph.startTimes target.origin begin finish tripType direction
      else []
    return { graph, bounds, target, direction, startTimes, tripType }

end Request

namespace Run

/-- The journeys of the results, in the order in which the results came. -/
def journeys (q : Query) (r : Run) : Except SearchFault (List Journey) :=
  r.frontier.results.mapM fun id =>
    (Journey.ofChain q.graph q.direction ((r.frontier.chain id).map (·.2))).mapError .inconsistent

end Run

/-- A worker that answers one request after another. -/
structure Router where
  settings : Settings
  measures : List Measure
  frontier : Frontier

/-- A fault that keeps a worker from an answer, with the storage as it stood then. -/
structure Router.Halt where
  fault : SearchFault
  frontier : Frontier

namespace Router

/-- A worker that has answered nothing yet. -/
def new (settings : Settings) (measures : List Measure) : Router :=
  { settings, measures, frontier := Frontier.new settings }

/-- The search of a request, with its answer. -/
def answer (r : Router) (tt : Timetable) (request : Request) : Except Halt (Run × Response) := do
  let query ← (request.toQuery tt).mapError fun fault => { fault, frontier := r.frontier }
  let run ← (query.run r.settings r.measures r.frontier).mapError fun halt =>
    { fault := halt.fault, frontier := halt.run.frontier }
  let journeys ← (run.journeys query).mapError fun fault => { fault, frontier := run.frontier }
  return (run, { journeys := Journey.rank journeys, statistics := run.statistics })

/-- Answers a request. Whatever comes of it, the worker is left without labels. -/
def search (r : Router) (tt : Timetable) (request : Request) :
    Except SearchFault Response × Router :=
  match r.answer tt request with
  | .ok (run, response) => (.ok response, { r with frontier := run.frontier.reset r.settings })
  | .error halt => (.error halt.fault, { r with frontier := halt.frontier.reset r.settings })

/-- Whether the pool of labels is back to its first block. -/
def isIdle (r : Router) : Bool :=
  r.frontier.pool.reserved == (Frontier.new r.settings).pool.reserved

end Router

/-- Answers a request with default settings. -/
def search (tt : Timetable) (request : Request) : Except SearchFault Response :=
  ((Router.new {} Measure.all).search tt request).1

end JourneyPlanner
