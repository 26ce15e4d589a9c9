import JourneyPlanner.Network.Timetable
import JourneyPlanner.Query.Request
/-!
# The graph of one query

A `QueryGraph` is a timetable together with the edges that a request brings along. Edges between
unknown stations, or with a window that never opens during the schedule, are left out; the others keep
their order and come after the edges of the timetable at every node.
-/

namespace JourneyPlanner

/-- An edge of a query: one of the timetable, or one that the request brought. -/
inductive EdgeRef where
  | timetable (id : EdgeId)
  | extra (position : Nat)
  deriving DecidableEq, Repr

/-- A timetable and the additional edges of a request that can be used with it. -/
structure QueryGraph where
  timetable : Timetable
  extra : Array Edge

namespace RequestedWindow

/-- The window in schedule time. An absolute window is cut to the schedule, and there is none if
nothing is left of it; both ends fall back to the minute in which they lie. -/
def resolve? (period : Period) : RequestedWindow → Option RideWindow
  | .daily begin finish => some (.daily (begin % Time.perDay) (finish % Time.perDay))
  | .absolute begin finish =>
    let start := period.toInstant 0
    let stop := period.toInstant period.finish
    if finish ≤ start ∨ stop ≤ begin ∨ finish ≤ begin then none
    else do
      return .absolute (← period.toTime? (max begin start)) (← period.toTime? (min finish stop))

end RequestedWindow

namespace AdditionalEdge

/-- The edge between the nodes of its stations, unless a station is unknown or its window never
opens. -/
def resolve? (tt : Timetable) : AdditionalEdge → Option Edge
  | .hotel station checkout minStay price => do
    let node ← tt.stationNode? station
    return { tail := node, head := node,
             kind := .hotel { checkout := checkout % Time.perDay, minStay, price } }
  | .mumo source target duration price id name window => do
    let tail ← tt.stationNode? source
    let head ← tt.stationNode? target
    let window ← match window with
      | none => some none
      | some w => (w.resolve? tt.period).map some
    return { tail, head, kind := .mumo { id, name, duration, price, window } }

end AdditionalEdge

namespace QueryGraph

/-- The graph of a request's edges over a timetable. -/
def make (timetable : Timetable) (edges : List AdditionalEdge) : QueryGraph :=
  { timetable, extra := (edges.filterMap (AdditionalEdge.resolve? timetable)).toArray }

/-- The edge that is referred to. -/
def edge (graph : QueryGraph) : EdgeRef → Edge
  | .timetable id => graph.timetable.edge id
  | .extra position => graph.extra[position]?.getD default

end QueryGraph

namespace Edge

/-- The end from which an edge is taken in a direction. -/
def source (edge : Edge) : Direction → NodeId
  | .forward => edge.tail
  | .backward => edge.head

/-- The end to which an edge leads in a direction. -/
def target (edge : Edge) : Direction → NodeId
  | .forward => edge.head
  | .backward => edge.tail

@[simp] theorem source_reverse (edge : Edge) (direction : Direction) :
    edge.source direction.reverse = edge.target direction := by
  cases direction <;> rfl

@[simp] theorem target_reverse (edge : Edge) (direction : Direction) :
    edge.target direction.reverse = edge.source direction := by
  cases direction <;> rfl

end Edge

namespace QueryGraph

/-- The positions of the additional edges that are taken from a node. -/
def extraAt (graph : QueryGraph) (node : NodeId) (direction : Direction) : List Nat :=
  (List.range graph.extra.size).filter fun i =>
    (graph.edge (.extra i)).source direction == node

/-- The edges to go on from a node in a direction: those of the timetable in order of their
identifiers, then the additional ones in the order of the request. -/
def edgesAt (graph : QueryGraph) (node : NodeId) (direction : Direction) : List EdgeRef :=
  (graph.timetable.edgesAt node direction).map .timetable ++
    (graph.extraAt node direction).map .extra

/-- The node to which an edge leads in a direction. -/
def target (graph : QueryGraph) (ref : EdgeRef) (direction : Direction) : NodeId :=
  (graph.edge ref).target direction

end QueryGraph

end JourneyPlanner
