import JourneyPlanner.Search.Traverse
import JourneyPlanner.Storage.BucketQueue
import JourneyPlanner.Storage.Front
import JourneyPlanner.Storage.Pool
/-!
# The search

Labels are taken from the queue in the order of what they can at least come to. A label is dropped if
some result beats even that, or if a label settled at its node before can take its place and is nowhere
worse. A label that stays is settled; at the goal it becomes a result, and anywhere else it is expanded
along the edges of its node.

The state of a search is one value, `Frontier`, which one search may leave to the next; `Run` adds what
is counted while searching. `Run.visit` handles one label, and `Run.loop` repeats it until the queue is
empty or the budget of labels is spent.

A fault ends a search where it stands: what has been taken from the queue, settled or queued until then
is not taken back. `Run.Halt` is the fault together with the search as it stood, so that the labels of a
search that went wrong can be left to the next like those of any other.
-/

namespace JourneyPlanner

/-- Where a search begins and where it has to get, as nodes in the order of the search. -/
structure Target where
  origin : NodeId
  goal : NodeId
  /-- The stations to pass on the way, in order. -/
  vias : List NodeId
  deriving DecidableEq, Repr

namespace Target

/-- How many stations have been passed after arriving at `node`, where `passed` had been before. One
arrival passes all that follow each other at one node. -/
def advance (target : Target) (node : NodeId) (passed : Nat) : Nat :=
  passed + ((target.vias.drop passed).takeWhile (· == node)).length

/-- Whether a label is at the goal with every station passed. -/
def isGoal (target : Target) (label : Label) : Bool :=
  label.node == target.goal && label.progress == target.vias.length

end Target

/-- What is asked of a search. -/
structure Query where
  graph : QueryGraph
  bounds : LowerBounds
  target : Target
  direction : Direction
  startTimes : List Time
  tripType : TripType

/-- What is counted while searching. -/
structure Statistics where
  labelsCreated : Nat := 0
  labelsPopped : Nat := 0
  poppedUntilFirstResult : Nat := 0
  poppedAfterLastResult : Nat := 0
  startLabels : Nat := 0
  /-- The budget ran out, so there may be more results. -/
  budgetSpent : Bool := false
  labelsFiltered : Nat := 0
  dominatedByResults : Nat := 0
  dominatedAtNode : Nat := 0
  deriving DecidableEq, Repr

/-- A label in the queue, with the criteria that give it its place there. -/
structure Queued where
  id : LabelId
  criteria : Criteria

namespace Queued

/-- Which of two labels goes first. -/
def order (a b : Queued) : Ordering := a.criteria.order b.criteria

end Queued

/-- The labels of a search. -/
structure Frontier where
  pool : Pool Label
  queue : BucketQueue Queued
  /-- For each node the labels settled there, the last first. -/
  settled : Array (List LabelId)
  /-- The results so far, in the order in which they came. -/
  results : List LabelId

namespace Frontier

/-- The bytes that a slot for a label takes. -/
def labelBytes : Nat := 108

/-- Whether storage can be laid out at all. The first block of the pool is laid out as a whole before
there is any label, so its size alone decides. -/
def fits (settings : Settings) : Bool := Pool.fits labelBytes settings.firstBlock

/-- Storage without labels. -/
def new (settings : Settings) : Frontier :=
  { pool := Pool.new settings.firstBlock
    queue := BucketQueue.new settings.maxBucket settings.sortedBuckets
    settled := #[]
    results := [] }

/-- The storage without its labels; lists for as many nodes as there have been are kept. -/
def reset (f : Frontier) (settings : Settings) : Frontier :=
  { pool := f.pool.clear
    queue := f.queue.reset settings.maxBucket settings.sortedBuckets
    settled := f.settled.map fun _ => []
    results := [] }

/-- The storage with a list for each of at least `nodes` nodes. -/
def withNodes (f : Frontier) (nodes : Nat) : Frontier :=
  { f with settled := f.settled ++ Array.replicate (nodes - f.settled.size) [] }

/-- The label in a slot. -/
def label? (f : Frontier) (id : LabelId) : Option Label := f.pool.get? id

/-- The criteria of the label in a slot. -/
def criteriaIn (pool : Pool Label) (id : LabelId) : Criteria :=
  match pool.get? id with
  | some label => label.criteria
  | none => []

/-- Stores a label and queues it under the key that its criteria give. Answers whether there was a slot
for it; if not, nothing happens. -/
def push (f : Frontier) (label : Label) : Bool × Frontier :=
  let criteria := label.criteria
  let { pool, queue, settled, results } := f
  match pool.alloc label with
  | (none, pool) => (false, { pool, queue, settled, results })
  | (some id, pool) =>
    let queue := queue.push Queued.order criteria.bucket { id, criteria }
    (true, { pool, queue, settled, results })

/-- Releases a label. -/
def discard (f : Frontier) (id : LabelId) : Frontier := { f with pool := (f.pool.dealloc id).2 }

/-- Whether a result beats the label even if it were the best that the label can come to. -/
def beatenByResult (f : Frontier) (label : Label) : Bool :=
  f.results.any fun r => (criteriaIn f.pool r).dominates true label.criteria

/-- Whether a label may take the place of another at its node and is nowhere worse. -/
def replaces (direction : Direction) (label other : Label) : Bool :=
  label.comparable other direction && label.criteria.weaklyDominates other.criteria

/-- Whether a label settled at the node before replaces this one. -/
def beatenAtNode (f : Frontier) (label : Label) (direction : Direction) : Bool :=
  (f.settled[label.node]?.getD []).any fun id =>
    match f.pool.get? id with
    | some other => replaces direction other label
    | none => false

/-- Settles a label at its node. -/
def settle (f : Frontier) (node : NodeId) (id : LabelId) : Frontier :=
  { f with settled := f.settled.modify node (id :: ·) }

/-- Whether the first result beats the second in what has been spent. -/
def beats (pool : Pool Label) (a b : LabelId) : Bool :=
  (criteriaIn pool a).dominates false (criteriaIn pool b)

/-- Whether two results have the same criteria at the same times. -/
def sameResult (pool : Pool Label) (a b : LabelId) : Bool :=
  match pool.get? a, pool.get? b with
  | some a, some b => a.criteria == b.criteria && a.start == b.start && a.now == b.now
  | _, _ => false

end Frontier

/-- A search under way. -/
structure Run where
  frontier : Frontier
  statistics : Statistics
  /-- How many labels had been popped when the last result came. -/
  lastResultPop : Nat

/-- A search that a fault has ended, as it stood then. -/
structure Run.Halt where
  fault : SearchFault
  run : Run

namespace Run

/-- Counts a label that a limit rules out. -/
def countFiltered (r : Run) : Run :=
  { r with statistics := { r.statistics with labelsFiltered := r.statistics.labelsFiltered + 1 } }

/-- Queues a new label and counts it. -/
def push (r : Run) (label : Label) : Except Halt Run :=
  let { frontier, statistics, lastResultPop } := r
  match frontier.push label with
  | (false, frontier) =>
    .error { fault := .exhausted, run := { frontier, statistics, lastResultPop } }
  | (true, frontier) =>
    let statistics := { statistics with labelsCreated := statistics.labelsCreated + 1 }
    .ok { frontier, statistics, lastResultPop }

/-- The label of a start at `time`. -/
def startLabel (q : Query) (measures : List Measure) (time : Time) : Label :=
  let origin := q.target.origin
  let context : BoundContext := { node := origin, boarding := false, hasConnection := false }
  Label.atStart origin time (q.target.advance origin 0) (q.tripType == .preTrip)
    (Criteria.init measures q.bounds context)

/-- Queues the label of a start at `time`, unless a limit rules it out. -/
def pushStart (q : Query) (settings : Settings) (measures : List Measure) (r : Run) (time : Time) :
    Except Halt Run :=
  let label := startLabel q measures time
  if label.criteria.isBeyond settings then .ok r.countFiltered
  else
    (r.push label).map fun r =>
      { r with statistics := { r.statistics with startLabels := r.statistics.startLabels + 1 } }

/-- The time after an edge, unless it would leave the range of times. -/
def timeAfter? (now minutes : Nat) : Direction → Option Time
  | .forward => Bounded.add? now minutes
  | .backward => Bounded.sub? now minutes

/-- The label that an edge leads to, with its progress and criteria brought up to date; nothing if
the edge cannot be taken. -/
def expandEdge (q : Query) (settings : Settings) (id : LabelId) (label : Label) (ref : EdgeRef) :
    Except SearchFault (Option Label) :=
  match edgeCost q.graph label ref q.direction settings.maxMinutes with
  | .error fault => .error fault
  | .ok none => .ok none
  | .ok (some cost) =>
    .ok <| (timeAfter? label.now cost.time q.direction).map fun now =>
      let node := q.graph.target ref q.direction
      let next := label.successor id ref node now cost
      let context : BoundContext :=
        { node, boarding := cost.boarding, hasConnection := next.lastConnection.isSome }
      { next with
        progress := q.target.advance node label.progress
        criteria := label.criteria.update q.bounds context cost }

/-- Takes one edge from a settled label and queues where it leads to, unless a limit rules it out. -/
def pushEdge (q : Query) (settings : Settings) (id : LabelId) (label : Label) (r : Run)
    (ref : EdgeRef) : Except Halt Run :=
  match expandEdge q settings id label ref with
  | .error fault => .error { fault, run := r }
  | .ok none => .ok r
  | .ok (some next) =>
    if next.criteria.isBeyond settings then .ok r.countFiltered else r.push next

/-- Takes every edge from a settled label, one after the other; those before a fault have been taken. -/
def expand (q : Query) (settings : Settings) (r : Run) (id : LabelId) (label : Label) :
    Except Halt Run :=
  (q.graph.edgesAt label.node q.direction).foldlM (pushEdge q settings id label) r

/-- Takes a label at the goal among the results, unless a result beats it or is the same. -/
def report (r : Run) (id : LabelId) : Run :=
  let { frontier, statistics, lastResultPop } := r
  let (taken, results) :=
    Front.insert (Frontier.beats frontier.pool) (Frontier.sameResult frontier.pool)
      frontier.results id
  let frontier := { frontier with results }
  if taken then
    let popped := statistics.labelsPopped
    let first := statistics.poppedUntilFirstResult
    { frontier
      statistics := { statistics with poppedUntilFirstResult := if first = 0 then popped else first }
      lastResultPop := popped }
  else { frontier, statistics, lastResultPop }

/-- Handles a label that has just been taken from the queue: it is dropped, becomes a result, or is
expanded. -/
def visit (q : Query) (settings : Settings) (r : Run) (id : LabelId) : Except Halt Run :=
  match r.frontier.label? id with
  | none => .ok r
  | some label =>
    let { frontier, statistics, lastResultPop } := r
    let statistics := { statistics with labelsPopped := statistics.labelsPopped + 1 }
    if frontier.beatenByResult label then
      let dominatedByResults := statistics.dominatedByResults + 1
      .ok { frontier := frontier.discard id,
            statistics := { statistics with dominatedByResults }, lastResultPop }
    else if frontier.beatenAtNode label q.direction then
      let dominatedAtNode := statistics.dominatedAtNode + 1
      .ok { frontier := frontier.discard id,
            statistics := { statistics with dominatedAtNode }, lastResultPop }
    else
      let r : Run := { frontier := frontier.settle label.node id, statistics, lastResultPop }
      if q.target.isGoal label then .ok (r.report id) else r.expand q settings id label

/-- The label to go next, and the search without it in its queue. -/
def pop (r : Run) : Option LabelId × Run :=
  let { frontier := { pool, queue, settled, results }, statistics, lastResultPop } := r
  let (next, queue) := queue.pop
  (next.map (·.id), { frontier := { pool, queue, settled, results }, statistics, lastResultPop })

/-- Handles labels until the queue is empty, `budget` of them at most. -/
def loop (q : Query) (settings : Settings) : Nat → Run → Except Halt Run
  | budget, r =>
    if r.frontier.queue.isEmpty then .ok r
    else
      match budget with
      | 0 => .ok { r with statistics := { r.statistics with budgetSpent := true } }
      | budget + 1 =>
        match r.pop with
        | (none, r) => .ok r
        | (some id, r) =>
          match r.visit q settings id with
          | .error halt => .error halt
          | .ok r => loop q settings budget r

/-- Notes how long the search went on after its last result. -/
def finish (r : Run) : Run :=
  if r.frontier.results.isEmpty then r
  else
    { r with statistics :=
        { r.statistics with
          poppedAfterLastResult := r.statistics.labelsPopped - r.lastResultPop } }

/-- The search with its start labels queued. -/
def start (q : Query) (settings : Settings) (measures : List Measure) (f : Frontier) :
    Except Halt Run :=
  q.startTimes.foldlM (pushStart q settings measures)
    { frontier := f.withNodes q.graph.timetable.nodes.size, statistics := {}, lastResultPop := 0 }

end Run

/-- Searches from the labels that `f` still holds and those of the query's start times. -/
def Query.run (q : Query) (settings : Settings) (measures : List Measure) (f : Frontier) :
    Except Run.Halt Run := do
  let r ← Run.start q settings measures f
  return (← Run.loop q settings settings.maxLabels r).finish

end JourneyPlanner
