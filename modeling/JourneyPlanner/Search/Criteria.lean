import JourneyPlanner.Query.Bounds
import JourneyPlanner.Query.Settings
import JourneyPlanner.Search.Cost
/-!
# Criteria

A search minimises several numbers at once. Each `Criterion` of a label knows what has been spent so far
and the least that the whole journey can come to; the latter is what the queue is ordered by and what
the limits of the settings are held against. Labels are compared on what they have spent
(`Criteria.dominance`), or, as if the first were complete, on what it has spent and the least that the
other can come to.
-/

namespace JourneyPlanner

/-- What a criterion counts. -/
inductive Measure where
  | time
  | transfers
  | price
  deriving DecidableEq, Repr

/-- Minutes, transfers and price, in this order. -/
def Measure.all : List Measure := [.time, .transfers, .price]

/-- One number to be minimised. -/
structure Criterion where
  measure : Measure
  /-- What has been spent so far. -/
  current : Nat
  /-- The least that it can come to at the goal. -/
  lowerBound : Nat
  deriving DecidableEq, Repr

/-- The numbers of one label, the first of which orders the queue. -/
abbrev Criteria := List Criterion

/-- The state of a label that its lower bounds depend on. -/
structure BoundContext where
  node : NodeId
  /-- About to board. -/
  boarding : Bool
  /-- Some vehicle has been used before. -/
  hasConnection : Bool

/-- Where two labels differ: the first is worse somewhere, or better somewhere. Neither means that
they are equal. -/
structure Dominance where
  greater : Bool
  smaller : Bool
  deriving DecidableEq, Repr

namespace Dominance

/-- No difference. -/
def equal : Dominance := ⟨false, false⟩

/-- The difference between two numbers. -/
def between (a b : Nat) : Dominance := ⟨decide (b < a), decide (a < b)⟩

/-- The differences of both. -/
def merge (a b : Dominance) : Dominance := ⟨a.greater || b.greater, a.smaller || b.smaller⟩

/-- Worse nowhere and better somewhere. -/
def dominates (d : Dominance) : Bool := !d.greater && d.smaller

end Dominance

namespace Criterion

open Bounded

/-- The least number of transfers in the end. The first vehicle of a journey is boarded without a
transfer, and one that is about to be boarded is not among those the bound of the node counts. -/
def transferBound (bounds : LowerBounds) (context : BoundContext) (current : Nat) : Nat :=
  let boardings := bounds.boardingsAt context.node
  if boardings = ceiling then ceiling
  else
    let pending := boardings + context.boarding.toNat
    add current (if context.hasConnection then pending else pending - 1)

/-- The least that a measure can come to when `current` has been spent. -/
def boundOf (bounds : LowerBounds) (context : BoundContext) (measure : Measure) (current : Nat) :
    Nat :=
  match measure with
  | .time => add current (bounds.minutesAt context.node)
  | .transfers => transferBound bounds context current
  | .price => add current (bounds.priceAt context.node)

/-- The criterion with a new amount spent. -/
def make (bounds : LowerBounds) (context : BoundContext) (measure : Measure) (current : Nat) :
    Criterion :=
  { measure, current, lowerBound := boundOf bounds context measure current }

/-- What an edge adds to the amount spent. -/
def spend (cost : EdgeCost) (measure : Measure) (current : Nat) : Nat :=
  match measure with
  | .time => add current cost.time
  | .transfers => current + cost.transfer.toNat
  | .price => add current cost.price

/-- The criterion after an edge. -/
def update (bounds : LowerBounds) (context : BoundContext) (cost : EdgeCost) (c : Criterion) :
    Criterion :=
  make bounds context c.measure (spend cost c.measure c.current)

/-- The limit that the settings set. -/
def limit (settings : Settings) : Measure → Nat
  | .time => settings.maxMinutes
  | .transfers => settings.maxTransfers
  | .price => settings.priceLimit

/-- Whether a label is to be given up for this criterion. -/
def isBeyond (settings : Settings) (c : Criterion) : Bool :=
  c.lowerBound == ceiling || decide (limit settings c.measure < c.lowerBound)

/-- How the first compares with the second, `final` telling to take the first as complete. -/
def dominance (final : Bool) (a b : Criterion) : Dominance :=
  Dominance.between a.current (if final then b.lowerBound else b.current)

end Criterion

/-- What a journey reports; zero for a measure that is not among the criteria. -/
structure Summary where
  time : Nat := 0
  transfers : Nat := 0
  price : Nat := 0
  deriving DecidableEq, Repr

namespace Criteria

/-- The criteria of a start label. -/
def init (measures : List Measure) (bounds : LowerBounds) (context : BoundContext) : Criteria :=
  measures.map fun measure => Criterion.make bounds context measure 0

/-- The criteria after an edge. -/
def update (bounds : LowerBounds) (context : BoundContext) (cost : EdgeCost) (cs : Criteria) :
    Criteria :=
  cs.map (Criterion.update bounds context cost)

/-- Whether some criterion gives the label up. -/
def isBeyond (settings : Settings) (cs : Criteria) : Bool := cs.any (Criterion.isBeyond settings)

/-- How the first compares with the second, `final` telling to take the first as complete. -/
def dominance (final : Bool) (a b : Criteria) : Dominance :=
  (List.zipWith (Criterion.dominance final) a b).foldl Dominance.merge Dominance.equal

/-- Worse nowhere and better somewhere. -/
def dominates (final : Bool) (a b : Criteria) : Bool := (dominance final a b).dominates

/-- Worse nowhere in what has been spent. -/
def weaklyDominates (a b : Criteria) : Bool := !(dominance false a b).greater

/-- The order of the queue: by the first lower bound that differs. -/
def order : Criteria → Criteria → Ordering
  | a :: as, b :: bs => (compare a.lowerBound b.lowerBound).then (order as bs)
  | _, _ => .eq

/-- The key of the queue: the lower bound of the first criterion. -/
def bucket : Criteria → Nat
  | [] => 0
  | c :: _ => c.lowerBound

/-- The last criterion for each measure counts. -/
def summary (cs : Criteria) : Summary :=
  cs.foldl
    (fun s c =>
      match c.measure with
      | .time => { s with time := c.current }
      | .transfers => { s with transfers := c.current }
      | .price => { s with price := c.current })
    {}

end Criteria

end JourneyPlanner
