import JourneyPlanner.Itinerary.Journey
/-!
# The order of journeys

Journeys are shown by departure, then duration, transfers and price. One without a departure comes
first, and journeys that agree in all four keep their order.
-/

namespace JourneyPlanner.Journey

/-- The order of departures; none comes before any. -/
def compareDeparture : Option Int → Option Int → Ordering
  | none, none => .eq
  | none, some _ => .lt
  | some _, none => .gt
  | some a, some b => compare a b

/-- The order in which journeys are shown. -/
def order (a b : Journey) : Ordering :=
  (compareDeparture a.departureTime? b.departureTime?).then <|
    (compare a.duration b.duration).then <|
      (compare a.transfers b.transfers).then (compare a.price b.price)

/-- Journeys in the order in which they are shown. -/
def rank (journeys : List Journey) : List Journey :=
  journeys.mergeSort fun a b => order a b != .gt

theorem rank_perm (journeys : List Journey) : (rank journeys).Perm journeys :=
  List.mergeSort_perm _ _

end JourneyPlanner.Journey
