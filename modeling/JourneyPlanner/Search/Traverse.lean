import JourneyPlanner.Query.Fault
import JourneyPlanner.Query.StartTimes
import JourneyPlanner.Search.Label
/-!
# Taking an edge

`edgeCost` says what an edge costs from where a label is, or that it cannot be taken. Going forward an
edge is taken from its tail to its head and time runs up; going backward it is taken from head to tail
and time runs down. Either way the cost is a number of minutes to move on by.

Someone on a vehicle stays on its trip. Someone about to board takes the first trip of the route that
leaves after the change of vehicle and not past the horizon, or, going backward, the last that arrives
in time for the change. Before a trip the first vehicle has to be met exactly.
-/

namespace JourneyPlanner

/-- Whether a minute of the day lies in `[begin, finish)`, a span that may run over midnight. A span
that ends where it begins lasts all day. -/
def inDailyWindow (minute begin finish : Nat) : Bool :=
  if begin = finish then true
  else if begin < finish then begin ≤ minute && minute < finish
  else begin ≤ minute || minute < finish

namespace Mumo

/-- Minutes until the window is open. -/
def wait? (window : RideWindow) (now : Time) : Option Nat :=
  match window with
  | .absolute begin finish =>
    let departure := max now begin
    if finish ≤ departure then none else some (departure - now)
  | .daily begin finish =>
    let minute := Time.minuteOfDay now
    if inDailyWindow minute begin finish then some 0
    else some ((begin + Time.perDay - minute) % Time.perDay)

/-- Minutes by which one has to set out before `departure` to do so while the window is open. -/
def lead? (window : RideWindow) (departure : Time) : Option Nat :=
  match window with
  | .absolute begin finish => do
    let latest := min departure (← Bounded.sub? finish 1)
    if latest < begin then none else some (departure - latest)
  | .daily begin finish =>
    let minute := Time.minuteOfDay departure
    if inDailyWindow minute begin finish then some 0
    else
      let last := (finish + Time.perDay - 1) % Time.perDay
      some ((minute + Time.perDay - last) % Time.perDay)

/-- Minutes that a ride takes from `now`, with the wait for its window; going backward, up to `now`
from the last departure that the window allows. -/
def time? (ride : Mumo) (now : Time) (direction : Direction) : Option Nat :=
  match ride.window, direction with
  | none, _ => some ride.duration
  | some window, .forward => do Bounded.add? (← wait? window now) ride.duration
  | some window, .backward => do
    let departure ← Bounded.sub? now ride.duration
    let time := ride.duration + (← lead? window departure)
    if time ≤ now then some time else none

end Mumo

namespace Hotel

/-- Minutes of a stay: until guests leave, or going backward since they left, but never less than
the least stay. -/
def stay (hotel : Hotel) (now : Time) (direction : Direction) : Nat :=
  let minute := Time.minuteOfDay now
  let gap := match direction with
    | .forward => (hotel.checkout + Time.perDay - minute) % Time.perDay
    | .backward => (minute + Time.perDay - hotel.checkout) % Time.perDay
  max gap hotel.minStay

end Hotel

namespace Event

/-- Minutes from `now` to the end of an event's ride, or going backward from its beginning to `now`. -/
def span (event : Event) (now : Time) : Direction → Nat
  | .forward => event.arrival - now
  | .backward => now - event.departure

/-- Whether an event is met at `now` or still to come in a direction. -/
def isAhead (event : Event) (now : Time) : Direction → Bool
  | .forward => now ≤ event.departure
  | .backward => event.arrival ≤ now

/-- Whether an event leaves `change` minutes to change vehicles at `now`. -/
def leaves (event : Event) (now change : Nat) : Direction → Bool
  | .forward => Bounded.add now change ≤ event.departure
  | .backward => Bounded.add event.arrival change ≤ now

end Event

namespace Timetable

/-- The cost of riding an event of a route edge. -/
def rideCost (tt : Timetable) (edge : EdgeId) (event : Event) (now : Time) (transfer : Bool)
    (direction : Direction) : EdgeCost :=
  let info := tt.info event.leg.info
  { time := event.span now direction
    price := info.price
    transfer
    connection := some { edge, trip := event.trip, day := event.day, category := info.category }
    ride := some { trip := event.trip, day := event.day } }

/-- Riding on: the trip is the one that the label is on, and the timetable contradicts itself unless
that trip has an event on the edge which is not past. -/
def stayAboard (tt : Timetable) (label : Label) (ride : Ride) (edge : EdgeId) (legs : Array Leg)
    (direction : Direction) : Except SearchFault EdgeCost :=
  match (Event.at? legs ride.trip ride.day).filter (·.isAhead label.now direction) with
  | some event => .ok (tt.rideCost edge event label.now false direction)
  | none => .error (.inconsistent (.unusableTrip ride.trip ride.day edge))

/-- Minutes for the change from the vehicle used last to one of `category`; none before the first. -/
def changeTime (tt : Timetable) (label : Label) (direction : Direction) (category : CategoryId) :
    Nat :=
  match label.lastConnection, direction with
  | none, _ => 0
  | some last, .forward => tt.interchangeTime label.node last.category category
  | some last, .backward => tt.interchangeTime label.node category last.category

/-- The times between which a label may board: within the horizon from its start, or at `now` alone
while it is pinned. -/
def boardingWindow (label : Label) (direction : Direction) (horizon : Nat) : Time × Time :=
  match label.pinned, direction with
  | true, _ => (label.now, Bounded.add label.now 1)
  | false, .forward => (label.now, Bounded.add label.start (horizon + 1))
  | false, .backward => (label.start - horizon, Bounded.add label.now 1)

/-- Boarding: the first event in the window that leaves time for the change. -/
def board? (tt : Timetable) (label : Label) (edge : EdgeId) (legs : Array Leg)
    (direction : Direction) (horizon : Nat) : Option EdgeCost :=
  let (begin, finish) := boardingWindow label direction horizon
  let event? := (tt.window legs begin finish direction).find? fun event =>
    let change := tt.changeTime label direction (tt.info event.leg.info).category
    event.leaves label.now change direction
  event?.map fun event =>
    tt.rideCost edge event label.now label.lastConnection.isSome direction

end Timetable

/-- What an edge costs from a label, or nothing if it cannot be taken from there. -/
def edgeCost (graph : QueryGraph) (label : Label) (ref : EdgeRef) (direction : Direction)
    (horizon : Nat) : Except SearchFault (Option EdgeCost) :=
  let kind := (graph.edge ref).kind
  let onFoot := label.ride.isNone && !label.boarding
  if kind.isWalk && !onFoot then .ok none
  else
    match kind, direction with
    | .enter, .forward | .exit, .backward =>
      .ok (if onFoot then some { boarding := true } else none)
    | .exit, .forward | .enter, .backward => .ok (label.ride.map fun _ => {})
    | .route legs, _ =>
      match ref, label.ride with
      | .extra _, _ => .ok none
      | .timetable id, some ride =>
        (graph.timetable.stayAboard label ride id legs direction).map some
      | .timetable id, none =>
        .ok (if label.boarding then graph.timetable.board? label id legs direction horizon else none)
    | .through trips, _ =>
      .ok do
        let ride ← label.ride
        let trip ← match direction with
          | .forward => EdgeKind.continuation? trips ride.trip
          | .backward => EdgeKind.origin? trips ride.trip
        return { ride := some { trip, day := ride.day } }
    | .foot duration price, _ => .ok (some { time := duration, price })
    | .mumo ride, _ =>
      .ok do
        let time ← ride.time? label.now direction
        if label.pinned && time != ride.duration then none
        else return { time, price := ride.price }
    | .hotel stay, _ =>
      .ok (if label.hotel || label.pinned then none
        else some { time := stay.stay label.now direction, price := stay.price, hotel := true })

end JourneyPlanner
