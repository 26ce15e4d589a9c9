import JourneyPlanner.Calendar.Direction
import JourneyPlanner.Network.Edge
/-!
# Trips within a window of time

The legs of a route edge are stored once and repeat on every day of traffic. A `Window` holds, for
each day, the stretch of legs whose time lies between two bounds (the departure when searching forward,
the arrival when searching backward) and merges the stretches in the order in which a search meets
them: ascending departures, or descending arrivals, the earlier day first among equals. Legs whose trip
does not run on a day are passed over.
-/

namespace JourneyPlanner

/-- One run of a trip over a route edge: the trip started on `day`. -/
structure Event where
  trip : Nat
  day : Nat
  departure : Time
  arrival : Time
  leg : Leg
  deriving DecidableEq

/-- The run of a trip that started on `day`, if the edge has such a trip. -/
def Event.at? (legs : Array Leg) (trip day : Nat) : Option Event :=
  legs[trip]?.map fun leg =>
    { trip, day, departure := Time.ofDay day leg.departure, arrival := Time.ofDay day leg.arrival,
      leg }

/-- The time by which a search in `direction` meets an event. -/
def Event.key (event : Event) : Direction → Time
  | .forward => event.departure
  | .backward => event.arrival

/-- The minute by which a search in `direction` meets a leg. -/
def Leg.key (leg : Leg) : Direction → Nat
  | .forward => leg.departure
  | .backward => leg.arrival

/-- The legs at positions `lo ≤ i < hi`, run on one day. -/
structure DayRun where
  day : Nat
  lo : Nat
  hi : Nat
  deriving DecidableEq, Repr, Inhabited

/-- How many legs a stretch has left. -/
def DayRun.size (run : DayRun) : Nat := run.hi - run.lo

/-- What is left of a window. -/
structure Window where
  legs : Array Leg
  direction : Direction
  runs : List DayRun

namespace Window

/-- How many legs, ordered by time, come before the bound on a day. -/
def countBefore (legs : Array Leg) (direction : Direction) (day bound : Nat) : Nat :=
  legs.findIdx fun leg => bound ≤ Time.ofDay day (leg.key direction)

/-- The stretch of legs in `[begin, finish)` on a day. -/
def runOn (legs : Array Leg) (direction : Direction) (begin finish : Time) (day : Nat) : DayRun :=
  { day, lo := countBefore legs direction day begin, hi := countBefore legs direction day finish }

/-- The days on which a leg may lie in `[begin, finish)`, where the keys of the legs lie between
`least` and `greatest`: from the first day that reaches `begin` to the last that starts before
`finish`, at most `dayCount` of them from the start of the schedule. -/
def candidateDays (least greatest : Nat) (begin finish : Time) (dayCount : Nat) : List Nat :=
  if begin < finish ∧ 0 < dayCount ∧ least ≤ finish - 1 then
    let first := (begin - greatest + (Time.perDay - 1)) / Time.perDay
    let last := min ((finish - 1 - least) / Time.perDay) (dayCount - 1)
    List.range' first (last + 1 - first)
  else []

/-- The window `[begin, finish)` over a route edge, on the first `dayCount` days. -/
def make (legs : Array Leg) (begin finish : Time) (direction : Direction) (dayCount : Nat) :
    Window :=
  match legs[0]?, legs.back? with
  | some first, some last =>
    let days := candidateDays (first.key direction) (last.key direction) begin finish dayCount
    let runs := days.map (runOn legs direction begin finish)
    { legs, direction, runs := runs.filter fun run => run.lo < run.hi }
  | _, _ => { legs, direction, runs := [] }

/-- How many legs the stretches have left together. -/
def size (window : Window) : Nat := window.runs.foldl (fun legs run => legs + run.size) 0

/-- The position of the next leg of a stretch: its first going forward, its last going backward. -/
def nextIndex (direction : Direction) (run : DayRun) : Nat :=
  match direction with
  | .forward => run.lo
  | .backward => run.hi - 1

/-- The time of the next leg of a stretch. -/
def nextTime (window : Window) (run : DayRun) : Time :=
  match window.legs[nextIndex window.direction run]? with
  | some leg => Time.ofDay run.day (leg.key window.direction)
  | none => 0

/-- A stretch without its next leg. -/
def dropNext (direction : Direction) (run : DayRun) : DayRun :=
  match direction with
  | .forward => { run with lo := run.lo + 1 }
  | .backward => { run with hi := run.hi - 1 }

/-- Whether a search in `direction` meets `a` strictly sooner than `b`. -/
def sooner (direction : Direction) (a b : Time) : Bool :=
  match direction with
  | .forward => a < b
  | .backward => b < a

/-- The position and time of the stretch whose next leg comes first, the first of several at one
time; stretches that are used up do not count. -/
def best? (window : Window) : Option (Nat × Time) :=
  window.runs.zipIdx.foldl
    (fun best (run, position) =>
      if run.hi ≤ run.lo then best
      else
        let time := window.nextTime run
        match best with
        | none => some (position, time)
        | some (_, least) => if sooner window.direction time least then some (position, time) else best)
    none

/-- The day and position of the next leg, and the window after it. -/
def takeNext? (window : Window) : Option ((Nat × Nat) × Window) := do
  let (position, _) ← window.best?
  let run ← window.runs[position]?
  return ((run.day, nextIndex window.direction run),
    { window with runs := window.runs.set position (dropNext window.direction run) })

/-- The event of a leg on a day, if its trip runs then. -/
def eventOn? (window : Window) (day position : Nat) : Option Event :=
  (Event.at? window.legs position day).filter fun event => event.leg.days.runsOn day

/-- The first event within `turns` legs that satisfies `p`. -/
def findWithin? (p : Event → Bool) : Nat → Window → Option Event
  | 0, _ => none
  | turns + 1, window =>
    match window.takeNext? with
    | none => none
    | some ((day, position), rest) =>
      match (window.eventOn? day position).filter p with
      | some event => some event
      | none => findWithin? p turns rest

/-- The first event of the window that satisfies `p`; no event after it is looked at. -/
def find? (window : Window) (p : Event → Bool) : Option Event := findWithin? p window.size window

/-- The events within `turns` legs. -/
def eventsWithin : Nat → Window → List Event
  | 0, _ => []
  | turns + 1, window =>
    match window.takeNext? with
    | none => []
    | some ((day, position), rest) =>
      match window.eventOn? day position with
      | some event => event :: eventsWithin turns rest
      | none => eventsWithin turns rest

/-- All events of the window, in the order in which a search meets them. -/
def events (window : Window) : List Event := eventsWithin window.size window

theorem findWithin?_eq_find? (p : Event → Bool) (turns : Nat) (window : Window) :
    findWithin? p turns window = (eventsWithin turns window).find? p := by
  induction turns generalizing window with
  | zero => rfl
  | succ turns ih =>
    simp only [findWithin?, eventsWithin]
    cases window.takeNext? with
    | none => rfl
    | some next =>
      obtain ⟨⟨day, position⟩, rest⟩ := next
      cases h : window.eventOn? day position with
      | none => simpa [h] using ih rest
      | some event => cases hp : p event <;> simp [h, hp, ih, Option.filter]

/-- Looking for an event is looking through the list of all of them. -/
theorem find?_eq (window : Window) (p : Event → Bool) :
    window.find? p = window.events.find? p := findWithin?_eq_find? p _ _

end Window

end JourneyPlanner
