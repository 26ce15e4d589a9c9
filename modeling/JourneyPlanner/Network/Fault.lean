import JourneyPlanner.Calendar.Clock
import JourneyPlanner.Network.StationId
import JourneyPlanner.Text.Quoted
/-!
# What can be wrong with a timetable

Every reason for which a part is refused while a timetable is put together, and the wording of each.
-/

namespace JourneyPlanner

/-- Which of the two times at a stop. -/
inductive StopSide where
  | arrival
  | departure
  deriving DecidableEq, Repr

/-- The side in words. -/
def StopSide.render : StopSide → String
  | arrival => "arrival"
  | departure => "departure"

/-- Why two routes cannot be joined. -/
inductive ThroughFault where
  | emptyRoute
  | apart
  | wrongCount (mapped trips : Nat)
  | noTrip (trip : Nat)
  | tooEarly (trip : Nat)
  deriving DecidableEq, Repr

/-- The reason in words. -/
def ThroughFault.reason : ThroughFault → String
  | emptyRoute => "empty route"
  | apart => "routes do not meet at one station"
  | wrongCount mapped trips => toString mapped ++ " trips mapped, route has " ++ toString trips
  | noTrip trip => "trip " ++ toString trip ++ " out of range"
  | tooEarly trip => "trip " ++ toString trip ++ " continues before it arrives"

/-- Why a fixture that is well formed as a document still describes no timetable. -/
inductive FixtureFault where
  /-- The document itself could not be read. -/
  | unreadable
  | dayCount (days : Nat)
  | dayOfTrain (trainNumber : Nat)
  | time (text : String) (fault : ClockFault)
  deriving DecidableEq, Repr

/-- The reason in words. -/
def FixtureFault.reason : FixtureFault → String
  | unreadable => "not a fixture"
  | dayCount days => "schedule must have 1 to 64 days, got " ++ toString days
  | dayOfTrain number => "train " ++ toString number ++ ": day out of range"
  | time text fault => Text.quoted text ++ ": " ++ fault.message

/-- Why a part of a timetable is refused. -/
inductive NetworkFault where
  | invalidStationId (fault : StationIdFault)
  | duplicateStation (id : String)
  | unknownStation (name : String)
  | unknownCategory (name : String)
  | unknownRoute (id : Nat)
  | routeTooShort (stops : Nat)
  | misalignedTrip (trip expected found : Nat)
  | missingTime (trip stop : Nat) (side : StopSide)
  | timeTravel (trip stop : Nat)
  | unsortedLegs (edge : Nat)
  | overtaking (edge : Nat)
  | dayBeyondSchedule (trip day days : Nat)
  | invalidThrough (fault : ThroughFault)
  | malformedFixture (fault : FixtureFault)
  deriving DecidableEq, Repr

/-- The message for a refused part. -/
def NetworkFault.message : NetworkFault → String
  | invalidStationId fault => fault.message
  | duplicateStation id => "station " ++ id ++ " defined twice"
  | unknownStation name => "unknown station " ++ name
  | unknownCategory name => "unknown category " ++ name
  | unknownRoute id => "unknown route " ++ toString id
  | routeTooShort stops => "route with " ++ toString stops ++ " stops is too short"
  | misalignedTrip trip expected found =>
    "trip " ++ toString trip ++ " has " ++ toString found ++ " stops, route has " ++
      toString expected
  | missingTime trip stop side =>
    "trip " ++ toString trip ++ " has no " ++ side.render ++ " time at stop " ++ toString stop
  | timeTravel trip stop =>
    "trip " ++ toString trip ++ " goes back in time at stop " ++ toString stop
  | unsortedLegs edge => "departures on route edge " ++ toString edge ++ " are not sorted"
  | overtaking edge => "trips overtake each other on route edge " ++ toString edge
  | dayBeyondSchedule trip day days =>
    "trip " ++ toString trip ++ " runs on day " ++ toString day ++ ", schedule has " ++
      toString days ++ " days"
  | invalidThrough fault => "invalid through connection: " ++ fault.reason
  | malformedFixture fault => "malformed timetable fixture: " ++ fault.reason

end JourneyPlanner
