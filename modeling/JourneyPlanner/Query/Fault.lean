/-!
# What can go wrong with a query

A query fails because of what it asks for, or because the timetable contradicts itself or the labels
have run out of room. Only the latter two are fatal (`SearchFault.isFatal`). Running out of the label
budget is no fault.
-/

namespace JourneyPlanner

/-- Why a request is refused for its shape. -/
inductive RequestFault where
  | noEnds
  | emptyPath
  | sameEnds
  | tooManyVias
  deriving DecidableEq, Repr

/-- The reason in words. -/
def RequestFault.reason : RequestFault → String
  | noEnds => "path needs an origin and a destination"
  | emptyPath => "empty path"
  | sameEnds => "origin and destination are the same station"
  | tooManyVias => "too many via stops"

/-- How a timetable contradicts itself, as seen from a search or from a journey being written out. -/
inductive Inconsistency where
  | unusableTrip (trip day edge : Nat)
  | missingEdge
  | emptyChain
  | missingConnection
  | missingTrip (trip edge : Nat)
  | exitWithoutRide
  | endsOnBoard
  | badRange (message : String)
  deriving DecidableEq, Repr

/-- The contradiction in words. -/
def Inconsistency.reason : Inconsistency → String
  | unusableTrip trip day edge =>
    "trip " ++ toString trip ++ " on day " ++ toString day ++
      " has no usable event on route edge " ++ toString edge
  | missingEdge => "label chain misses an edge"
  | emptyChain => "empty label chain"
  | missingConnection => "route step without a connection"
  | missingTrip trip edge =>
    "trip " ++ toString trip ++ " missing on route edge " ++ toString edge
  | exitWithoutRide => "exit without a ride"
  | endsOnBoard => "journey ends on board"
  | badRange message => message

/-- Why a query has no answer. -/
inductive SearchFault where
  | stationNotFound (id : String)
  | malformedInterval (begin finish : Int)
  | outsideSchedule
  | invalidRequest (fault : RequestFault)
  | inconsistent (fault : Inconsistency)
  | exhausted
  deriving DecidableEq, Repr

namespace SearchFault

/-- The message for an identifier that names no station. -/
def stationMessage (id : String) : String := "station not found: " ++ id

/-- The message for a refused request. -/
def requestMessage (reason : String) : String := "invalid search request: " ++ reason

/-- The message for a timetable that contradicts itself. -/
def inconsistencyMessage (reason : String) : String := "timetable inconsistency: " ++ reason

/-- The message for a query without an answer. -/
def message : SearchFault → String
  | stationNotFound id => stationMessage id
  | malformedInterval begin finish =>
    "malformed interval: begin " ++ toString begin ++ " is after end " ++ toString finish
  | outsideSchedule => "interval lies outside the schedule period"
  | invalidRequest fault => requestMessage fault.reason
  | inconsistent fault => inconsistencyMessage fault.reason
  | exhausted => "label arena exhausted"

/-- Whether the fault lies with the timetable or the program rather than with the query. -/
def isFatal : SearchFault → Bool
  | inconsistent _ | exhausted => true
  | _ => false

end SearchFault

end JourneyPlanner
