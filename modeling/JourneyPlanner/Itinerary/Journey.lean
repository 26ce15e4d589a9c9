/-!
# Journeys

A `Journey` is what a traveller sees: the stops, the transports between them, and what the vehicles
offer on which part of the way. Transports and attributes refer to stops by their positions; every range
runs forward and lies within the stops, and there is at least one stop (`Journey.make`).
-/

namespace JourneyPlanner

/-- Arrival or departure at a stop. -/
structure StopEvent where
  /-- Seconds since 1970, UTC. -/
  time : Int
  platform : Option String
  deriving DecidableEq, Repr

/-- A stop of a journey. -/
structure Stop where
  station : String
  name : String
  arrival : Option StopEvent
  departure : Option StopEvent
  /-- A vehicle is boarded here. -/
  enter : Bool
  /-- A vehicle is left here. -/
  exit : Bool
  /-- A vehicle is boarded here after an earlier one. -/
  interchange : Bool
  deriving DecidableEq, Repr

/-- A stop at which nothing happens yet. -/
def Stop.at (station name : String) : Stop :=
  { station, name, arrival := none, departure := none, enter := false, exit := false,
    interchange := false }

/-- What a move without a vehicle is. -/
inductive WalkKind where
  | foot
  | mumo (id : Nat) (name : String)
  | hotel
  deriving DecidableEq, Repr

/-- How one gets from one stop to another. -/
inductive Move where
  | connection (category : String) (trainNumber : Nat) (line : String) (duration : Nat)
  | walk (kind : WalkKind) (duration : Nat)
  deriving DecidableEq, Repr

/-- A move between two stops. -/
structure Transport where
  first : Nat
  last : Nat
  move : Move
  deriving DecidableEq, Repr

namespace Transport

/-- Whether it is a vehicle. -/
def isConnection (t : Transport) : Bool :=
  match t.move with
  | .connection .. => true
  | .walk .. => false

/-- Minutes that it takes. -/
def duration (t : Transport) : Nat :=
  match t.move with
  | .connection _ _ _ minutes | .walk _ minutes => minutes

end Transport

/-- Something offered between two stops. -/
structure Attribute where
  first : Nat
  last : Nat
  code : String
  text : String
  deriving DecidableEq, Repr

/-- Why parts do not make a journey. -/
inductive JourneyFault where
  | empty
  | outOfRange (first last stops : Nat)
  | reversed (first last : Nat)
  deriving DecidableEq, Repr

/-- The message for parts that do not make a journey. -/
def JourneyFault.message : JourneyFault → String
  | empty => "journey must have at least one stop"
  | outOfRange first last stops =>
    "stop range " ++ toString first ++ "..=" ++ toString last ++ " out of bounds for " ++
      toString stops ++ " stops"
  | reversed first last => "stop range " ++ toString first ++ "..=" ++ toString last ++ " is reversed"

namespace Journey

/-- What is wrong with a range of stops, if anything. -/
def rangeFault? (stops : Nat) (range : Nat × Nat) : Option JourneyFault :=
  if range.2 < range.1 then some (.reversed range.1 range.2)
  else if stops ≤ range.2 then some (.outOfRange range.1 range.2 stops)
  else none

/-- The ranges of the transports, then those of the attributes. -/
def ranges (transports : List Transport) (attributes : List Attribute) : List (Nat × Nat) :=
  transports.map (fun t => (t.first, t.last)) ++ attributes.map fun a => (a.first, a.last)

/-- What is wrong with the parts of a journey, if anything. -/
def fault? (stops : List Stop) (transports : List Transport) (attributes : List Attribute) :
    Option JourneyFault :=
  if stops.isEmpty then some .empty
  else (ranges transports attributes).findSome? (rangeFault? stops.length)

end Journey

/-- A complete journey. -/
structure Journey where
  stops : List Stop
  transports : List Transport
  attributes : List Attribute
  /-- Minutes of travel as the search counts them. -/
  duration : Nat
  transfers : Nat
  price : Nat
  valid : Journey.fault? stops transports attributes = none
  deriving DecidableEq

namespace Journey

/-- The journey with the given parts, or the first thing that is wrong with them. -/
def make (stops : List Stop) (transports : List Transport) (attributes : List Attribute)
    (duration transfers price : Nat) : Except JourneyFault Journey :=
  match valid : fault? stops transports attributes with
  | none => .ok { stops, transports, attributes, duration, transfers, price, valid }
  | some fault => .error fault

/-- The instant at which the journey leaves: the first departure there is. -/
def departureTime? (journey : Journey) : Option Int :=
  (journey.stops.findSome? Stop.departure).map StopEvent.time

/-- The instant at which the journey ends: the last arrival there is. -/
def arrivalTime? (journey : Journey) : Option Int :=
  (journey.stops.reverse.findSome? Stop.arrival).map StopEvent.time

/-- How many stops are interchanges. -/
def interchangeCount (journey : Journey) : Nat := journey.stops.countP Stop.interchange

/-- Whether a journey is worse than another in none of duration, transfers and price, and better in
one of them. -/
def dominates (a b : Journey) : Bool :=
  decide (a.duration ≤ b.duration ∧ a.transfers ≤ b.transfers ∧ a.price ≤ b.price ∧
    (a.duration, a.transfers, a.price) ≠ (b.duration, b.transfers, b.price))

theorem not_dominates_self (journey : Journey) : journey.dominates journey = false := by
  simp [dominates]

end Journey

end JourneyPlanner
