import JourneyPlanner.Json.Basic
import JourneyPlanner.Router
/-!
# Answers as documents

The Json form of journeys, statistics and answers. Every field is written, with `null` for what there
is none of.
-/

namespace JourneyPlanner

open Json

/-- An arrival or departure in Json. -/
def StopEvent.toJson (event : StopEvent) : Json :=
  .record [("time", .int event.time), ("platform", .ofOption .str event.platform)]

/-- A stop in Json. -/
def Stop.toJson (stop : Stop) : Json :=
  .record [("station_id", .str stop.station), ("name", .str stop.name),
    ("arrival", .ofOption StopEvent.toJson stop.arrival),
    ("departure", .ofOption StopEvent.toJson stop.departure),
    ("enter", .bool stop.enter), ("exit", .bool stop.exit),
    ("interchange", .bool stop.interchange)]

/-- A kind of walk in Json. -/
def WalkKind.toJson : WalkKind → Json
  | .foot => .record [("type", .str "foot")]
  | .mumo id name => .record [("type", .str "mumo"), ("id", .nat id), ("name", .str name)]
  | .hotel => .record [("type", .str "hotel")]

/-- The members by which a move is written. -/
def Move.members : Move → List (String × Json)
  | .connection category trainNumber line duration =>
    [("move", .str "connection"), ("category", .str category), ("train_nr", .nat trainNumber),
      ("line", .str line), ("duration", .nat duration)]
  | .walk kind duration =>
    [("move", .str "walk"), ("kind", kind.toJson), ("duration", .nat duration)]

/-- A transport in Json. -/
def Transport.toJson (transport : Transport) : Json :=
  .record ([("from", .nat transport.first), ("to", .nat transport.last)] ++ transport.move.members)

/-- An attribute in Json. -/
def Attribute.toJson (offer : Attribute) : Json :=
  .record [("from", .nat offer.first), ("to", .nat offer.last), ("code", .str offer.code),
    ("text", .str offer.text)]

/-- A journey in Json. -/
def Journey.toJson (journey : Journey) : Json :=
  .record [("stops", .list Stop.toJson journey.stops),
    ("transports", .list Transport.toJson journey.transports),
    ("attributes", .list Attribute.toJson journey.attributes),
    ("duration", .nat journey.duration), ("transfers", .nat journey.transfers),
    ("price", .nat journey.price)]

/-- Statistics in Json. -/
def Statistics.toJson (s : Statistics) : Json :=
  .record [("labels_created", .nat s.labelsCreated), ("labels_popped", .nat s.labelsPopped),
    ("labels_popped_until_first_result", .nat s.poppedUntilFirstResult),
    ("labels_popped_after_last_result", .nat s.poppedAfterLastResult),
    ("start_label_count", .nat s.startLabels), ("max_label_quit", .bool s.budgetSpent),
    ("labels_filtered", .nat s.labelsFiltered),
    ("labels_dominated_by_results", .nat s.dominatedByResults),
    ("labels_dominated_at_node", .nat s.dominatedAtNode)]

/-- The members by which an answer is written. -/
def Response.members (response : Response) : List (String × Json) :=
  [("journeys", .list Journey.toJson response.journeys),
    ("statistics", response.statistics.toJson)]

/-- An answer in Json. -/
def Response.toJson (response : Response) : Json := .record response.members

end JourneyPlanner
