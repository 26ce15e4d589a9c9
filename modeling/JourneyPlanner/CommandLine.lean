import JourneyPlanner.Document.Fixture
import JourneyPlanner.Document.Request
import JourneyPlanner.Document.Response
import JourneyPlanner.Document.Settings
import JourneyPlanner.Schedule.Lock
/-!
# The command line

The program takes a timetable, a list of requests and, if wished, settings, each as the name of a file.
It answers every request by itself, reading the timetable in a scope of its own, and writes the answers
in the order of the requests. Any file that is missing or not what it should be makes the whole program
fail, and so does a worker without room for its labels; a request without an answer does not.
-/

namespace JourneyPlanner.CommandLine

/-- Why the program ends without answers. -/
inductive Failure where
  /-- A file could not be read. -/
  | unreadable
  | settings
  | refusedSettings (fault : SettingsFault)
  | timetable (fault : NetworkFault)
  | requests
  /-- A worker has no room for its labels. -/
  | storage
  deriving DecidableEq, Repr

/-- The message for a program that ends without answers. -/
def Failure.message : Failure → String
  | unreadable => "a file could not be read"
  | settings => "invalid search config"
  | refusedSettings fault => fault.message
  | timetable fault => fault.message
  | requests => "the queries are not a list of search requests"
  | storage => "the first block of labels does not fit in memory"

/-- The text of a file that has to be there. -/
def textOf (file : Option String) : Except Failure String :=
  match file with
  | some text => .ok text
  | none => .error .unreadable

/-- Settings from the text of their file, which have to pass their own check. -/
def settingsOf (text : String) : Except Failure Settings :=
  match (Json.parse? text).bind Settings.ofJson? with
  | none => .error .settings
  | some settings =>
    match settings.fault? with
    | some fault => .error (.refusedSettings fault)
    | none => .ok settings

/-- The timetable from the text of its file. -/
def timetableOf (text : String) : Except Failure Timetable :=
  (Fixture.load (Json.parse? text)).mapError .timetable

/-- The requests from the text of their file. -/
def requestsOf (text : String) : Except Failure (List Request) :=
  match (Json.parse? text).bind Request.listOfJson? with
  | some requests => .ok requests
  | none => .error .requests

/-- What comes of a request, in Json. -/
def outcome : Except SearchFault Response → Json
  | .ok response => response.toJson
  | .error fault => .record [("error", .str fault.message)]

/-- The answer to one request by a worker of its own. -/
def answer (schedule : ScheduleLock Timetable) (settings : Settings) (request : Request) :
    Option Json :=
  schedule.readWith? fun tt => outcome ((Router.new settings Measure.all).search tt request).1

/-- The answers to the requests in the files, each given by its text if it could be read. Settings
are looked at first, then the timetable, then the requests; where there are none, no worker is made and
none can lack room. -/
def run (timetable requests : Option String) (settings : Option (Option String)) :
    Except Failure (List Json) := do
  let settings ← match settings with
    | none => pure {}
    | some file => settingsOf (← textOf file)
  let timetable ← timetableOf (← textOf timetable)
  let requests ← requestsOf (← textOf requests)
  if !requests.isEmpty && !Frontier.fits settings then throw .storage
  return requests.filterMap (answer (ScheduleLock.new timetable) settings)

/-- What the program ends with. -/
inductive Exit where
  /-- The answers, to be printed. -/
  | answers (outcomes : List Json)
  /-- It failed. -/
  | failed (failure : Failure)
  /-- It was not given two or three files. -/
  | usage

/-- The status with which the program ends. -/
def Exit.status : Exit → Nat
  | answers _ => 0
  | failed _ => 1
  | usage => 2

/-- The program on its files, each given by its text if it could be read. -/
def main (files : List (Option String)) : Exit :=
  let go timetable requests settings :=
    match run timetable requests settings with
    | .ok outcomes => Exit.answers outcomes
    | .error failure => .failed failure
  match files with
  | [timetable, requests] => go timetable requests none
  | [timetable, requests, settings] => go timetable requests (some settings)
  | _ => .usage

end JourneyPlanner.CommandLine
