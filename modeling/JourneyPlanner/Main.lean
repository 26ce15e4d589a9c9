import JourneyPlanner.CommandLine
import JourneyPlanner.Json.Printer
/-!
# The program

Reads the files named on the command line, hands their texts to `CommandLine.main`, and prints what comes
of it.
-/

namespace JourneyPlanner.Main

/-- The text of a file, if it can be read. -/
def readText? (name : String) : IO (Option String) := do
  try
    return some (← IO.FS.readFile name)
  catch _ =>
    return none

end JourneyPlanner.Main

/-- Answers the requests in the given files. -/
def main (names : List String) : IO UInt32 := do
  let exit := JourneyPlanner.CommandLine.main (← names.mapM JourneyPlanner.Main.readText?)
  match exit with
  | .answers outcomes => IO.println (JourneyPlanner.Json.array outcomes).pretty
  | .failed failure => IO.eprintln ("Error: " ++ failure.message)
  | .usage => IO.eprintln "usage: TIMETABLE QUERIES [CONFIG]"
  return exit.status.toUInt32
