import JourneyPlanner.Bounded
/-!
# Settings of a search

The limits beyond which a search gives up a partial journey, and how it keeps its labels.
-/

namespace JourneyPlanner

/-- Limits and storage of a search. -/
structure Settings where
  /-- How many labels may be taken from the queue before the search stops with what it has. -/
  maxLabels : Nat := 1000000
  /-- The longest journey, in minutes; also the last bucket of the queue. -/
  maxMinutes : Nat := 1440
  maxTransfers : Nat := 6
  maxPrice : Option Nat := none
  /-- Whether the labels of one bucket are kept in order. -/
  sortedBuckets : Bool := true
  /-- How many labels the first block of the pool holds; each later block holds twice as many. -/
  firstBlock : Nat := 4096
  deriving DecidableEq, Repr

/-- Why settings are refused. -/
inductive SettingsFault where
  | noMinutes
  | noBlock
  deriving DecidableEq, Repr

/-- The message for refused settings. -/
def SettingsFault.message : SettingsFault → String
  | noMinutes => "invalid search config: max_travel_time_mins must be positive"
  | noBlock => "invalid search config: arena_block_labels must be positive"

namespace Settings

/-- What is wrong with the settings, if anything. -/
def fault? (settings : Settings) : Option SettingsFault :=
  if settings.maxMinutes = 0 then some .noMinutes
  else if settings.firstBlock = 0 then some .noBlock
  else none

/-- The last bucket that the queue needs. -/
def maxBucket (settings : Settings) : Nat := settings.maxMinutes

/-- The highest price; without a limit, the highest that there is. -/
def priceLimit (settings : Settings) : Nat := settings.maxPrice.getD Bounded.ceiling

end Settings

end JourneyPlanner
