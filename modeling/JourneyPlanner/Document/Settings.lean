import JourneyPlanner.Json.Decode
import JourneyPlanner.Query.Settings
/-!
# Settings as documents

The Json form of the settings of a search, every part of which may be left out.
-/

namespace JourneyPlanner.Settings

open Json

/-- Settings, with the default for whatever is left out. -/
def ofJson? (value : Json) : Option Settings := do
  let f ← fields? ["max_label_count", "max_travel_time_mins", "max_transfers", "max_price",
    "sorted_buckets", "arena_block_labels"] value
  let standard : Settings := {}
  return {
    maxLabels := ← f.optional? "max_label_count" standard.maxLabels (asNat? 64)
    maxMinutes := ← f.optional? "max_travel_time_mins" standard.maxMinutes asNat32?
    maxTransfers := ← f.optional? "max_transfers" standard.maxTransfers asNat32?
    maxPrice := ← f.optional? "max_price" standard.maxPrice (asOption? asNat32?)
    sortedBuckets := ← f.optional? "sorted_buckets" standard.sortedBuckets asBool?
    firstBlock := ← f.optional? "arena_block_labels" standard.firstBlock (asNat? 64) }

end JourneyPlanner.Settings
