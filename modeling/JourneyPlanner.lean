import JourneyPlanner.CommandLine
import JourneyPlanner.Main
import JourneyPlanner.Proofs.Fallible
import JourneyPlanner.Proofs.Network.Builder
import JourneyPlanner.Proofs.Storage.Pool
import JourneyPlanner.Proofs.Storage.Queue
import JourneyPlanner.Proofs.ParetoFront
import JourneyPlanner.Proofs.Aggregates
import JourneyPlanner.Proofs.Completeness
import JourneyPlanner.Proofs.Search.Leads
import JourneyPlanner.Proofs.Search.Turns
import JourneyPlanner.Proofs.Storage.Ranked
import JourneyPlanner.Proofs.RunningDays
import JourneyPlanner.Proofs.Changes
import JourneyPlanner.Proofs.Itinerary.Writing
import JourneyPlanner.Proofs.Pruning
import JourneyPlanner.Proofs.Anytime
import JourneyPlanner.Proofs.SortedBuckets
import JourneyPlanner.Proofs.Search.Moments
import JourneyPlanner.Proofs.Handles
import JourneyPlanner.Proofs.Search.Room
import JourneyPlanner.Proofs.Reuse
import JourneyPlanner.Proofs.Network.Through
import JourneyPlanner.Proofs.Search.Aboard
import JourneyPlanner.Proofs.Consistency
import JourneyPlanner.Proofs.Search.View
import JourneyPlanner.Proofs.Search.Horizon
import JourneyPlanner.Proofs.Search.Trim
import JourneyPlanner.Proofs.Limits
import JourneyPlanner.Proofs.Search.Counts
import JourneyPlanner.Proofs.Accounting
import JourneyPlanner.Proofs.Search.Progress
import JourneyPlanner.Proofs.Search.States
import JourneyPlanner.Proofs.Termination
import JourneyPlanner.Proofs.Itinerary.Visits
import JourneyPlanner.Proofs.PathOrder
import JourneyPlanner.Proofs.PreTrip
import JourneyPlanner.Proofs.Itinerary.Tiling
import JourneyPlanner.Proofs.WellFormed
import JourneyPlanner.Proofs.Schedule.Traffic
import JourneyPlanner.Proofs.LockSafety
import JourneyPlanner.Proofs.Network.InPlace
import JourneyPlanner.Proofs.Network.Layout
import JourneyPlanner.Proofs.Assembly
import JourneyPlanner.Proofs.Query.Hotels
import JourneyPlanner.Proofs.Search.Survey
import JourneyPlanner.Proofs.Search.Nights
import JourneyPlanner.Proofs.Hotels
import JourneyPlanner.Proofs.Distances
import JourneyPlanner.Proofs.Windows
import JourneyPlanner.Proofs.Boarding
import JourneyPlanner.Proofs.Departures
import JourneyPlanner.Proofs.Calendar.Minutes
import JourneyPlanner.Proofs.Intervals
import JourneyPlanner.Proofs.RideWindows
import JourneyPlanner.Proofs.RideTimes
import JourneyPlanner.Proofs.Attributes
import JourneyPlanner.Proofs.PriorityOrder
import JourneyPlanner.Proofs.SlotReuse
import JourneyPlanner.Proofs.Fronts
import JourneyPlanner.Proofs.Adjacency
import JourneyPlanner.Proofs.Network.Tables
import JourneyPlanner.Proofs.Continuations
import JourneyPlanner.Proofs.Identifiers
