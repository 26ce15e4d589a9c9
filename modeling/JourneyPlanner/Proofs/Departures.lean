import JourneyPlanner.Proofs.Query.StartTimes
import JourneyPlanner.Proofs.Router

/-!
# When one can leave

The main result of this file, `startTimes_exact`:

> before a trip the start times are strictly ascending, and they are the times of the
> interval at which a vehicle leaves the origin, or from which a walk that can be set
> out on at any time leads to a vehicle just as it leaves; backward, likewise with
> vehicles that arrive.

For the vehicles of a walk the interval is moved by the walk and the times are moved
back. A bound that cannot be moved, because it would pass the ceiling or fall below
zero, drops the whole walk, or is cut at zero. No vehicle is lost by that as long as the
interval lies in the schedule (`QueryGraph.mem_walkTimes_of_servesWalk`): all vehicles
are met before the second day after it.
-/

namespace JourneyPlanner

/-- A walk or a ride of so many minutes that one can set out on at any time. -/
def EdgeKind.IsAnytimeWalk (kind : EdgeKind) (minutes : Nat) : Prop :=
  (∃ price, kind = .foot minutes price) ∨
    ∃ ride, kind = .mumo ride ∧ ride.window = none ∧ ride.duration = minutes

theorem EdgeKind.anytimeWalk?_eq_some_iff {kind : EdgeKind} {minutes : Nat} :
    kind.anytimeWalk? = some minutes ↔ kind.IsAnytimeWalk minutes := by
  unfold anytimeWalk? IsAnytimeWalk
  cases kind with
  | mumo ride => cases hwindow : ride.window <;> simp [hwindow]
  | foot duration price => simp
  | route | enter | exit | through | hotel => simp

/-- Before a trip one starts whenever the origin is served, or a walk from there meets a vehicle,
and at no other time. -/
theorem startTimes_exact {fixture : Fixture} {tt : Timetable} (hbuild : fixture.build = .ok tt)
    (edges : List AdditionalEdge) (origin : NodeId) {finish : Time}
    (hfinish : finish ≤ tt.period.finish) (begin : Time) (direction : Direction) :
    let graph := QueryGraph.make tt edges
    let times := graph.startTimes origin begin finish .preTrip direction
    times.Pairwise (· < ·) ∧ ∀ time, time ∈ times ↔ begin ≤ time ∧ time ≤ finish ∧
      (tt.Serves origin direction time ∨
        ∃ ref, graph.Has ref ∧ (graph.edge ref).source direction = origin ∧
          ∃ minutes, (graph.edge ref).kind.IsAnytimeWalk minutes ∧
            tt.ServesWalk ((graph.edge ref).target direction) minutes time direction) := by
  have hsound := Fixture.build_sound hbuild
  have hgraph : (QueryGraph.make tt edges).Sound := QueryGraph.make_sound hsound edges
  have htimetable : (QueryGraph.make tt edges).timetable.Sound := hsound
  refine ⟨QueryGraph.pairwise_startTimes origin, fun time => ?_⟩
  rw [QueryGraph.mem_startTimes_iff]
  constructor
  · rintro (hhere | ⟨ref, href, minutes, hwalk, htime⟩)
    · obtain ⟨hle, hge, hserves⟩ := hsound.mem_stationTimes.1 hhere
      exact ⟨hle, hge, Or.inl hserves⟩
    · obtain ⟨hle, hge, hserves⟩ := QueryGraph.mem_walkTimes htimetable htime
      obtain ⟨hhas, hsource⟩ := hgraph.mem_edgesAt.1 href
      exact ⟨hle, hge, Or.inr ⟨ref, hhas, hsource, minutes,
        EdgeKind.anytimeWalk?_eq_some_iff.1 hwalk, hserves⟩⟩
  · rintro ⟨hle, hge, hserves | ⟨ref, hhas, hsource, minutes, hwalk, hserves⟩⟩
    · exact Or.inl (hsound.mem_stationTimes.2 ⟨hle, hge, hserves⟩)
    · exact Or.inr ⟨ref, hgraph.mem_edgesAt.2 ⟨hhas, hsource⟩, minutes,
        EdgeKind.anytimeWalk?_eq_some_iff.2 hwalk,
        QueryGraph.mem_walkTimes_of_servesWalk htimetable hfinish hle hge hserves⟩

/-- A train from `A`, and another one from `B`, which lies five minutes on foot from `A`. -/
def nearbyTrains : Fixture :=
  { firstDay := Fixture.firstMonday, days := 1, categories := ["RE"],
    stations := [.plain "A" 0, .plain "B" 0, .plain "C" 0],
    routes := [⟨["A", "C"], [.single "00:10" "00:30" 0 none]⟩,
      ⟨["B", "C"], [.single "00:25" "00:40" 0 none]⟩],
    footpaths := [⟨"A", "B", 5⟩], through := [] }

/-- The two trains are found at the station and by the last edge, which is the walk. -/
def nearbyTrains.found (tt : Timetable) : Bool :=
  let graph := QueryGraph.make tt []
  let walk := graph.edge (.timetable 6)
  decide (1439 ≤ tt.period.finish) && decide (10 ∈ tt.stationTimes 0 0 1439 .forward) &&
    decide (20 ∈ graph.walkTimes 1 5 0 1439 .forward) && decide (6 < tt.edges.size) &&
    decide (walk.tail = 0) && decide (walk.head = 1) &&
    decide (walk.kind.anytimeWalk? = some 5)

/-- One can leave with the first train, or on foot five minutes before the second. -/
theorem startTimes_exact_nearbyTrains : ∃ tt, nearbyTrains.build = .ok tt ∧
    1439 ≤ tt.period.finish ∧ tt.Serves 0 .forward 10 ∧ tt.Serves 1 .forward 25 ∧
    10 ∈ (QueryGraph.make tt []).startTimes 0 0 1439 .preTrip .forward ∧
    20 ∈ (QueryGraph.make tt []).startTimes 0 0 1439 .preTrip .forward := by
  have hfound : nearbyTrains.build.toOption.any nearbyTrains.found = true := by decide +kernel
  obtain ⟨tt, hbuild, hmatch⟩ := (Option.any_eq_true _ _).1 hfound
  have hbuild := Fixture.toOption_eq_some hbuild
  unfold nearbyTrains.found at hmatch
  simp only [Bool.and_eq_true, decide_eq_true_eq] at hmatch
  obtain ⟨⟨⟨⟨⟨⟨hfinish, hten⟩, htwenty⟩, hlt⟩, htail⟩, hhead⟩, hwalk⟩ := hmatch
  have hsound := Fixture.build_sound hbuild
  have hgraph : (QueryGraph.make tt []).timetable.Sound := hsound
  have hserves : tt.Serves 0 .forward 10 := (hsound.mem_stationTimes.1 hten).2.2
  have hmeets : tt.Serves 1 .forward 25 := (QueryGraph.mem_walkTimes hgraph htwenty).2.2
  have htarget : ((QueryGraph.make tt []).edge (.timetable 6)).target .forward = 1 := hhead
  have hmem := fun time => ((startTimes_exact hbuild [] 0 hfinish 0 .forward).2 time).2
  refine ⟨tt, hbuild, hfinish, hserves, hmeets,
    hmem 10 ⟨by decide, by decide, Or.inl hserves⟩,
    hmem 20 ⟨by decide, by decide, Or.inr ⟨.timetable 6, hlt, htail, 5,
      EdgeKind.anytimeWalk?_eq_some_iff.1 hwalk, ?_⟩⟩⟩
  rw [htarget]
  exact hmeets

end JourneyPlanner
