import JourneyPlanner.Proofs.Handles
import JourneyPlanner.Proofs.Itinerary.Tiling

/-!
# Journeys are well formed

The main result of this file, `journeys_wellFormed`:

> the moves of a journey tile its stops, vehicles lead on by a stop at least and walks by one at
> most, and the times that are shown never go back.

It holds of any journey that a search comes to, whatever the criteria and in both directions: a
journey is written out over the labels of a trail, and what these are linked by is enough
(`Trail.tiled`).
-/

namespace JourneyPlanner

namespace Journey

/-- The times that are shown, stop by stop, at each the arrival before the departure. -/
def times (journey : Journey) : List Int := journey.stops.flatMap Stop.times

/-- What a traveller reads off a journey hangs together. -/
structure WellFormed (journey : Journey) : Prop where
  first : ∀ t, journey.transports.head? = some t → t.first = 0
  next : journey.transports.IsChain fun t next => next.first = t.last
  last : ∀ t, journey.transports.getLast? = some t → t.last + 1 = journey.stops.length
  still : journey.transports = [] → journey.stops.length = 1
  /-- A vehicle leads on by one stop at least, a walk by one at most. -/
  spans : ∀ t ∈ journey.transports, t.Spans
  times : journey.times.Pairwise (· ≤ ·)

end Journey

/-- A finished journey is well formed if its draft is tiled and shows its times in order. -/
theorem Draft.Tiled.wellFormed {d : Draft} (h : d.Tiled) (htimes : d.times.Pairwise (· ≤ ·))
    {duration : Nat} {journey : Journey} (hf : d.finish duration = .ok journey) :
    journey.WellFormed := by
  obtain ⟨hstops, htransports⟩ := finish_parts hf
  have hlength : journey.stops.length = d.position + 1 := by rw [hstops, length_stops]
  have htile : Transport.Tile 0 journey.transports d.position := by
    have htip : d.tip = d.position := by
      unfold Draft.tip
      rw [ride_of_finish hf]
    rw [htransports, ← htip]
    exact h.tile
  refine ⟨fun t ht => htile.first_eq ht, htile.isChain, fun t ht => ?_, fun hnil => ?_,
    fun t ht => ?_, ?_⟩
  · rw [htile.last_eq ht, hlength]
  · rw [hnil] at htile
    rw [hlength, htile.eq_of_nil]
  · rw [htransports] at ht
    exact h.spans t (List.mem_reverse.1 ht)
  · show (journey.stops.flatMap Stop.times).Pairwise (· ≤ ·)
    rw [hstops]
    exact htimes

/-- Every journey of every answer of a router over a timetable that was built is well formed. -/
theorem journeys_wellFormed {fixture : Fixture} {tt : Timetable} (hbuild : fixture.build = .ok tt)
    {settings : Settings} {measures : List Measure} {router : Router}
    (hrouter : Router.Reached settings measures router) {request : Request} {response : Response}
    (hanswer : (router.search tt request).1 = .ok response) :
    ∀ journey ∈ response.journeys, journey.WellFormed := by
  intro journey hj
  obtain ⟨run, hanswer⟩ := Router.search_eq_ok_iff.1 hanswer
  obtain ⟨q, -, hq, -, -, -⟩ := Router.answer_eq_ok hanswer
  obtain ⟨order, hanswers⟩ := hrouter.answers_to hbuild hq hanswer
  obtain ⟨id, hid, hok⟩ := hanswers.journeys journey hj
  obtain ⟨label, before, -, hchain, hgoal, htrail⟩ := hanswers.trail hid
  rw [hchain] at hok
  obtain ⟨d, hfold, hfinish⟩ := htrail.drafted hok
  have hceiling := Request.le_ceiling_of_backward (Fixture.build_sound hbuild) hq
  obtain ⟨htiled, htimes⟩ := htrail.tiled hanswers.sound hceiling
    (htrail.onFoot_of_isGoal hanswers.sound hgoal) hfold
  exact htiled.wellFormed htimes hfinish

/-- A train, and a walk from where it ends. -/
def trainThenWalk : Fixture :=
  { firstDay := Fixture.firstMonday, days := 1, categories := ["RE"],
    stations := [.plain "A" 0, .plain "B" 0, .plain "C" 0],
    routes := [⟨["A", "B"], [.single "00:10" "00:20" 0 none]⟩],
    footpaths := [⟨"B", "C", 5⟩], through := [] }

set_option maxRecDepth 4000 in
/-- Whoever is to be at `C` by a quarter to one waits at `B`, between a vehicle and a walk. -/
theorem journeys_wellFormed_trainThenWalk : ∃ tt response, trainThenWalk.build = .ok tt ∧
    ((Router.new {} Measure.all).search tt (Fixture.onTrip "A" "C" 45 .backward)).1 =
      .ok response ∧
    (∃ journey ∈ response.journeys, journey.transports.map (·.isConnection) = [true, false]) ∧
    ∀ journey ∈ response.journeys, journey.WellFormed := by
  obtain ⟨tt, q, run, response, journeys, hbuild, -, -, -, hanswer, hrank, hfound⟩ :=
    Fixture.of_search? trainThenWalk (Fixture.onTrip "A" "C" 45 .backward)
      (fun _ _ journeys => journeys.any fun journey =>
        journey.transports.map (·.isConnection) == [true, false]) (by decide +kernel)
  obtain ⟨journey, hj, hmoves⟩ := List.any_eq_true.1 hfound
  have hsearch := Router.search_eq_ok_iff.2 ⟨run, hanswer⟩
  refine ⟨tt, response, hbuild, hsearch, ⟨journey, ?_, beq_iff_eq.1 hmoves⟩,
    journeys_wellFormed hbuild .new hsearch⟩
  rw [hrank]
  exact (Journey.rank_perm journeys).mem_iff.2 hj

end JourneyPlanner
