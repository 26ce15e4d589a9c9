import JourneyPlanner.Proofs.Completeness
import JourneyPlanner.Proofs.Itinerary.Writing
import JourneyPlanner.Proofs.Search.Turns

/-!
# Numbers of a journey

The main result of this file, `aggregates_exact`:

> every result of a search can be written out as a journey, and minutes, transfers
> and price of the journey are those of the result's label. The minutes are those
> between its start and its end, the price is the sum of the prices of all edges,
> below the ceiling, and the transfers are the interchanges among the stops, one less
> than the stops at which a vehicle is boarded.

A search adds up with a ceiling and counts changes as it boards; writing out adds up
without one and counts the stops. No result has come to the ceiling, since a label
that has is given up before it is queued.
-/

namespace JourneyPlanner

/-- The criteria of a trail at the goal are the numbers of the journey that is written
out from it. -/
theorem Trail.criteria_eq_numbers {q : Query} {settings : Settings} {label : Label}
    {before : List Label} (hq : q.Sound) (h : Trail q settings Measure.all (label :: before))
    (hgoal : q.target.isGoal label = true) {journey : Journey}
    (hj : Journey.ofChain q.graph q.direction (label :: before) = .ok journey) :
    label.criteria.map (fun c => (c.measure, c.current)) =
      [(.time, journey.duration), (.transfers, journey.transfers), (.price, journey.price)] := by
  obtain ⟨hduration, htransfers, hprice⟩ := numbers_of_ofChain h (h.onFoot_of_isGoal hq hgoal) hj
  rw [h.criteria_eq hq, hduration, htransfers, hprice]
  rfl

/-- Every result that a search over a timetable that was built leaves, whether it came
to its end, ran out of budget or was ended by a fault, can be written out, and the
numbers of the journey are exactly those of its label. -/
theorem aggregates_exact {fixture : Fixture} {tt : Timetable} (hbuild : fixture.build = .ok tt)
    {settings : Settings} {router : Router}
    (hrouter : Router.Reached settings Measure.all router) {request : Request} {q : Query}
    (hq : request.toQuery tt = .ok q) {run : Run}
    (hrun : Run.left (q.run settings Measure.all router.frontier) = run) {id : LabelId}
    (hid : id ∈ run.frontier.results) :
    ∃ label journey, run.frontier.label? id = some label ∧
      Journey.ofChain q.graph q.direction ((run.frontier.chain id).map (·.2)) = .ok journey ∧
      label.criteria.map (fun c => (c.measure, c.current)) =
        [(.time, journey.duration), (.transfers, journey.transfers), (.price, journey.price)] ∧
      journey.duration = Bounded.distance label.now label.start ∧
      journey.price = (((run.frontier.chain id).map (·.2)).map (Label.fare q.graph)).sum ∧
      journey.price < Bounded.ceiling ∧
      journey.transfers = journey.interchangeCount ∧
      journey.transfers = journey.stops.countP (·.enter) - 1 := by
  have hsound := (Request.toQuery_sound (Fixture.build_sound hbuild) hq).1
  obtain ⟨order, hs⟩ : ∃ order, Frontier.Sound q settings Measure.all run.frontier order [] := by
    rw [← hrun]
    exact Run.run_left_sound hsound hrouter.blank.2.2
  obtain ⟨hin, label, hget, hgoal⟩ := hs.results id hid
  obtain ⟨label', links, hget', hchain, htrail⟩ := hs.chain hin
  rw [hget] at hget'
  cases hget'
  have hfoot := htrail.onFoot_of_isGoal hsound hgoal
  have hlabels : (run.frontier.chain id).map (·.2) = label :: links.map (·.2) := by
    rw [hchain]
    rfl
  obtain ⟨journey, hj, hinterchanges, henters⟩ := htrail.written hsound hfoot
  obtain ⟨hduration, -, hprice⟩ := numbers_of_ofChain htrail hfoot hj
  -- a price at the ceiling would be beyond every limit
  have hlt : journey.price < Bounded.ceiling := by
    rw [hprice]
    exact lt_ceiling_of_boundOf (htrail.boundOf_within hsound (Measure.mem_all .price)).2.1
  rw [hlabels]
  exact ⟨label, journey, hget, hj, htrail.criteria_eq_numbers hsound hgoal hj, hduration, hprice,
    hlt, hinterchanges, henters⟩

/-- Two trains with a change between them, and a walk behind them. -/
def oneChange : Fixture :=
  { firstDay := Fixture.firstMonday, days := 1, categories := ["RE"],
    stations := [.plain "A" 0, .plain "B" 5, .plain "C" 0, .plain "D" 0],
    routes := [⟨["A", "B"], [.single "00:10" "00:20" 3 none]⟩,
      ⟨["B", "C"], [.single "00:30" "00:40" 4 none]⟩],
    footpaths := [⟨"C", "D", 5⟩], through := [] }

set_option maxRecDepth 4000 in
theorem aggregates_exact_oneChange : ∃ tt q run, oneChange.build = .ok tt ∧
    (Fixture.onTrip "A" "D" 45 .backward).toQuery tt = .ok q ∧
    Run.left (q.run {} Measure.all (Router.new {} Measure.all).frontier) = run ∧
    ∃ id ∈ run.frontier.results, ∃ label journey, run.frontier.label? id = some label ∧
      Journey.ofChain q.graph q.direction ((run.frontier.chain id).map (·.2)) = .ok journey ∧
      label.criteria.map (fun c => (c.measure, c.current)) =
        [(.time, journey.duration), (.transfers, journey.transfers), (.price, journey.price)] ∧
      journey.duration = Bounded.distance label.now label.start ∧
      journey.price = (((run.frontier.chain id).map (·.2)).map (Label.fare q.graph)).sum ∧
      journey.price < Bounded.ceiling ∧
      journey.transfers = journey.interchangeCount ∧
      journey.transfers = journey.stops.countP (·.enter) - 1 := by
  obtain ⟨tt, q, run, response, journeys, hbuild, hq, hrun, -, -, -, hfound⟩ :=
    Fixture.of_search? oneChange (Fixture.onTrip "A" "D" 45 .backward)
      (fun _ run _ => run.frontier.results.any fun id =>
        (run.frontier.label? id).any fun label => label.criteria.summary == ⟨35, 1, 7⟩)
      (by decide +kernel)
  obtain ⟨id, hid, -⟩ := List.any_eq_true.1 hfound
  have hleft := congrArg Run.left hrun
  exact ⟨tt, q, run, hbuild, hq, hleft, id, hid, aggregates_exact hbuild .new hq hleft hid⟩

end JourneyPlanner
