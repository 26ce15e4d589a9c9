import JourneyPlanner.Proofs.Itinerary.Ends
import JourneyPlanner.Proofs.Query.StartTimes
import JourneyPlanner.Proofs.Router

/-!
# Journeys before a trip

Before a trip nobody waits at the start of a search, so a journey should show as many minutes
as it takes, and the end at which the search started should lie in the interval that was asked
for. The main result of this file, `interval_kept_iff`:

> the journeys of an answer do so exactly if they show all their minutes: always when the
> search went forward, and when it went backward, unless the journey ends with walks that end
> where they begin (`roundMinutes`). It then shows an end that is too early by these walks.

Going forward such walks at the start of a journey are shown, as its departure. Going backward
they lead to no new stop, and the arrival of the last one stays as it was (`early_end`).
-/

namespace JourneyPlanner

/-- Steps are what a journey has moves for. -/
theorem Trail.ne_nil_of_transports {q : Query} {settings : Settings} {measures : List Measure}
    {label : Label} {before : List Label} (h : Trail q settings measures (label :: before))
    {journey : Journey}
    (hj : Journey.ofChain q.graph q.direction (label :: before) = .ok journey)
    (htransports : journey.transports ≠ []) : before ≠ [] := by
  rintro rfl
  obtain ⟨d, hfold, hfinish⟩ := h.drafted hj
  have hsteps : travelSteps q.direction [label] = [] := by cases q.direction <;> rfl
  rw [hsteps] at hfold
  cases hfold
  exact htransports (Draft.finish_parts hfinish).2

/-- The instants that the journey of a trail to the goal shows, if all times at which its search
could start lie in an interval. -/
theorem Trail.interval_kept {q : Query} {settings : Settings} {measures : List Measure}
    (hq : q.Sound) (hone : q.graph.timetable.OneNode) (hpre : q.tripType = .preTrip)
    {interval : Interval} (hinterval : ∀ time ∈ q.startTimes,
      interval.begin ≤ q.graph.timetable.period.toInstant time ∧
        q.graph.timetable.period.toInstant time ≤ interval.finish ∧ time ≤ Bounded.ceiling)
    {next label : Label} {before : List Label}
    (h : Trail q settings measures (next :: label :: before))
    (hgoal : q.target.isGoal next = true) {journey : Journey}
    (hj : Journey.ofChain q.graph q.direction (next :: label :: before) = .ok journey) :
    ∃ departure arrival, journey.departureTime? = some departure ∧
      journey.arrivalTime? = some arrival ∧
      let unseen := q.unseen (travelSteps q.direction (next :: label :: before))
      arrival + 60 * unseen - departure = 60 * journey.duration ∧
        interval.begin ≤ q.direction.due departure (arrival + 60 * unseen) ∧
        q.direction.due departure (arrival + 60 * unseen) ≤ interval.finish := by
  obtain ⟨d, hfold, hfinish⟩ := h.drafted hj
  obtain ⟨departure, arrival, hleaves, harrives, hspan, hdue⟩ :=
    h.times hq hone hpre (fun time htime => (hinterval time htime).2.2) hgoal hfold
  refine ⟨_, _, hleaves.departureTime?_eq hfinish, harrives.arrivalTime?_eq hfinish, ?_⟩
  generalize q.unseen (travelSteps q.direction (next :: label :: before)) = unseen at *
  have hwhole : q.graph.timetable.period.toInstant arrival + 60 * (unseen : Int) =
      q.graph.timetable.period.toInstant (arrival + unseen) := by
    rw [Period.toInstant_eq, Period.toInstant_eq]
    simp only [Bounded.Instant]
    omega
  dsimp only
  rw [hwhole, Direction.due_map, hdue]
  refine ⟨?_, (hinterval _ h.start_mem).1, (hinterval _ h.start_mem).2.1⟩
  rw [(Draft.finish_numbers hfinish).1, hspan, Period.toInstant_eq, Period.toInstant_eq]
  simp only [Bounded.Instant]
  omega

/-- What every journey of an answer to a request before a trip shows, if it has moves at all.
But for the minutes at its end that it does not show, it takes as long as it says, and the end
at which the search started lies in the interval of the request; and what is shown is right if
and only if there are no such minutes. -/
theorem interval_kept_iff {fixture : Fixture} {tt : Timetable} (hbuild : fixture.build = .ok tt)
    {settings : Settings} {measures : List Measure} {router : Router}
    (hrouter : Router.Reached settings measures router) {request : Request}
    (hpre : request.tripType = .preTrip) {q : Query} (hq : request.toQuery tt = .ok q) {run : Run}
    {response : Response} (hanswer : router.answer tt request = .ok (run, response)) :
    ∀ journey ∈ response.journeys, journey.transports ≠ [] → ∃ id ∈ run.frontier.results,
      Journey.ofChain q.graph q.direction ((run.frontier.chain id).map (·.2)) = .ok journey ∧
      ∃ steps, Journey.steps q.direction (Journey.inTravelOrder
        ((run.frontier.chain id).map (·.2)) q.direction) = .ok steps ∧
      ∃ departure arrival, journey.departureTime? = some departure ∧
        journey.arrivalTime? = some arrival ∧
        let whole := arrival + 60 * q.unseen steps
        (whole - departure = 60 * journey.duration ∧
          request.interval.begin ≤ q.direction.due departure whole ∧
          q.direction.due departure whole ≤ request.interval.finish) ∧
        ((arrival - departure = 60 * journey.duration ∧
          request.interval.begin ≤ q.direction.due departure arrival ∧
          q.direction.due departure arrival ≤ request.interval.finish) ↔
            q.direction = .forward ∨ roundMinutes q.graph steps = 0) := by
  obtain ⟨order, hanswers⟩ := hrouter.answers_to hbuild hq hanswer
  intro journey hj htransports
  obtain ⟨id, hid, hok⟩ := hanswers.journeys journey hj
  obtain ⟨next, before, -, hchain, hgoal, htrail⟩ := hanswers.trail hid
  refine ⟨id, hid, hok, ?_⟩
  rw [hchain] at hok ⊢
  obtain ⟨-, -, steps, -, -, -, hsteps, -⟩ := ofChain_eq_ok hok
  refine ⟨steps, hsteps, ?_⟩
  rw [steps_eq hsteps, ← Query.unseen_eq_zero_iff]
  obtain ⟨label, rest, rfl⟩ :=
    List.exists_cons_of_ne_nil (htrail.ne_nil_of_transports hok htransports)
  have hone := Fixture.build_oneNode hbuild
  have hinterval := fun time =>
    @Request.instant_mem_interval _ _ _ (Fixture.build_sound hbuild) hq hpre time
  rw [← hanswers.timetable_eq] at hone hinterval
  obtain ⟨departure, arrival, hdeparture, harrival, hspan, hdue⟩ := htrail.interval_kept
    hanswers.sound hone ((Request.tripType_eq hq).trans hpre) hinterval hgoal hok
  refine ⟨departure, arrival, hdeparture, harrival, ⟨hspan, hdue⟩, fun hshown => ?_,
    fun hzero => ?_⟩
  · -- the journey takes as many minutes as it shows
    have hshown := hshown.1
    omega
  · rw [hzero, Int.natCast_zero, Int.mul_zero, Int.add_zero] at hspan hdue
    exact ⟨hspan, hdue⟩

/-- A train from `A` to `D`, and at both a walk of five minutes that ends where it begins. -/
def roundWalks : Fixture :=
  { firstDay := Fixture.firstMonday, days := 1, categories := ["RE"],
    stations := [.plain "A" 0, .plain "D" 0],
    routes := [⟨["A", "D"], [.single "00:10" "00:20" 0 none]⟩],
    footpaths := [⟨"A", "A", 5⟩, ⟨"D", "D", 5⟩], through := [] }

/-- A request before a trip from `A` to `D`, from or up to a minute of the first day. -/
def roundWalks.trip (minute : Nat) (direction : Direction) : Request :=
  { Fixture.onTrip "A" "D" minute direction with tripType := .preTrip }

set_option maxRecDepth 4000 in
/-- Going forward from five minutes past midnight, the walk at `A` is when a journey leaves. -/
theorem interval_kept_iff_roundWalks : ∃ tt q run response, roundWalks.build = .ok tt ∧
    (roundWalks.trip 5 .forward).tripType = .preTrip ∧
    (roundWalks.trip 5 .forward).toQuery tt = .ok q ∧
    (Router.new {} Measure.all).answer tt (roundWalks.trip 5 .forward) = .ok (run, response) ∧
    response.journeys ≠ [] ∧
    ∀ journey ∈ response.journeys, journey.transports ≠ [] ∧
      ∃ departure arrival, journey.departureTime? = some departure ∧
        journey.arrivalTime? = some arrival ∧ arrival - departure = 60 * journey.duration ∧
        (roundWalks.trip 5 .forward).interval.begin ≤ departure ∧
        departure ≤ (roundWalks.trip 5 .forward).interval.finish := by
  obtain ⟨tt, q, run, response, journeys, hbuild, hq, -, -, hanswer, hrank, hfound⟩ :=
    Fixture.of_search? roundWalks (roundWalks.trip 5 .forward)
      (fun q _ journeys => !journeys.isEmpty && decide (q.direction = .forward) &&
        journeys.all fun journey => !journey.transports.isEmpty) (by decide +kernel)
  rw [Bool.and_eq_true, Bool.and_eq_true, decide_eq_true_eq, Bool.not_eq_true',
    List.isEmpty_eq_false_iff, List.all_eq_true] at hfound
  obtain ⟨⟨hne, hd⟩, htransports⟩ := hfound
  have hperm := Journey.rank_perm journeys
  rw [← hrank] at hperm
  refine ⟨tt, q, run, response, hbuild, rfl, hq, hanswer, fun hnil => hne ?_,
    fun journey hj => ?_⟩
  · rw [hnil] at hperm
    exact hperm.symm.eq_nil
  · have hmoves := htransports journey (hperm.mem_iff.1 hj)
    rw [Bool.not_eq_true', List.isEmpty_eq_false_iff] at hmoves
    obtain ⟨id, -, -, steps, -, departure, arrival, hdeparture, harrival, -, hiff⟩ :=
      interval_kept_iff hbuild .new rfl hq hanswer journey hj hmoves
    have hkept := hiff.2 (Or.inl hd)
    rw [hd] at hkept
    exact ⟨hmoves, departure, arrival, hdeparture, harrival, hkept⟩

set_option maxRecDepth 4000 in
/-- Going backward from twenty-five minutes past midnight, the walk at `D` is not shown: the
journey ends with the train, and before the interval. -/
theorem early_end : ∃ tt q run response, roundWalks.build = .ok tt ∧
    (roundWalks.trip 25 .backward).tripType = .preTrip ∧
    (roundWalks.trip 25 .backward).toQuery tt = .ok q ∧ q.direction = .backward ∧
    (Router.new {} Measure.all).answer tt (roundWalks.trip 25 .backward) =
      .ok (run, response) ∧
    ∃ journey ∈ response.journeys, journey.transports ≠ [] ∧
      ∃ departure arrival, journey.departureTime? = some departure ∧
        journey.arrivalTime? = some arrival ∧ arrival - departure ≠ 60 * journey.duration ∧
        arrival < (roundWalks.trip 25 .backward).interval.begin := by
  obtain ⟨tt, q, run, response, journeys, hbuild, hq, -, -, hanswer, hrank, hfound⟩ :=
    Fixture.of_search? roundWalks (roundWalks.trip 25 .backward)
      (fun q _ journeys => decide (q.direction = .backward) && journeys.any fun journey =>
        !journey.transports.isEmpty &&
          journey.departureTime?.any fun departure => journey.arrivalTime?.any fun arrival : Int =>
            decide (arrival - departure ≠ 60 * journey.duration ∧
              arrival < (roundWalks.trip 25 .backward).interval.begin)) (by decide +kernel)
  rw [Bool.and_eq_true, decide_eq_true_eq, List.any_eq_true] at hfound
  obtain ⟨hd, journey, hj, hearly⟩ := hfound
  rw [Bool.and_eq_true, Bool.not_eq_true', List.isEmpty_eq_false_iff] at hearly
  obtain ⟨hmoves, hearly⟩ := hearly
  refine ⟨tt, q, run, response, hbuild, rfl, hq, hd, hanswer, journey, ?_, hmoves, ?_⟩
  · rw [hrank]
    exact (Journey.rank_perm journeys).mem_iff.2 hj
  · obtain ⟨departure, hdeparture, hearly⟩ := (Option.any_eq_true _ _).1 hearly
    obtain ⟨arrival, harrival, hearly⟩ := (Option.any_eq_true _ _).1 hearly
    obtain ⟨hspan, hlt⟩ := of_decide_eq_true hearly
    exact ⟨departure, arrival, hdeparture, harrival, hspan, hlt⟩

end JourneyPlanner
