import JourneyPlanner.Proofs.Router

/-!
# The answer is a Pareto front

The main result of this file, `pareto_front`:

> Whatever the criteria are, in no state of a search does a result beat another;
> and for minutes, transfers and price no journey of an answer beats another by
> the numbers that it shows.

The first half is about the criteria of labels (`Run.Reached.undominated`), the
second about numbers that are worked out anew when a journey is written. They
meet because a result has no vehicle open, so what its trail has spent is what
the journey shows (`numbers_of_ofChain`).
-/

namespace JourneyPlanner

/-- The numbers of a journey are the criteria of the label that it comes from. -/
theorem Router.Answers.beats_iff {r : Router} {tt : Timetable} {request : Request} {run : Run}
    {response : Response} {q : Query} {order : List LabelId}
    (h : r.Answers tt request run response q order) (hall : r.measures = Measure.all)
    {a b : LabelId} (ha : a ∈ run.frontier.results) (hb : b ∈ run.frontier.results)
    {journeyA journeyB : Journey}
    (hja : Journey.ofChain q.graph q.direction ((run.frontier.chain a).map (·.2)) = .ok journeyA)
    (hjb : Journey.ofChain q.graph q.direction ((run.frontier.chain b).map (·.2)) = .ok journeyB) :
    Frontier.beats run.frontier.pool a b = journeyA.dominates journeyB := by
  obtain ⟨labelA, beforeA, hgetA, hchainA, hgoalA, htrailA⟩ := h.trail ha
  obtain ⟨labelB, beforeB, hgetB, hchainB, hgoalB, htrailB⟩ := h.trail hb
  rw [hchainA] at hja
  rw [hchainB] at hjb
  obtain ⟨hda, hta, hpa⟩ := numbers_of_ofChain htrailA (htrailA.onFoot_of_isGoal h.sound hgoalA) hja
  obtain ⟨hdb, htb, hpb⟩ := numbers_of_ofChain htrailB (htrailB.onFoot_of_isGoal h.sound hgoalB) hjb
  unfold Frontier.beats Frontier.criteriaIn
  rw [hgetA, hgetB]
  dsimp only
  rw [htrailA.criteria_eq h.sound, htrailB.criteria_eq h.sound, hall, Bool.eq_iff_iff,
    Criteria.dominates_map_iff]
  unfold Journey.dominates
  rw [decide_eq_true_eq, hda, hta, hpa, hdb, htb, hpb]
  simp only [Measure.all, List.mem_cons, List.not_mem_nil, or_false, forall_eq_or_imp, forall_eq,
    exists_eq_or_imp, exists_eq_left, Criterion.make, Criteria.other, Bool.false_eq_true, if_false,
    ne_eq, Prod.mk.injEq, not_and]
  omega

/-- Whatever the criteria are, in no state of a search over a timetable that was
built does a result beat another; and for minutes, transfers and price no journey
of an answer beats another. -/
theorem pareto_front {fixture : Fixture} {tt : Timetable} (hbuild : fixture.build = .ok tt)
    (settings : Settings) (request : Request) :
    (∀ measures router, Router.Reached settings measures router →
      ∀ q, request.toQuery tt = .ok q →
      ∀ run, Run.Reached q settings measures router.frontier run →
      ∀ a ∈ run.frontier.results, ∀ b ∈ run.frontier.results,
        Frontier.beats run.frontier.pool a b = false) ∧
    ∀ router, Router.Reached settings Measure.all router →
      ∀ response, (router.search tt request).1 = .ok response →
      ∀ a ∈ response.journeys, ∀ b ∈ response.journeys, a.dominates b = false := by
  constructor
  · intro measures router hrouter q hq run hrun
    have hsound := (Request.toQuery_sound (Fixture.build_sound hbuild) hq).1
    exact hrun.undominated hsound hrouter.blank.2.2
  · intro router hrouter response hresponse a ha b hb
    obtain ⟨run, hanswer⟩ := Router.search_eq_ok_iff.1 hresponse
    obtain ⟨q, order, hanswers⟩ := hrouter.answers hbuild hanswer
    obtain ⟨idA, hidA, hja⟩ := hanswers.journeys a ha
    obtain ⟨idB, hidB, hjb⟩ := hanswers.journeys b hb
    rw [← hanswers.beats_iff hrouter.blank.2.1 hidA hidB hja hjb]
    exact hanswers.undominated idA hidA idB hidB

/-- A fast train and a cheap one. -/
def fastOrCheap : Fixture :=
  { firstDay := Fixture.firstMonday, days := 1, categories := ["RE"],
    stations := [.plain "A" 0, .plain "B" 0],
    routes := [⟨["A", "B"], [.single "00:10" "00:20" 9 none]⟩,
      ⟨["A", "B"], [.single "00:10" "00:40" 1 none]⟩],
    footpaths := [], through := [] }

set_option maxRecDepth 4000 in
theorem pareto_front_fastOrCheap : ∃ tt response, fastOrCheap.build = .ok tt ∧
    ((Router.new {} Measure.all).search tt (Fixture.onTrip "A" "B" 0 .forward)).1 = .ok response ∧
    (∃ a ∈ response.journeys, a.duration = 20 ∧ a.price = 9) ∧
    (∃ b ∈ response.journeys, b.duration = 40 ∧ b.price = 1) ∧
    ∀ a ∈ response.journeys, ∀ b ∈ response.journeys, a.dominates b = false := by
  obtain ⟨tt, q, run, response, journeys, hbuild, -, -, -, hanswer, hrank, hfound⟩ :=
    Fixture.of_search? fastOrCheap (Fixture.onTrip "A" "B" 0 .forward)
      (fun _ _ journeys =>
        journeys.any (fun a => decide (a.duration = 20 ∧ a.price = 9)) &&
          journeys.any (fun b => decide (b.duration = 40 ∧ b.price = 1))) (by decide +kernel)
  simp only [Bool.and_eq_true, List.any_eq_true, decide_eq_true_eq] at hfound
  obtain ⟨⟨a, ha, hfast⟩, b, hb, hcheap⟩ := hfound
  have hmem : ∀ j ∈ journeys, j ∈ response.journeys := by
    intro j hj
    rw [hrank]
    exact (Journey.rank_perm journeys).mem_iff.2 hj
  have hsearch := Router.search_eq_ok_iff.2 ⟨run, hanswer⟩
  exact ⟨tt, response, hbuild, hsearch, ⟨a, hmem a ha, hfast⟩, ⟨b, hmem b hb, hcheap⟩,
    (pareto_front hbuild {} (Fixture.onTrip "A" "B" 0 .forward)).2 _ .new response hsearch⟩

end JourneyPlanner
