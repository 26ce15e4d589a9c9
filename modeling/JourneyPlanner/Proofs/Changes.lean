import JourneyPlanner.Proofs.Itinerary.Standing
import JourneyPlanner.Proofs.Router

/-!
# Changes of vehicle

Between two vehicles of a journey a traveller may walk, and spend nights. The
main result of this file, `change_honoured_iff`:

> from the time at which the station of the second vehicle was reached, the
> minutes that a change takes there are left before that vehicle departs: always
> when the search went forward, or when there was no walk in between. When it went
> backward with a walk in between, exactly if the minutes idled at the station
> come to as many.

A search allows for the change where it boards. Going forward that is where the
later vehicle is boarded. Going backward it is where the earlier one is left, and
behind a walk that is another station: the walk then ends as the later vehicle
departs, but for what is idled away (`rushed_change`).
-/

namespace JourneyPlanner

section Gap

variable {q : Query} {settings : Settings} {measures : List Measure}

/-- A change from one section of some labels to another, in the order of travel: the
steps of `gap` lie in between, and by `enter` the second vehicle is entered. -/
structure Change (q : Query) (labels : List Label) (earlier later : Event) (gap : List Step)
    (enter : Step) : Prop where
  sections : ∃ before first second after,
    travelSteps q.direction labels = before ++ first :: (gap ++ second :: after) ∧
      first.section? q.graph = some earlier ∧ second.section? q.graph = some later
  between : ∀ s ∈ gap, s.section? q.graph = none
  mem : enter ∈ gap
  enters : enter.Enters q.graph

/-- The minutes that a change takes at the station of `enter`. -/
def Change.minutes (graph : QueryGraph) (earlier later : Event) (enter : Step) : Nat :=
  graph.timetable.interchangeTime (graph.edge enter.edge).tail
    (graph.timetable.info earlier.leg.info).category
    (graph.timetable.info later.leg.info).category

/-- How someone stands who has left the first vehicle and taken the steps of `gap`. -/
def Change.standing (q : Query) (earlier : Event) (gap : List Step) : Standing :=
  gap.foldl (Standing.take q.graph q.direction) (Standing.arrived earlier)

namespace Change

variable {labels : List Label} {earlier later : Event} {gap : List Step} {enter : Step}

/-- Going forward, the change is allowed for where the second vehicle is boarded. -/
theorem le_of_forward (hq : q.Sound) (hd : q.direction = .forward)
    (h : Trail q settings measures labels) (hchange : Change q labels earlier later gap enter) :
    (standing q earlier gap).reached + minutes q.graph earlier later enter ≤
      later.departure := by
  obtain ⟨before, first, second, after, hsteps, hfirst, hsecond⟩ := hchange.sections
  -- the search meets the second section last
  have hback : stepsBack q.direction labels =
      after.reverse ++ second :: (gap.reverse ++ first :: before.reverse) := by
    rw [hd] at hsteps ⊢
    have hreverse : (stepsBack .forward labels).reverse = _ := hsteps
    rw [← List.reverse_reverse (stepsBack .forward labels), hreverse]
    simp
  obtain ⟨id, ref, next, label, rest, trail, href, hnext, trail', -, hsec, hrest⟩ := h.split hback
  have hsince := trail.since hq.graph hrest hfirst fun s hs =>
    hchange.between s (List.mem_reverse.1 hs)
  have hforward := hsince.forward hq hd
  obtain ⟨hboarding, hone⟩ := hforward.enters enter (List.mem_reverse.2 hchange.mem) hchange.enters
  rw [hsecond] at hsec
  have hin := inTime_of_section? hq href hnext hsec.symm ((trail.placed hq).apart hboarding)
  obtain ⟨-, -, hle, hlt⟩ := trail'.of_section? hq.graph hsec.symm
  obtain ⟨⟨used, hused, hcategory⟩, -⟩ := hsince.vehicle hq.graph
  have hminutes : minutes q.graph earlier later enter =
      q.graph.timetable.changeTime label .forward
        (q.graph.timetable.info later.leg.info).category := by
    unfold minutes Timetable.changeTime Timetable.interchangeTime
    rw [hused]
    dsimp only
    rw [← Timetable.stationAt?_eq_of_atOne hone, hcategory]
  have hnow : (standing q earlier gap).reached + (standing q earlier gap).idle = label.now := by
    have helapsed := hforward.elapsed
    rw [List.reverse_reverse, ← hd] at helapsed
    exact helapsed
  have hleft : label.now + minutes q.graph earlier later enter ≤ later.departure := by
    unfold Label.inTime at hin
    rw [hd, ← hminutes] at hin
    exact Bounded.sum_le_of_add_le (of_decide_eq_true hin) (Nat.lt_of_le_of_lt hle hlt)
  simp only [Time] at hnow hleft ⊢
  omega

/-- Going backward, the change is allowed for where the first vehicle is left. -/
theorem le_iff_of_backward (hq : q.Sound) (hd : q.direction = .backward)
    (h : Trail q settings measures labels) (hchange : Change q labels earlier later gap enter) :
    (standing q earlier gap).reached + minutes q.graph earlier later enter ≤ later.departure ↔
      (standing q earlier gap).walked = false ∨
        minutes q.graph earlier later enter ≤ (standing q earlier gap).idle := by
  obtain ⟨before, first, second, after, hsteps, hfirst, hsecond⟩ := hchange.sections
  -- the search meets the first section last
  have hback : stepsBack q.direction labels = before ++ first :: (gap ++ second :: after) := by
    rw [hd] at hsteps ⊢
    exact hsteps
  obtain ⟨id, ref, next, label, rest, trail, href, hnext, -, -, hsec, hrest⟩ := h.split hback
  have hsince := trail.since hq.graph hrest hsecond hchange.between
  have hbackward := hsince.backward hq hd
  rw [hfirst] at hsec
  have hride : label.ride = none := by
    by_contra hride
    exact hbackward.aboard hride enter hchange.mem hchange.enters
  have hin := inTime_of_section? hq href hnext hsec.symm hride
  obtain ⟨⟨used, hused, hcategory⟩, hlater⟩ := hsince.vehicle hq.graph
  rcases hbackward.standing with hwalked | ⟨hstill, hone⟩
  · -- with a walk, nothing but what was idled is left at its end
    obtain ⟨hw, hreached⟩ := hwalked (Standing.arrived earlier)
    rw [← hd] at hw hreached
    have hw' : (standing q earlier gap).walked = true := hw
    have hreached' : (standing q earlier gap).reached + (standing q earlier gap).idle =
        later.departure := hreached
    rw [hw']
    simp only [reduceCtorEq, false_or, Time] at hreached' ⊢
    omega
  · -- without one, the station is the one for which the search has allowed
    obtain ⟨hw, hreached, hidle⟩ := hstill (Standing.arrived earlier)
    rw [← hd] at hw hreached hidle
    have hw' : (standing q earlier gap).walked = false := hw
    refine ⟨fun _ => Or.inl hw', fun _ => ?_⟩
    have hminutes : minutes q.graph earlier later enter =
        q.graph.timetable.changeTime label .backward
          (q.graph.timetable.info earlier.leg.info).category := by
      unfold minutes Timetable.changeTime Timetable.interchangeTime
      rw [hused]
      dsimp only
      rw [← hone enter hchange.mem hchange.enters, hcategory]
    have hreached' : (standing q earlier gap).reached = earlier.arrival := hreached
    have hidle' : (standing q earlier gap).idle + label.now = 0 + later.departure := hidle
    have hleft : earlier.arrival + minutes q.graph earlier later enter ≤ label.now := by
      unfold Label.inTime at hin
      rw [hd, ← hminutes] at hin
      refine Bounded.sum_le_of_add_le (of_decide_eq_true hin) (Nat.lt_of_le_of_lt ?_ hlater)
      simp only [Time] at hidle' ⊢
      omega
    simp only [Time] at hreached' hidle' hleft ⊢
    omega

/-- What the two directions allow for at a change. -/
theorem le_iff (hq : q.Sound) (h : Trail q settings measures labels)
    (hchange : Change q labels earlier later gap enter) :
    (standing q earlier gap).reached + minutes q.graph earlier later enter ≤ later.departure ↔
      q.direction = .forward ∨ (standing q earlier gap).walked = false ∨
        minutes q.graph earlier later enter ≤ (standing q earlier gap).idle := by
  cases hd : q.direction with
  | forward => exact ⟨fun _ => Or.inl rfl, fun _ => le_of_forward hq hd h hchange⟩
  | backward =>
    rw [le_iff_of_backward hq hd h hchange]
    simp only [reduceCtorEq, false_or]

end Change

end Gap

/-- What every journey of an answer leaves for its changes. Between two sections
of a journey lie the steps of `gap`; one of them enters the vehicle of the second
section at a station. From the time at which the traveller reached that station,
the minutes that the change takes there are left before the vehicle departs, if
and only if the search went forward, or there was no walk in between, or the
minutes idled at the station come to as many. -/
theorem change_honoured_iff {fixture : Fixture} {tt : Timetable}
    (hbuild : fixture.build = .ok tt) {settings : Settings} {measures : List Measure}
    {router : Router} (hrouter : Router.Reached settings measures router) {request : Request}
    {q : Query} (hq : request.toQuery tt = .ok q) {run : Run} {response : Response}
    (hanswer : router.answer tt request = .ok (run, response)) :
    ∀ journey ∈ response.journeys, ∃ id ∈ run.frontier.results,
      Journey.ofChain q.graph q.direction ((run.frontier.chain id).map (·.2)) = .ok journey ∧
      ∃ steps, Journey.steps q.direction (Journey.inTravelOrder
        ((run.frontier.chain id).map (·.2)) q.direction) = .ok steps ∧
      ∀ before first gap second after, steps = before ++ first :: (gap ++ second :: after) →
      ∀ earlier later, first.section? q.graph = some earlier →
      second.section? q.graph = some later → (∀ s ∈ gap, s.section? q.graph = none) →
      ∀ enter ∈ gap, enter.Enters q.graph →
        let minutes := tt.interchangeTime (q.graph.edge enter.edge).tail
          (tt.info earlier.leg.info).category (tt.info later.leg.info).category
        let standing := gap.foldl (Standing.take q.graph q.direction) (Standing.arrived earlier)
        standing.reached + minutes ≤ later.departure ↔
          q.direction = .forward ∨ standing.walked = false ∨ minutes ≤ standing.idle := by
  obtain ⟨order, hanswers⟩ := hrouter.answers_to hbuild hq hanswer
  intro journey hj
  obtain ⟨id, hid, hok⟩ := hanswers.journeys journey hj
  obtain ⟨label, before, -, hchain, -, htrail⟩ := hanswers.trail hid
  refine ⟨id, hid, hok, ?_⟩
  rw [hchain] at hok ⊢
  obtain ⟨result, rest, steps, draft, first, -, hsteps, -⟩ := ofChain_eq_ok hok
  refine ⟨steps, hsteps, ?_⟩
  intro before first gap second after hsplit earlier later hfirst hsecond hgap enter hmem henter
  rw [steps_eq hsteps] at hsplit
  rw [← hanswers.timetable_eq]
  exact Change.le_iff hanswers.sound htrail
    ⟨⟨before, first, second, after, hsplit, hfirst, hsecond⟩, hgap, hmem, henter⟩

/-- Trains to `B` and from `C`, which lies five minutes on foot from `B`, and where
a change takes ten. -/
def shortWalk : Fixture :=
  { firstDay := Fixture.firstMonday, days := 1, categories := ["RE"],
    stations := [.plain "A" 0, .plain "B" 0, .plain "C" 10, .plain "D" 0],
    routes := [⟨["A", "B"], [.single "00:10" "00:20" 0 none]⟩,
      ⟨["C", "D"], [.single "00:25" "00:30" 0 none, .single "00:40" "00:45" 0 none]⟩],
    footpaths := [⟨"B", "C", 5⟩], through := [] }

/-- Whether two trains with a walk in between are such that `fits` holds of the
second departure and of the time at which the change is over. -/
def changeFits (q : Query) (fits : Time → Time → Bool) (steps : List Step) : Bool :=
  match steps with
  | [_, first, alight, walk, enter, second, _] =>
    match first.section? q.graph, second.section? q.graph with
    | some earlier, some later =>
      [alight, walk, enter].all (fun s => (s.section? q.graph).isNone) &&
        Draft.isEnter q.graph enter &&
        fits later.departure
          (([alight, walk, enter].foldl (Standing.take q.graph q.direction)
            (Standing.arrived earlier)).reached +
          q.graph.timetable.interchangeTime (q.graph.edge enter.edge).tail
            (q.graph.timetable.info earlier.leg.info).category
            (q.graph.timetable.info later.leg.info).category)
    | _, _ => false
  | _ => false

theorem exists_change {q : Query} {fits : Time → Time → Bool} {steps : List Step}
    (h : changeFits q fits steps = true) :
    ∃ before first gap second after, steps = before ++ first :: (gap ++ second :: after) ∧
    ∃ earlier later, first.section? q.graph = some earlier ∧
    second.section? q.graph = some later ∧ (∀ s ∈ gap, s.section? q.graph = none) ∧
    ∃ enter ∈ gap, enter.Enters q.graph ∧
      fits later.departure
        ((gap.foldl (Standing.take q.graph q.direction) (Standing.arrived earlier)).reached +
          q.graph.timetable.interchangeTime (q.graph.edge enter.edge).tail
            (q.graph.timetable.info earlier.leg.info).category
            (q.graph.timetable.info later.leg.info).category) = true := by
  unfold changeFits at h
  split at h
  · next before first alight walk enter second after =>
    split at h
    · next earlier later hfirst hsecond =>
      rw [Bool.and_eq_true, Bool.and_eq_true, List.all_eq_true] at h
      obtain ⟨⟨hgap, henter⟩, hfits⟩ := h
      refine ⟨[before], first, [alight, walk, enter], second, [after], rfl, earlier, later,
        hfirst, hsecond, fun s hs => Option.isNone_iff_eq_none.1 (hgap s hs), enter, by simp,
        ?_, hfits⟩
      unfold Draft.isEnter at henter
      split at henter
      · next hkind => exact hkind
      · cases henter
    · cases h
  · cases h

set_option maxRecDepth 4000 in
/-- Going forward, every journey has a change after the walk, and ten minutes are left
for it. -/
theorem change_honoured_iff_shortWalk : ∃ tt q run response, shortWalk.build = .ok tt ∧
    (Fixture.onTrip "A" "D" 0 .forward).toQuery tt = .ok q ∧
    (Router.new {} Measure.all).answer tt (Fixture.onTrip "A" "D" 0 .forward) =
      .ok (run, response) ∧
    response.journeys ≠ [] ∧
    ∀ journey ∈ response.journeys, ∃ id ∈ run.frontier.results,
      Journey.ofChain q.graph q.direction ((run.frontier.chain id).map (·.2)) = .ok journey ∧
      ∃ steps, Journey.steps q.direction (Journey.inTravelOrder
        ((run.frontier.chain id).map (·.2)) q.direction) = .ok steps ∧
      ∃ before first gap second after, steps = before ++ first :: (gap ++ second :: after) ∧
      ∃ earlier later, first.section? q.graph = some earlier ∧
      second.section? q.graph = some later ∧ (∀ s ∈ gap, s.section? q.graph = none) ∧
      ∃ enter ∈ gap, enter.Enters q.graph ∧
        (gap.foldl (Standing.take q.graph q.direction) (Standing.arrived earlier)).reached +
          tt.interchangeTime (q.graph.edge enter.edge).tail
            (tt.info earlier.leg.info).category (tt.info later.leg.info).category ≤
          later.departure := by
  obtain ⟨tt, q, run, response, journeys, hbuild, hq, -, hjourneys, hanswer, hrank, hfound⟩ :=
    Fixture.of_search? shortWalk (Fixture.onTrip "A" "D" 0 .forward)
      (fun q run journeys => !journeys.isEmpty && decide (q.direction = .forward) &&
        run.frontier.results.all fun id =>
          match Journey.steps q.direction (Journey.inTravelOrder
            ((run.frontier.chain id).map (·.2)) q.direction) with
          | .ok steps => changeFits q (fun _ _ => true) steps
          | .error _ => false)
      (by decide +kernel)
  rw [Bool.and_eq_true, Bool.and_eq_true, decide_eq_true_eq, Bool.not_eq_true',
    List.isEmpty_eq_false_iff, List.all_eq_true] at hfound
  obtain ⟨⟨hne, hd⟩, hchanges⟩ := hfound
  refine ⟨tt, q, run, response, hbuild, hq, hanswer, fun hnil => hne ?_, fun journey hj => ?_⟩
  · rw [hrank] at hnil
    have hperm := Journey.rank_perm journeys
    rw [hnil] at hperm
    exact hperm.symm.eq_nil
  · obtain ⟨id, hid, hok, steps, hsteps, hall⟩ :=
      change_honoured_iff hbuild .new hq hanswer journey hj
    refine ⟨id, hid, hok, steps, hsteps, ?_⟩
    have hchange := hchanges id hid
    rw [hsteps] at hchange
    obtain ⟨before, first, gap, second, after, hsplit, earlier, later, hfirst, hsecond, hgap, enter,
      hmem, henter, -⟩ := exists_change hchange
    exact ⟨before, first, gap, second, after, hsplit, earlier, later, hfirst, hsecond, hgap, enter,
      hmem, henter, (hall before first gap second after hsplit earlier later hfirst hsecond hgap
        enter hmem henter).2 (Or.inl hd)⟩

set_option maxRecDepth 4000 in
/-- Going backward, the first train from `C` is taken with no minute left for the
change. -/
theorem rushed_change : ∃ tt q run response, shortWalk.build = .ok tt ∧
    (Fixture.onTrip "A" "D" 30 .backward).toQuery tt = .ok q ∧
    (Router.new {} Measure.all).answer tt (Fixture.onTrip "A" "D" 30 .backward) =
      .ok (run, response) ∧
    ∃ journey ∈ response.journeys, ∃ id ∈ run.frontier.results,
      Journey.ofChain q.graph q.direction ((run.frontier.chain id).map (·.2)) = .ok journey ∧
      ∃ steps, Journey.steps q.direction (Journey.inTravelOrder
        ((run.frontier.chain id).map (·.2)) q.direction) = .ok steps ∧
      ∃ before first gap second after, steps = before ++ first :: (gap ++ second :: after) ∧
      ∃ earlier later, first.section? q.graph = some earlier ∧
      second.section? q.graph = some later ∧ (∀ s ∈ gap, s.section? q.graph = none) ∧
      ∃ enter ∈ gap, enter.Enters q.graph ∧
        later.departure <
          (gap.foldl (Standing.take q.graph q.direction) (Standing.arrived earlier)).reached +
            tt.interchangeTime (q.graph.edge enter.edge).tail
              (tt.info earlier.leg.info).category (tt.info later.leg.info).category := by
  obtain ⟨tt, q, run, response, journeys, hbuild, hq, -, hjourneys, hanswer, hrank, hfound⟩ :=
    Fixture.of_search? shortWalk (Fixture.onTrip "A" "D" 30 .backward)
      (fun q run _ => run.frontier.results.any fun id =>
        match Journey.steps q.direction (Journey.inTravelOrder
          ((run.frontier.chain id).map (·.2)) q.direction) with
        | .ok steps => changeFits q (fun departure earliest => decide (departure < earliest)) steps
        | .error _ => false) (by decide +kernel)
  obtain ⟨id, hid, hearly⟩ := List.any_eq_true.1 hfound
  obtain ⟨journey, hj, hok⟩ := Fallible.exists_of_mapM_mem hjourneys hid
  have htt := (Request.toQuery_sound (Fixture.build_sound hbuild) hq).2.1
  refine ⟨tt, q, run, response, hbuild, hq, hanswer, journey, ?_, id, hid,
    Fallible.mapError_eq_ok.1 hok, ?_⟩
  · rw [hrank]
    exact (Journey.rank_perm journeys).mem_iff.2 hj
  · split at hearly
    · next steps hsteps =>
      obtain ⟨before, first, gap, second, after, hsplit, earlier, later, hfirst, hsecond, hgap,
        enter, hmem, henter, hlt⟩ := exists_change hearly
      rw [htt] at hlt
      exact ⟨steps, hsteps, before, first, gap, second, after, hsplit, earlier, later, hfirst,
        hsecond, hgap, enter, hmem, henter, of_decide_eq_true hlt⟩
    · cases hearly

end JourneyPlanner
