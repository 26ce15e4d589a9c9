import JourneyPlanner.Proofs.Itinerary.Writing
import JourneyPlanner.Proofs.Router
import JourneyPlanner.Proofs.Search.Aboard

/-!
# No timetable contradicts itself

A search can find that its timetable contradicts itself, and so can the writing out of a
journey: the trip of a vehicle has no leg where the vehicle goes, or leaves there before
it has arrived; a chain of labels lacks an edge; a vehicle is left that nobody is on.
These are the faults of `Inconsistency`. The main result of this file, `search_consistent`,
says that a timetable that was built never gives rise to any of them:

> whatever a worker is asked, in either direction, it never answers that the timetable is
> inconsistent. For every way that the search could go, whoever is on a vehicle can stay on
> it along each route edge that goes on from there; and every way that ends at the goal can
> be written out.

Before the search only the request is at fault (`Request.isFatal_of_toQuery`). What can
stop the search is that there is no more room (`Run.fault_of_run`), and what it has found
can be written out (`Run.journeys_ok`).
-/

namespace JourneyPlanner

namespace Request

variable {tt : Timetable} {request : Request} {fault : SearchFault}

/-- A request refused for what it says is no inconsistency of the search. -/
theorem isFatal_of_fault? (h : request.fault? = some fault) : fault.isFatal = false := by
  unfold Request.fault? at h
  split at h
  · cases h
    rfl
  · split at h
    · cases h
      rfl
    · cases h

/-- A path naming an unknown station is no inconsistency of the search. -/
theorem isFatal_of_pathNodes (h : request.pathNodes tt = .error fault) :
    fault.isFatal = false := by
  obtain ⟨stop, -, hstop⟩ := Fallible.exists_of_mapM_error h
  split at hstop
  · cases hstop
  · cases hstop
    rfl

/-- A target that cannot be resolved is no inconsistency of the search. -/
theorem isFatal_of_target (h : request.target tt = .error fault) : fault.isFatal = false := by
  unfold Request.target at h
  rcases Fallible.bind_eq_error.1 h with hnodes | ⟨nodes, -, h⟩
  · exact isFatal_of_pathNodes hnodes
  · split at h
    · cases h
      rfl
    · dsimp only at h
      split at h
      · cases h
        rfl
      · split at h
        · cases h
          rfl
        · split at h <;> cases h

/-- An interval outside the schedule is no inconsistency of the search. -/
theorem isFatal_of_scheduleInterval {period : Period} {interval : Interval}
    (h : scheduleInterval period interval = .error fault) : fault.isFatal = false := by
  unfold scheduleInterval at h
  dsimp only at h
  split at h
  · cases h
    rfl
  · split at h
    · cases h
    · cases h
      rfl

/-- A request that comes to no query is itself at fault. -/
theorem isFatal_of_toQuery (h : request.toQuery tt = .error fault) : fault.isFatal = false := by
  unfold Request.toQuery at h
  split at h
  · next hfault =>
    cases h
    exact isFatal_of_fault? hfault
  · rcases Fallible.bind_eq_error.1 h with htarget | ⟨target, -, h⟩
    · exact isFatal_of_target htarget
    · rcases Fallible.bind_eq_error.1 h with hinterval | ⟨⟨begin, finish⟩, -, h⟩
      · exact isFatal_of_scheduleInterval hinterval
      · cases h

end Request

section Answers

variable {settings : Settings} {measures : List Measure} {router : Router} {fixture : Fixture}
  {tt : Timetable} {request : Request}

/-- All results of a search can be written out. -/
theorem Run.journeys_ok {q : Query} {run : Run} {order : List LabelId} (hq : q.Sound)
    (h : Frontier.Sound q settings measures run.frontier order []) :
    ∃ journeys, run.journeys q = .ok journeys := by
  refine Fallible.exists_mapM_eq_ok fun id hid => ?_
  obtain ⟨hin, label, hget, hgoal⟩ := h.results id hid
  obtain ⟨label', links, hget', hchain, htrail⟩ := h.chain hin
  rw [hget] at hget'
  cases hget'
  obtain ⟨journey, hok, -⟩ := htrail.written hq (htrail.onFoot_of_isGoal hq hgoal)
  refine ⟨journey, Fallible.mapError_eq_ok.2 ?_⟩
  rw [hchain]
  exact hok

/-- A worker gives no answer for one of two reasons: the request is at fault, or there
is no more room for labels. -/
theorem Router.Reached.fault_of_search {fault : SearchFault}
    (h : Router.Reached settings measures router) (hbuild : fixture.build = .ok tt)
    (hsearch : (router.search tt request).1 = .error fault) :
    fault.isFatal = false ∨ fault = .exhausted := by
  obtain ⟨-, -, hblank⟩ := h.blank
  unfold Router.search at hsearch
  split at hsearch
  · cases hsearch
  · next halt hanswer =>
    cases hsearch
    rcases Router.answer_eq_error hanswer with ⟨hquery, -⟩ | ⟨q, hquery, -, hstop⟩
    · exact Or.inl (Request.isFatal_of_toQuery hquery)
    · obtain ⟨hsound, htt, -⟩ := Request.toQuery_sound (Fixture.build_sound hbuild) hquery
      rcases hstop with ⟨run, hrun⟩ | ⟨run, hrun, hjourneys⟩
      · have hjoined : Parts.Joined q.graph.timetable.edges := by
          rw [htt]
          exact Fixture.build_joined hbuild
        exact Or.inr (Run.fault_of_run hsound hjoined hblank hrun)
      · obtain ⟨r₁, hreached, hframe, -⟩ := Run.reached_of_run hsound hblank hrun
        obtain ⟨order, hlabels⟩ := hreached.sound hsound hblank
        rw [← hframe] at hlabels
        obtain ⟨journeys, hok⟩ := Run.journeys_ok hsound hlabels
        rw [hok] at hjourneys
        cases hjourneys

/-- No search ever finds that a timetable that was built contradicts itself. -/
theorem search_consistent (hrouter : Router.Reached settings measures router)
    (hbuild : fixture.build = .ok tt) (request : Request) :
    (∀ fault, (router.search tt request).1 ≠ .error (.inconsistent fault)) ∧
      ∀ q, request.toQuery tt = .ok q → ∀ label before,
        Trail q settings measures (label :: before) →
          (∀ ride id legs, label.ride = some ride →
            .timetable id ∈ q.graph.edgesAt label.node q.direction →
            (q.graph.edge (.timetable id)).kind = .route legs →
            ∃ event, Event.at? legs ride.trip ride.day = some event ∧
              event.isAhead label.now q.direction = true) ∧
          (q.target.isGoal label = true →
            ∃ journey, Journey.ofChain q.graph q.direction (label :: before) = .ok journey) := by
  refine ⟨fun fault hfault => ?_, fun q hq label before htrail => ⟨?_, fun hgoal => ?_⟩⟩
  · rcases hrouter.fault_of_search hbuild hfault with hnot | heq
    · cases hnot
    · cases heq
  · intro ride id legs hride href hkind
    obtain ⟨hsound, htt, -⟩ := Request.toQuery_sound (Fixture.build_sound hbuild) hq
    have hjoined : Parts.Joined q.graph.timetable.edges := by
      rw [htt]
      exact Fixture.build_joined hbuild
    exact htrail.aboard hsound.graph hjoined hride href hkind
  · have hsound := (Request.toQuery_sound (Fixture.build_sound hbuild) hq).1
    obtain ⟨journey, hok, -⟩ := htrail.written hsound (htrail.onFoot_of_isGoal hsound hgoal)
    exact ⟨journey, hok⟩

end Answers

/-- A train that goes on under another route. -/
def throughTrain : Fixture :=
  { firstDay := Fixture.firstMonday, days := 1, categories := ["RE"],
    stations := [.plain "A" 0, .plain "B" 5, .plain "C" 0],
    routes := [⟨["A", "B"], [.single "00:10" "00:20" 3 none]⟩,
      ⟨["B", "C"], [.single "00:20" "00:30" 4 none]⟩],
    footpaths := [], through := [⟨0, 1, [some 0]⟩] }

/-- Whether a label has come over a through edge and can go on over a route edge. -/
def Label.goesOn (graph : QueryGraph) (direction : Direction) (label : Label) : Bool :=
  label.cameThrough graph && label.ride.isSome &&
    (graph.edgesAt label.node direction).any fun ref =>
      match ref, (graph.edge ref).kind with
      | .timetable _, .route _ => true
      | _, _ => false

/-- A label that goes on aboard came over a through edge and has the edge to ride ahead of it. -/
theorem Label.goesOn_spec {graph : QueryGraph} {direction : Direction} {label : Label}
    (h : label.goesOn graph direction = true) : label.cameThrough graph = true ∧
      ∃ ride id legs, label.ride = some ride ∧
        EdgeRef.timetable id ∈ graph.edgesAt label.node direction ∧
        (graph.edge (.timetable id)).kind = .route legs := by
  unfold Label.goesOn at h
  rw [Bool.and_eq_true, Bool.and_eq_true, List.any_eq_true] at h
  obtain ⟨⟨hcame, hride⟩, ref, href, hroute⟩ := h
  obtain ⟨ride, hride⟩ := Option.isSome_iff_exists.1 hride
  split at hroute
  · next id legs hkind => exact ⟨hcame, ride, id, legs, hride, href, hkind⟩
  · cases hroute

set_option maxRecDepth 4000 in
/-- A search over a through train, where a label does go on aboard, and it ends without a fault. -/
theorem search_consistent_throughTrain : ∃ tt q response, throughTrain.build = .ok tt ∧
    (Fixture.onTrip "A" "C" 30 .backward).toQuery tt = .ok q ∧
    ((Router.new {} Measure.all).search tt (Fixture.onTrip "A" "C" 30 .backward)).1 =
      .ok response ∧ response.journeys.length = 1 ∧
    (∀ fault, ((Router.new {} Measure.all).search tt
      (Fixture.onTrip "A" "C" 30 .backward)).1 ≠ .error (.inconsistent fault)) ∧
    ∃ label before ride id legs event, Trail q {} Measure.all (label :: before) ∧
      label.cameThrough q.graph = true ∧ label.ride = some ride ∧
      .timetable id ∈ q.graph.edgesAt label.node q.direction ∧
      (q.graph.edge (.timetable id)).kind = .route legs ∧
      Event.at? legs ride.trip ride.day = some event ∧
      event.isAhead label.now q.direction = true := by
  obtain ⟨tt, q, run, response, journeys, hbuild, hq, -, -, hanswer, hrank, hfound⟩ :=
    Fixture.of_search? throughTrain (Fixture.onTrip "A" "C" 30 .backward)
      (fun q run journeys => decide (journeys.length = 1) && run.frontier.results.any fun id =>
        ((run.frontier.chain id).map (·.2)).any (·.goesOn q.graph q.direction))
      (by decide +kernel)
  rw [Bool.and_eq_true, decide_eq_true_eq, List.any_eq_true] at hfound
  obtain ⟨hlength, id, hid, hgoes⟩ := hfound
  obtain ⟨label, hmem, hgoes⟩ := List.any_eq_true.1 hgoes
  obtain ⟨hcame, ride, edge, legs, hride, href, hkind⟩ := Label.goesOn_spec hgoes
  obtain ⟨order, hanswers⟩ := Router.Reached.new.answers_to hbuild hq hanswer
  obtain ⟨result, links, -, hchain, -, htrail⟩ := hanswers.trail hid
  rw [hchain] at hmem
  obtain ⟨before, hbefore⟩ := htrail.tail_of_mem hmem
  obtain ⟨hnever, hways⟩ :=
    search_consistent .new hbuild (Fixture.onTrip "A" "C" 30 .backward)
  obtain ⟨event, hat, hahead⟩ := (hways q hq label before hbefore).1 ride edge legs hride href hkind
  refine ⟨tt, q, response, hbuild, hq, Router.search_eq_ok_iff.2 ⟨run, hanswer⟩, ?_, hnever,
    label, before, ride, edge, legs, event, hbefore, hcame, hride, href, hkind, hat, hahead⟩
  rw [hrank, (Journey.rank_perm journeys).length_eq, hlength]

end JourneyPlanner
