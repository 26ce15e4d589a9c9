import JourneyPlanner.Proofs.Itinerary.Sights
import JourneyPlanner.Proofs.Router
import JourneyPlanner.Proofs.Search.Horizon

/-!
# Nights change nothing

The main result of this file, `hotels_invisible`:

> a request is answered with the same journeys, in the same order, whether or not it offers
> nights at hotels, if both searches come to their end; and no journey has a night in it.

A label with a night on its way is replaced, when it is taken, by the one that the night
began from (`Run.Reached.beaten_of_hotel`). So it never leads anywhere, and what is surveyed
of the two searches, which leaves such labels out, goes on alike: it is the same at the
start (`Query.opening_withoutHotels`), what follows is the same in both
(`Survey.next_withoutHotels`), and so is the end, since there is only one
(`Survey.Ended.eq`). The journeys show nothing but that.
-/

namespace JourneyPlanner

open Relation (ReflTransGen)

/-! ## Where surveys end -/

namespace Survey

variable {q : Query} {settings : Settings} {s s' s₁ s₂ : Survey}

/-- Nothing waits. -/
def Ended (s : Survey) : Prop := ∀ bucket, s.waiting bucket = []

theorem Ended.not_next (h : s.Ended) : ¬s.Next q settings s' := by
  rintro ⟨bucket, course, rest, -, rfl, -⟩
  have hnone := h bucket
  simp [inBucket] at hnone

theorem Ended.eq_of_turns (h : s.Ended) (ht : ReflTransGen (Next q settings) s s') : s' = s := by
  rcases ht.cases_head with rfl | ⟨s₁, hnext, -⟩
  · rfl
  · exact absurd hnext h.not_next

/-- A survey comes to one end. -/
theorem Ended.eq (hend : s₁.Ended) (hend' : s₂.Ended) (h : ReflTransGen (Next q settings) s s₁)
    (h' : ReflTransGen (Next q settings) s s₂) : s₁ = s₂ := by
  have hunique : Relator.RightUnique (Next q settings) := fun _ _ _ h h' => h.eq h'
  rcases ReflTransGen.total_of_right_unique hunique h h' with hon | hon
  · exact (hend.eq_of_turns hon).symm
  · exact hend'.eq_of_turns hon

end Survey

/-- What is surveyed of a search that has just begun. -/
def Query.opening (q : Query) (settings : Settings) (measures : List Measure) : Survey :=
  (q.openings settings measures).foldl (Survey.enqueue settings 0) ⟨fun _ => [], fun _ => [], []⟩

namespace Run

variable {q : Query} {settings : Settings} {measures : List Measure} {f : Frontier} {r r' run : Run}

theorem survey_turns (hq : q.Sound) (hf : f.Blank)
    (hqueue : f.queue = .new settings.maxBucket settings.sortedBuckets)
    (h : Reached q settings measures f r) (ht : ReflTransGen (Turn q settings) r r') :
    ReflTransGen (Survey.Next q settings) (r.frontier.survey q.graph)
      (r'.frontier.survey q.graph) := by
  induction ht with
  | refl => exact .refl
  | tail ht hturn ih =>
    rcases hturn.survey hq hf hqueue (h.turns ht) with hsame | hnext
    · rw [hsame]
      exact ih
    · exact ih.tail hnext

/-- What is surveyed of a search that has come to its end is the end of its survey. -/
theorem survey_of_run (hq : q.Sound) (hf : f.Blank)
    (hqueue : f.queue = .new settings.maxBucket settings.sortedBuckets)
    (h : q.run settings measures f = .ok run) (hend : run.statistics.budgetSpent = false) :
    ReflTransGen (Survey.Next q settings) (q.opening settings measures)
        (run.frontier.survey q.graph) ∧ (run.frontier.survey q.graph).Ended := by
  obtain ⟨r, s, hstart, hturns, hframe, hempty⟩ := turns_of_run hq hf h
  obtain ⟨-, hopening⟩ := survey_start hq hf hqueue hstart
  rw [hframe]
  unfold Query.opening
  rw [← hopening]
  refine ⟨survey_turns hq hf hqueue (.start hstart) hturns, fun bucket => ?_⟩
  have hnone : s.frontier.queue.buckets[bucket]?.getD [] = [] := by
    apply List.eq_nil_iff_forall_not_mem.2
    intro item hitem
    have hqueued := Frontier.mem_queued hitem
    rw [hempty hend] at hqueued
    cases hqueued
  show (s.frontier.queue.buckets[bucket]?.getD []).filterMap _ = []
  rw [hnone]
  rfl

end Run

/-! ## The query without its hotels -/

/-- A course with one more label, unless a night lies on the way of that. -/
def Course.onTo? (course : Course) (found : Option Sight) : Option Course :=
  (found.filter (!·.label.hotel)).map fun next =>
    { here := next, past := course.here :: course.past }

namespace Query

variable {q : Query} (settings : Settings)

/-- The labels that a search starts from refer to no edge. -/
theorem opening_withoutHotels (measures : List Measure) :
    q.withoutHotels.opening settings measures = q.opening settings measures := by
  have hstarts : q.withoutHotels.openings settings measures = q.openings settings measures := by
    unfold openings
    refine List.map_congr_left fun label hlabel => ?_
    obtain ⟨time, -, rfl⟩ := List.mem_map.1 (List.mem_filter.1 hlabel).1
    rfl
  unfold opening
  rw [hstarts]

/-- An edge that is left costs what it did. -/
theorem edgeCost_withoutHotels {graph : QueryGraph} {ref ref' : EdgeRef}
    (h : graph.Counterpart ref ref') (label : Label) (direction : Direction) (horizon : Nat) :
    edgeCost graph.withoutHotels label ref direction horizon =
      edgeCost graph label ref' direction horizon := by
  unfold edgeCost
  rw [h.edge_eq]
  cases h <;> rfl

/-- An edge that is left leads where it did. -/
theorem next?_withoutHotels {ref ref' : EdgeRef} (h : q.graph.Counterpart ref ref')
    (label : Label) :
    (q.withoutHotels.next? settings label ref).map (Label.sight q.withoutHotels.graph) =
      (q.next? settings label ref').map (Label.sight q.graph) := by
  have hgraph : q.withoutHotels.graph = q.graph.withoutHotels := rfl
  have hdirection : q.withoutHotels.direction = q.direction := rfl
  unfold next? Run.expandEdge
  rw [hgraph, hdirection, edgeCost_withoutHotels h, h.target_eq]
  cases edgeCost q.graph label ref' q.direction settings.maxMinutes with
  | error fault => rfl
  | ok found =>
    cases found with
    | none => rfl
    | some cost =>
      dsimp only
      cases Run.timeAfter? label.now cost.time q.direction with
      | none => rfl
      | some now =>
        dsimp only [Option.map_some]
        -- limits look at the criteria alone
        show Option.map _ (if (q.after 0 label ref' cost now).allowed settings then _ else _) =
          Option.map _ (if (q.after 0 label ref' cost now).allowed settings then _ else _)
        split
        · have hedges : some (q.graph.withoutHotels.edge ref) = some (q.graph.edge ref') :=
            congrArg some h.edge_eq
          exact congrArg (fun edge => some (Sight.mk
            { (q.after 0 label ref' cost now) with edge := none, pred := none } edge)) hedges
        · rfl

/-- A night leads to labels with a night on their way. -/
theorem hotel_of_next? {ref : EdgeRef} (h : q.graph.isStay ref = true) {label next : Label}
    (hnext : q.next? settings label ref = some next) : next.hotel = true := by
  obtain ⟨cost, now, ht, -, -, rfl⟩ := next?_eq_some_iff.1 hnext
  have hkind : (q.graph.edge ref).kind.isHotel = true := by
    cases ref with
    | timetable id => cases h
    | extra position => exact h
  show (q.after 0 label ref cost now).hotel = true
  rw [Label.hotel_after, ht.hotel_eq, hkind, Bool.or_true]

/-- The courses on which a label goes on, edge by edge. -/
theorem onward_eq (course : Course) : q.onward settings course =
    (q.graph.edgesAt course.label.node q.direction).filterMap fun ref =>
      course.onTo? ((q.next? settings course.label ref).map (Label.sight q.graph)) := by
  unfold onward nexts
  rw [List.filter_filterMap, List.map_filterMap]
  refine List.filterMap_congr fun ref _ => ?_
  cases q.next? settings course.label ref with
  | none => rfl
  | some next =>
    show Option.map _ (if (!next.hotel) = true then _ else _) =
      Option.map _ (if (!next.hotel) = true then _ else _)
    split <;> rfl

/-- No course goes on over a night. -/
theorem onTo?_of_isStay (course : Course) {ref : EdgeRef} (h : q.graph.isStay ref = true) :
    course.onTo? ((q.next? settings course.label ref).map (Label.sight q.graph)) = none := by
  cases hnext : q.next? settings course.label ref with
  | none => rfl
  | some next =>
    have hnight : next.hotel = true := q.hotel_of_next? settings h hnext
    show Option.map _ (if (!next.hotel) = true then _ else _) = none
    rw [hnight]
    rfl

/-- The courses without a night go on over the edges that are left. -/
theorem onward_withoutHotels (course : Course) :
    q.withoutHotels.onward settings course = q.onward settings course := by
  have hleft := map_eq_of_forall₂ (q.graph.edgesAt_withoutHotels course.label.node q.direction)
    fun ref ref' h => congrArg course.onTo? (q.next?_withoutHotels settings h course.label)
  have hfilterMap : ∀ (refs : List EdgeRef) (go : EdgeRef → Option Course),
      refs.filterMap go = (refs.map go).filterMap id := by
    intro refs go
    rw [List.filterMap_map]
    rfl
  rw [onward_eq, onward_eq, hfilterMap]
  show List.filterMap id (List.map _ (q.graph.withoutHotels.edgesAt _ q.direction)) = _
  rw [hleft, ← hfilterMap, List.filterMap_filter]
  refine List.filterMap_congr fun ref _ => ?_
  cases href : q.graph.isStay ref with
  | false => rfl
  | true => exact (q.onTo?_of_isStay settings course href).symm

end Query

namespace Survey

variable {q : Query} {settings : Settings} {s s' : Survey}

theorem handle_withoutHotels (cursor : Nat) (s : Survey) (course : Course) :
    s.handle q.withoutHotels settings cursor course = s.handle q settings cursor course := by
  unfold handle
  rw [q.onward_withoutHotels]
  rfl

theorem next_withoutHotels : Next q.withoutHotels settings = Next q settings := by
  funext s s'
  unfold Next
  simp only [handle_withoutHotels]

end Survey

/-! ## The journeys -/

section Journeys

variable {q q' : Query} {settings settings' : Settings} {measures measures' : List Measure}
  {f f' : Frontier} {run run' : Run} {order order' : List LabelId} {graph graph' : QueryGraph}

/-- A course tells what is seen of the labels that lead back from a slot. -/
theorem Frontier.alike_of_course?_eq {id id' : LabelId}
    (h : f.course? graph id = f'.course? graph' id') : List.Forall₂ (Label.Alike graph graph')
      ((f.chain id).map (·.2)) ((f'.chain id').map (·.2)) := by
  unfold Frontier.course? at h
  generalize (f.chain id).map (·.2) = labels at h
  generalize (f'.chain id').map (·.2) = labels' at h
  cases labels with
  | nil =>
    cases labels' with
    | nil => exact .nil
    | cons label' before' => cases h
  | cons label before =>
    cases labels' with
    | nil => cases h
    | cons label' before' =>
      have hcourse := Option.some.inj h
      have hpast : before.map (Label.sight graph) = before'.map (Label.sight graph') :=
        congrArg Course.past hcourse
      rw [← List.forall₂_eq_eq_eq, List.forall₂_map_left_iff, List.forall₂_map_right_iff] at hpast
      exact .cons (congrArg Course.here hcourse) hpast

/-- Every result has its course. -/
theorem Frontier.Sound.map_course?_results (hs : Frontier.Sound q settings measures f order []) :
    f.results.map (f.course? graph) = (f.survey graph).results.map some := by
  show _ = (f.results.filterMap (f.course? graph)).map some
  rw [List.map_filterMap_some_eq_filter_map_isSome, List.filter_eq_self.2]
  intro found hfound
  obtain ⟨id, hid, rfl⟩ := List.mem_map.1 hfound
  have hin : id ∈ order ++ ([] ++ f.queued) := List.mem_append_left _ (hs.results id hid).1
  obtain ⟨label, links, ht⟩ := hs.traced hin
  rw [hs.course?_eq hin ht]
  rfl

/-- Searches of which the same results are surveyed come to the same journeys. -/
theorem Run.journeys_eq (hs : Frontier.Sound q settings measures run.frontier order [])
    (hs' : Frontier.Sound q' settings' measures' run'.frontier order' [])
    (htt : q.graph.timetable = q'.graph.timetable) (hdir : q.direction = q'.direction)
    (hresults : (run.frontier.survey q.graph).results = (run'.frontier.survey q'.graph).results)
    {journeys journeys' : List Journey} (hj : run.journeys q = .ok journeys)
    (hj' : run'.journeys q' = .ok journeys') : journeys = journeys' := by
  have hcourses : run.frontier.results.map (run.frontier.course? q.graph) =
      run'.frontier.results.map (run'.frontier.course? q'.graph) := by
    rw [hs.map_course?_results, hs'.map_course?_results, hresults]
  rw [← List.forall₂_eq_eq_eq, List.forall₂_map_left_iff, List.forall₂_map_right_iff] at hcourses
  refine Fallible.mapM_eq_of_forall₂ hcourses (fun id id' journey journey' hsame hok hok' => ?_)
    hj hj'
  have hok := Fallible.mapError_eq_ok.1 hok
  have hok' := Fallible.mapError_eq_ok.1 hok'
  rw [← hdir] at hok'
  exact Journey.ofChain_alike htt (Frontier.alike_of_course?_eq hsame) hok hok'

/-- No journey of an answer has a night in it. -/
theorem Router.Answers.awake {r : Router} {tt : Timetable} {request : Request}
    {response : Response} (h : r.Answers tt request run response q order)
    (hblank : r.frontier.Blank)
    (hrun : q.run r.settings r.measures r.frontier = .ok run) :
    ∀ journey ∈ response.journeys, ∀ t ∈ journey.transports, ∀ minutes,
      t.move ≠ .walk .hotel minutes := by
  intro journey hjourney
  obtain ⟨id, hid, hok⟩ := h.journeys journey hjourney
  obtain ⟨label, before, hget, hchain, -, htrail⟩ := h.trail hid
  obtain ⟨r₁, hreached, hframe, -⟩ := Run.reached_of_run h.sound hblank hrun
  have hholds : run.frontier.Holds label := h.labels.holds_of_reports ⟨id, hid, hget⟩
  rw [hframe] at hholds
  rw [hchain] at hok
  exact htrail.awake (hreached.hotel_of_holds h.sound hblank hholds) hok

end Journeys

/-- Over a timetable that was built, whatever the criteria and the settings are, a request is
answered with the same journeys in the same order if its hotels are left out, and none of
them has a night in it, if both searches come to their end. -/
theorem hotels_invisible {fixture : Fixture} {tt : Timetable} (hbuild : fixture.build = .ok tt)
    {settings : Settings} {measures : List Measure} {router router' : Router}
    (hrouter : Router.Reached settings measures router)
    (hrouter' : Router.Reached settings measures router') {request : Request}
    {response response' : Response} (h : (router.search tt request).1 = .ok response)
    (h' : (router'.search tt request.withoutHotels).1 = .ok response')
    (hend : response.statistics.budgetSpent = false)
    (hend' : response'.statistics.budgetSpent = false) :
    response.journeys = response'.journeys ∧
      ∀ journey ∈ response.journeys, ∀ t ∈ journey.transports, ∀ minutes,
        t.move ≠ .walk .hotel minutes := by
  obtain ⟨run, ha⟩ := Router.search_eq_ok_iff.1 h
  obtain ⟨run', ha'⟩ := Router.search_eq_ok_iff.1 h'
  obtain ⟨q, journeys, hq, hrun, hj, hresponse⟩ := Router.answer_eq_ok ha
  obtain ⟨q', journeys', hq', hrun', hj', hresponse'⟩ := Router.answer_eq_ok ha'
  obtain ⟨order, hanswers⟩ := hrouter.answers_to hbuild hq ha
  obtain ⟨order', hanswers'⟩ := hrouter'.answers_to hbuild hq' ha'
  obtain ⟨hsettings, hmeasures, hblank⟩ := hrouter.blank
  obtain ⟨hsettings', hmeasures', hblank'⟩ := hrouter'.blank
  refine ⟨?_, hanswers.awake hblank hrun⟩
  have hwithout := Request.toQuery_withoutHotels (Fixture.build_sound hbuild) hq
  rw [hq'] at hwithout
  cases hwithout
  rw [hsettings, hmeasures] at hrun
  rw [hsettings', hmeasures'] at hrun'
  rw [hresponse] at hend
  rw [hresponse'] at hend'
  obtain ⟨hturns, hended⟩ :=
    Run.survey_of_run hanswers.sound hblank hrouter.queue_eq hrun hend
  obtain ⟨hturns', hended'⟩ :=
    Run.survey_of_run hanswers'.sound hblank' hrouter'.queue_eq hrun' hend'
  rw [q.opening_withoutHotels, Survey.next_withoutHotels] at hturns'
  have hsurvey := hended.eq hended' hturns hturns'
  have hjourneys : journeys = journeys' := Run.journeys_eq hanswers.labels hanswers'.labels rfl rfl
    (congrArg Survey.results hsurvey) hj hj'
  rw [hresponse, hresponse', hjourneys]

/-- Two trains with ten minutes between them. -/
def shortNight : Fixture :=
  { firstDay := Fixture.firstMonday, days := 1, categories := ["RE"],
    stations := [.plain "A" 0, .plain "B" 0, .plain "C" 0],
    routes := [⟨["A", "B"], [.single "00:00" "00:10" 5 none]⟩,
      ⟨["B", "C"], [.single "00:20" "00:30" 5 none]⟩],
    footpaths := [], through := [] }

/-- Where the trains meet there is a hotel for five minutes. -/
def shortNight.request : Request :=
  { Fixture.onTrip "A" "C" 0 .forward with additionalEdges := [.hotel "B" 15 5 80] }

set_option maxRecDepth 4000 in
/-- The night is tried, and is dropped for the wait. -/
theorem hotels_invisible_shortNight : ∃ tt response response', shortNight.build = .ok tt ∧
    ((Router.new {} Measure.all).search tt shortNight.request).1 = .ok response ∧
    ((Router.new {} Measure.all).search tt shortNight.request.withoutHotels).1 = .ok response' ∧
    response.statistics.budgetSpent = false ∧ response'.statistics.budgetSpent = false ∧
    response.statistics.dominatedAtNode = 1 ∧ response'.statistics.dominatedAtNode = 0 ∧
    response.journeys.length = 1 ∧ response.journeys = response'.journeys ∧
    ∀ journey ∈ response.journeys, ∀ t ∈ journey.transports, ∀ minutes,
      t.move ≠ .walk .hotel minutes := by
  obtain ⟨tt, q, run, response, journeys, hbuild, hq, hrun, -, ha, hjourneys, hfound⟩ :=
    Fixture.of_search? shortNight shortNight.request
      (fun _ run journeys => decide (run.statistics.budgetSpent = false ∧
        run.statistics.dominatedAtNode = 1 ∧ journeys.length = 1)) (by decide +kernel)
  obtain ⟨tt', q', run', response', journeys', hbuild', hq', hrun', -, ha', -, hfound'⟩ :=
    Fixture.of_search? shortNight shortNight.request.withoutHotels
      (fun _ run _ => decide (run.statistics.budgetSpent = false ∧
        run.statistics.dominatedAtNode = 0)) (by decide +kernel)
  rw [hbuild] at hbuild'
  cases hbuild'
  rw [decide_eq_true_eq] at hfound hfound'
  obtain ⟨hend, hdropped, hone⟩ := hfound
  obtain ⟨hend', hdropped'⟩ := hfound'
  have hstatistics : response.statistics = run.statistics := by
    obtain ⟨-, -, -, -, -, rfl⟩ := Router.answer_eq_ok ha
    rfl
  have hstatistics' : response'.statistics = run'.statistics := by
    obtain ⟨-, -, -, -, -, rfl⟩ := Router.answer_eq_ok ha'
    rfl
  rw [← hstatistics] at hend hdropped
  rw [← hstatistics'] at hend' hdropped'
  have h := Router.search_eq_ok_iff.2 ⟨run, ha⟩
  have h' := Router.search_eq_ok_iff.2 ⟨run', ha'⟩
  obtain ⟨hsame, hawake⟩ := hotels_invisible hbuild .new .new h h' hend hend'
  refine ⟨tt, response, response', hbuild, h, h', hend, hend', hdropped, hdropped', ?_, hsame,
    hawake⟩
  rw [hjourneys, (Journey.rank_perm journeys).length_eq]
  exact hone

end JourneyPlanner
