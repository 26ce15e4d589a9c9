import JourneyPlanner.Proofs.Itinerary.Steps
import JourneyPlanner.Proofs.Search.Turns
import JourneyPlanner.Router

/-!
# Workers and their answers

`Router.Reached` holds of the workers there can be: new ones, and those that have
answered any requests over timetables that were built. Each of them stands there
without labels (`Router.Reached.blank`), so that what is known of searches that
start from blank storage holds of every search of every worker.

`Router.Answers` ties an answer to the search behind it: the query that the
request came to, the state in which the search ended, and for each journey of
the answer the result that it was written out from.
-/

namespace JourneyPlanner

namespace Router

/-- The workers with some settings and criteria that there can be. -/
inductive Reached (settings : Settings) (measures : List Measure) : Router → Prop
  | new : Reached settings measures (Router.new settings measures)
  | search {r : Router} {fixture : Fixture} {tt : Timetable} (request : Request)
      (h : Reached settings measures r) (hbuild : fixture.build = .ok tt) :
      Reached settings measures (r.search tt request).2

variable {r : Router} {tt : Timetable} {request : Request} {run : Run} {response : Response}
  {settings : Settings} {measures : List Measure}

theorem answer_eq_ok (h : r.answer tt request = .ok (run, response)) :
    ∃ q journeys, request.toQuery tt = .ok q ∧ q.run r.settings r.measures r.frontier = .ok run ∧
      run.journeys q = .ok journeys ∧
      response = { journeys := Journey.rank journeys, statistics := run.statistics } := by
  unfold Router.answer at h
  obtain ⟨q, hq, h⟩ := Fallible.bind_eq_ok.1 h
  obtain ⟨run', hrun, h⟩ := Fallible.bind_eq_ok.1 h
  obtain ⟨journeys, hjourneys, h⟩ := Fallible.bind_eq_ok.1 h
  cases h
  exact ⟨q, journeys, Fallible.mapError_eq_ok.1 hq, Fallible.mapError_eq_ok.1 hrun,
    Fallible.mapError_eq_ok.1 hjourneys, rfl⟩

/-- A fault comes up before the search, or it leaves the labels of the search, which it
has stopped unless a result could not be written out. -/
theorem answer_eq_error {halt : Halt} (h : r.answer tt request = .error halt) :
    (request.toQuery tt = .error halt.fault ∧ halt.frontier = r.frontier) ∨
      ∃ q, request.toQuery tt = .ok q ∧
        halt.frontier = (Run.left (q.run r.settings r.measures r.frontier)).frontier ∧
        ((∃ run, q.run r.settings r.measures r.frontier = .error ⟨halt.fault, run⟩) ∨
          ∃ run, q.run r.settings r.measures r.frontier = .ok run ∧
            run.journeys q = .error halt.fault) := by
  unfold Router.answer at h
  rcases Fallible.bind_eq_error.1 h with hq | ⟨q, hq, h⟩
  · obtain ⟨fault, hfault, rfl⟩ := Fallible.mapError_eq_error.1 hq
    exact Or.inl ⟨hfault, rfl⟩
  · refine Or.inr ⟨q, Fallible.mapError_eq_ok.1 hq, ?_⟩
    rcases Fallible.bind_eq_error.1 h with hrun | ⟨run, hrun, h⟩
    · obtain ⟨stopped, hstopped, rfl⟩ := Fallible.mapError_eq_error.1 hrun
      rw [hstopped]
      exact ⟨rfl, Or.inl ⟨stopped.run, rfl⟩⟩
    · rw [Fallible.mapError_eq_ok.1 hrun]
      rcases Fallible.bind_eq_error.1 h with hjourneys | ⟨journeys, hjourneys, h⟩
      · obtain ⟨fault, hfault, rfl⟩ := Fallible.mapError_eq_error.1 hjourneys
        exact ⟨rfl, Or.inr ⟨run, rfl, hfault⟩⟩
      · cases h

/-- A worker is left with blank storage, whatever it was asked. -/
theorem Reached.blank (h : Reached settings measures r) :
    r.settings = settings ∧ r.measures = measures ∧ r.frontier.Blank := by
  induction h with
  | new => exact ⟨rfl, rfl, Frontier.new_blank settings⟩
  | @search r fixture tt request h hbuild ih =>
    obtain ⟨hs, hm, hblank⟩ := ih
    unfold Router.search
    split
    · next run response hanswer =>
      obtain ⟨q, journeys, hq, hrun, -⟩ := answer_eq_ok hanswer
      have hsound := (Request.toQuery_sound (Fixture.build_sound hbuild) hq).1
      obtain ⟨r₁, hreached, hframe, -⟩ := Run.reached_of_run hsound hblank hrun
      obtain ⟨order, hlabels⟩ := hreached.sound hsound hblank
      exact ⟨hs, hm, Frontier.reset_blank (by rw [hframe]; exact hlabels.laid) _⟩
    · next halt hanswer =>
      refine ⟨hs, hm, Frontier.reset_blank ?_ _⟩
      rcases answer_eq_error hanswer with ⟨-, hframe⟩ | ⟨q, hq, hframe, -⟩
      · rw [hframe]
        exact hblank.laid
      · have hsound := (Request.toQuery_sound (Fixture.build_sound hbuild) hq).1
        obtain ⟨order, hlabels⟩ := Run.run_left_sound hsound hblank
        rw [hframe]
        exact hlabels.laid

/-- A worker is left with an empty queue of its own settings. -/
theorem Reached.queue_eq (h : Reached settings measures r) :
    r.frontier.queue = .new settings.maxBucket settings.sortedBuckets := by
  induction h with
  | new => rfl
  | @search r fixture tt request h hbuild ih =>
    unfold Router.search
    rw [← h.blank.1]
    split <;> rfl

/-- The search behind an answer: its query and the state in which it ended, with
the slots that were settled. -/
structure Answers (r : Router) (tt : Timetable) (request : Request) (run : Run)
    (response : Response) (q : Query) (order : List LabelId) : Prop where
  query : request.toQuery tt = .ok q
  sound : q.Sound
  timetable_eq : q.graph.timetable = tt
  direction_eq : q.direction = request.direction
  labels : Frontier.Sound q r.settings r.measures run.frontier order []
  undominated : run.frontier.Undominated
  journeys : ∀ journey ∈ response.journeys, ∃ id ∈ run.frontier.results,
    Journey.ofChain q.graph q.direction ((run.frontier.chain id).map (·.2)) = .ok journey

theorem Reached.answers {fixture : Fixture} (h : Reached settings measures r)
    (hbuild : fixture.build = .ok tt) (ha : r.answer tt request = .ok (run, response)) :
    ∃ q order, Answers r tt request run response q order := by
  obtain ⟨hs, hm, hblank⟩ := h.blank
  obtain ⟨q, journeys, hq, hrun, hjourneys, rfl⟩ := answer_eq_ok ha
  obtain ⟨hsound, htt, hdir⟩ := Request.toQuery_sound (Fixture.build_sound hbuild) hq
  obtain ⟨r₁, hreached, hframe, -⟩ := Run.reached_of_run hsound hblank hrun
  obtain ⟨order, hlabels⟩ := hreached.sound hsound hblank
  rw [← hframe] at hlabels
  refine ⟨q, order, hq, hsound, htt, hdir, hlabels, ?_, ?_⟩
  · rw [hframe]
    exact hreached.undominated hsound hblank
  · intro journey hj
    have hj' : journey ∈ journeys := (Journey.rank_perm journeys).mem_iff.1 hj
    obtain ⟨id, hid, hok⟩ := Fallible.exists_of_mem_mapM hjourneys hj'
    exact ⟨id, hid, Fallible.mapError_eq_ok.1 hok⟩

/-- The query behind an answer is the one that the request makes. -/
theorem Reached.answers_to {fixture : Fixture} (h : Reached settings measures r)
    (hbuild : fixture.build = .ok tt) {q : Query} (hq : request.toQuery tt = .ok q)
    (ha : r.answer tt request = .ok (run, response)) :
    ∃ order, Answers r tt request run response q order := by
  obtain ⟨q', order, hanswers⟩ := h.answers hbuild ha
  have hsame := hanswers.query
  rw [hq] at hsame
  cases hsame
  exact ⟨order, hanswers⟩

/-- A journey of an answer is written out from a trail that has ended at the
goal, whose labels are those that lead back from its result. -/
theorem Answers.trail {q : Query} {order : List LabelId}
    (h : Answers r tt request run response q order) {id : LabelId}
    (hid : id ∈ run.frontier.results) :
    ∃ label before, run.frontier.pool.get? id = some label ∧
      (run.frontier.chain id).map (·.2) = label :: before ∧ q.target.isGoal label = true ∧
      Trail q r.settings r.measures (label :: before) := by
  obtain ⟨hin, label, hget, hgoal⟩ := h.labels.results id hid
  obtain ⟨label', links, hget', hchain, htrail⟩ := h.labels.chain hin
  rw [hget] at hget'
  cases hget'
  exact ⟨label, links.map (·.2), hget, by rw [hchain]; rfl, hgoal, htrail⟩

/-- What `search` answers, `answer` does. -/
theorem search_eq_ok_iff : (r.search tt request).1 = .ok response ↔
    ∃ run, r.answer tt request = .ok (run, response) := by
  unfold Router.search
  constructor
  · intro h
    split at h
    · next run response' ha =>
      cases h
      exact ⟨run, ha⟩
    · cases h
  · rintro ⟨run, ha⟩
    rw [ha]

end Router

/-! ## Small timetables -/

namespace Fixture

/-- A station that is named by its identifier. -/
def StationEntry.plain (id : String) (transferTime : Nat) : StationEntry :=
  { id, name := id, transferTime, interchange := [] }

/-- A trip over one section. -/
def TripEntry.single (departure arrival : String) (price : Nat) (days : Option (List Nat)) :
    TripEntry :=
  { category := "RE", trainNumber := 1, line := "", price, attributes := [], days,
    times := [(none, some departure), (some arrival, none)], tracks := [] }

/-- The day on which the small timetables begin. -/
def firstMonday : Date := ⟨2026, 3, 2, by decide, by decide⟩

/-- A request of someone who is under way between two stations at a minute of
the first day. -/
def onTrip (source target : String) (minute : Nat) (direction : Direction) : Request :=
  { interval := ⟨firstMonday.midnight + minute * 60, firstMonday.midnight + minute * 60⟩,
    path := [{ station := source }, { station := target }], tripType := .onTrip, direction }

/-- The first search of a worker over the timetable that a fixture describes: its
query, how it ended, and the journeys that it found. -/
def search? (fixture : Fixture) (request : Request) : Option (Query × Run × List Journey) := do
  let tt ← fixture.build.toOption
  let q ← (request.toQuery tt).toOption
  let run ← (q.run {} Measure.all (Frontier.new {})).toOption
  let journeys ← (run.journeys q).toOption
  return (q, run, journeys)

theorem toOption_eq_some {ε α : Type} {x : Except ε α} {a : α} (h : x.toOption = some a) :
    x = .ok a := by
  cases x with
  | error e => cases h
  | ok b =>
    cases h
    rfl

/-- What is found of a first search by running it holds of the answer. -/
theorem of_search? (fixture : Fixture) (request : Request)
    (p : Query → Run → List Journey → Bool)
    (h : (fixture.search? request).any (fun s => p s.1 s.2.1 s.2.2) = true) :
    ∃ tt q run response journeys, fixture.build = .ok tt ∧ request.toQuery tt = .ok q ∧
      q.run {} Measure.all (Frontier.new {}) = .ok run ∧ run.journeys q = .ok journeys ∧
      (Router.new {} Measure.all).answer tt request = .ok (run, response) ∧
      response.journeys = Journey.rank journeys ∧ p q run journeys = true := by
  obtain ⟨⟨q, run, journeys⟩, hsome, hp⟩ := (Option.any_eq_true _ _).1 h
  unfold search? at hsome
  obtain ⟨tt, hbuild, hsome⟩ := Option.bind_eq_some_iff.1 hsome
  obtain ⟨q', hq, hsome⟩ := Option.bind_eq_some_iff.1 hsome
  obtain ⟨run', hrun, hsome⟩ := Option.bind_eq_some_iff.1 hsome
  obtain ⟨journeys', hjourneys, hsome⟩ := Option.bind_eq_some_iff.1 hsome
  cases hsome
  have hq := toOption_eq_some hq
  have hrun := toOption_eq_some hrun
  have hjourneys := toOption_eq_some hjourneys
  refine ⟨tt, q, run, { journeys := Journey.rank journeys, statistics := run.statistics },
    journeys, toOption_eq_some hbuild, hq, hrun, hjourneys, ?_, rfl, hp⟩
  exact Fallible.bind_eq_ok.2 ⟨q, Fallible.mapError_eq_ok.2 hq, Fallible.bind_eq_ok.2
    ⟨run, Fallible.mapError_eq_ok.2 hrun, Fallible.bind_eq_ok.2
      ⟨journeys, Fallible.mapError_eq_ok.2 hjourneys, rfl⟩⟩⟩

end Fixture

end JourneyPlanner
