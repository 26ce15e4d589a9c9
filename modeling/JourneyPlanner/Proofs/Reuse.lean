import JourneyPlanner.Proofs.Handles
import JourneyPlanner.Proofs.ParetoFront
import JourneyPlanner.Proofs.Search.Room

/-!
# A worker as good as new

A worker keeps its storage from one search to the next. The main result of this file,
`reuse_invisible`, says that nobody can tell:

> whatever a worker is asked, over whatever timetables one after the other, it answers
> each request as a new worker would, with the same journeys and the same statistics, or
> with the same fault.

What a search leaves behind is reset whether it came to its end, was cut short by the
budget or was stopped by a fault, and after that the storage differs from new storage in
one thing only: the lists for the nodes of the largest timetable so far are still there,
without labels (`Router.spared`). To these a search is blind (`Query.run_withRoom`).
-/

namespace JourneyPlanner

/-- The bounds of a query are those towards its goal. -/
theorem Request.bounds_of_toQuery {tt : Timetable} {request : Request} {q : Query}
    (h : request.toQuery tt = .ok q) :
    q.bounds = .compute q.graph q.target.goal q.direction := by
  obtain ⟨target, begin, finish, -, -, -, rfl⟩ := toQuery_eq_ok.1 h
  rfl

namespace Router

variable {settings : Settings} {measures : List Measure} {tt : Timetable} {request : Request}
  {r : Router}

/-- A new worker, but for some empty lists. -/
def spared (settings : Settings) (measures : List Measure) (spare : Nat) : Router :=
  { settings, measures, frontier := (Frontier.new settings).withRoom spare }

theorem spared_zero (settings : Settings) (measures : List Measure) :
    spared settings measures 0 = new settings measures := by
  unfold spared Router.new Frontier.withRoom
  rw [Array.replicate_zero, Array.append_empty]

/-- What is told of a search. -/
def told : Except Halt (Run × Response) → Except SearchFault Response
  | .ok (_, response) => .ok response
  | .error halt => .error halt.fault

/-- The storage as a search has left it. -/
def leaves : Except Halt (Run × Response) → Frontier
  | .ok (run, _) => run.frontier
  | .error halt => halt.frontier

theorem search_eq (r : Router) (tt : Timetable) (request : Request) :
    r.search tt request = (told (r.answer tt request),
      { r with frontier := (leaves (r.answer tt request)).reset r.settings }) := by
  unfold Router.search
  cases r.answer tt request <;> rfl

/-- An answer, case by case, once there is a query. -/
theorem answer_of_toQuery {q : Query} (hq : request.toQuery tt = .ok q) :
    r.answer tt request =
      match q.run r.settings r.measures r.frontier with
      | .error halt => .error { fault := halt.fault, frontier := halt.run.frontier }
      | .ok run =>
        match run.journeys q with
        | .error fault => .error { fault, frontier := run.frontier }
        | .ok journeys =>
          .ok (run, { journeys := Journey.rank journeys, statistics := run.statistics }) := by
  unfold Router.answer
  rw [hq]
  show (Except.mapError _ (q.run r.settings r.measures r.frontier) >>= _) = _
  cases q.run r.settings r.measures r.frontier with
  | error halt => rfl
  | ok run =>
    show (Except.mapError _ (run.journeys q) >>= _) = _
    dsimp only
    cases run.journeys q <;> rfl

/-- Lists to spare have no part in an answer, and the first block keeps its size. -/
theorem answer_spared (settings : Settings) (hsome : measures ≠ []) (spare : Nat)
    (tt : Timetable) (request : Request) :
    told ((spared settings measures spare).answer tt request) =
        told ((new settings measures).answer tt request) ∧
      (leaves ((spared settings measures spare).answer tt request)).pool.firstBlock =
        (Frontier.new settings).pool.firstBlock := by
  cases hq : request.toQuery tt with
  | error fault =>
    unfold Router.answer
    rw [hq]
    exact ⟨rfl, rfl⟩
  | ok q =>
    have hbounds := Request.bounds_of_toQuery hq
    obtain ⟨hrun, hwithin⟩ := Query.run_withRoom settings hbounds hsome spare
    have hfirst := hwithin.first_eq
    rw [answer_of_toQuery hq, answer_of_toQuery hq]
    unfold spared Router.new
    dsimp only
    rw [hrun]
    cases hnew : q.run settings measures (Frontier.new settings) with
    | error halt =>
      rw [hnew] at hfirst
      exact ⟨rfl, hfirst⟩
    | ok run =>
      rw [hnew] at hfirst
      have hjourneys : (run.withRoom (spare - q.graph.timetable.nodes.size)).journeys q =
          run.journeys q := rfl
      unfold Run.roomy
      dsimp only
      rw [hjourneys]
      cases run.journeys q with
      | error fault => exact ⟨rfl, hfirst⟩
      | ok journeys => exact ⟨rfl, hfirst⟩

/-- What a worker with lists to spare tells is what a new one does, and then it is again
a worker with lists to spare. -/
theorem search_spared (settings : Settings) (hsome : measures ≠ []) (spare : Nat)
    (tt : Timetable) (request : Request) :
    ((spared settings measures spare).search tt request).1 =
        ((new settings measures).search tt request).1 ∧
      ∃ spare', ((spared settings measures spare).search tt request).2 =
        spared settings measures spare' := by
  obtain ⟨htold, hfirst⟩ := answer_spared settings hsome spare tt request
  have hreset := Frontier.reset_eq hfirst
  rw [search_eq, search_eq]
  exact ⟨htold, _, congrArg (fun frontier => ({ settings, measures, frontier } : Router)) hreset⟩

/-- What a worker tells of one request after another, each over its own timetable. -/
def tellsAll (r : Router) : List (Timetable × Request) → List (Except SearchFault Response)
  | [] => []
  | (tt, request) :: calls =>
    let (outcome, r) := r.search tt request
    outcome :: r.tellsAll calls

theorem tellsAll_spared (hsome : measures ≠ []) (spare : Nat)
    (calls : List (Timetable × Request)) :
    (spared settings measures spare).tellsAll calls =
      calls.map fun call => ((new settings measures).search call.1 call.2).1 := by
  induction calls generalizing spare with
  | nil => rfl
  | cons call calls ih =>
    obtain ⟨tt, request⟩ := call
    obtain ⟨htold, spare', hleft⟩ := search_spared settings hsome spare tt request
    unfold tellsAll
    dsimp only
    rw [htold, hleft, ih, List.map_cons]

end Router

/-- A worker with some criteria answers every request as a new worker would, whatever it
has been asked before. -/
theorem reuse_invisible (settings : Settings) {measures : List Measure} (hsome : measures ≠ [])
    (calls : List (Timetable × Request)) :
    (Router.new settings measures).tellsAll calls =
      calls.map fun call => ((Router.new settings measures).search call.1 call.2).1 := by
  rw [← Router.spared_zero]
  exact Router.tellsAll_spared hsome 0 calls

/-- What new workers tell of a search that the budget cuts short, of one for a station
that there is not, and of one over a smaller timetable. -/
def secondWalk.told? : Option (Timetable × Timetable × Response × SearchFault × Response) := do
  let tt ← fastOrCheap.build.toOption
  let tt' ← secondWalk.build.toOption
  let worker := Router.new { maxLabels := 5 } Measure.all
  match (worker.search tt (Fixture.onTrip "A" "B" 0 .forward)).1,
    (worker.search tt' (Fixture.onTrip "A" "Z" 0 .forward)).1,
    (worker.search tt' (Fixture.onTrip "A" "B" 0 .forward)).1 with
  | .ok cut, .error fault, .ok response =>
    if tt'.nodes.size < tt.nodes.size ∧ cut.statistics.budgetSpent = true ∧
        response.journeys.length = 1 then some (tt, tt', cut, fault, response) else none
  | _, _, _ => none

set_option maxRecDepth 4000 in
theorem reuse_invisible_secondWalk : ∃ tt tt' cut fault response, fastOrCheap.build = .ok tt ∧
    secondWalk.build = .ok tt' ∧ tt'.nodes.size < tt.nodes.size ∧ Measure.all ≠ [] ∧
    cut.statistics.budgetSpent = true ∧ response.journeys.length = 1 ∧
    (Router.new { maxLabels := 5 } Measure.all).tellsAll
        [(tt, Fixture.onTrip "A" "B" 0 .forward), (tt', Fixture.onTrip "A" "Z" 0 .forward),
          (tt', Fixture.onTrip "A" "B" 0 .forward)] =
      [.ok cut, .error fault, .ok response] := by
  have hsome : secondWalk.told?.isSome = true := by decide +kernel
  obtain ⟨⟨tt, tt', cut, fault, response⟩, htold⟩ := Option.isSome_iff_exists.1 hsome
  unfold secondWalk.told? at htold
  obtain ⟨_, hbuild, htold⟩ := Option.bind_eq_some_iff.1 htold
  obtain ⟨_, hbuild', htold⟩ := Option.bind_eq_some_iff.1 htold
  dsimp only at htold
  split at htold
  · next hcut hfault hresponse =>
    split at htold
    · next hfound =>
      cases htold
      have hmeasures : Measure.all ≠ [] := by decide
      refine ⟨tt, tt', cut, fault, response, Fixture.toOption_eq_some hbuild,
        Fixture.toOption_eq_some hbuild', hfound.1, hmeasures, hfound.2.1, hfound.2.2, ?_⟩
      rw [reuse_invisible { maxLabels := 5 } hmeasures]
      simp only [List.map_cons, List.map_nil, hcut, hfault, hresponse]
    · cases htold
  · cases htold

end JourneyPlanner
