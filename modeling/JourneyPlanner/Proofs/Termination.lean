import JourneyPlanner.Proofs.Anytime
import JourneyPlanner.Proofs.Search.States

/-!
# A search ends by itself

Edges may take no time and cost nothing, and there are circles of them, so that nothing that
a label counts has to grow from one label to the next. What runs out is what can still be
settled: labels settled at one node are in different states, and there are finitely many
states (`Run.Reached.settledCount_le`). Only settled labels queue others, each no more than
its node has edges, so that the labels created have a bound too (`Run.exists_created_le`).
Every pass of the loop takes one of them, and so the loop makes no more passes than that,
however large its budget.
-/

namespace JourneyPlanner

open Relation (ReflTransGen)

namespace Run

variable {q : Query} {settings : Settings} {f : Frontier}

/-- No loop has more labels created than some number, however large its budget. -/
theorem exists_created_le (hq : q.Sound) (hf : f.Blank) (settings : Settings) {edges : Nat}
    (hedges : ∀ node < q.graph.timetable.nodes.size,
      (q.graph.edgesAt node q.direction).length ≤ edges) :
    ∃ bound, ∀ r, Run.start q settings Measure.all f = .ok r → ∀ allowed s,
      ReflTransGen (Pass q settings) (allowed, r) s →
      Steady q.startTimes.length edges allowed s ∧ s.2.statistics.labelsCreated ≤ bound := by
  obtain ⟨states, hstates⟩ := exists_states hq settings
  refine ⟨q.startTimes.length + edges * (Finset.insertNone states).card,
    fun r hr allowed s hpasses => ?_⟩
  have hsteady := (steady_start hf hr edges allowed).passes hq hf hedges (.start hr) hpasses
  have hreached : Reached q settings Measure.all f s.2 := (Reached.start hr).passes hpasses
  have hsettled := Nat.mul_le_mul_left edges (hreached.settledCount_le hq hf hstates)
  have hcreated := hsteady.created
  exact ⟨hsteady, by omega⟩

/-- A loop whose budget is no smaller than the labels that are ever created does not spend
it: where labels wait, fewer have been popped. -/
theorem Ends.unspent (hq : q.Sound) (hf : f.Blank) {starts edges allowed : Nat}
    (hedges : ∀ node < q.graph.timetable.nodes.size,
      (q.graph.edgesAt node q.direction).length ≤ edges) {s : Nat × Run}
    {outcome : Except Halt Run} (hends : Ends q settings s outcome)
    (hreached : Reached q settings Measure.all f s.2) (hsteady : Steady starts edges allowed s)
    (hcreated : s.2.statistics.labelsCreated ≤ allowed) :
    (left outcome).statistics.budgetSpent = false ∧
      ∀ last, outcome = .ok last → last.frontier.queue.isEmpty = true := by
  cases hends with
  | empty budget hempty =>
    refine ⟨hsteady.unspent, fun last hlast => ?_⟩
    cases hlast
    exact hempty
  | @spent r hwaiting =>
    exfalso
    have hsize : r.frontier.queue.size ≠ 0 := by
      intro hzero
      have hempty : r.frontier.queue.isEmpty = true := beq_iff_eq.2 hzero
      rw [hempty] at hwaiting
      cases hwaiting
    have hpopped := hsteady.popped
    have htotal := hsteady.balanced.created
    dsimp only at hpopped htotal hcreated
    omega
  | fault budget hwaiting hpop hvisit =>
    have htallies := hreached.tallies hq hf hsteady.balanced hpop hedges
    rw [hvisit] at htallies
    refine ⟨htallies.spent.trans hsteady.unspent, fun last hlast => ?_⟩
    cases hlast

/-- Whether a search spends its budget is settled by its loop. -/
theorem budgetSpent_run {measures : List Measure} {r : Run}
    (h : Run.start q settings measures f = .ok r) :
    (left (q.run settings measures f)).statistics.budgetSpent =
      (left (Run.loop q settings settings.maxLabels r)).statistics.budgetSpent := by
  unfold Query.run
  rw [h]
  show (left (Run.loop q settings settings.maxLabels r >>=
    fun last => pure last.finish)).statistics.budgetSpent = _
  cases Run.loop q settings settings.maxLabels r with
  | error halt => rfl
  | ok last => exact (gains_finish last).spent

end Run

/-- In a search over a timetable that was built: there is a number that the turns never pass,
and with no smaller a budget of labels the search empties its queue, or a fault ends it, and
never says that the budget was spent. -/
theorem search_terminates {fixture : Fixture} {tt : Timetable}
    (hbuild : fixture.build = .ok tt) {settings : Settings} {router : Router}
    (hrouter : Router.Reached settings Measure.all router) {request : Request} {q : Query}
    (hq : request.toQuery tt = .ok q) :
    ∃ bound,
      (∀ r, Run.start q settings Measure.all router.frontier = .ok r →
        ∀ turns r', Run.turns? q settings turns r = some r' → turns ≤ bound) ∧
      ∀ budget, bound ≤ budget →
        (Run.left (q.run { settings with maxLabels := budget } Measure.all
          router.frontier)).statistics.budgetSpent = false ∧
        ∀ run, q.run { settings with maxLabels := budget } Measure.all router.frontier =
          .ok run → run.frontier.queue.isEmpty = true := by
  have hsound := (Request.toQuery_sound (Fixture.build_sound hbuild) hq).1
  have hf := hrouter.blank.2.2
  obtain ⟨edges, hedges⟩ := Run.exists_edges q
  obtain ⟨bound, hbound⟩ := Run.exists_created_le hsound hf settings hedges
  refine ⟨bound, fun r hr turns r' hturns => ?_, fun budget hle => ?_⟩
  · obtain ⟨hsteady, hcreated⟩ := hbound r hr _ _ (Run.passes_of_turns? 0 hturns)
    have hpopped := hsteady.popped
    have htotal := hsteady.balanced.created
    dsimp only at hpopped htotal hcreated
    omega
  · have hends : ∀ r, Run.start q settings Measure.all router.frontier = .ok r →
        (Run.left (Run.loop q settings budget r)).statistics.budgetSpent = false ∧
          ∀ last, Run.loop q settings budget r = .ok last →
            last.frontier.queue.isEmpty = true := by
      intro r hr
      obtain ⟨s, hpasses, hends⟩ := (Run.Reached.start hr).loop_ends hsound hf budget
      obtain ⟨hsteady, hcreated⟩ := hbound r hr budget s hpasses
      exact hends.unspent hsound hf hedges ((Run.Reached.start hr).passes hpasses) hsteady
        (Nat.le_trans hcreated hle)
    refine ⟨?_, fun run hrun => ?_⟩
    · cases hr : Run.start q { settings with maxLabels := budget } Measure.all
        router.frontier with
      | error halt =>
        obtain ⟨n, -, hgains⟩ := Run.gains_start q { settings with maxLabels := budget }
          Measure.all router.frontier
        rw [hr] at hgains
        rw [Run.left_run_of_start_error hr]
        exact hgains.spent
      | ok r =>
        rw [Run.budgetSpent_run hr, Run.loop_maxLabels]
        exact (hends r hr).1
    · obtain ⟨r, last, hr, hloop, hframe⟩ := Query.run_maxLabels hrun
      rw [hframe]
      exact (hends r hr).2 last hloop

/-- Two stations that are no time apart, one of them with a path to itself, and a third. -/
def roundabout : Fixture :=
  { firstDay := Fixture.firstMonday, days := 1, categories := [],
    stations := [.plain "A" 0, .plain "X" 0, .plain "B" 0], routes := [],
    footpaths := [⟨"A", "X", 0⟩, ⟨"X", "A", 0⟩, ⟨"X", "X", 0⟩, ⟨"X", "B", 5⟩], through := [] }

/-- A search round the two stations: where it starts, the state after five turns, and how it
ends with a budget of five. -/
def roundabout.turns? (q : Query) : Option (Run × Run × Run) := do
  let r ← (Run.start q {} Measure.all (Frontier.new {})).toOption
  let r' ← Run.turns? q {} 5 r
  let run ← (q.run { maxLabels := 5 } Measure.all (Frontier.new {})).toOption
  if run.statistics.dominatedAtNode = 2 then return (r, r', run) else none

set_option maxRecDepth 4000 in
/-- Back at either station the search goes no further, and five turns are all there are. -/
theorem search_terminates_roundabout : ∃ tt q r r', roundabout.build = .ok tt ∧
    (Fixture.onTrip "A" "B" 0 .forward).toQuery tt = .ok q ∧
    Run.start q {} Measure.all (Router.new {} Measure.all).frontier = .ok r ∧
    Run.turns? q {} 5 r = some r' ∧
    (∃ run, q.run { maxLabels := 5 } Measure.all (Router.new {} Measure.all).frontier = .ok run ∧
      run.statistics.dominatedAtNode = 2) ∧
    ∃ bound, 5 ≤ bound ∧ ∀ budget, bound ≤ budget →
      (Run.left (q.run { maxLabels := budget } Measure.all
        (Router.new {} Measure.all).frontier)).statistics.budgetSpent = false ∧
      ∀ run, q.run { maxLabels := budget } Measure.all (Router.new {} Measure.all).frontier =
        .ok run → run.frontier.queue.isEmpty = true := by
  obtain ⟨tt, q, -, -, -, hbuild, hq, -, -, -, -, hfound⟩ :=
    Fixture.of_search? roundabout (Fixture.onTrip "A" "B" 0 .forward)
      (fun q _ _ => (roundabout.turns? q).isSome) (by decide +kernel)
  obtain ⟨⟨r, r', run⟩, hfound⟩ := Option.isSome_iff_exists.1 hfound
  unfold roundabout.turns? at hfound
  obtain ⟨_, hstart, hfound⟩ := Option.bind_eq_some_iff.1 hfound
  obtain ⟨_, hturns, hfound⟩ := Option.bind_eq_some_iff.1 hfound
  obtain ⟨_, hrun, hfound⟩ := Option.bind_eq_some_iff.1 hfound
  split at hfound
  · next hdropped =>
    cases hfound
    have hnew : Router.Reached {} Measure.all (Router.new {} Measure.all) := .new
    have hstart := Fixture.toOption_eq_some hstart
    obtain ⟨bound, hturn, hend⟩ := search_terminates hbuild hnew hq
    exact ⟨tt, q, r, r', hbuild, hq, hstart, hturns, ⟨run, Fixture.toOption_eq_some hrun, hdropped⟩,
      bound, hturn r hstart 5 r' hturns, hend⟩
  · cases hfound

end JourneyPlanner
