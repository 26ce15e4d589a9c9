import JourneyPlanner.Proofs.Handles
import JourneyPlanner.Proofs.Search.Counts

/-!
# The labels of a search are accounted for

After every pass of the loop the labels that were created are those that were popped and
those that wait, the labels that were popped are those that were dropped and those that are
settled, and a slot is in use for each that waits or is settled. Each pass takes one from
the budget, so that no more are popped than it allows; and a search that comes to its end
says that the budget was spent if and only if labels still wait.

All this is `Run.Steady`, which `Run.Steady.passes` carries along the loop. What is left to
say here is how the loop ends. A fault ends it halfway through a pass, and the labels that
this has queued until then are counted as well.
-/

namespace JourneyPlanner

open Relation (ReflTransGen)

namespace Run

variable {q : Query} {settings : Settings} {f : Frontier} {starts edges allowed : Nat}
  {s : Nat × Run}

/-- Where a loop has ended without a fault, the labels are accounted for, and it says that its
budget was spent if and only if labels still wait. -/
theorem Ends.finish {last : Run} (hends : Ends q settings s (.ok last))
    (hs : Steady starts edges allowed s) :
    last.finish.Balanced 0 ∧ last.finish.statistics.labelsPopped ≤ allowed ∧
      (last.finish.statistics.budgetSpent = true ↔
        last.finish.frontier.queue.isEmpty = false) := by
  have hfinish := gains_finish last
  have hpopped := hs.popped
  rw [hfinish.popped, hfinish.spent, frontier_finish]
  cases hends with
  | empty budget hempty =>
    refine ⟨hfinish.balanced hs.balanced, Nat.le.intro hpopped, ?_⟩
    rw [hs.unspent, hempty]
    exact iff_of_false Bool.false_ne_true Bool.false_ne_true.symm
  | spent hwaiting =>
    have hbalanced := hs.balanced
    exact ⟨hfinish.balanced ⟨hbalanced.created, hbalanced.popped, hbalanced.slots⟩,
      Nat.le.intro hpopped, iff_of_true rfl hwaiting⟩

/-- Where a fault has ended a loop halfway through a pass, the labels are accounted for as
well. -/
theorem Ends.halt {measures : List Measure} (hq : q.Sound) (hf : f.Blank)
    (hedges : ∀ node < q.graph.timetable.nodes.size,
      (q.graph.edgesAt node q.direction).length ≤ edges) {halt : Halt}
    (hends : Ends q settings s (.error halt)) (hreached : Reached q settings measures f s.2)
    (hs : Steady starts edges allowed s) :
    halt.run.Balanced 0 ∧ halt.run.statistics.labelsPopped ≤ allowed := by
  cases hends with
  | fault budget hwaiting hpop hvisit =>
    have htallies := hreached.tallies hq hf hs.balanced hpop hedges
    rw [hvisit] at htallies
    have hpopped := hs.popped
    have hlast : halt.run.statistics.labelsPopped = _ := htallies.popped
    refine ⟨htallies.balanced, ?_⟩
    dsimp only at hpopped hlast
    omega

end Run

/-- In a search over a timetable that was built: what the labels come to after any number of
passes of the loop, at the end, and where a fault has ended the search. -/
theorem labels_accounted {fixture : Fixture} {tt : Timetable} (hbuild : fixture.build = .ok tt)
    {settings : Settings} {measures : List Measure} {router : Router}
    (hrouter : Router.Reached settings measures router) {request : Request} {q : Query}
    (hq : request.toQuery tt = .ok q) :
    (∀ r, Run.start q settings measures router.frontier = .ok r →
      ∀ budget r', ReflTransGen (Run.Pass q settings) (settings.maxLabels, r) (budget, r') →
      Run.loop q settings settings.maxLabels r = Run.loop q settings budget r' ∧
        r'.Balanced 0 ∧ r'.statistics.labelsPopped + budget = settings.maxLabels) ∧
    (∀ run, q.run settings measures router.frontier = .ok run →
      run.Balanced 0 ∧ run.statistics.labelsPopped ≤ settings.maxLabels ∧
        (run.statistics.budgetSpent = true ↔ run.frontier.queue.isEmpty = false)) ∧
    ∀ halt, q.run settings measures router.frontier = .error halt →
      halt.run.Balanced 0 ∧ halt.run.statistics.labelsPopped ≤ settings.maxLabels := by
  have hsound := (Request.toQuery_sound (Fixture.build_sound hbuild) hq).1
  have hf := hrouter.blank.2.2
  obtain ⟨edges, hedges⟩ := Run.exists_edges q
  have hsteady : ∀ r, Run.start q settings measures router.frontier = .ok r →
      ∀ s, ReflTransGen (Run.Pass q settings) (settings.maxLabels, r) s →
      Run.Steady q.startTimes.length edges settings.maxLabels s := by
    intro r hr s hs
    exact (Run.steady_start hf hr edges settings.maxLabels).passes hsound hf hedges
      (Run.Reached.start hr) hs
  refine ⟨fun r hr budget r' hpasses => ?_, fun run hrun => ?_, fun halt hhalt => ?_⟩
  · have hs := hsteady r hr _ hpasses
    exact ⟨Run.loop_eq_of_passes hpasses, hs.balanced, hs.popped⟩
  · unfold Query.run at hrun
    obtain ⟨r, hr, hrun⟩ := Fallible.bind_eq_ok.1 hrun
    obtain ⟨last, hloop, hrun⟩ := Fallible.bind_eq_ok.1 hrun
    cases hrun
    obtain ⟨s, hpasses, hends⟩ := (Run.Reached.start hr).loop_ends hsound hf settings.maxLabels
    rw [hloop] at hends
    exact hends.finish (hsteady r hr s hpasses)
  · unfold Query.run at hhalt
    rcases Fallible.bind_eq_error.1 hhalt with hr | ⟨r, hr, hhalt⟩
    · -- no pass has been made
      obtain ⟨n, -, hgains⟩ := Run.gains_start q settings measures router.frontier
      rw [hr] at hgains
      refine ⟨hgains.balanced (Run.opening_balanced hf), ?_⟩
      have hpopped : halt.run.statistics.labelsPopped = 0 := hgains.popped
      omega
    · rcases Fallible.bind_eq_error.1 hhalt with hloop | ⟨last, -, hhalt⟩
      · obtain ⟨s, hpasses, hends⟩ :=
          (Run.Reached.start hr).loop_ends hsound hf settings.maxLabels
        rw [hloop] at hends
        exact hends.halt hsound hf hedges ((Run.Reached.start hr).passes hpasses)
          (hsteady r hr s hpasses)
      · cases hhalt

/-- No more than four labels. -/
def secondWalk.fourLabels : Settings := { maxLabels := 4 }

/-- A search for two walks that handles four labels: where it starts, the state after three
passes, and how it ends. -/
def secondWalk.counted? (q : Query) : Option (Run × Run × Run) := do
  let r ← (Run.start q fourLabels Measure.all (Frontier.new fourLabels)).toOption
  let r' ← Run.turns? q fourLabels 3 r
  let run ← (q.run fourLabels Measure.all (Frontier.new fourLabels)).toOption
  if run.statistics.dominatedAtNode = 1 ∧ run.frontier.queue.size = 1 then return (r, r', run)
  else none

set_option maxRecDepth 4000 in
/-- One of the walks to the same station is dropped, and one label still waits. -/
theorem labels_accounted_secondWalk : ∃ tt q r r' run, secondWalk.build = .ok tt ∧
    (Fixture.onTrip "A" "B" 0 .forward).toQuery tt = .ok q ∧
    Run.start q secondWalk.fourLabels Measure.all
      (Router.new secondWalk.fourLabels Measure.all).frontier = .ok r ∧
    ReflTransGen (Run.Pass q secondWalk.fourLabels) (4, r) (1, r') ∧
    q.run secondWalk.fourLabels Measure.all
      (Router.new secondWalk.fourLabels Measure.all).frontier = .ok run ∧
    r'.Balanced 0 ∧ r'.statistics.labelsPopped + 1 = 4 ∧ run.Balanced 0 ∧
    run.statistics.labelsPopped ≤ 4 ∧ run.statistics.dominatedAtNode = 1 ∧
    run.frontier.queue.size = 1 ∧
    (run.statistics.budgetSpent = true ↔ run.frontier.queue.isEmpty = false) := by
  obtain ⟨tt, q, -, -, -, hbuild, hq, -, -, -, -, hfound⟩ :=
    Fixture.of_search? secondWalk (Fixture.onTrip "A" "B" 0 .forward)
      (fun q _ _ => (secondWalk.counted? q).isSome) (by decide +kernel)
  obtain ⟨⟨r, r', run⟩, hcounted⟩ := Option.isSome_iff_exists.1 hfound
  unfold secondWalk.counted? at hcounted
  obtain ⟨_, hstart, hcounted⟩ := Option.bind_eq_some_iff.1 hcounted
  obtain ⟨_, hturns, hcounted⟩ := Option.bind_eq_some_iff.1 hcounted
  obtain ⟨_, hrun, hcounted⟩ := Option.bind_eq_some_iff.1 hcounted
  split at hcounted
  · next hcounts =>
    cases hcounted
    have hnew : Router.Reached secondWalk.fourLabels Measure.all
        (Router.new secondWalk.fourLabels Measure.all) := .new
    have hstart := Fixture.toOption_eq_some hstart
    have hrun := Fixture.toOption_eq_some hrun
    have hpasses := Run.passes_of_turns? 1 hturns
    obtain ⟨hpass, hend, -⟩ := labels_accounted hbuild hnew hq
    obtain ⟨-, hbalanced, hpopped⟩ := hpass r hstart 1 r' hpasses
    obtain ⟨hbalanced', hpopped', hspent⟩ := hend run hrun
    exact ⟨tt, q, r, r', run, hbuild, hq, hstart, hpasses, hrun, hbalanced, hpopped, hbalanced',
      hpopped', hcounts.1, hcounts.2, hspent⟩
  · cases hcounted

end JourneyPlanner
