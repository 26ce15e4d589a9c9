import JourneyPlanner.Proofs.Search.Trim
import JourneyPlanner.Proofs.SortedBuckets

/-!
# Limits are exact

The main result of this file, `limits_exact`:

> a search under tighter limits finds just those results of a search under looser ones,
> in the same order, that keep within the tighter limits, if both come to their end.

The two searches go on in lockstep (`Run.view_eq_trim_of_turns`). What is seen of the one
under tighter limits is always what is seen of the other, trimmed. Whenever the other takes
a label that the tighter limits allow, the one takes the same, and the same becomes of it.
Whenever the other takes any other label the one stands still, for nothing comes of such a
label that the tighter limits allow.
-/

namespace JourneyPlanner

open Relation (ReflTransGen)

/-! ## Two searches in lockstep -/

namespace Run

variable {q : Query} {settings looser : Settings} {f g : Frontier} {r r' s s' : Run}

theorem view_waiting_eq_nil (h : r.frontier.queued = []) : r.frontier.view.waiting = [] := by
  unfold Frontier.view
  rw [h]
  rfl

/-- A turn under looser limits is the same turn under tighter ones, or none. -/
theorem Turn.trim (hq : q.Sound) (htight : settings.Tightens looser) (hf : f.Blank)
    (hqueue : f.queue = .new looser.maxBucket looser.sortedBuckets)
    (h : Reached q looser Measure.all f r) (ht : Turn q looser r r') :
    r'.frontier.view.trim settings = r.frontier.view.trim settings ∨
    ∃ label rest, (r.frontier.view.trim settings).waiting = label :: rest ∧
      r'.frontier.view.trim settings =
        { r.frontier.view.trim settings with waiting := rest }.handle q settings label := by
  obtain ⟨label, rest, hwaiting, hview⟩ := ht.view hq hf hqueue h
  have hv := h.orderly hq hf hqueue
  obtain ⟨hl, hallowed⟩ := hv.waiting label (by rw [hwaiting]; exact List.mem_cons_self)
  have hv' : View.Orderly q looser { r.frontier.view with waiting := rest } := hv.tail hwaiting
  rw [hview]
  cases hin : label.allowed settings with
  | true =>
    refine Or.inr ⟨label, rest.filter (Label.allowed settings), ?_, ?_⟩
    · show r.frontier.view.waiting.filter _ = _
      rw [hwaiting, List.filter_cons_of_pos hin]
    · rw [hv'.trim_handle hq htight hl hin]
      rfl
  | false =>
    refine Or.inl ?_
    rw [hv'.trim_handle_of_not_allowed hq hl hallowed hin]
    refine View.ext ?_ rfl rfl
    show rest.filter _ = r.frontier.view.waiting.filter _
    rw [hwaiting, List.filter_cons_of_neg (Bool.eq_false_iff.1 hin)]

/-- From states of which the same is seen, once trimmed, two searches come to ends of which
the same is seen. -/
theorem view_eq_trim_of_turns (hq : q.Sound) (htight : settings.Tightens looser) (hf : f.Blank)
    (hf_queue : f.queue = .new settings.maxBucket settings.sortedBuckets) (hg : g.Blank)
    (hg_queue : g.queue = .new looser.maxBucket looser.sortedBuckets)
    (h : Reached q settings Measure.all f r) (h' : Reached q looser Measure.all g r')
    (hview : r.frontier.view = r'.frontier.view.trim settings)
    (ht : ReflTransGen (Turn q settings) r s) (ht' : ReflTransGen (Turn q looser) r' s')
    (hend : s.frontier.queued = []) (hend' : s'.frontier.queued = []) :
    s.frontier.view = s'.frontier.view.trim settings := by
  induction ht' using ReflTransGen.head_induction_on generalizing r with
  | refl =>
    -- nothing waits in the one, and so nothing in the other
    rcases ht.cases_head with rfl | ⟨r₁, hturn, -⟩
    · exact hview
    · obtain ⟨label, rest, hwaiting, -⟩ := hturn.view hq hf hf_queue h
      have hnone : r.frontier.view.waiting = [] := by
        rw [hview]
        show s'.frontier.view.waiting.filter _ = []
        rw [view_waiting_eq_nil hend']
        rfl
      rw [hnone] at hwaiting
      cases hwaiting
  | @head r' r₁' hturn' ht' ih =>
    rcases hturn'.trim hq htight hg hg_queue h' with hsame | ⟨label, rest, hwaiting, hhandled⟩
    · exact ih h (h'.turn hturn') (hview.trans hsame.symm) ht
    · rw [← hview] at hwaiting hhandled
      -- something waits, so that the one has not come to its end either
      rcases ht.cases_head with rfl | ⟨r₁, hturn, ht⟩
      · rw [view_waiting_eq_nil hend] at hwaiting
        cases hwaiting
      · obtain ⟨label₁, rest₁, hwaiting₁, hhandled₁⟩ := hturn.view hq hf hf_queue h
        rw [hwaiting] at hwaiting₁
        cases hwaiting₁
        exact ih (h.turn hturn) (h'.turn hturn') (hhandled₁.trans hhandled.symm) ht

/-- Under tighter limits a search starts with what they allow. -/
theorem view_start_eq_trim (hq : q.Sound) (htight : settings.Tightens looser) (hf : f.Blank)
    (hf_queue : f.queue = .new settings.maxBucket settings.sortedBuckets) (hg : g.Blank)
    (hg_queue : g.queue = .new looser.maxBucket looser.sortedBuckets)
    (h : Run.start q settings Measure.all f = .ok r)
    (h' : Run.start q looser Measure.all g = .ok r') :
    r.frontier.view = r'.frontier.view.trim settings := by
  have hempty : View.InLine looser.sortedBuckets ⟨[], fun _ => [], []⟩ :=
    ⟨List.Pairwise.nil, fun label hl => absurd hl List.not_mem_nil⟩
  have hfull : ∀ label ∈ q.starts looser, label.criteria.Full := by
    intro label hlabel
    obtain ⟨time, -, rfl⟩ := List.mem_map.1 (List.mem_filter.1 hlabel).1
    exact (Label.Proper.start hq time).full
  rw [view_start hq hf hf_queue h, view_start hq hg hg_queue h', hempty.trim_foldl hfull,
    q.starts_tighter htight, htight.sorted_eq]
  rfl

end Run

/-! ## The results -/

theorem Frontier.outcomes_eq (f : Frontier) : f.outcomes =
    f.view.results.map fun label => (label.start, label.now, label.criteria.summary) := by
  unfold Frontier.outcomes Frontier.view Frontier.bare?
  rw [List.map_filterMap]
  refine List.filterMap_congr fun id _ => ?_
  rw [Option.map_map]
  rfl

/-- At the goal limits allow what keeps within them. -/
theorem Label.Proper.allowed_iff_of_isGoal {q : Query} {settings looser : Settings} {label : Label}
    (hq : q.Sound) (h : label.Proper q) (hgoal : q.target.isGoal label = true)
    (hin : label.allowed looser = true) : label.allowed settings = true ↔
      label.criteria.summary.time ≤ settings.maxMinutes ∧
        label.criteria.summary.transfers ≤ settings.maxTransfers ∧
        label.criteria.summary.price ≤ settings.priceLimit := by
  -- nothing has come to the ceiling, and nothing is still to come
  have hleast : ∀ m, label.criteria.least m = label.criteria.current m ∧
      label.criteria.least m ≠ Bounded.ceiling := by
    intro m
    have hne := (h.full.isBeyond_eq_false_iff.1 (Label.allowed_iff.1 hin) m).1
    have hmin := h.least_of_isGoal hq hgoal m
    refine ⟨?_, hne⟩
    omega
  rw [Label.allowed_iff, h.full.isBeyond_eq_false_iff, h.full.summary_eq]
  constructor
  · intro hall
    have hle : ∀ m, label.criteria.current m ≤ Criterion.limit settings m := by
      intro m
      rw [← (hleast m).1]
      exact (hall m).2
    exact ⟨hle .time, hle .transfers, hle .price⟩
  · rintro ⟨htime, htransfers, hprice⟩ m
    refine ⟨(hleast m).2, ?_⟩
    rw [(hleast m).1]
    cases m with
    | time => exact htime
    | transfers => exact htransfers
    | price => exact hprice

/-- Of two searches for one query over a timetable that was built, the one under tighter
limits reports those results of the other that keep within them, if both come to their
end. -/
theorem limits_exact {fixture : Fixture} {tt : Timetable} (hbuild : fixture.build = .ok tt)
    {settings looser : Settings} (htight : settings.Tightens looser) {router router' : Router}
    (hrouter : Router.Reached settings Measure.all router)
    (hrouter' : Router.Reached looser Measure.all router') {request : Request} {q : Query}
    (hq : request.toQuery tt = .ok q) {run run' : Run}
    (hrun : q.run settings Measure.all router.frontier = .ok run)
    (hrun' : q.run looser Measure.all router'.frontier = .ok run')
    (hend : run.statistics.budgetSpent = false) (hend' : run'.statistics.budgetSpent = false) :
    run.frontier.outcomes = run'.frontier.outcomes.filter fun (_, _, summary) =>
      summary.time ≤ settings.maxMinutes ∧ summary.transfers ≤ settings.maxTransfers ∧
        summary.price ≤ settings.priceLimit := by
  have hsound := (Request.toQuery_sound (Fixture.build_sound hbuild) hq).1
  have hblank := hrouter.blank.2.2
  have hblank' := hrouter'.blank.2.2
  obtain ⟨r, s, hstart, hturns, hframe, hempty⟩ := Run.turns_of_run hsound hblank hrun
  obtain ⟨r', s', hstart', hturns', hframe', hempty'⟩ := Run.turns_of_run hsound hblank' hrun'
  have hview : s.frontier.view = s'.frontier.view.trim settings :=
    Run.view_eq_trim_of_turns hsound htight hblank hrouter.queue_eq hblank' hrouter'.queue_eq
      (.start hstart) (.start hstart')
      (Run.view_start_eq_trim hsound htight hblank hrouter.queue_eq hblank' hrouter'.queue_eq hstart
        hstart')
      hturns hturns' (hempty hend) (hempty' hend')
  have hv := (Run.Reached.start hstart').turns hturns' |>.orderly hsound hblank' hrouter'.queue_eq
  rw [hframe, hframe', Frontier.outcomes_eq, Frontier.outcomes_eq, hview, List.filter_map]
  show (s'.frontier.view.results.filter _).map _ = _
  refine congrArg _ (List.filter_congr fun label hlabel => ?_)
  obtain ⟨hproper, hgoal⟩ := hv.results label hlabel
  refine Bool.eq_iff_iff.2 ?_
  rw [hproper.allowed_iff_of_isGoal hsound hgoal (hv.allowed label hlabel)]
  exact decide_eq_true_iff.symm

/-- A dear train, a cheap one that takes longer, and one that costs nothing but leaves much
later. -/
def threeTrains : Fixture :=
  { firstDay := Fixture.firstMonday, days := 1, categories := ["RE"],
    stations := [.plain "A" 0, .plain "B" 0],
    routes := [⟨["A", "B"], [.single "00:10" "00:20" 9 none]⟩,
      ⟨["A", "B"], [.single "00:10" "00:40" 1 none]⟩,
      ⟨["A", "B"], [.single "02:00" "02:10" 0 none]⟩],
    footpaths := [], through := [] }

/-- No more than an hour, and no higher a price than five. -/
def threeTrains.limits : Settings := { maxMinutes := 60, maxPrice := some 5 }

theorem threeTrains.limits_tightens : threeTrains.limits.Tightens {} :=
  ⟨fun m => by cases m <;> decide, rfl⟩

/-- The search within these limits, if it comes to its end and finds the second train. -/
def threeTrains.within? (q : Query) : Option Run := do
  let run ← (q.run limits Measure.all (Frontier.new limits)).toOption
  if run.statistics.budgetSpent = false ∧ run.frontier.outcomes = [(0, 40, ⟨40, 0, 1⟩)] then
    return run
  else none

set_option maxRecDepth 4000 in
/-- The first train is too dear, and the last is beyond the horizon. -/
theorem limits_exact_threeTrains : ∃ tt q run run', threeTrains.build = .ok tt ∧
    threeTrains.limits.Tightens {} ∧
    (Fixture.onTrip "A" "B" 0 .forward).toQuery tt = .ok q ∧
    q.run threeTrains.limits Measure.all
      (Router.new threeTrains.limits Measure.all).frontier = .ok run ∧
    q.run {} Measure.all (Router.new {} Measure.all).frontier = .ok run' ∧
    run.statistics.budgetSpent = false ∧ run'.statistics.budgetSpent = false ∧
    run.frontier.outcomes = [(0, 40, ⟨40, 0, 1⟩)] ∧
    run'.frontier.outcomes =
      [(0, 20, ⟨20, 0, 9⟩), (0, 40, ⟨40, 0, 1⟩), (0, 130, ⟨130, 0, 0⟩)] ∧
    run.frontier.outcomes = run'.frontier.outcomes.filter fun (_, _, summary) =>
      summary.time ≤ threeTrains.limits.maxMinutes ∧
        summary.transfers ≤ threeTrains.limits.maxTransfers ∧
        summary.price ≤ threeTrains.limits.priceLimit := by
  obtain ⟨tt, q, run', response, journeys, hbuild, hq, hrun', -, -, -, hfound⟩ :=
    Fixture.of_search? threeTrains (Fixture.onTrip "A" "B" 0 .forward)
      (fun q run' _ => (threeTrains.within? q).isSome &&
        decide (run'.statistics.budgetSpent = false ∧ run'.frontier.outcomes =
          [(0, 20, ⟨20, 0, 9⟩), (0, 40, ⟨40, 0, 1⟩), (0, 130, ⟨130, 0, 0⟩)])) (by decide +kernel)
  rw [Bool.and_eq_true, decide_eq_true_eq] at hfound
  obtain ⟨hwithin, hend', houtcomes'⟩ := hfound
  obtain ⟨run, hwithin⟩ := Option.isSome_iff_exists.1 hwithin
  unfold threeTrains.within? at hwithin
  obtain ⟨_, hrun, hwithin⟩ := Option.bind_eq_some_iff.1 hwithin
  split at hwithin
  · next hends =>
    cases hwithin
    obtain ⟨hend, houtcomes⟩ := hends
    have hrun := Fixture.toOption_eq_some hrun
    have hexact :=
      limits_exact hbuild threeTrains.limits_tightens .new .new hq hrun hrun' hend hend'
    exact ⟨tt, q, run, run', hbuild, threeTrains.limits_tightens, hq, hrun, hrun', hend, hend',
      houtcomes, houtcomes', hexact⟩
  · cases hwithin

end JourneyPlanner
