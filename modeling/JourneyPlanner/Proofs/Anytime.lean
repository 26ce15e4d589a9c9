import JourneyPlanner.Proofs.ParetoFront
import JourneyPlanner.Proofs.Search.Order

/-!
# What has been found stays

With sorted buckets a search is an anytime algorithm. The main result of this file,
`anytime`:

> labels are taken in ascending order; a result that has come up is never driven out;
> and the results of a search with a smaller budget are the first results of the search
> with a larger one, each with the whole way that led to it.

A result could only be driven out by one that comes up later and beats it. But at the
goal nothing is still to come, so that whatever beats a label there is taken before it
(`not_dominates_of_bounds_le`).

Without sorted buckets the labels of one bucket come out the last first, whatever their
changes and prices are, so that a result may still be driven out by one as fast.
-/

namespace JourneyPlanner

open Relation (ReflTransGen TransGen)

/-- The results with the labels that lead back from each, as they came up. -/
def Frontier.reports (f : Frontier) : List (List (LabelId × Label)) := f.results.map f.chain

/-! ## Ways back stay -/

section Chains

variable {q : Query} {settings : Settings} {measures : List Measure} {f f' : Frontier}
  {order order' : List LabelId} {id : LabelId}

/-- The way back from a settled label stays as it is. -/
theorem Frontier.Carries.chain_eq (hc : f.Carries f')
    (hs : Frontier.Sound q settings measures f order [])
    (hs' : Frontier.Sound q settings measures f' order' []) (hid : id ∈ order) :
    f'.chain id = f.chain id := by
  have hkeep : ∀ other ∈ order, other ∈ order' ∧ f'.pool.get? other = f.pool.get? other := by
    intro other ho
    obtain ⟨label, hget⟩ := hs.isSome (List.mem_append_left _ ho)
    obtain ⟨hsettled, hget'⟩ :=
      hc.settled label.node other label ((hs.settled _ _).2 ⟨ho, label, hget, rfl⟩) hget
    exact ⟨((hs'.settled _ _).1 hsettled).1, hget'.trans hget.symm⟩
  obtain ⟨hlinks, hsub⟩ := hs.linked hid
  have hlinks' : Frontier.Links f'.pool (some id) (f.chain id) :=
    hlinks.congr fun other ho => (hkeep other (hsub.subset ho)).2
  exact (hs'.linked (hkeep id hid).1).1.eq hlinks'

end Chains

/-! ## No result is driven out -/

section Kept

variable {q : Query} {settings : Settings} {f : Frontier} {r r' : Run}

/-- At the goal no label beats one that goes first. -/
theorem not_dominates_of_bounds_le (hq : q.Sound) {a b : Label} (ha : a.Proper q)
    (hb : b.Proper q) (hin : a.criteria.isBeyond settings = false)
    (hgoal : q.target.isGoal a = true) (hgoal' : q.target.isGoal b = true)
    (h : a.criteria.bounds ≤ b.criteria.bounds) :
    b.criteria.dominates false a.criteria = false := by
  refine Bool.eq_false_iff.2 fun hdom => ?_
  obtain ⟨hall, m, hlt⟩ := (hb.full.dominates_false_iff ha.full).1 hdom
  have hleastA := ha.least_of_isGoal hq hgoal
  have hleastB := hb.least_of_isGoal hq hgoal'
  have hle : ∀ m, b.criteria.least m ≤ a.criteria.least m := by
    intro m
    have hm := hall m
    rw [hleastA, hleastB]
    omega
  -- so that both have the same bounds, and have spent the same
  have hsame := (le_antisymm h (hb.full.bounds_le ha.full hle) :
    a.criteria.bounds = b.criteria.bounds)
  have heq := ha.full.least_eq_of_bounds_eq hb.full hsame m
  have hne := (ha.full.isBeyond_eq_false_iff.1 hin m).1
  rw [hleastA] at heq hne
  rw [hleastB] at heq
  omega

/-- With sorted buckets a turn adds a result at the end, or none. -/
theorem Run.Turn.results_grow (hq : q.Sound) (hf : f.Blank)
    (hqueue : f.queue = .new settings.maxBucket settings.sortedBuckets)
    (hsorted : settings.sortedBuckets = true) (h : Run.Reached q settings Measure.all f r)
    (ht : Run.Turn q settings r r') : r.frontier.results <+: r'.frontier.results := by
  obtain ⟨id, r₁, hpop, hvisit⟩ := ht
  obtain ⟨order, label, links, hs₁, ht, hv⟩ := h.taken hq hf hpop hvisit
  obtain ⟨-, hfirst⟩ := h.takes_first hq hf hqueue hpop ht.get? hvisit
  have hresults : r₁.frontier.results = r.frontier.results := by
    rw [(Run.frontier_pop hpop).2]
  rw [← hresults]
  generalize r'.frontier = f' at hv
  cases hv with
  | beaten hb => exact List.prefix_refl _
  | expanded r₂ r₃ hgoal hr hexp hkept =>
    obtain ⟨-, hgrow, -⟩ := Run.expanded_sound hq hs₁ ht.get? hgoal hr hexp
    rw [hgrow.results_eq, hr]
    exact List.prefix_refl r₁.frontier.results
  | result hgoal hkept =>
    apply Front.insert_grows
    intro other ho
    -- an earlier result has been taken before
    obtain ⟨-, result, hres, hgoal'⟩ := hs₁.results other ho
    obtain ⟨before, htrail⟩ := hs₁.trail_of_result ho hres
    have hholds : r₁.frontier.Holds result := hs₁.holds_of_reports ⟨other, ho, hres⟩
    have hbehind := h.settled_first hq hf hqueue ((Run.pop_holds_iff hpop).1 hholds)
    unfold Frontier.beats Frontier.criteriaIn
    rw [ht.get?, hres]
    exact not_dominates_of_bounds_le hq (htrail.proper hq).1 (ht.trail.proper hq).1
      htrail.not_isBeyond hgoal' hgoal ((hfirst _ hbehind).1.2 hsorted)

/-- With sorted buckets the results only grow at the end. -/
theorem Run.Reached.reports_grow (hq : q.Sound) (hf : f.Blank)
    (hqueue : f.queue = .new settings.maxBucket settings.sortedBuckets)
    (hsorted : settings.sortedBuckets = true) (h : Run.Reached q settings Measure.all f r)
    (ht : ReflTransGen (Run.Turn q settings) r r') :
    r.frontier.reports <+: r'.frontier.reports := by
  refine h.keeps (P := fun r' => r.frontier.reports <+: r'.frontier.reports)
    (fun r₁ r₂ h₁ hturn hgrow => hgrow.trans ?_) ht (List.prefix_refl _)
  obtain ⟨order, hs⟩ := h₁.sound hq hf
  obtain ⟨order', hs'⟩ := (h₁.turn hturn).sound hq hf
  obtain ⟨added, hadded⟩ := hturn.results_grow hq hf hqueue hsorted h₁
  have hcarries := hturn.carries hq hf h₁
  refine ⟨added.map r₂.frontier.chain, ?_⟩
  unfold Frontier.reports
  rw [← hadded, List.map_append]
  congr 1
  exact List.map_congr_left fun id hid => (hcarries.chain_eq hs hs' (hs.results id hid).1).symm

end Kept

/-! ## The order of all labels -/

section Ascending

variable {q : Query} {settings : Settings} {f : Frontier} {r r' : Run}

theorem Run.pop_of_next? {label : Label} (h : r.next? = some label) :
    ∃ id r₁, r.pop = (some id, r₁) ∧ r₁.frontier.pool.get? id = some label := by
  unfold Run.next? at h
  obtain ⟨id, hid, hget⟩ := Option.bind_eq_some_iff.1 h
  have hpop : r.pop = (some id, r.pop.2) := Prod.ext hid rfl
  refine ⟨id, r.pop.2, hpop, ?_⟩
  rw [(Run.frontier_pop hpop).2]
  exact hget

/-- What is taken later goes no sooner. -/
theorem Run.Reached.order_ne_gt (hq : q.Sound) (hf : f.Blank)
    (hqueue : f.queue = .new settings.maxBucket settings.sortedBuckets)
    (hsorted : settings.sortedBuckets = true) (h : Run.Reached q settings Measure.all f r)
    (ht : TransGen (Run.Turn q settings) r r') {a b : Label} (ha : r.next? = some a)
    (hb : r'.next? = some b) : a.criteria.order b.criteria ≠ .gt := by
  obtain ⟨r₁, ⟨id, r₀, hpop, hvisit⟩, hturns⟩ := TransGen.head'_iff.1 ht
  obtain ⟨id', r₀', hpop', hgetA⟩ := Run.pop_of_next? ha
  rw [hpop] at hpop'
  cases hpop'
  obtain ⟨idB, rB, hpopB, hgetB⟩ := Run.pop_of_next? hb
  have h₁ := h.visit hpop hvisit
  have h' := h₁.turns hturns
  obtain ⟨order, hs⟩ := h.sound hq hf
  obtain ⟨order', hs'⟩ := h'.sound hq hf
  obtain ⟨hbehind, -⟩ := h.takes_first hq hf hqueue hpop hgetA hvisit
  have hbehind' := h₁.keeps (P := fun r => r.frontier.Behind settings a.criteria)
    (fun r₂ r₃ h₂ hturn hb₂ => ?_) hturns hbehind
  · obtain ⟨-, -, -, hall⟩ := Run.pop_inLine hs' (h'.inLine hq hf hqueue) hpopB hgetB
    obtain ⟨linksA, htA⟩ := (Run.pop_sound hs hpop).1.traced_of_held hgetA
    obtain ⟨linksB, htB⟩ := (Run.pop_sound hs' hpopB).1.traced_of_held hgetB
    refine (Criteria.order_ne_gt_iff ?_).2 ((hall _ hbehind').1.2 hsorted)
    rw [(htA.trail.proper hq).1.full.length_eq, (htB.trail.proper hq).1.full.length_eq]
  · obtain ⟨id₂, r₂', hpop₂, hvisit₂⟩ := hturn
    obtain ⟨order₂, label, links, -, htaken, -⟩ := h₂.taken hq hf hpop₂ hvisit₂
    exact ((h₂.takes_first hq hf hqueue hpop₂ htaken.get? hvisit₂).2 _ hb₂).2

end Ascending

/-! ## Budgets -/

section Budgets

variable {q : Query} {settings : Settings} {measures : List Measure} {f : Frontier} {r run : Run}

/-- The budget has no part in handling a label. -/
theorem Run.loop_maxLabels (n budget : Nat) (r : Run) :
    Run.loop q { settings with maxLabels := n } budget r = Run.loop q settings budget r := by
  induction budget generalizing r with
  | zero => rfl
  | succ budget ih =>
    unfold Run.loop
    split
    · rfl
    · dsimp only
      split
      · rfl
      · next id r₁ hpop =>
        have hvisit : r₁.visit q { settings with maxLabels := n } id = r₁.visit q settings id := rfl
        rw [hvisit]
        split
        · rfl
        · exact ih _

/-- A loop with a larger budget goes on where one with a smaller budget has stopped. -/
theorem Run.loop_le (hq : q.Sound) (hf : f.Blank) (h : Run.Reached q settings measures f r)
    {n m : Nat} (hle : n ≤ m) (hloop : Run.loop q settings n r = .ok run) :
    ∃ r₁, ReflTransGen (Run.Turn q settings) r r₁ ∧ run.frontier = r₁.frontier ∧
      ∃ budget, Run.loop q settings m r = Run.loop q settings budget r₁ := by
  obtain ⟨⟨left, r₁⟩, hpasses, hends⟩ := h.loop_ends hq hf n
  rw [hloop] at hends
  have hframe : run.frontier = r₁.frontier := by cases hends <;> rfl
  obtain ⟨extra, rfl⟩ := Nat.exists_eq_add_of_le hle
  -- both make the same passes, and the larger budget has more left after them
  exact ⟨r₁, Run.turns_of_passes hpasses, hframe, left + extra,
    Run.loop_eq_of_passes (Run.passes_add extra hpasses)⟩

/-- What a search with some budget comes to, as a loop. -/
theorem Query.run_maxLabels {n : Nat}
    (h : q.run { settings with maxLabels := n } measures f = .ok run) :
    ∃ r last, Run.start q settings measures f = .ok r ∧ Run.loop q settings n r = .ok last ∧
      run.frontier = last.frontier := by
  obtain ⟨r, last, hstart, hloop, rfl⟩ := Run.run_eq_ok.1 h
  rw [Run.loop_maxLabels] at hloop
  exact ⟨r, last, hstart, hloop, Run.frontier_finish last⟩

end Budgets

/-- In a search over a timetable that was built, with sorted buckets: labels are taken in
ascending order, results only come to the end of those that there are, and a search with
a smaller budget finds the first results of one with a larger budget. -/
theorem anytime {fixture : Fixture} {tt : Timetable} (hbuild : fixture.build = .ok tt)
    {settings : Settings} (hsorted : settings.sortedBuckets = true) {router : Router}
    (hrouter : Router.Reached settings Measure.all router) {request : Request} {q : Query}
    (hq : request.toQuery tt = .ok q) :
    (∀ r, Run.Reached q settings Measure.all router.frontier r →
      ∀ r', TransGen (Run.Turn q settings) r r' → ∀ a ∈ r.next?, ∀ b ∈ r'.next?,
      a.criteria.order b.criteria ≠ .gt) ∧
    (∀ r, Run.Reached q settings Measure.all router.frontier r →
      ∀ r', ReflTransGen (Run.Turn q settings) r r' →
      r.frontier.reports <+: r'.frontier.reports) ∧
    ∀ n m, n ≤ m → ∀ run run',
      q.run { settings with maxLabels := n } Measure.all router.frontier = .ok run →
      q.run { settings with maxLabels := m } Measure.all router.frontier = .ok run' →
      run.frontier.reports <+: run'.frontier.reports := by
  have hsound := (Request.toQuery_sound (Fixture.build_sound hbuild) hq).1
  have hf := hrouter.blank.2.2
  have hqueue := hrouter.queue_eq
  refine ⟨fun r hr r' ht a ha b hb => ?_, fun r hr r' ht => ?_,
    fun n m hle run run' hrun hrun' => ?_⟩
  · exact hr.order_ne_gt hsound hf hqueue hsorted ht ha hb
  · exact hr.reports_grow hsound hf hqueue hsorted ht
  · obtain ⟨r, last, hstart, hloop, hframe⟩ := Query.run_maxLabels hrun
    obtain ⟨r', last', hstart', hloop', hframe'⟩ := Query.run_maxLabels hrun'
    rw [hstart] at hstart'
    cases hstart'
    have hr : Run.Reached q settings Measure.all router.frontier r := .start hstart
    obtain ⟨r₁, hturns, hlast, budget, hlater⟩ := Run.loop_le hsound hf hr hle hloop
    rw [hlater] at hloop'
    obtain ⟨r₂, hturns', hlast', -⟩ :=
      Run.loop_le hsound hf (hr.turns hturns) (Nat.le_refl _) hloop'
    unfold Frontier.reports
    rw [hframe, hlast, hframe', hlast']
    exact (hr.turns hturns).reports_grow hsound hf hqueue hsorted hturns'

/-- The first and the fourth state of a search for a fast train or a cheap one, each with
the label to go next. -/
def fastOrCheap.states? (q : Query) : Option (Run × Run × Label × Label) := do
  let r ← (Run.start q {} Measure.all (Frontier.new {})).toOption
  let r' ← Run.turns? q {} 3 r
  return (r, r', ← r.next?, ← r'.next?)

/-- The results of a search for a fast train or a cheap one that ends sooner, and of one
that ends later. -/
def fastOrCheap.budgets? (q : Query) : Option (Run × Run) := do
  let run ← (q.run { maxLabels := 4 } Measure.all (Frontier.new {})).toOption
  let run' ← (q.run { maxLabels := 7 } Measure.all (Frontier.new {})).toOption
  if run.frontier.results.length = 1 ∧ run'.frontier.results.length = 2 then return (run, run')
  else none

set_option maxRecDepth 4000 in
theorem anytime_fastOrCheap : ∃ tt q, fastOrCheap.build = .ok tt ∧
    (Fixture.onTrip "A" "B" 0 .forward).toQuery tt = .ok q ∧
    (∃ r r' a b, Run.Reached q {} Measure.all (Router.new {} Measure.all).frontier r ∧
      TransGen (Run.Turn q {}) r r' ∧ r.next? = some a ∧ r'.next? = some b ∧
      a.criteria.order b.criteria ≠ .gt ∧ r.frontier.reports <+: r'.frontier.reports) ∧
    ∃ run run',
      q.run { maxLabels := 4 } Measure.all (Router.new {} Measure.all).frontier = .ok run ∧
      q.run { maxLabels := 7 } Measure.all (Router.new {} Measure.all).frontier = .ok run' ∧
      run.frontier.reports.length = 1 ∧ run'.frontier.reports.length = 2 ∧
      run.frontier.reports <+: run'.frontier.reports := by
  obtain ⟨tt, q, run, response, journeys, hbuild, hq, -, -, -, -, hfound⟩ :=
    Fixture.of_search? fastOrCheap (Fixture.onTrip "A" "B" 0 .forward)
      (fun q _ _ => (fastOrCheap.states? q).isSome && (fastOrCheap.budgets? q).isSome)
      (by decide +kernel)
  simp only [Bool.and_eq_true, Option.isSome_iff_exists] at hfound
  obtain ⟨⟨⟨r, r', a, b⟩, hstates⟩, ⟨run, run'⟩, hbudgets⟩ := hfound
  have hnew : Router.Reached {} Measure.all (Router.new {} Measure.all) := .new
  have hsorted : ({} : Settings).sortedBuckets = true := rfl
  obtain ⟨horder, hgrow, hbudget⟩ := anytime hbuild hsorted hnew hq
  refine ⟨tt, q, hbuild, hq, ⟨r, r', a, b, ?_⟩, run, run', ?_⟩
  · unfold fastOrCheap.states? at hstates
    obtain ⟨_, hstart, hstates⟩ := Option.bind_eq_some_iff.1 hstates
    obtain ⟨_, hturns, hstates⟩ := Option.bind_eq_some_iff.1 hstates
    obtain ⟨_, ha, hstates⟩ := Option.bind_eq_some_iff.1 hstates
    obtain ⟨_, hb, hstates⟩ := Option.bind_eq_some_iff.1 hstates
    cases hstates
    have hreached : Run.Reached q {} Measure.all (Router.new {} Measure.all).frontier r :=
      .start (Fixture.toOption_eq_some hstart)
    obtain ⟨r₁, hturn, hturns⟩ := Run.turn_of_turns? hturns
    have hlater : TransGen (Run.Turn q {}) r r' := .head' hturn (Run.turns_of_turns? hturns)
    exact ⟨hreached, hlater, ha, hb, horder r hreached r' hlater a ha b hb,
      hgrow r hreached r' hlater.to_reflTransGen⟩
  · unfold fastOrCheap.budgets? at hbudgets
    obtain ⟨_, hrun, hbudgets⟩ := Option.bind_eq_some_iff.1 hbudgets
    obtain ⟨_, hrun', hbudgets⟩ := Option.bind_eq_some_iff.1 hbudgets
    split at hbudgets
    · next hlengths =>
      cases hbudgets
      have hrun := Fixture.toOption_eq_some hrun
      have hrun' := Fixture.toOption_eq_some hrun'
      refine ⟨hrun, hrun', ?_, ?_, hbudget 4 7 (by decide) run run' hrun hrun'⟩
      · unfold Frontier.reports
        rw [List.length_map]
        exact hlengths.1
      · unfold Frontier.reports
        rw [List.length_map]
        exact hlengths.2
    · cases hbudgets

end JourneyPlanner
