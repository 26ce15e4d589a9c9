import JourneyPlanner.Proofs.Completeness
import JourneyPlanner.Proofs.Search.Order
import JourneyPlanner.Proofs.Search.StandIn

/-!
# Sorted buckets make no difference

The main result of this file, `sortedBuckets_indifferent`:

> two searches for the same query that differ only in whether buckets are sorted find
> the same results, as far as start, end, minutes, transfers and price go, if both come
> to their end.

The two take the labels of one bucket in different orders, and so settle different ones
of them. What one has settled is mirrored in the other (`Frontier.Mirrors`): either the
other has settled a label that stands for it, or the other has a result that beats the
best that it could have come to. This is shown bucket by bucket, for both searches at
once (`Frontier.Ended.mirrors`), and within a bucket along the way to the label.

Whatever replaces a label without standing for it has spent less time, and is in an
earlier bucket. That one is mirrored in turn, by a label or a result of the first search
which was there before the label in question, and should have kept it from being settled
(`Frontier.Apart`).
-/

namespace JourneyPlanner

/-- What is reported of each result. -/
def Frontier.outcomes (f : Frontier) : List (Time × Time × Summary) :=
  f.results.filterMap fun id =>
    (f.label? id).map fun label => (label.start, label.now, label.criteria.summary)

namespace Frontier

/-- What is known of the labels of a search that has come to its end. -/
structure Ended (q : Query) (settings : Settings) (f : Frontier) : Prop where
  trail : ∀ label, f.Holds label → ∃ before,
    Trail q settings Measure.all (label :: before) ∧ ∀ older ∈ before, f.Holds older
  starts : ∀ time ∈ q.startTimes,
    (Run.startLabel q Measure.all time).criteria.isBeyond settings = false →
    f.Met q.direction (Run.startLabel q Measure.all time)
  edges : ∀ label, f.Holds label → q.target.isGoal label = false →
    ∀ ref ∈ q.graph.edgesAt label.node q.direction, ∃ id found,
      Run.expandEdge q settings id label ref = .ok found ∧
      ∀ next ∈ found, next.criteria.isBeyond settings = false → f.Met q.direction next
  goals : ∀ label, f.Holds label → q.target.isGoal label = true → f.Answered label
  results : ∀ label, f.Reports label → f.Holds label ∧ q.target.isGoal label = true
  undominated : ∀ a b, f.Reports a → f.Reports b → a.criteria.dominates false b.criteria = false
  apart : f.Apart q.direction
  met : ∀ label, f.Met q.direction label →
    (∃ other, f.Holds other ∧ other.node = label.node ∧
      replaces q.direction other label = true) ∨
    ∃ result, f.Reports result ∧ result.criteria.dominates true label.criteria = true

/-- What a search has settled that stands for a label, or a result that beats the best
that the label can come to. -/
def Mirrors (direction : Direction) (f : Frontier) (label : Label) : Prop :=
  (∃ other, f.Holds other ∧ StandsFor direction other label) ∨
  ∃ result, f.Reports result ∧ result.criteria.dominates true label.criteria = true

end Frontier

/-! ## The end of a search -/

section End

variable {q : Query} {settings : Settings} {measures : List Measure} {f : Frontier} {run : Run}

/-- The order of buckets does not bear on where edges lead, nor on the limits. -/
theorem Trail.of_sortedBuckets {sorted : Bool} {labels : List Label}
    (h : Trail q { settings with sortedBuckets := sorted } measures labels) :
    Trail q settings measures labels := by
  induction h with
  | start time htime hin => exact .start time htime hin
  | step id ref next label before _ hgoal href hnext hin ih =>
    exact .step id ref next label before ih hgoal href hnext hin

theorem Frontier.Sound.trail_of_holds {order held : List LabelId}
    (hs : Frontier.Sound q settings measures f order held) {label : Label} (h : f.Holds label) :
    ∃ before, Trail q settings measures (label :: before) ∧ ∀ older ∈ before, f.Holds older := by
  obtain ⟨id, hid, hget⟩ := h
  obtain ⟨hin, -⟩ := (hs.settled _ id).1 hid
  obtain ⟨links, ht, hsub⟩ := hs.traced_of_passed hin hget
  refine ⟨links.map (·.2), ht.trail, fun older holder => ?_⟩
  obtain ⟨link, hlink, rfl⟩ := List.mem_map.1 holder
  have hget' : f.pool.get? link.1 = some link.2 :=
    ht.linked.get?_of_mem (List.mem_cons_of_mem _ hlink)
  have hin' : link.1 ∈ order := ht.sublist.subset (List.mem_map_of_mem hlink)
  exact ⟨link.1, (hs.settled _ _).2 ⟨hin', link.2, hget', rfl⟩, hget'⟩

theorem Frontier.Sound.met_cases {order held : List LabelId} {direction : Direction}
    (hs : Frontier.Sound q settings measures f order held) {label : Label}
    (h : f.Met direction label) :
    (∃ other, f.Holds other ∧ other.node = label.node ∧
      Frontier.replaces direction other label = true) ∨
    ∃ result, f.Reports result ∧ result.criteria.dominates true label.criteria = true := by
  rcases h with ⟨id, hid, other, hget, hrep⟩ | ⟨id, hid, result, hget, hdom⟩
  · obtain ⟨-, l, hl, hnode⟩ := (hs.settled _ id).1 hid
    rw [hget] at hl
    cases hl
    refine Or.inl ⟨other, ⟨id, ?_, hget⟩, hnode, hrep⟩
    rw [hnode]
    exact hid
  · exact Or.inr ⟨result, ⟨id, hid, hget⟩, hdom⟩

/-- A search that has come to its end, whatever the order of its buckets. -/
theorem Run.ended_of_run (hq : q.Sound) (hf : f.Blank) {sorted : Bool}
    (hqueue : f.queue = .new settings.maxBucket sorted)
    (hrun : q.run { settings with sortedBuckets := sorted } Measure.all f = .ok run)
    (hend : run.statistics.budgetSpent = false) : run.frontier.Ended q settings := by
  obtain ⟨order, hs, hall, hmet⟩ := Run.exhausted_of_run hq hf hrun hend
  obtain ⟨r, hr, hframe, -⟩ := Run.reached_of_run hq hf hrun
  have hundominated := hr.undominated hq hf
  have hapart := hr.apart hq hf hqueue
  rw [← hframe] at hundominated hapart
  refine ⟨fun label hl => ?_, fun time htime hin => hmet _ (hall.starts time htime hin),
    fun label hl hgoal ref href => ?_, fun label hl hgoal => ?_, fun label hl => ?_,
    fun a b ha hb => ?_, hapart, fun label hl => hs.met_cases hl⟩
  · obtain ⟨before, htrail, holder⟩ := hs.trail_of_holds hl
    exact ⟨before, htrail.of_sortedBuckets, holder⟩
  · obtain ⟨id, hid, hget⟩ := hl
    obtain ⟨found, hfound, hknown⟩ := (hall.served _ id label hid hget).edges hgoal ref href
    exact ⟨id, found, hfound, fun next hnext hin => hmet _ (hknown next hnext hin)⟩
  · obtain ⟨id, hid, hget⟩ := hl
    exact (hall.served _ id label hid hget).goal hgoal
  · refine ⟨hs.holds_of_reports hl, ?_⟩
    obtain ⟨id, hid, hget⟩ := hl
    obtain ⟨-, l, hl, hgoal⟩ := hs.results id hid
    rw [hget] at hl
    cases hl
    exact hgoal
  · obtain ⟨i, hi, hgetA⟩ := ha
    obtain ⟨j, hj, hgetB⟩ := hb
    have hnot := hundominated i hi j hj
    unfold Frontier.beats Frontier.criteriaIn at hnot
    rw [hgetA, hgetB] at hnot
    exact hnot

end End

/-! ## Two searches that have come to their ends -/

section Two

variable {q : Query} {settings : Settings} {f g : Frontier} {label next : Label}

theorem Frontier.Ended.proper (hf : f.Ended q settings) (hq : q.Sound) (h : f.Holds label) :
    label.Proper q ∧ label.criteria.isBeyond settings = false := by
  obtain ⟨before, htrail, -⟩ := hf.trail label h
  exact ⟨(htrail.proper hq).1, htrail.not_isBeyond⟩

/-- A result is in the bucket of its minutes. -/
theorem Frontier.Ended.bucket_le (hf : f.Ended q settings) (hq : q.Sound) {result : Label}
    (h : f.Reports result) : result.criteria.bucket ≤ result.criteria.current .time := by
  obtain ⟨hholds, hgoal⟩ := hf.results result h
  obtain ⟨hproper, -⟩ := hf.proper hq hholds
  rw [hproper.full.bucket_eq]
  exact hproper.least_le_current hq hgoal .time

/-- What replaces a settled label in an earlier bucket is not mirrored in the search
that has settled it. -/
theorem Frontier.Ended.not_mirrors (hq : q.Sound) (hf : f.Ended q settings) {other : Label}
    (hl : f.Holds label) (hother : other.Proper q) (hnode : other.node = label.node)
    (hrep : Replaces q.direction other label)
    (hlt : other.criteria.bucket < label.criteria.bucket) : ¬ f.Mirrors q.direction other := by
  obtain ⟨hproper, -⟩ := hf.proper hq hl
  rintro (⟨third, hthird, hstands⟩ | ⟨result, hresult, hdom⟩)
  · obtain ⟨hproper', -⟩ := hf.proper hq hthird
    have hle : third.criteria.bucket ≤ other.criteria.bucket := by
      rw [hproper'.full.bucket_eq, hother.full.bucket_eq]
      exact hstands.toReplaces.least_le hstands.node_eq hproper' hother .time
    have hnot := hf.apart.places third label hthird hl (hstands.node_eq.trans hnode)
      (Nat.lt_of_le_of_lt hle hlt)
    have hrep' := hstands.toReplaces.trans hrep
    rw [(Frontier.replaces_iff hproper'.full hproper.full).2 hrep'] at hnot
    cases hnot
  · obtain ⟨hproper', -⟩ := hf.proper hq (hf.results result hresult).1
    have hle : result.criteria.bucket ≤ other.criteria.bucket := by
      have hall := ((hproper'.full.dominates_true_iff hother.full).1 hdom).1 .time
      rw [hother.full.bucket_eq]
      exact Nat.le_trans (hf.bucket_le hq hresult) hall
    have hnot := hf.apart.results result label hresult hl (Nat.lt_of_le_of_lt hle hlt)
    rw [hproper'.full.dominates_of_least_le hother.full hproper.full hdom
      fun m => hrep.least_le hnode hother hproper m] at hnot
    cases hnot

/-- What one search has settled is mirrored in the other, if a label that stands for it
is met there, and all that the other has settled in earlier buckets is mirrored in turn. -/
theorem Frontier.Ended.mirrors_of_met (hq : q.Sound) (hf : f.Ended q settings)
    (hg : g.Ended q settings) (hlow : ∀ other, g.Holds other →
      other.criteria.bucket < label.criteria.bucket → f.Mirrors q.direction other)
    (hl : f.Holds label) (hnext : next.Proper q) (hstands : StandsFor q.direction next label)
    (hmet : g.Met q.direction next) : g.Mirrors q.direction label := by
  obtain ⟨hproper, hin⟩ := hf.proper hq hl
  rcases hg.met next hmet with ⟨other, ho, hnode, hrep⟩ | ⟨result, hresult, hdom⟩
  · obtain ⟨hproper', -⟩ := hg.proper hq ho
    have hrep' : Replaces q.direction other label :=
      ((Frontier.replaces_iff hproper'.full hnext.full).1 hrep).trans hstands.toReplaces
    have hnode' : other.node = label.node := hnode.trans hstands.node_eq
    by_cases htime : label.criteria.current .time ≤ other.criteria.current .time
    · -- as much time, and so between the same times
      obtain ⟨before, htrail, -⟩ := hf.trail label hl
      obtain ⟨before', htrail', -⟩ := hg.trail other ho
      obtain ⟨hstart, hnow⟩ := hrep'.times_eq hq htrail' htrail htime
      exact Or.inl ⟨other, ho, hrep', hnode', hstart, hnow⟩
    · -- less time, and so in an earlier bucket, where all is mirrored
      have hlt := hproper'.bucket_lt hproper hnode' hin (Nat.lt_of_not_le htime)
      exact absurd (hlow other ho hlt) (hf.not_mirrors hq hl hproper' hnode' hrep' hlt)
  · obtain ⟨hproper', -⟩ := hg.proper hq (hg.results result hresult).1
    exact Or.inr ⟨result, hresult, hproper'.full.dominates_of_least_le hnext.full hproper.full hdom
      fun m => hstands.toReplaces.least_le hstands.node_eq hnext hproper m⟩

/-- Where a label is mirrored, so is any to which an edge leads from it. -/
theorem Frontier.Ended.mirrors_next (hq : q.Sound) (hf : f.Ended q settings)
    (hg : g.Ended q settings) (hlow : ∀ other, g.Holds other →
      other.criteria.bucket < next.criteria.bucket → f.Mirrors q.direction other)
    (hl : f.Holds label) (hl' : f.Holds next) (hgoal : q.target.isGoal label = false) {id : LabelId}
    {ref : EdgeRef} (href : ref ∈ q.graph.edgesAt label.node q.direction)
    (hnext : Run.expandEdge q settings id label ref = .ok (some next))
    (h : g.Mirrors q.direction label) : g.Mirrors q.direction next := by
  obtain ⟨hproper, hin⟩ := hf.proper hq hl
  obtain ⟨hproper', hin'⟩ := hf.proper hq hl'
  rcases h with ⟨other, ho, hstands⟩ | ⟨result, hresult, hdom⟩
  · obtain ⟨cost, now, ht, hnow, rfl⟩ := expandEdge_eq_some_iff.1 hnext
    obtain ⟨hother, -⟩ := hg.proper hq ho
    have hgoal' : q.target.isGoal other = false := by
      rw [hstands.isGoal_eq]
      exact hgoal
    have href' : ref ∈ q.graph.edgesAt other.node q.direction := by
      rw [hstands.node_eq]
      exact href
    have hnow' : Run.timeAfter? other.now cost.time q.direction = some now := by
      rw [hstands.now_eq]
      exact hnow
    -- the other takes the edge as well, and where it gets has been met
    obtain ⟨id', found, hfound, hmet⟩ := hg.edges other ho hgoal' ref href'
    rw [expandEdge_eq_some_iff.2 ⟨cost, now, hstands.takes ht, hnow', rfl⟩] at hfound
    cases hfound
    have hafter := hstands.after hq hother hproper id' id href ht now
    have hproper'' : (q.after id' other ref cost now).Proper q :=
      (hother.after hq href' (hstands.takes ht)).1
    have hle := fun m => hafter.toReplaces.least_le hafter.node_eq hproper'' hproper' m
    exact hf.mirrors_of_met hq hg hlow hl' hproper'' hafter
      (hmet _ rfl (hproper''.not_isBeyond_of_least_le hproper' hin' hle))
  · obtain ⟨hresult', -⟩ := hg.proper hq (hg.results result hresult).1
    refine Or.inr ⟨result, hresult, hresult'.full.dominates_of_least_le hproper.full hproper'.full
      hdom fun m => ?_⟩
    exact hproper.least_le hq hin (.single ⟨id, ref, href, hnext⟩) m

/-- What one search has settled below some bucket is mirrored in the other. -/
theorem Frontier.Ended.mirrors_below (hq : q.Sound) (bucket : Nat) (hf : f.Ended q settings)
    (hg : g.Ended q settings) :
    ∀ label, f.Holds label → label.criteria.bucket < bucket → g.Mirrors q.direction label := by
  induction bucket generalizing f g with
  | zero =>
    intro label hl hlt
    exact absurd hlt (Nat.not_lt_zero _)
  | succ bucket ih =>
    intro label hl hlt
    obtain ⟨before, htrail, hbefore⟩ := hf.trail label hl
    -- along the way to the label, on which buckets ascend
    induction before generalizing label with
    | nil =>
      cases htrail with
      | start time htime hin =>
        refine hf.mirrors_of_met hq hg (fun other ho hlt' => ?_) hl (Label.Proper.start hq time)
          (.refl _ _) (hg.starts time htime hin)
        exact ih hg hf other ho (by omega)
    | cons older before ihway =>
      have hlow : ∀ other, g.Holds other → other.criteria.bucket < label.criteria.bucket →
          f.Mirrors q.direction other := fun other ho hlt' => ih hg hf other ho (by omega)
      have holder := hbefore older List.mem_cons_self
      obtain ⟨hproper, hin⟩ := hf.proper hq holder
      obtain ⟨hproper', -⟩ := hf.proper hq hl
      cases htrail with
      | step id ref _ _ _ trail hgoal href hnext hin' =>
        have hle : older.criteria.bucket ≤ label.criteria.bucket := by
          rw [hproper.full.bucket_eq, hproper'.full.bucket_eq]
          exact hproper.least_le hq hin (.single ⟨id, ref, href, hnext⟩) .time
        have hmirrors := ihway older holder (by omega) trail
          fun l hmem => hbefore l (List.mem_cons_of_mem _ hmem)
        exact hf.mirrors_next hq hg hlow holder hl hgoal href hnext hmirrors

/-- What one search has settled is mirrored in the other. -/
theorem Frontier.Ended.mirrors (hq : q.Sound) (hf : f.Ended q settings) (hg : g.Ended q settings)
    (hl : f.Holds label) : g.Mirrors q.direction label :=
  hf.mirrors_below hq _ hg label hl (Nat.lt_succ_self _)

/-! ## The results -/

/-- What stands for a label at the goal is answered by a result that has spent no more. -/
theorem Frontier.Ended.answers_of_standsFor (hg : g.Ended q settings) {other : Label}
    (ho : g.Holds other) (hstands : StandsFor q.direction other label)
    (hgoal : q.target.isGoal label = true) :
    ∃ result, g.Reports result ∧ result.Answers other := by
  have hgoal' : q.target.isGoal other = true := by
    rw [hstands.isGoal_eq]
    exact hgoal
  obtain ⟨id, hid, result, hget, hans⟩ := hg.goals other ho hgoal'
  exact ⟨result, ⟨id, hid, hget⟩, hans⟩

/-- No result of one search beats one of the other. -/
theorem Frontier.Ended.not_dominates (hq : q.Sound) (hf : f.Ended q settings)
    (hg : g.Ended q settings) {a b : Label} (ha : g.Reports a) (hb : f.Reports b) :
    a.criteria.dominates false b.criteria = false := by
  apply Bool.eq_false_iff.2
  intro hdom
  obtain ⟨hholds, hgoal⟩ := hg.results a ha
  obtain ⟨hproper, -⟩ := hg.proper hq hholds
  -- some result of the other search is no worse than the one that beats
  suffices hsuff : ∃ result, f.Reports result ∧ Criteria.NoWorse false result.criteria a.criteria by
    obtain ⟨result, hresult, hno⟩ := hsuff
    have hnot := hf.undominated result b hresult hb
    rw [hno.dominates hdom] at hnot
    cases hnot
  rcases hg.mirrors hq hf hholds with ⟨other, ho, hstands⟩ | ⟨result, hresult, hbeats⟩
  · obtain ⟨result, hresult, hans⟩ := hf.answers_of_standsFor ho hstands hgoal
    obtain ⟨hother, -⟩ := hf.proper hq ho
    exact ⟨result, hresult,
      hans.noWorse.trans ((hother.full.noWorse_iff hproper.full).2 hstands.current)⟩
  · obtain ⟨hresult', -⟩ := hf.proper hq (hf.results result hresult).1
    refine ⟨result, hresult, (hresult'.full.noWorse_iff hproper.full).2 fun m => ?_⟩
    have hle := ((hresult'.full.dominates_true_iff hproper.full).1 hbeats).1 m
    exact Nat.le_trans hle (hproper.least_le_current hq hgoal m)

/-- Each result of one search is one of the other, as far as it is reported. -/
theorem Frontier.Ended.exists_result (hq : q.Sound) (hf : f.Ended q settings)
    (hg : g.Ended q settings) (hl : f.Reports label) :
    ∃ result, g.Reports result ∧ result.start = label.start ∧ result.now = label.now ∧
      result.criteria.summary = label.criteria.summary := by
  obtain ⟨hholds, hgoal⟩ := hf.results label hl
  obtain ⟨hproper, -⟩ := hf.proper hq hholds
  rcases hf.mirrors hq hg hholds with ⟨other, ho, hstands⟩ | ⟨result, hresult, hbeats⟩
  · obtain ⟨result, hresult, hans⟩ := hg.answers_of_standsFor ho hstands hgoal
    obtain ⟨hother, -⟩ := hg.proper hq ho
    obtain ⟨hresult', -⟩ := hg.proper hq (hg.results result hresult).1
    have hnot := hf.not_dominates hq hg hresult hl
    have hle : ∀ m, result.criteria.current m ≤ label.criteria.current m := by
      intro m
      have hno := (hresult'.full.noWorse_iff hother.full).1 hans.noWorse m
      exact Nat.le_trans hno (hstands.current m)
    -- nowhere better either, or the result would beat the label
    have hsame : ∀ m, result.criteria.current m = label.criteria.current m := by
      intro m
      by_contra hne
      rw [(hresult'.full.dominates_false_iff hproper.full).2
        ⟨hle, m, Nat.lt_of_le_of_ne (hle m) hne⟩] at hnot
      cases hnot
    have hsummary : result.criteria.summary = label.criteria.summary := by
      rw [hresult'.full.summary_eq, hproper.full.summary_eq, hsame, hsame, hsame]
    rcases hans with ⟨-, hstart, hnow⟩ | ⟨-, hdom⟩
    · exact ⟨result, hresult, hstart.trans hstands.start_eq, hnow.trans hstands.now_eq, hsummary⟩
    · exfalso
      obtain ⟨-, m, hlt⟩ := (hresult'.full.dominates_false_iff hother.full).1 hdom
      have hle' := hstands.current m
      rw [hsame] at hlt
      omega
  · -- a result that beats the best that a label at the goal can come to beats the label
    exfalso
    obtain ⟨hresult', -⟩ := hg.proper hq (hg.results result hresult).1
    have hnot := hf.not_dominates hq hg hresult hl
    rw [hresult'.full.dominates_of_least_le_current hproper.full hproper.full hbeats
      (hproper.least_le_current hq hgoal)] at hnot
    cases hnot

theorem Frontier.mem_outcomes {outcome : Time × Time × Summary} : outcome ∈ f.outcomes ↔
    ∃ label, f.Reports label ∧ outcome = (label.start, label.now, label.criteria.summary) := by
  unfold Frontier.outcomes Frontier.Reports
  rw [List.mem_filterMap]
  constructor
  · rintro ⟨id, hid, heq⟩
    obtain ⟨label, hget, rfl⟩ := Option.map_eq_some_iff.1 heq
    exact ⟨label, ⟨id, hid, hget⟩, rfl⟩
  · rintro ⟨label, ⟨id, hid, hget⟩, rfl⟩
    exact ⟨id, hid, Option.map_eq_some_iff.2 ⟨label, hget, rfl⟩⟩

theorem Frontier.Ended.outcomes_subset (hq : q.Sound) (hf : f.Ended q settings)
    (hg : g.Ended q settings) : f.outcomes ⊆ g.outcomes := by
  intro outcome hmem
  obtain ⟨label, hl, rfl⟩ := Frontier.mem_outcomes.1 hmem
  obtain ⟨result, hresult, hstart, hnow, hsummary⟩ := hf.exists_result hq hg hl
  refine Frontier.mem_outcomes.2 ⟨result, hresult, ?_⟩
  rw [hstart, hnow, hsummary]

end Two

/-- Two searches for one query over a timetable that was built, one with sorted buckets
and one without, report the same results if both come to their end. -/
theorem sortedBuckets_indifferent {fixture : Fixture} {tt : Timetable}
    (hbuild : fixture.build = .ok tt) {settings : Settings} {router router' : Router}
    (hrouter : Router.Reached { settings with sortedBuckets := true } Measure.all router)
    (hrouter' : Router.Reached { settings with sortedBuckets := false } Measure.all router')
    {request : Request} {q : Query} (hq : request.toQuery tt = .ok q) {run run' : Run}
    (hrun : q.run { settings with sortedBuckets := true } Measure.all router.frontier = .ok run)
    (hrun' : q.run { settings with sortedBuckets := false } Measure.all router'.frontier = .ok run')
    (hend : run.statistics.budgetSpent = false) (hend' : run'.statistics.budgetSpent = false)
    (outcome : Time × Time × Summary) :
    outcome ∈ run.frontier.outcomes ↔ outcome ∈ run'.frontier.outcomes := by
  have hsound := (Request.toQuery_sound (Fixture.build_sound hbuild) hq).1
  have hended : run.frontier.Ended q settings :=
    Run.ended_of_run hsound hrouter.blank.2.2 hrouter.queue_eq hrun hend
  have hended' : run'.frontier.Ended q settings :=
    Run.ended_of_run hsound hrouter'.blank.2.2 hrouter'.queue_eq hrun' hend'
  constructor
  · intro h
    exact hended.outcomes_subset hsound hended' h
  · intro h
    exact hended'.outcomes_subset hsound hended h

/-- A dear train and a cheap one at the same times. -/
def dearOrCheap : Fixture :=
  { firstDay := Fixture.firstMonday, days := 1, categories := ["RE"],
    stations := [.plain "A" 0, .plain "B" 0],
    routes := [⟨["A", "B"], [.single "00:10" "00:20" 7 none]⟩,
      ⟨["A", "B"], [.single "00:10" "00:20" 1 none]⟩],
    footpaths := [], through := [] }

/-- The searches for one of both trains, with sorted buckets and without, if both come to
their ends and take different numbers of labels. -/
def dearOrCheap.both? (q : Query) : Option (Run × Run) := do
  let run ← (q.run { sortedBuckets := true } Measure.all
    (Frontier.new { sortedBuckets := true })).toOption
  let run' ← (q.run { sortedBuckets := false } Measure.all
    (Frontier.new { sortedBuckets := false })).toOption
  if run.statistics.budgetSpent = false ∧ run'.statistics.budgetSpent = false ∧
      run.statistics.labelsPopped ≠ run'.statistics.labelsPopped ∧
      run.frontier.outcomes = [(0, 20, ⟨20, 0, 1⟩)] then return (run, run')
  else none

set_option maxRecDepth 4000 in
/-- Without sorted buckets the dear train is among the results for a while. -/
theorem sortedBuckets_indifferent_dearOrCheap : ∃ tt q run run', dearOrCheap.build = .ok tt ∧
    (Fixture.onTrip "A" "B" 0 .forward).toQuery tt = .ok q ∧
    q.run { sortedBuckets := true } Measure.all
      (Router.new { sortedBuckets := true } Measure.all).frontier = .ok run ∧
    q.run { sortedBuckets := false } Measure.all
      (Router.new { sortedBuckets := false } Measure.all).frontier = .ok run' ∧
    run.statistics.budgetSpent = false ∧ run'.statistics.budgetSpent = false ∧
    run.statistics.labelsPopped ≠ run'.statistics.labelsPopped ∧
    (0, 20, ⟨20, 0, 1⟩) ∈ run.frontier.outcomes ∧
    ∀ outcome, outcome ∈ run.frontier.outcomes ↔ outcome ∈ run'.frontier.outcomes := by
  obtain ⟨tt, q, run, response, journeys, hbuild, hq, -, -, -, -, hfound⟩ :=
    Fixture.of_search? dearOrCheap (Fixture.onTrip "A" "B" 0 .forward)
      (fun q _ _ => (dearOrCheap.both? q).isSome) (by decide +kernel)
  obtain ⟨⟨run, run'⟩, hboth⟩ := Option.isSome_iff_exists.1 hfound
  unfold dearOrCheap.both? at hboth
  obtain ⟨_, hrun, hboth⟩ := Option.bind_eq_some_iff.1 hboth
  obtain ⟨_, hrun', hboth⟩ := Option.bind_eq_some_iff.1 hboth
  split at hboth
  · next hends =>
    cases hboth
    obtain ⟨hend, hend', hpopped, houtcomes⟩ := hends
    have hrun := Fixture.toOption_eq_some hrun
    have hrun' := Fixture.toOption_eq_some hrun'
    have hmem : (0, 20, ⟨20, 0, 1⟩) ∈ run.frontier.outcomes := by
      rw [houtcomes]
      exact List.mem_singleton.2 rfl
    have hsorted : Router.Reached { ({} : Settings) with sortedBuckets := true } Measure.all
        (Router.new { sortedBuckets := true } Measure.all) := .new
    have hunsorted : Router.Reached { ({} : Settings) with sortedBuckets := false } Measure.all
        (Router.new { sortedBuckets := false } Measure.all) := .new
    have hsame : ∀ outcome, outcome ∈ run.frontier.outcomes ↔ outcome ∈ run'.frontier.outcomes :=
      sortedBuckets_indifferent hbuild hsorted hunsorted hq hrun hrun' hend hend'
    exact ⟨tt, q, run, run', hbuild, hq, hrun, hrun', hend, hend', hpopped, hmem, hsame⟩
  · cases hboth

end JourneyPlanner
