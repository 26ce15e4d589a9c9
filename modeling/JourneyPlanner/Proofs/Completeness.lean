import JourneyPlanner.Proofs.Router
import JourneyPlanner.Proofs.Search.Covers
import JourneyPlanner.Proofs.Search.Exhausted
import Mathlib.Data.List.Infix

/-!
# Nothing is lost

The main result of this file, `search_complete`:

> a search that has come to its end has a result that is no worse than any trail
> to the goal, in minutes, transfers and price, if at the stops where the trail
> boards a run, the labels settled there which may take the trail's place board the
> same one or one that keeps up with it.

Label by label the trail is followed by labels that the search has settled, each
of which covers the one of the trail (`exists_covers`). Where the search has
dropped such a label, either a result is no worse than the best that it could have
come to, which the trail does not outdo, or another label has taken its place.

Without the condition results can be lost: whoever is at a stop first boards the
first run, and if that is a dear one, nobody waits for a cheap one
(`lost_connection`). A stop where nobody else can be in time for another run asks
for nothing, whatever has left there before (`search_complete_onward`).
-/

namespace JourneyPlanner

section Limits

variable {q : Query} {settings : Settings} {measures : List Measure} {label last : Label}
  {before tail : List Label}

/-- The bounds of a label of a trail keep within the limits. -/
theorem Trail.boundOf_within (hq : q.Sound) (h : Trail q settings measures (label :: before))
    {m : Measure} (hm : m ∈ measures) :
    let bound := Criterion.boundOf q.bounds label.context m (spent q.graph label before m)
    spent q.graph label before m ≤ bound ∧ bound ≠ Bounded.ceiling ∧
      bound ≤ Criterion.limit settings m := by
  intro bound
  have hmem : Criterion.make q.bounds label.context m (spent q.graph label before m) ∈
      label.criteria := by
    rw [h.criteria_eq hq]
    exact List.mem_map_of_mem hm
  have hne : bound ≠ Bounded.ceiling := lowerBound_ne_ceiling h.not_isBeyond hmem
  refine ⟨le_boundOf m (Nat.le_of_lt (lt_ceiling_of_boundOf hne)), hne, ?_⟩
  have hnot := List.any_eq_false.1 h.not_isBeyond _ hmem
  unfold Criterion.isBeyond at hnot
  rw [Bool.or_eq_true, not_or, decide_eq_true_eq] at hnot
  exact Nat.le_of_not_lt hnot.2

/-- Criteria are within the limits as soon as they are within what a trail has
spent. -/
theorem not_isBeyond_of_le (hq : q.Sound) (h : Trail q settings measures (last :: tail))
    {criterion : Measure → Criterion} (hmeasure : ∀ m, (criterion m).measure = m)
    (hle : ∀ m, (criterion m).lowerBound ≤ spent q.graph last tail m) :
    Criteria.isBeyond settings (measures.map criterion) = false := by
  refine List.any_eq_false.2 fun c hc => ?_
  obtain ⟨m, hm, rfl⟩ := List.mem_map.1 hc
  obtain ⟨hspent, hne, hlimit⟩ := h.boundOf_within hq hm
  have hlt := lt_ceiling_of_boundOf hne
  have hle := hle m
  unfold Criterion.isBeyond
  rw [hmeasure, Bool.or_eq_true, not_or, beq_iff_eq, decide_eq_true_eq]
  omega

/-- Under all three measures a label's criteria are what its trail has spent on each. -/
theorem Trail.summary_eq (hq : q.Sound) (h : Trail q settings Measure.all (label :: before)) :
    label.criteria.summary =
      ⟨spent q.graph label before .time, spent q.graph label before .transfers,
        spent q.graph label before .price⟩ := by
  rw [h.criteria_eq hq]
  rfl

end Limits

/-- Some result has come to no more than a trail. -/
def Frontier.Matches (q : Query) (settings : Settings) (f : Frontier) (last : Label)
    (tail : List Label) : Prop :=
  ∃ id ∈ f.results, ∃ result behind, f.pool.get? id = some result ∧
    Trail q settings Measure.all (result :: behind) ∧
    ∀ m, spent q.graph result behind m ≤ spent q.graph last tail m

section Follow

variable {q : Query} {settings : Settings} {f : Frontier} {order : List LabelId}
  {label other last : Label} {before behind rest tail : List Label}

/-- A label that covers and is met: a result matches the trail, or some settled
label covers. -/
theorem Covers.of_met (hq : q.Sound) (hs : Frontier.Sound q settings Measure.all f order [])
    (h : Covers q before label rest behind other)
    (ho : Trail q settings Measure.all (other :: behind))
    (htrail : Trail q settings Measure.all (last :: tail)) (hgoal : q.target.isGoal last = true)
    (hsplit : rest.reverse ++ label :: before = last :: tail)
    (hmet : f.Met q.direction other) :
    f.Matches q settings last tail ∨ ∃ id ∈ f.settledAt label.node, ∃ third behind',
      f.pool.get? id = some third ∧ Trail q settings Measure.all (third :: behind') ∧
      Covers q before label rest behind' third := by
  rcases hmet with ⟨id, hid, third, hget, hrep⟩ | ⟨id, hid, result, hget, hdom⟩
  · obtain ⟨hin, l, hl, hnode⟩ := (hs.settled other.node id).1 hid
    rw [hget] at hl
    cases hl
    obtain ⟨links, ht, -⟩ := hs.traced_of_passed hin hget
    rw [h.node] at hid
    exact Or.inr ⟨id, hid, third, _, hget, ht.trail, h.replaces hq ho ht.trail hnode hrep⟩
  · obtain ⟨behind', ht⟩ := hs.trail_of_result hid hget
    have hno := Frontier.noWorse_of_dominates hq ht ho hdom
    rw [ht.criteria_eq hq, ho.criteria_eq hq, Criteria.noWorse_map_iff] at hno
    refine Or.inl ⟨id, hid, result, behind', hget, ht, fun m => ?_⟩
    exact Nat.le_trans (hno m m.mem_all)
      (h.boundOf_le hq htrail hgoal hsplit ho.inOrder (ho.lastConnection_iff hq) m)

/-- Where a label that covers goes on as the trail does, it stays within the
limits. -/
theorem Covers.trail_after (hq : q.Sound) {id : LabelId} {ref : EdgeRef} {cost : EdgeCost}
    {now : Time} (ho : Trail q settings Measure.all (other :: behind))
    (hnot : q.target.isGoal other = false)
    (href : ref ∈ q.graph.edgesAt other.node q.direction)
    (ht : Takes q.graph q.direction settings.maxMinutes other ref cost)
    (hnow : Run.timeAfter? other.now cost.time q.direction = some now)
    (h : Covers q before label rest (other :: behind) (q.after id other ref cost now))
    (htrail : Trail q settings Measure.all (last :: tail)) (hgoal : q.target.isGoal last = true)
    (hsplit : rest.reverse ++ label :: before = last :: tail) :
    Trail q settings Measure.all (q.after id other ref cost now :: other :: behind) := by
  refine .step id ref _ other behind ho hnot href
    (expandEdge_eq_some_iff.2 ⟨cost, now, ht, hnow, rfl⟩) ?_
  rw [Query.criteria_after (ho.criteria_eq hq)]
  refine not_isBeyond_of_le hq htrail (fun m => rfl) fun m => ?_
  have hspend : Criterion.spend cost m (spent q.graph other behind m) ≤
      spent q.graph (q.after id other ref cost now) (other :: behind) m := by
    rw [spent_after hq m ho href ht hnow]
    exact (spend_spec _ _ _).1
  exact Nat.le_trans (boundOf_mono m hspend) (h.boundOf_le hq htrail hgoal hsplit
    (ho.inOrder.after hnow) (ht.lastConnection_iff (ho.placed hq) (ho.lastConnection_iff hq)) m)

/-- For every label of a trail to the goal some settled label covers it, unless a
result matches the trail. -/
theorem exists_covers (hq : q.Sound) (hs : Frontier.Sound q settings Measure.all f order [])
    (ha : f.Accounted q settings Measure.all)
    (hmet : ∀ label, f.Known q.direction label → f.Met q.direction label)
    (htrail : Trail q settings Measure.all (last :: tail)) (hgoal : q.target.isGoal last = true)
    (hsafe : f.boardsSafely q settings (last :: tail).reverse = true)
    (hsplit : rest.reverse ++ label :: before = last :: tail) :
    f.Matches q settings last tail ∨ ∃ id ∈ f.settledAt label.node, ∃ other behind,
      f.pool.get? id = some other ∧ Trail q settings Measure.all (other :: behind) ∧
      Covers q before label rest behind other := by
  induction before generalizing label rest with
  | nil =>
    have hl : Trail q settings Measure.all [label] := by
      rw [← hsplit] at htrail
      exact htrail.suffix
    cases hl with
    | start time htime hin =>
      exact (Covers.start rest Measure.all).of_met hq hs (.start time htime hin) htrail hgoal hsplit
        (hmet _ (ha.starts time htime hin))
  | cons older before ih =>
    have hsplit' : (label :: rest).reverse ++ older :: before = last :: tail := by
      rw [List.reverse_cons, List.append_assoc]
      exact hsplit
    rcases ih hsplit' with hmatch | ⟨id, hid, other, behind, hget, ho, hcovers⟩
    · exact Or.inl hmatch
    have htrail' := htrail
    rw [← hsplit] at htrail'
    have hsuffix : Trail q settings Measure.all (label :: older :: before) := htrail'.suffix
    have hsafe' : older.boardsSafely q.graph q.direction settings.maxMinutes
        ((f.settledAt older.node).filterMap f.label?) (label :: rest) = true := by
      refine List.all_eq_true.1 hsafe (older :: label :: rest)
        ((List.mem_tails _ _).2 ⟨before.reverse, ?_⟩)
      rw [← hsplit]
      simp
    cases hsuffix with
    | step id' ref _ _ _ hl hnot href hnext hin =>
      -- the settled label goes on as the trail does, and where it gets is known
      obtain ⟨cost, now, ht, hnow, hcovers'⟩ :=
        hcovers.step hq htrail' hl ho id href hnext (List.mem_filterMap.2 ⟨id, hid, hget⟩) hsafe'
      have hnot' : q.target.isGoal other = false := by
        unfold Target.isGoal at hnot ⊢
        rw [hcovers.node, hcovers.progress]
        exact hnot
      have href' := hcovers.edge_mem href
      have ho' := hcovers'.trail_after hq ho hnot' href' ht hnow htrail hgoal hsplit
      obtain ⟨found, hfound, hknown⟩ := (ha.served _ id other hid hget).edges hnot' ref href'
      rw [expandEdge_eq_some_iff.2 ⟨cost, now, ht, hnow, rfl⟩] at hfound
      cases hfound
      exact hcovers'.of_met hq hs ho' htrail hgoal hsplit
        (hmet _ (hknown _ rfl ho'.not_isBeyond))

/-- Where every label is met, some result matches the trail. -/
theorem exists_match (hq : q.Sound) (hs : Frontier.Sound q settings Measure.all f order [])
    (ha : f.Accounted q settings Measure.all)
    (hmet : ∀ label, f.Known q.direction label → f.Met q.direction label)
    (htrail : Trail q settings Measure.all (last :: tail)) (hgoal : q.target.isGoal last = true)
    (hsafe : f.boardsSafely q settings (last :: tail).reverse = true) :
    f.Matches q settings last tail := by
  have hsplit : ([] : List Label).reverse ++ last :: tail = last :: tail := rfl
  rcases exists_covers hq hs ha hmet htrail hgoal hsafe hsplit with
    hmatch | ⟨id, hid, other, behind, hget, ho, hcovers⟩
  · exact hmatch
  · -- the label that covers the end of the trail is at the goal, and has been answered
    have hgoal' : q.target.isGoal other = true := by
      unfold Target.isGoal at hgoal ⊢
      rw [hcovers.node, hcovers.progress]
      exact hgoal
    obtain ⟨id', hid', result, hget', hans⟩ := (ha.served _ id other hid hget).goal hgoal'
    obtain ⟨behind', ht⟩ := hs.trail_of_result hid' hget'
    have hno := hans.noWorse
    rw [ht.criteria_eq hq, ho.criteria_eq hq, Criteria.noWorse_map_iff] at hno
    refine ⟨id', hid', result, behind', hget', ht, fun m => ?_⟩
    have hbound := hcovers.boundOf_le hq htrail hgoal hsplit ho.inOrder
      (ho.lastConnection_iff hq) m
    exact Nat.le_trans (hno m m.mem_all)
      (Nat.le_trans (ho.boundOf_within hq m.mem_all).1 hbound)

end Follow

/-- A search over a timetable that was built which has come to its end has, for
every trail to the goal that boards safely among the labels which the search has
settled, a result that took no more minutes, changes and money. -/
theorem search_complete {fixture : Fixture} {tt : Timetable} (hbuild : fixture.build = .ok tt)
    {settings : Settings} {router : Router}
    (hrouter : Router.Reached settings Measure.all router) {request : Request} {q : Query}
    (hq : request.toQuery tt = .ok q) {run : Run}
    (hrun : q.run settings Measure.all router.frontier = .ok run)
    (hend : run.statistics.budgetSpent = false) {last : Label} {tail : List Label}
    (htrail : Trail q settings Measure.all (last :: tail)) (hgoal : q.target.isGoal last = true)
    (hsafe : run.frontier.boardsSafely q settings (last :: tail).reverse = true) :
    ∃ id ∈ run.frontier.results, ∃ result, run.frontier.label? id = some result ∧
      result.criteria.summary.time ≤ last.criteria.summary.time ∧
      result.criteria.summary.transfers ≤ last.criteria.summary.transfers ∧
      result.criteria.summary.price ≤ last.criteria.summary.price := by
  have hsound := (Request.toQuery_sound (Fixture.build_sound hbuild) hq).1
  obtain ⟨order, hs, ha, hmet⟩ := Run.exhausted_of_run hsound hrouter.blank.2.2 hrun hend
  obtain ⟨id, hid, result, behind, hget, ht, hle⟩ :=
    exists_match hsound hs ha hmet htrail hgoal hsafe
  refine ⟨id, hid, result, hget, ?_⟩
  rw [ht.summary_eq hsound, htrail.summary_eq hsound]
  exact ⟨hle .time, hle .transfers, hle .price⟩

/-! ## Ways over given edges -/

/-- The labels on the way over some edges from a start at `time`, if a search could
go there; both the labels and the edges are given the latest first. -/
def Query.follow? (q : Query) (settings : Settings) (measures : List Measure) (time : Time) :
    List EdgeRef → Option (List Label)
  | [] =>
    let label := Run.startLabel q measures time
    if time ∈ q.startTimes ∧ label.criteria.isBeyond settings = false then some [label] else none
  | ref :: refs =>
    match q.follow? settings measures time refs with
    | some (label :: before) =>
      match Run.expandEdge q settings 0 label ref with
      | .ok (some next) =>
        if q.target.isGoal label = false ∧ ref ∈ q.graph.edgesAt label.node q.direction ∧
            next.criteria.isBeyond settings = false then some (next :: label :: before)
        else none
      | _ => none
    | _ => none

/-- Labels found by following edges one after the other are a trail. -/
theorem Trail.of_follow? {q : Query} {settings : Settings} {measures : List Measure} {time : Time}
    {refs : List EdgeRef} {labels : List Label}
    (h : q.follow? settings measures time refs = some labels) :
    Trail q settings measures labels := by
  induction refs generalizing labels with
  | nil =>
    unfold Query.follow? at h
    dsimp only at h
    split at h
    · next hin =>
      cases h
      exact .start time hin.1 hin.2
    · cases h
  | cons ref refs ih =>
    unfold Query.follow? at h
    split at h
    · next label before hfollow =>
      split at h
      · next next hnext =>
        split at h
        · next hin =>
          cases h
          exact .step 0 ref next label before (ih hfollow) hin.1 hin.2.1 hnext hin.2.2
        · cases h
      · cases h
    · cases h

/-- A walk of five minutes and one of ten to a stop from where two trains go. -/
def twoWalks (price : Nat) : Fixture :=
  { firstDay := Fixture.firstMonday, days := 1, categories := ["RE"],
    stations := [.plain "A" 0, .plain "X" 0, .plain "Z" 0],
    routes := [⟨["X", "Z"],
      [.single "00:07" "00:20" price none, .single "00:12" "00:25" 1 none]⟩],
    footpaths := [⟨"A", "X", 5⟩, ⟨"A", "X", 10⟩], through := [] }

/-- The way over the longer walk, the last edge first. -/
def longerWalk : List EdgeRef := [.timetable 2, .timetable 0, .timetable 1, .timetable 4]

/-- The two walks to trains of one price, and two trains on from where they go: a
dear one that has left when the first of them arrives, and a cheap one. -/
def onward : Fixture :=
  { twoWalks 1 with
    stations := [.plain "A" 0, .plain "X" 0, .plain "Z" 0, .plain "C" 0]
    routes := (twoWalks 1).routes ++ [⟨["Z", "C"],
      [.single "00:15" "00:30" 9 none, .single "00:40" "00:50" 1 none]⟩] }

/-- The way over the longer walk and a change of trains, the last edge first. -/
def longerWalkOnward : List EdgeRef :=
  [.timetable 5, .timetable 3, .timetable 4, .timetable 2, .timetable 0, .timetable 1, .timetable 7]

set_option maxRecDepth 4000 in
/-- Who takes the longer walk misses the first train, which is no dearer. Where the
trains are changed the dear one has left before anybody is there, and is no rival. -/
theorem search_complete_onward : ∃ tt q run last tail, onward.build = .ok tt ∧
    (Fixture.onTrip "A" "C" 0 .forward).toQuery tt = .ok q ∧
    q.run {} Measure.all (Router.new {} Measure.all).frontier = .ok run ∧
    run.statistics.budgetSpent = false ∧ Trail q {} Measure.all (last :: tail) ∧
    q.target.isGoal last = true ∧
    run.frontier.boardsSafely q {} (last :: tail).reverse = true ∧
    ∃ id ∈ run.frontier.results, ∃ result, run.frontier.label? id = some result ∧
      result.criteria.summary.time ≤ last.criteria.summary.time ∧
      result.criteria.summary.transfers ≤ last.criteria.summary.transfers ∧
      result.criteria.summary.price ≤ last.criteria.summary.price := by
  obtain ⟨tt, q, run, response, journeys, hbuild, hq, hrun, -, -, -, hfound⟩ :=
    Fixture.of_search? onward (Fixture.onTrip "A" "C" 0 .forward)
      (fun q run _ =>
        match q.follow? {} Measure.all 0 longerWalkOnward with
        | some (last :: tail) => q.target.isGoal last && !run.statistics.budgetSpent &&
          run.frontier.boardsSafely q {} (last :: tail).reverse
        | _ => false) (by decide +kernel)
  split at hfound
  · next last tail hfollow =>
    rw [Bool.and_eq_true, Bool.and_eq_true, Bool.not_eq_true'] at hfound
    obtain ⟨⟨hgoal, hend⟩, hsafe⟩ := hfound
    have htrail := Trail.of_follow? hfollow
    exact ⟨tt, q, run, last, tail, hbuild, hq, hrun, hend, htrail, hgoal, hsafe,
      search_complete hbuild .new hq hrun hend htrail hgoal hsafe⟩
  · cases hfound

set_option maxRecDepth 4000 in
/-- Where the first train is dearer, the search has nothing to set against the cheap
one, which whoever takes the longer walk boards. -/
theorem lost_connection : ∃ tt q run last tail, (twoWalks 9).build = .ok tt ∧
    (Fixture.onTrip "A" "Z" 0 .forward).toQuery tt = .ok q ∧
    q.run {} Measure.all (Router.new {} Measure.all).frontier = .ok run ∧
    run.statistics.budgetSpent = false ∧ Trail q {} Measure.all (last :: tail) ∧
    q.target.isGoal last = true ∧
    ¬ ∃ id ∈ run.frontier.results, ∃ result, run.frontier.label? id = some result ∧
      result.criteria.summary.time ≤ last.criteria.summary.time ∧
      result.criteria.summary.transfers ≤ last.criteria.summary.transfers ∧
      result.criteria.summary.price ≤ last.criteria.summary.price := by
  obtain ⟨tt, q, run, response, journeys, hbuild, hq, hrun, -, -, -, hfound⟩ :=
    Fixture.of_search? (twoWalks 9) (Fixture.onTrip "A" "Z" 0 .forward)
      (fun q run _ =>
        match q.follow? {} Measure.all 0 longerWalk with
        | some (last :: tail) => q.target.isGoal last && !run.statistics.budgetSpent &&
          run.frontier.results.all fun id => (run.frontier.label? id).all fun result =>
            decide (last.criteria.summary.price < result.criteria.summary.price)
        | _ => false) (by decide +kernel)
  split at hfound
  · next last tail hfollow =>
    rw [Bool.and_eq_true, Bool.and_eq_true, Bool.not_eq_true', List.all_eq_true] at hfound
    obtain ⟨⟨hgoal, hend⟩, hdear⟩ := hfound
    refine ⟨tt, q, run, last, tail, hbuild, hq, hrun, hend, Trail.of_follow? hfollow, hgoal, ?_⟩
    rintro ⟨id, hid, result, hget, -, -, hprice⟩
    have hlt := hdear id hid
    rw [hget] at hlt
    exact absurd hprice (Nat.not_le_of_lt (of_decide_eq_true hlt))
  · cases hfound

end JourneyPlanner
