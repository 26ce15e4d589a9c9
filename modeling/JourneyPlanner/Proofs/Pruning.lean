import JourneyPlanner.Proofs.Completeness
import JourneyPlanner.Proofs.Search.Leads
import JourneyPlanner.Proofs.Search.Turns

/-!
# Nothing is given up that could have come to something

A search gives a label up in two ways without looking where it would lead to, and
the main result of this file, `pruning_lossless`, says that neither loses anything:

> a label beyond the limits leads to no label at the goal that is within them; and
> where a result beats the best that a label can come to, the results beat whatever
> it leads to, however long the search goes on.

Both rest on bounds that never fall (`Label.Proper.floor_le`). What stands in the way
is the ceiling: a node is given up altogether if the vehicles between it and the goal
cannot be counted. But a way passes no node twice, and its last edge boards no
vehicle, so that there are always fewer vehicles to board than nodes
(`Query.Completes.boardings_le`). With nodes that are numbered in thirty-two bits the
count stays below the ceiling.
-/

namespace JourneyPlanner

open Relation (ReflTransGen)

/-! ## Vehicles on a way -/

namespace LowerBounds

theorem boardingsOf_le_one (direction : Direction) (kind : EdgeKind) :
    boardingsOf direction kind ≤ 1 := by
  unfold boardingsOf
  cases kind <;> dsimp only <;> first | exact Nat.zero_le 1 | split <;> decide

/-- Only what leads into a vehicle counts as boarding one. -/
theorem boardingsOf_eq_zero {direction : Direction} {kind : EdgeKind}
    (h : kind ≠ direction.access) : boardingsOf direction kind = 0 := by
  unfold boardingsOf
  cases kind <;> cases direction <;> first | rfl | exact absurd rfl h

/-- The last edge of a way to a station boards no vehicle. -/
theorem Way.boardings_le {graph : QueryGraph} (hg : graph.Sound) {direction : Direction}
    {goal : NodeId} {nodes : List NodeId} {total : Nat}
    (hgoal : Node.IsStation graph.timetable.nodes goal)
    (h : Way graph direction (boardingsOf direction) goal nodes total) :
    total ≤ nodes.length - 2 := by
  induction h with
  | goal h => exact Nat.zero_le _
  | @step _ ref _ _ href way ih =>
    generalize hnodes : graph.target ref direction :: _ = nodes at way ih
    cases way with
    | step href' way' =>
      have hone := boardingsOf_le_one direction (graph.edge ref).kind
      simp only [List.length_cons] at ih ⊢
      omega
    | goal hlt =>
      have hstation : (graph.edge ref).kind ≠ direction.access := by
        intro hkind
        have hstop := ((hg.fits href).1.access hkind).isStop
        rw [← (List.cons.inj hnodes).1] at hgoal
        exact absurd hstop hgoal.not_isStop
      rw [boardingsOf_eq_zero hstation]
      exact Nat.le_refl 0

end LowerBounds

section Boardings

variable {q : Query} {settings : Settings} {label last : Label}

/-- The edges that lead to the goal are a way there. -/
theorem Query.Completes.exists_way (hq : q.Sound) (weight : EdgeKind → Nat)
    (hp : label.Proper q) (h : q.Completes settings label last) :
    ∃ rest total, LowerBounds.Way q.graph q.direction weight q.target.goal
      (label.node :: rest) total := by
  obtain ⟨hl, hgoal⟩ := h
  induction hl using ReflTransGen.head_induction_on with
  | refl =>
    refine ⟨[], 0, ?_⟩
    rw [(hp.onFoot_of_isGoal hq hgoal).1]
    exact .goal hq.goal.lt_size
  | head hstep hl ih =>
    have hp' := hp.leads hq hstep
    obtain ⟨rest, total, way⟩ := ih hp'
    obtain ⟨id, ref, href, hnext⟩ := hstep
    obtain ⟨cost, now, -, -, rfl⟩ := expandEdge_eq_some_iff.1 hnext
    exact ⟨_, _, .step href way⟩

/-- Where the goal can be reached, fewer vehicles lie before it than there are nodes. -/
theorem Query.Completes.boardings_le (hq : q.Sound) (hp : label.Proper q)
    (h : q.Completes settings label last) :
    q.bounds.boardingsAt label.node ≤ q.graph.timetable.nodes.size - 2 := by
  obtain ⟨rest, total, way⟩ := h.exists_way hq (LowerBounds.boardingsOf q.direction) hp
  obtain ⟨node, rest₁, rest', total', heq, way', -, hnodup⟩ := way.exists_nodup
  cases heq
  have hlen := way'.length_le hq.graph hnodup
  have hle := way'.boardings_le hq.graph hq.goal
  have hdist := LowerBounds.distanceAt_le hq.graph hq.goal.lt_size way'
  rw [hq.bounds_eq]
  exact Nat.le_trans hdist (Nat.le_trans hle (Nat.sub_le_sub_right hlen 2))

end Boardings

/-! ## Labels beyond the limits -/

section Limits

variable {q : Query} {settings : Settings} {label last : Label}

/-- Where the goal can be reached no bound falls, whatever the limits are. -/
theorem Query.Completes.least_le (hq : q.Sound)
    (hroom : q.graph.timetable.nodes.size ≤ Bounded.ceiling + 1) (hp : label.Proper q)
    (h : q.Completes settings label last) (m : Measure) :
    label.criteria.least m ≤ last.criteria.least m := by
  have hboardings := h.boardings_le hq hp
  have hfloor : label.criteria.least m = label.floor q m := by
    rw [hp.least_eq]
    refine Criterion.boundOf_eq_floorOf fun _ => ?_
    show q.bounds.boardingsAt label.node ≠ Bounded.ceiling
    unfold Bounded.ceiling at hroom ⊢
    omega
  rw [hfloor]
  exact Nat.le_trans (hp.floor_le hq h.1 m) ((hp.all_leads hq h.1).floor_le_least m)

/-- From beyond the limits no edges lead to the goal within them. -/
theorem Query.Completes.isBeyond (hq : q.Sound)
    (hroom : q.graph.timetable.nodes.size ≤ Bounded.ceiling + 1) (hp : label.Proper q)
    (h : q.Completes settings label last) (hbeyond : label.criteria.isBeyond settings = true) :
    last.criteria.isBeyond settings = true := by
  have hp' := hp.all_leads hq h.1
  obtain ⟨m, hm⟩ := hp.full.isBeyond_iff.1 hbeyond
  have hle := h.least_le hq hroom hp m
  refine hp'.full.isBeyond_iff.2 ⟨m, ?_⟩
  rcases hm with hmax | hlimit
  · rw [hmax] at hle
    exact Or.inl (Nat.le_antisymm (hp'.least_le_ceiling m) hle)
  · exact Or.inr (Nat.lt_of_lt_of_le hlimit hle)

/-- What beats the best that a label can come to beats all that it leads to at the
goal. -/
theorem Query.Completes.dominates (hq : q.Sound) (hp : label.Proper q)
    (hin : label.criteria.isBeyond settings = false) (h : q.Completes settings label last)
    {result : Label} (hfull : result.criteria.Full)
    (hdom : result.criteria.dominates true label.criteria = true) :
    result.criteria.dominates false last.criteria = true := by
  have hp' := hp.all_leads hq h.1
  refine hfull.dominates_of_least_le_current hp.full hp'.full hdom fun m => ?_
  exact Nat.le_trans (hp.least_le hq hin h.1 m) (hp'.least_le_current hq h.2 m)

end Limits

/-! ## Labels that a result beats -/

/-- Where a result beats the best that a label can come to, the results will always beat
what it would have led to at the goal. -/
theorem Run.Reached.beats_completions {q : Query} {settings : Settings} {f : Frontier}
    {r r₁ : Run} {id : LabelId} {label last : Label} (hq : q.Sound) (hf : f.Blank)
    (h : Run.Reached q settings Measure.all f r) (hpop : r.pop = (some id, r₁))
    (hget : r₁.frontier.label? id = some label)
    (hbeaten : r₁.frontier.beatenByResult label = true) (hl : q.Completes settings label last)
    (budget : Nat) :
    ∃ id' ∈ (Run.left (Run.loop q settings budget r)).frontier.results, ∃ result,
      (Run.left (Run.loop q settings budget r)).frontier.label? id' = some result ∧
      result.criteria.dominates false last.criteria = true := by
  obtain ⟨order, hs⟩ := h.sound hq hf
  obtain ⟨hs₁, -, hpool, -, hresults⟩ := Run.pop_sound hs hpop
  obtain ⟨links, ht⟩ := hs₁.traced_of_held hget
  -- the result that beats the label before it is dropped
  obtain ⟨other, ho, hdom⟩ := List.any_eq_true.1 hbeaten
  obtain ⟨-, winner, hwinner, -⟩ := hs₁.results other ho
  unfold Frontier.criteriaIn at hdom
  rw [hwinner] at hdom
  rw [hresults] at ho
  rw [hpool] at hwinner
  -- what answers that one in the end
  obtain ⟨r₂, hturns, hrests⟩ := Run.loop_left hq hf h budget
  obtain ⟨⟨order', hs'⟩, hcarries⟩ := hrests.sound hq hf (h.turns hturns)
  obtain ⟨id', hid', result, hget', hans⟩ :=
    ((h.carries hq hf hturns).trans hcarries).results other ho winner hwinner
  obtain ⟨before, htrail⟩ := hs'.trail_of_result hid' hget'
  exact ⟨id', hid', result, hget', hl.dominates hq (ht.trail.proper hq).1 ht.trail.not_isBeyond
    (htrail.proper hq).1.full (hans.noWorse.dominates hdom)⟩

/-- In a search over a timetable that was built, with nodes numbered in thirty-two bits:
if a label is given up for a limit, so is every label at the goal to which edges lead
from it; and if a label that comes out of the queue is dropped because a result beats
the best that it can come to, then for every label at the goal to which edges lead from
it some result that is left in the end, however the search ends, beats that one. -/
theorem pruning_lossless {fixture : Fixture} {tt : Timetable} (hbuild : fixture.build = .ok tt)
    (hroom : tt.nodes.size ≤ Bounded.ceiling + 1) {settings : Settings} {router : Router}
    (hrouter : Router.Reached settings Measure.all router) {request : Request} {q : Query}
    (hq : request.toQuery tt = .ok q) :
    (∀ label, q.Possible settings label → label.criteria.isBeyond settings = true →
      ∀ last, q.Completes settings label last → last.criteria.isBeyond settings = true) ∧
    ∀ r, Run.Reached q settings Measure.all router.frontier r →
      ∀ id r₁ label, r.pop = (some id, r₁) → r₁.frontier.label? id = some label →
      r₁.frontier.beatenByResult label = true →
      ∀ last, q.Completes settings label last →
      ∀ budget, ∃ id' ∈ (Run.left (Run.loop q settings budget r)).frontier.results, ∃ result,
        (Run.left (Run.loop q settings budget r)).frontier.label? id' = some result ∧
        result.criteria.dominates false last.criteria = true := by
  obtain ⟨hsound, htt, -⟩ := Request.toQuery_sound (Fixture.build_sound hbuild) hq
  rw [← htt] at hroom
  constructor
  · intro label hpossible hbeyond last hl
    exact hl.isBeyond hsound hroom (hpossible.proper hsound) hbeyond
  · intro r hr id r₁ label hpop hget hbeaten last hl budget
    exact hr.beats_completions hsound hrouter.blank.2.2 hpop hget hbeaten hl budget

/-- A short walk and a longer one to the same place, and one of more than a day. -/
def detours : Fixture :=
  { firstDay := Fixture.firstMonday, days := 1, categories := [],
    stations := [.plain "A" 0, .plain "X" 0, .plain "Y" 0, .plain "B" 0],
    routes := [],
    footpaths := [⟨"A", "X", 5⟩, ⟨"A", "X", 10⟩, ⟨"X", "B", 5⟩, ⟨"A", "Y", 1000⟩, ⟨"Y", "B", 1000⟩],
    through := [] }

/-- A label that the limits rule out, with one at the goal to which it leads. -/
def detours.beyond? (q : Query) : Option (Label × Label) := do
  let label ← q.along? {} (Run.startLabel q Measure.all 0) [.timetable 3]
  let last ← q.along? {} label [.timetable 4]
  if 0 ∈ q.startTimes ∧ label.criteria.isBeyond {} = true ∧ q.target.isGoal last = true then
    return (label, last)
  else none

/-- A label that is dropped for a result, with one at the goal to which it leads. -/
def detours.beaten? (q : Query) : Option (Run × LabelId × Run × Label × Label) := do
  let r₀ ← (Run.start q {} Measure.all (Frontier.new {})).toOption
  let r ← Run.turns? q {} 3 r₀
  let id ← r.pop.1
  let label ← r.pop.2.frontier.label? id
  let last ← q.along? {} label [.timetable 2]
  if r.pop.2.frontier.beatenByResult label = true ∧ q.target.isGoal last = true then
    return (r, id, r.pop.2, label, last)
  else none

set_option maxRecDepth 4000 in
theorem pruning_lossless_detours : ∃ tt q, detours.build = .ok tt ∧
    tt.nodes.size ≤ Bounded.ceiling + 1 ∧
    (Fixture.onTrip "A" "B" 0 .forward).toQuery tt = .ok q ∧
    (∃ label last, q.Possible {} label ∧ label.criteria.isBeyond {} = true ∧
      q.Completes {} label last ∧ last.criteria.isBeyond {} = true) ∧
    ∃ r id r₁ label last, Run.Reached q {} Measure.all (Router.new {} Measure.all).frontier r ∧
      r.pop = (some id, r₁) ∧ r₁.frontier.label? id = some label ∧
      r₁.frontier.beatenByResult label = true ∧ q.Completes {} label last ∧
      ∀ budget, ∃ id' ∈ (Run.left (Run.loop q {} budget r)).frontier.results, ∃ result,
        (Run.left (Run.loop q {} budget r)).frontier.label? id' = some result ∧
        result.criteria.dominates false last.criteria = true := by
  obtain ⟨tt, q, run, response, journeys, hbuild, hq, -, -, -, -, hfound⟩ :=
    Fixture.of_search? detours (Fixture.onTrip "A" "B" 0 .forward)
      (fun q _ _ => decide (q.graph.timetable.nodes.size = 4) && (detours.beyond? q).isSome &&
        (detours.beaten? q).isSome) (by decide +kernel)
  simp only [Bool.and_eq_true, Option.isSome_iff_exists, decide_eq_true_eq] at hfound
  obtain ⟨⟨hsize, ⟨label, last⟩, hbeyond⟩, ⟨r, id, r₁, label', last'⟩, hbeaten⟩ := hfound
  have hroom : tt.nodes.size ≤ Bounded.ceiling + 1 := by
    rw [← (Request.toQuery_sound (Fixture.build_sound hbuild) hq).2.1, hsize]
    decide
  have hnew : Router.Reached {} Measure.all (Router.new {} Measure.all) := .new
  obtain ⟨hlimits, hresults⟩ := pruning_lossless hbuild hroom hnew hq
  refine ⟨tt, q, hbuild, hroom, hq, ⟨label, last, ?_⟩, r, id, r₁, label', last', ?_⟩
  · unfold detours.beyond? at hbeyond
    obtain ⟨_, hlabel, hbeyond⟩ := Option.bind_eq_some_iff.1 hbeyond
    obtain ⟨_, hlast, hbeyond⟩ := Option.bind_eq_some_iff.1 hbeyond
    split at hbeyond
    · next hin =>
      cases hbeyond
      have hpossible : q.Possible {} label := ⟨0, hin.1, Query.leads_of_along? hlabel⟩
      have hcompletes : q.Completes {} label last := ⟨Query.leads_of_along? hlast, hin.2.2⟩
      exact ⟨hpossible, hin.2.1, hcompletes, hlimits label hpossible hin.2.1 last hcompletes⟩
    · cases hbeyond
  · unfold detours.beaten? at hbeaten
    obtain ⟨r₀, hstart, hbeaten⟩ := Option.bind_eq_some_iff.1 hbeaten
    obtain ⟨_, hturns, hbeaten⟩ := Option.bind_eq_some_iff.1 hbeaten
    obtain ⟨_, hid, hbeaten⟩ := Option.bind_eq_some_iff.1 hbeaten
    obtain ⟨_, hlabel, hbeaten⟩ := Option.bind_eq_some_iff.1 hbeaten
    obtain ⟨_, hlast, hbeaten⟩ := Option.bind_eq_some_iff.1 hbeaten
    split at hbeaten
    · next hin =>
      cases hbeaten
      have hreached : Run.Reached q {} Measure.all (Router.new {} Measure.all).frontier r :=
        (Run.Reached.start (Fixture.toOption_eq_some hstart)).turns (Run.turns_of_turns? hturns)
      have hpop : r.pop = (some id, r.pop.2) := Prod.ext hid rfl
      have hcompletes : q.Completes {} label' last' := ⟨Query.leads_of_along? hlast, hin.2⟩
      exact ⟨hreached, hpop, hlabel, hin.1, hcompletes,
        hresults r hreached id r.pop.2 label' hpop hlabel hin.1 last' hcompletes⟩
    · cases hbeaten

end JourneyPlanner
