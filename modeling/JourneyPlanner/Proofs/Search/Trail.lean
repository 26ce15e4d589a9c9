import JourneyPlanner.Proofs.Search.Traverse
import Mathlib.Algebra.GroupWithZero.Nat

/-!
# Trails

A `Trail` is a way that a search could go: labels, the latest first, from one at
the origin at a start time over one edge after the other, none of them beyond
the limits and none but the latest at the goal. It says nothing of what a search
drops on the way. Labels of a search hang together in trails, and what holds of
all trails is shown here by induction along them:

> `Trail.placed`: someone on a vehicle or about to board is at the stop of a
> route, anyone else at a station.
> `Trail.criteria_eq`: the criteria of a label are what its trail has spent.
-/

namespace JourneyPlanner

/-- The label after an edge, with its progress and criteria brought up to date. -/
def Query.after (q : Query) (id : LabelId) (label : Label) (ref : EdgeRef) (cost : EdgeCost)
    (now : Time) : Label :=
  let node := q.graph.target ref q.direction
  let next := label.successor id ref node now cost
  { next with
    progress := q.target.advance node label.progress
    criteria := label.criteria.update q.bounds
      { node, boarding := cost.boarding, hasConnection := next.lastConnection.isSome } cost }

theorem expandEdge_eq_some_iff {q : Query} {settings : Settings} {id : LabelId} {label next : Label}
    {ref : EdgeRef} :
    Run.expandEdge q settings id label ref = .ok (some next) ↔
      ∃ cost now, Takes q.graph q.direction settings.maxMinutes label ref cost ∧
        Run.timeAfter? label.now cost.time q.direction = some now ∧
        next = q.after id label ref cost now := by
  unfold Run.expandEdge
  constructor
  · intro h
    split at h
    · cases h
    · cases h
    · next cost hcost =>
      obtain ⟨now, hnow, rfl⟩ := Option.map_eq_some_iff.1 (Except.ok.inj h)
      exact ⟨cost, now, takes_of_edgeCost hcost, hnow, rfl⟩
  · rintro ⟨cost, now, htakes, hnow, rfl⟩
    rw [edgeCost_of_takes htakes]
    simp only [hnow]
    rfl

/-- A way that a search could go, the latest label first. -/
inductive Trail (q : Query) (settings : Settings) (measures : List Measure) : List Label → Prop
  | start (time : Time) (htime : time ∈ q.startTimes)
      (hin : (Run.startLabel q measures time).criteria.isBeyond settings = false) :
      Trail q settings measures [Run.startLabel q measures time]
  | step (id : LabelId) (ref : EdgeRef) (next label : Label) (before : List Label)
      (trail : Trail q settings measures (label :: before))
      (hgoal : q.target.isGoal label = false)
      (href : ref ∈ q.graph.edgesAt label.node q.direction)
      (hnext : Run.expandEdge q settings id label ref = .ok (some next))
      (hin : next.criteria.isBeyond settings = false) :
      Trail q settings measures (next :: label :: before)

/-- What holds of the start labels, and goes on holding along edges, holds of all
labels of trails. -/
theorem Trail.along {q : Query} {settings : Settings} {measures : List Measure}
    {P : Label → List Label → Prop}
    (hstart : ∀ time ∈ q.startTimes, P (Run.startLabel q measures time) [])
    (hstep : ∀ id ref label before cost now, Trail q settings measures (label :: before) →
      ref ∈ q.graph.edgesAt label.node q.direction →
      Takes q.graph q.direction settings.maxMinutes label ref cost →
      Run.timeAfter? label.now cost.time q.direction = some now →
      (q.after id label ref cost now).criteria.isBeyond settings = false → P label before →
      P (q.after id label ref cost now) (label :: before))
    {label : Label} {before : List Label} (h : Trail q settings measures (label :: before)) :
    P label before := by
  generalize hl : label :: before = labels at h
  induction h generalizing label before with
  | start time htime hin =>
    cases hl
    exact hstart time htime
  | step id ref next label' before' trail hgoal href hnext hin ih =>
    cases hl
    obtain ⟨cost, now, ht, hnow, rfl⟩ := expandEdge_eq_some_iff.1 hnext
    exact hstep id ref label' before' cost now trail href ht hnow hin (ih rfl)

/-! ## The ends of an edge, as the search goes -/

section Ends

variable {nodes : Array Node} {edge : Edge} {direction : Direction}

theorem Edge.Fits.access (h : edge.Fits nodes) (hkind : edge.kind = direction.access) :
    Node.AtOne nodes (edge.source direction) (edge.target direction) := by
  unfold Edge.Fits at h
  rw [hkind] at h
  cases direction <;> exact h

theorem Edge.Fits.egress (h : edge.Fits nodes) (hkind : edge.kind = direction.egress) :
    Node.AtOne nodes (edge.target direction) (edge.source direction) := by
  unfold Edge.Fits at h
  rw [hkind] at h
  cases direction <;> exact h

theorem Edge.Fits.route {legs : Array Leg} (h : edge.Fits nodes) (hkind : edge.kind = .route legs) :
    Node.IsStop nodes (edge.target direction) := by
  unfold Edge.Fits at h
  rw [hkind] at h
  cases direction
  · exact h.2
  · exact h.1

theorem Edge.Fits.through {trips : List (Option Nat)} (h : edge.Fits nodes)
    (hkind : edge.kind = .through trips) : Node.IsStop nodes (edge.target direction) := by
  unfold Edge.Fits at h
  rw [hkind] at h
  cases direction
  · exact h.2
  · exact h.1

theorem Edge.Fits.walk (h : edge.Fits nodes) (hkind : edge.kind.isWalk = true) :
    Node.IsStation nodes (edge.target direction) := by
  have hends : Node.IsStation nodes edge.tail ∧ Node.IsStation nodes edge.head := by
    unfold Edge.Fits at h
    split at h
    · next hk => rw [hk] at hkind; cases hkind
    · next hk => rw [hk] at hkind; cases hkind
    · next hk => rw [hk] at hkind; cases hkind
    · next hk => rw [hk] at hkind; cases hkind
    · exact h
    · exact h.1
    · exact ⟨h.1, by rw [h.2.1]; exact h.1⟩
  cases direction
  · exact hends.2
  · exact hends.1

end Ends

/-! ## Where a label is -/

/-- Someone on a vehicle or about to board is at the stop of a route, anyone
else at a station; and whoever rides has used an event. -/
structure Label.Placed (nodes : Array Node) (label : Label) : Prop where
  station : label.OnFoot → Node.IsStation nodes label.node
  stop : ¬ label.OnFoot → Node.IsStop nodes label.node
  apart : label.boarding = true → label.ride = none
  ridden : label.ride ≠ none → label.lastConnection ≠ none

theorem Query.after_placed {q : Query} {settings : Settings} {id : LabelId} {label : Label}
    {ref : EdgeRef} {cost : EdgeCost} {now : Time} (hq : q.graph.Sound)
    (hp : label.Placed q.graph.timetable.nodes)
    (href : ref ∈ q.graph.edgesAt label.node q.direction)
    (ht : Takes q.graph q.direction settings.maxMinutes label ref cost) :
    (q.after id label ref cost now).Placed q.graph.timetable.nodes := by
  obtain ⟨hfits, -⟩ := hq.fits href
  -- walks, rides off the schedule and nights lead from station to station
  have hwalk : ∀ (h : (q.graph.edge ref).kind.isWalk = true) (c : EdgeCost), c.ride = none →
      c.boarding = false → (q.after id label ref c now).Placed q.graph.timetable.nodes := by
    intro h c hride hboarding
    refine ⟨fun _ => hfits.walk h, fun hnot => absurd ⟨hride, hboarding⟩ hnot, fun hb => ?_,
      fun hr => absurd hride hr⟩
    exact hride
  cases ht with
  | access hkind hfoot =>
    exact ⟨fun hf => Bool.noConfusion hf.2, fun _ => (hfits.access hkind).isStop, fun _ => rfl,
      fun hr => absurd rfl hr⟩
  | egress ride hkind hride =>
    exact ⟨fun _ => (hfits.egress hkind).isStation, fun hnot => absurd ⟨rfl, rfl⟩ hnot,
      fun hb => Bool.noConfusion hb, fun hr => absurd rfl hr⟩
  | stay eid legs ride event hid hkind hride hat hahead =>
    exact ⟨fun hf => absurd hf.1 (Option.some_ne_none _), fun _ => hfits.route hkind,
      fun hb => Bool.noConfusion hb, fun _ => Option.some_ne_none _⟩
  | board eid legs event hid hkind hride hboarding hfind =>
    exact ⟨fun hf => absurd hf.1 (Option.some_ne_none _), fun _ => hfits.route hkind,
      fun hb => Bool.noConfusion hb, fun _ => Option.some_ne_none _⟩
  | through trips ride trip hkind hride htrip =>
    refine ⟨fun hf => absurd hf.1 (Option.some_ne_none _), fun _ => hfits.through hkind,
      fun hb => Bool.noConfusion hb, fun _ => ?_⟩
    exact hp.ridden (by rw [hride]; exact Option.some_ne_none _)
  | foot duration price hkind hfoot => exact hwalk (by rw [hkind]; rfl) _ rfl rfl
  | mumo ride time hkind hfoot htime hpinned => exact hwalk (by rw [hkind]; rfl) _ rfl rfl
  | hotel stay hkind hfoot hfirst hpinned => exact hwalk (by rw [hkind]; rfl) _ rfl rfl

section Trail

variable {q : Query} {settings : Settings} {measures : List Measure}

/-- A trail up to some label is a trail. -/
theorem Trail.suffix {later : List Label} {label : Label} {before : List Label}
    (h : Trail q settings measures (later ++ label :: before)) :
    Trail q settings measures (label :: before) := by
  induction later with
  | nil => exact h
  | cons next later ih =>
    rw [List.cons_append] at h
    generalize hl : later ++ label :: before = labels at h ih
    cases h with
    | start time htime hin => cases later <;> cases hl
    | step id ref next label' before' trail hgoal href hnext hin => exact ih trail

theorem Trail.placed (hq : q.Sound) {label : Label} {before : List Label}
    (h : Trail q settings measures (label :: before)) :
    label.Placed q.graph.timetable.nodes := by
  refine Trail.along (P := fun label _ => label.Placed q.graph.timetable.nodes) ?_ ?_ h
  · intro time htime
    exact ⟨fun _ => hq.origin, fun hnot => absurd ⟨rfl, rfl⟩ hnot, fun hb => Bool.noConfusion hb,
      fun hr => absurd rfl hr⟩
  · intro id ref label before cost now trail href ht hnow hin ih
    exact Query.after_placed hq.graph ih href ht

/-- Whoever has reached the goal is on no vehicle. -/
theorem Trail.onFoot_of_isGoal (hq : q.Sound) {label : Label} {before : List Label}
    (h : Trail q settings measures (label :: before)) (hgoal : q.target.isGoal label = true) :
    label.OnFoot := by
  have hp := h.placed hq
  by_cases hf : label.OnFoot
  · exact hf
  · have hnode : label.node = q.target.goal := by
      unfold Target.isGoal at hgoal
      rw [Bool.and_eq_true] at hgoal
      exact beq_iff_eq.1 hgoal.1
    have hstop := hp.stop hf
    rw [hnode] at hstop
    exact absurd hstop hq.goal.not_isStop

/-! ## The time that has passed -/

theorem Trail.start_mem {label : Label} {before : List Label}
    (h : Trail q settings measures (label :: before)) : label.start ∈ q.startTimes := by
  refine Trail.along (P := fun label _ => label.start ∈ q.startTimes) ?_ ?_ h
  · intro time htime
    exact htime
  · intro id ref label before cost now trail href ht hnow hin ih
    exact ih

/-- Time runs in the direction of the search. -/
def Label.InOrder (label : Label) : Direction → Prop
  | .forward => label.start ≤ label.now
  | .backward => label.now ≤ label.start

/-- So many minutes lie between two times, as the search goes. -/
def Direction.Passes (direction : Direction) (now minutes after : Nat) : Prop :=
  match direction with
  | .forward => after = now + minutes
  | .backward => now = after + minutes

theorem passes_of_timeAfter? {now minutes : Nat} {after : Time} {direction : Direction}
    (h : Run.timeAfter? now minutes direction = some after) :
    direction.Passes now minutes after := by
  cases direction
  · exact (Bounded.add?_eq_some_iff.1 h).1.symm
  · exact Bounded.sub?_eq_some_iff.1 h

theorem eq_of_timeAfter?_zero {now : Nat} {after : Time} {direction : Direction}
    (h : Run.timeAfter? now 0 direction = some after) : after = now := by
  have hpass := passes_of_timeAfter? h
  cases direction
  · exact hpass
  · exact Eq.symm hpass

theorem Label.InOrder.after {id : LabelId} {label : Label} {ref : EdgeRef} {cost : EdgeCost}
    {now : Time} (h : label.InOrder q.direction)
    (hnow : Run.timeAfter? label.now cost.time q.direction = some now) :
    (q.after id label ref cost now).InOrder q.direction := by
  have ha := passes_of_timeAfter? hnow
  cases hd : q.direction with
  | forward =>
    rw [hd] at h ha
    exact Nat.le_trans h (Nat.le.intro (Eq.symm ha))
  | backward =>
    rw [hd] at h ha
    exact Nat.le_trans (Nat.le.intro (Eq.symm ha)) h

theorem Trail.inOrder {label : Label} {before : List Label}
    (h : Trail q settings measures (label :: before)) : label.InOrder q.direction := by
  refine Trail.along (P := fun label _ => label.InOrder q.direction) ?_ ?_ h
  · intro time htime
    cases q.direction <;> exact Nat.le_refl _
  · intro id ref label before cost now trail href ht hnow hin ih
    exact ih.after hnow

/-- An edge adds its minutes to those that have passed. -/
theorem travelTime_after {id : LabelId} {label : Label} {ref : EdgeRef} {cost : EdgeCost}
    {now : Time} (ho : label.InOrder q.direction)
    (hnow : Run.timeAfter? label.now cost.time q.direction = some now) :
    (q.after id label ref cost now).travelTime = label.travelTime + cost.time := by
  have ha := passes_of_timeAfter? hnow
  show Bounded.distance now label.start = Bounded.distance label.now label.start + cost.time
  unfold Bounded.distance
  cases hd : q.direction with
  | forward =>
    rw [hd] at ho ha
    simp only [Label.InOrder, Direction.Passes, Time] at ho ha ⊢
    omega
  | backward =>
    rw [hd] at ho ha
    simp only [Label.InOrder, Direction.Passes, Time] at ho ha ⊢
    omega

/-- Someone on board is there at a time in range. -/
theorem Trail.timeAfter?_zero {label : Label} {before : List Label}
    (h : Trail q settings measures (label :: before)) (hride : label.ride ≠ none) :
    Run.timeAfter? label.now 0 q.direction = some label.now := by
  cases h with
  | start time htime hin => exact absurd rfl hride
  | step id ref next older before' trail hgoal href hnext hin =>
    obtain ⟨cost, now, -, hnow, rfl⟩ := expandEdge_eq_some_iff.1 hnext
    cases hd : q.direction with
    | forward =>
      rw [hd] at hnow
      exact Bounded.add?_eq_some_iff.2 ⟨rfl, (Bounded.add?_eq_some_iff.1 hnow).2⟩
    | backward => exact Bounded.sub?_eq_some_iff.2 rfl

/-! ## What has been spent -/

/-- The state of a label that its bounds depend on. -/
def Label.context (label : Label) : BoundContext :=
  { node := label.node, boarding := label.boarding, hasConnection := label.lastConnection.isSome }

/-- The price of an edge, with the event that was used on it. -/
def QueryGraph.fare (graph : QueryGraph) (ref : EdgeRef) (connection : Option UsedConnection) :
    Nat :=
  match (graph.edge ref).kind with
  | .route legs =>
    match connection.bind fun used => Event.at? legs used.trip used.day with
    | some event => (graph.timetable.info event.leg.info).price
    | none => 0
  | .foot _ price => price
  | .mumo ride => ride.price
  | .hotel stay => stay.price
  | .enter | .exit | .through _ => 0

/-- The price of the edge by which a label was reached. -/
def Label.fare (graph : QueryGraph) (label : Label) : Nat :=
  match label.edge with
  | some ref => graph.fare ref label.connection
  | none => 0

/-- What the trail of a label has spent: minutes, changes of vehicle, prices. -/
def spent (graph : QueryGraph) (label : Label) (before : List Label) : Measure → Nat
  | .time => label.travelTime
  | .transfers => before.countP (·.boarding) - 1
  | .price => label.fare graph + (before.map (Label.fare graph)).sum

/-- The events that may be boarded are runs of the trips of the edge, on days of
the schedule on which they run, within the window and with time for the change. -/
theorem boardable_spec {graph : QueryGraph} (hg : graph.Sound) {label : Label} {id : EdgeId}
    {legs : Array Leg} {direction : Direction} {horizon : Nat} {event : Event}
    (href : EdgeRef.timetable id ∈ graph.edgesAt label.node direction)
    (hkind : (graph.edge (.timetable id)).kind = .route legs)
    (hfind : (label.boardable graph.timetable legs direction horizon).find?
      (label.inTime graph.timetable direction) = some event) :
    label.inTime graph.timetable direction event = true ∧
      Event.at? legs event.trip event.day = some event ∧
      event.leg.days.runsOn event.day = true ∧ event.day < graph.timetable.period.days ∧
      (Timetable.boardingWindow label direction horizon).1 ≤ event.key direction ∧
      event.key direction < (Timetable.boardingWindow label direction horizon).2 := by
  have hsorted := hg.timetable.parts.sorted _ (hg.edge_mem href).1 legs hkind
  obtain ⟨hmem, hin⟩ := Window.mem_of_find? hfind
  exact ⟨hin, (Window.mem_events_make hsorted).1 hmem⟩

theorem Takes.price_eq {graph : QueryGraph} (hg : graph.Sound) {label : Label} {ref : EdgeRef}
    {direction : Direction} {horizon : Nat} {cost : EdgeCost}
    (href : ref ∈ graph.edgesAt label.node direction)
    (ht : Takes graph direction horizon label ref cost) :
    cost.price = graph.fare ref cost.connection := by
  unfold QueryGraph.fare
  cases ht with
  | access hkind hfoot => cases direction <;> rw [hkind] <;> rfl
  | egress ride hkind hride => cases direction <;> rw [hkind] <;> rfl
  | stay id legs ride event hid hkind hride hat hahead =>
    rw [hkind]
    simp only [Timetable.rideCost, Option.bind_some]
    rw [Event.at?_self hat]
  | board id legs event hid hkind hride hboarding hfind =>
    subst hid
    obtain ⟨-, hat, -⟩ := boardable_spec hg href hkind hfind
    rw [hkind]
    simp only [Timetable.rideCost, Option.bind_some]
    rw [hat]
  | through trips ride trip hkind hride htrip => rw [hkind]
  | foot duration price hkind hfoot => rw [hkind]
  | mumo ride time hkind hfoot htime hpinned => rw [hkind]
  | hotel stay hkind hfoot hfirst hpinned => rw [hkind]

/-- Someone about to board goes on by boarding, and by nothing else. -/
theorem Takes.board_of_boarding {graph : QueryGraph} {label : Label} {ref : EdgeRef}
    {direction : Direction} {horizon : Nat} {cost : EdgeCost}
    (hp : label.Placed graph.timetable.nodes)
    (ht : Takes graph direction horizon label ref cost) (hb : label.boarding = true) :
    cost.connection.isSome = true ∧ cost.transfer = label.lastConnection.isSome := by
  obtain ⟨id, legs, event, -, -, -, rfl⟩ := ht.of_boarding (hp.apart hb) hb
  exact ⟨rfl, rfl⟩

/-- Only someone about to board changes vehicles, and only someone on board uses
events besides. -/
theorem Takes.of_not_boarding {graph : QueryGraph} {label : Label} {ref : EdgeRef}
    {direction : Direction} {horizon : Nat} {cost : EdgeCost}
    (ht : Takes graph direction horizon label ref cost) (hb : label.boarding = false) :
    cost.transfer = false ∧ (cost.connection.isSome = true → label.ride ≠ none) := by
  cases ht with
  | board id legs event hid hkind hride hboarding hfind => rw [hb] at hboarding; cases hboarding
  | stay id legs ride event hid hkind hride hat hahead =>
    exact ⟨rfl, fun _ => by rw [hride]; exact Option.some_ne_none _⟩
  | access | egress | through | foot | mumo | hotel => exact ⟨rfl, fun h => by cases h⟩

theorem lastConnection_after (id : LabelId) (label : Label) (ref : EdgeRef) (cost : EdgeCost)
    (now : Time) : (q.after id label ref cost now).lastConnection =
      cost.connection.or label.lastConnection := rfl

/-- An edge uses the first event of a trail if and only if it is the first to be
taken by someone about to board. -/
theorem Takes.lastConnection_iff {label : Label} {before : List Label} {id : LabelId}
    {ref : EdgeRef} {cost : EdgeCost} {now : Time}
    (hp : label.Placed q.graph.timetable.nodes)
    (ht : Takes q.graph q.direction settings.maxMinutes label ref cost)
    (h : label.lastConnection.isSome = true ↔ 0 < before.countP (·.boarding)) :
    (q.after id label ref cost now).lastConnection.isSome = true ↔
      0 < (label :: before).countP (·.boarding) := by
  rw [lastConnection_after, Option.isSome_or, Bool.or_eq_true, h, List.countP_cons]
  cases hb : label.boarding with
  | true =>
    have hsome := (ht.board_of_boarding hp hb).1
    simp only [hsome, true_or, if_true, true_iff]
    omega
  | false =>
    have hride := (ht.of_not_boarding hb).2
    simp only [Bool.false_eq_true, if_false, Nat.add_zero, or_iff_right_iff_imp]
    intro hc
    exact h.1 (Option.isSome_iff_ne_none.2 (hp.ridden (hride hc)))

/-- Some vehicle has been boarded on the trail of a label if and only if an
event has been used there. -/
theorem Trail.lastConnection_iff (hq : q.Sound) {label : Label} {before : List Label}
    (h : Trail q settings measures (label :: before)) :
    label.lastConnection.isSome = true ↔ 0 < before.countP (·.boarding) := by
  refine Trail.along (P := fun label before =>
    label.lastConnection.isSome = true ↔ 0 < before.countP (·.boarding)) ?_ ?_ h
  · intro time htime
    exact ⟨fun h => Bool.noConfusion h, fun h => absurd h (Nat.lt_irrefl 0)⟩
  · intro id ref label before cost now trail href ht hnow hin ih
    exact ht.lastConnection_iff (trail.placed hq) ih

/-- Who is not allowed to wait has used no vehicle. -/
theorem Trail.lastConnection_of_pinned {label : Label} {before : List Label}
    (h : Trail q settings measures (label :: before)) (hp : label.pinned = true) :
    label.lastConnection = none := by
  refine Trail.along (P := fun label _ => label.pinned = true → label.lastConnection = none)
    ?_ ?_ h hp
  · intro time htime hp
    rfl
  · intro id ref label before cost now trail href ht hnow hin ih hp
    -- the first event that is used is the end of it
    have hp' : (label.pinned && cost.connection.isNone) = true := hp
    rw [Bool.and_eq_true, Option.isNone_iff_eq_none] at hp'
    rw [lastConnection_after, hp'.2, ih hp'.1]
    rfl

/-- What an edge adds to what has been spent. -/
def EdgeCost.adds (cost : EdgeCost) : Measure → Nat
  | .time => cost.time
  | .transfers => cost.transfer.toNat
  | .price => cost.price

theorem spent_after (hq : q.Sound) {id : LabelId} {label : Label} {before : List Label}
    {ref : EdgeRef} {cost : EdgeCost} {now : Time} (measure : Measure)
    (h : Trail q settings measures (label :: before))
    (href : ref ∈ q.graph.edgesAt label.node q.direction)
    (ht : Takes q.graph q.direction settings.maxMinutes label ref cost)
    (hnow : Run.timeAfter? label.now cost.time q.direction = some now) :
    spent q.graph (q.after id label ref cost now) (label :: before) measure =
      spent q.graph label before measure + cost.adds measure := by
  cases measure with
  | time => exact travelTime_after h.inOrder hnow
  | transfers =>
    have hiff := h.lastConnection_iff hq
    simp only [spent, EdgeCost.adds]
    rw [List.countP_cons]
    cases hb : label.boarding with
    | true =>
      -- boarding is a change, unless nothing has been boarded before
      rw [(ht.board_of_boarding (h.placed hq) hb).2]
      cases hl : label.lastConnection.isSome with
      | true =>
        have := hiff.1 hl
        simp only [if_true, Bool.toNat_true]
        omega
      | false =>
        have : ¬ 0 < before.countP (·.boarding) := fun hc => by
          rw [hiff.2 hc] at hl
          cases hl
        simp only [if_true, Bool.toNat_false]
        omega
    | false =>
      rw [(ht.of_not_boarding hb).1]
      rfl
  | price =>
    simp only [spent, EdgeCost.adds]
    rw [ht.price_eq hq.graph href, List.map_cons, List.sum_cons]
    show q.graph.fare ref cost.connection + _ = _
    omega

/-! ## The criteria -/

/-- Short of the ceiling a criterion adds up in full, and it never adds up to
more. -/
theorem spend_spec (cost : EdgeCost) (measure : Measure) (current : Nat) :
    Criterion.spend cost measure current ≤ current + cost.adds measure ∧
      (Criterion.spend cost measure current < Bounded.ceiling →
        Criterion.spend cost measure current = current + cost.adds measure) := by
  cases measure with
  | time =>
    simp only [Criterion.spend, EdgeCost.adds, Bounded.add]
    omega
  | transfers => exact ⟨Nat.le_refl _, fun _ => rfl⟩
  | price =>
    simp only [Criterion.spend, EdgeCost.adds, Bounded.add]
    omega

theorem lt_ceiling_of_boundOf {bounds : LowerBounds} {context : BoundContext} {measure : Measure}
    {current : Nat} (h : Criterion.boundOf bounds context measure current ≠ Bounded.ceiling) :
    current < Bounded.ceiling := by
  have hadd : ∀ b : Nat, Bounded.add current b ≠ Bounded.ceiling → current < Bounded.ceiling := by
    intro b hb
    unfold Bounded.add at hb
    omega
  cases measure with
  | time => exact hadd _ h
  | transfers =>
    unfold Criterion.boundOf Criterion.transferBound at h
    dsimp only at h
    split at h
    · exact absurd rfl h
    · exact hadd _ h
  | price => exact hadd _ h

theorem le_boundOf {bounds : LowerBounds} {context : BoundContext} {current : Nat}
    (measure : Measure) (h : current ≤ Bounded.ceiling) :
    current ≤ Criterion.boundOf bounds context measure current := by
  cases measure with
  | time => exact Bounded.le_add h
  | price => exact Bounded.le_add h
  | transfers =>
    unfold Criterion.boundOf Criterion.transferBound
    dsimp only
    split
    · exact h
    · exact Bounded.le_add h

/-- A label within the limits has no criterion at the ceiling. -/
theorem lowerBound_ne_ceiling {cs : Criteria} (h : cs.isBeyond settings = false) {c : Criterion}
    (hc : c ∈ cs) : c.lowerBound ≠ Bounded.ceiling := by
  intro heq
  have hbeyond : c.isBeyond settings = true := by
    unfold Criterion.isBeyond
    rw [heq]
    rfl
  have hnot := List.any_eq_false.1 h c hc
  exact hnot hbeyond

/-- No label of a trail is beyond a limit. -/
theorem Trail.not_isBeyond {label : Label} {before : List Label}
    (h : Trail q settings measures (label :: before)) :
    label.criteria.isBeyond settings = false := by
  cases h with
  | start time htime hin => exact hin
  | step id ref next label' before' trail hgoal href hnext hin => exact hin

/-- The criteria after an edge from a label whose criteria are what has been spent. -/
theorem Query.criteria_after {id : LabelId} {label : Label} {ref : EdgeRef} {cost : EdgeCost}
    {now : Time} {amount : Measure → Nat}
    (h : label.criteria = measures.map fun m =>
      Criterion.make q.bounds label.context m (amount m)) :
    (q.after id label ref cost now).criteria = measures.map fun m =>
      Criterion.make q.bounds (q.after id label ref cost now).context m
        (Criterion.spend cost m (amount m)) := by
  show Criteria.update q.bounds _ cost label.criteria = _
  rw [h, Criteria.update, List.map_map]
  rfl

/-- The criteria of a label are what its trail has spent, each with the bound
that belongs to it. -/
theorem Trail.criteria_eq (hq : q.Sound) {label : Label} {before : List Label}
    (h : Trail q settings measures (label :: before)) :
    label.criteria = measures.map fun m =>
      Criterion.make q.bounds label.context m (spent q.graph label before m) := by
  refine Trail.along (P := fun label before => label.criteria = measures.map fun m =>
    Criterion.make q.bounds label.context m (spent q.graph label before m)) ?_ ?_ h
  · intro time htime
    refine List.map_congr_left fun m _ => ?_
    have hzero : spent q.graph (Run.startLabel q measures time) [] m = 0 := by
      cases m with
      | time => exact Label.travelTime_atStart _ _ _ _ _
      | transfers => rfl
      | price => rfl
    rw [hzero]
    rfl
  · intro id ref label before cost now trail href ht hnow hin ih
    have hupdate : (q.after id label ref cost now).criteria = _ := Query.criteria_after ih
    rw [hupdate]
    refine List.map_congr_left fun m hm => ?_
    -- a criterion that has come to the ceiling would be beyond the limits
    have hlt : Criterion.spend cost m (spent q.graph label before m) < Bounded.ceiling := by
      have hmem := List.mem_map_of_mem (f := fun m =>
        Criterion.make q.bounds (q.after id label ref cost now).context m
          (Criterion.spend cost m (spent q.graph label before m))) hm
      rw [← hupdate] at hmem
      exact lt_ceiling_of_boundOf (lowerBound_ne_ceiling hin hmem)
    rw [spent_after hq m trail href ht hnow, (spend_spec _ _ _).2 hlt]

end Trail

end JourneyPlanner
