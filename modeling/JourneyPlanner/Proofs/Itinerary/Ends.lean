import JourneyPlanner.Proofs.Itinerary.Stops
import JourneyPlanner.Proofs.Search.Progress

/-!
# When a journey leaves and when it ends

Before a trip nobody waits for the first vehicle. Until a label has used one it is pinned, and
every edge takes it just as long as the edge is (`Takes.key_of_pinned`). So the first time that
is written down at the end where the search started is the right one. Going forward that is when
the journey leaves (`Trail.leaves_forward`). Going backward it is when the journey ends, unless
it ends with walks that end where they begin: these lead to no new stop, and what is written
down then is too early by their minutes (`roundMinutes`, `Trail.ending`).

At the other end the search comes to its goal from somewhere else (`Trail.not_isRound`), so
that nothing is missing there. All this is put together in `Trail.times`.
-/

namespace JourneyPlanner

/-- Whether a step is a walk or a night that ends where it begins. -/
def Step.isRound (graph : QueryGraph) (step : Step) : Bool :=
  (graph.edge step.edge).kind.isWalk &&
    (graph.timetable.node (graph.edge step.edge).tail).stationIndex ==
      (graph.timetable.node (graph.edge step.edge).head).stationIndex

/-- The minutes of the walks at the end of a journey that end where they begin. -/
def roundMinutes (graph : QueryGraph) (steps : List Step) : Nat :=
  ((steps.reverse.takeWhile (Step.isRound graph)).map fun step => step.atHead - step.atTail).sum

section Round

variable {graph : QueryGraph} {step : Step} {steps : List Step}

theorem Step.isRound_iff : step.isRound graph = true ↔
    (graph.edge step.edge).kind.isWalk = true ∧
      (graph.timetable.node (graph.edge step.edge).tail).stationIndex =
        (graph.timetable.node (graph.edge step.edge).head).stationIndex := by
  unfold Step.isRound
  rw [Bool.and_eq_true, beq_iff_eq]

/-- A walk that is not round leads to another station. -/
theorem Step.stationIndex_ne (h : step.isRound graph = false)
    (hwalk : (graph.edge step.edge).kind.isWalk = true) :
    (graph.timetable.node (graph.edge step.edge).tail).stationIndex ≠
      (graph.timetable.node (graph.edge step.edge).head).stationIndex := by
  intro hsame
  rw [Step.isRound_iff.2 ⟨hwalk, hsame⟩] at h
  cases h

/-- A step over an edge that is no walk is not round. -/
theorem Step.isRound_of_not_isWalk (h : (graph.edge step.edge).kind.isWalk = false) :
    step.isRound graph = false := by
  unfold Step.isRound
  rw [h, Bool.false_and]

theorem roundMinutes_cons_of_not (h : step.isRound graph = false) :
    roundMinutes graph (step :: steps) = roundMinutes graph steps := by
  unfold roundMinutes
  rw [List.reverse_cons, List.takeWhile_append]
  split
  · next hall =>
    rw [List.takeWhile_cons_of_neg (by rw [h]; exact Bool.false_ne_true), List.append_nil,
      (List.takeWhile_prefix _).eq_of_length hall]
  · rfl

theorem roundMinutes_cons_of_exists (h : ∃ s ∈ steps, s.isRound graph = false) :
    roundMinutes graph (step :: steps) = roundMinutes graph steps := by
  unfold roundMinutes
  rw [List.reverse_cons, List.takeWhile_append, if_neg]
  intro hall
  obtain ⟨s, hs, hnot⟩ := h
  have hround := List.takeWhile_eq_self_iff.1 ((List.takeWhile_prefix _).eq_of_length hall) s
    (List.mem_reverse.2 hs)
  rw [hnot] at hround
  cases hround

theorem roundMinutes_cons_of_all (h : step.isRound graph = true)
    (hall : ∀ s ∈ steps, s.isRound graph = true) :
    roundMinutes graph (step :: steps) =
      roundMinutes graph steps + (step.atHead - step.atTail) := by
  have hreverse : ∀ s ∈ steps.reverse, s.isRound graph = true :=
    fun s hs => hall s (List.mem_reverse.1 hs)
  unfold roundMinutes
  rw [List.reverse_cons, List.takeWhile_append_of_pos hreverse,
    List.takeWhile_eq_self_iff.2 hreverse, List.takeWhile_cons_of_pos h, List.map_append,
    List.sum_append]
  rfl

end Round

/-! ## Steps before the first vehicle -/

section Takes

variable {q : Query} {settings : Settings} {measures : List Measure} {label : Label}
  {before : List Label} {ref : EdgeRef} {cost : EdgeCost}

theorem Label.Placed.ride_eq_none {nodes : Array Node} (h : label.Placed nodes)
    (hnone : label.lastConnection = none) : label.ride = none := by
  by_contra hride
  exact h.ridden hride hnone

/-- A pinned label boards only what it meets at once. -/
theorem Takes.key_of_pinned {graph : QueryGraph} (hg : graph.Sound) {id : EdgeId}
    {legs : Array Leg} {direction : Direction} {horizon : Nat} {event : Event}
    (href : EdgeRef.timetable id ∈ graph.edgesAt label.node direction)
    (hkind : (graph.edge (.timetable id)).kind = .route legs)
    (hfind : (label.boardable graph.timetable legs direction horizon).find?
      (label.inTime graph.timetable direction) = some event) (hpinned : label.pinned = true) :
    event.key direction = label.now := by
  obtain ⟨-, -, -, -, hbegin, hfinish⟩ := boardable_spec hg href hkind hfind
  unfold Timetable.boardingWindow at hbegin hfinish
  rw [hpinned] at hbegin hfinish
  have hbegin : label.now ≤ event.key direction := hbegin
  have hfinish : event.key direction < Bounded.add label.now 1 := hfinish
  unfold Bounded.add at hfinish
  simp only [Time] at hbegin hfinish ⊢
  omega

/-- Who is on a vehicle after an edge has come to the end of a section, and the ride is written
down, or has gone on over a through edge at once, and nothing is. -/
theorem Takes.riding_cases (hq : q.graph.Sound) {id : LabelId} {now : Time}
    (hl : label.Riding q.graph q.direction) (href : ref ∈ q.graph.edgesAt label.node q.direction)
    (ht : Takes q.graph q.direction settings.maxMinutes label ref cost)
    (hnow : Run.timeAfter? label.now cost.time q.direction = some now)
    (hride : (q.after id label ref cost now).ride ≠ none) {step : Step} {direction : Direction}
    {d d' : Draft} (hedge : step.edge = ref) (hconnection : step.connection = cost.connection)
    (htake : d.take q.graph direction step = .ok d') :
    (∃ event, now = event.past q.direction ∧
      d' = d.rideTo q.graph.timetable event (q.graph.edge ref).head) ∨
    label.ride ≠ none ∧ now = label.now ∧ d' = d := by
  cases hc : cost.connection with
  | some used =>
    obtain ⟨eid, legs, event, transfer, rfl, hkind, hat, -, hahead, rfl⟩ :=
      ht.section_spec hq hl href hc
    cases hc
    have hle := (hq.departure_le href hkind hat).2
    rw [← hedge] at hkind ⊢
    rw [Draft.take_route _ _ hkind hconnection hat] at htake
    cases htake
    exact Or.inl ⟨event, Event.past_of_timeAfter? hle hahead hnow, rfl⟩
  | none =>
    cases ht with
    | through trips ride trip hkind hold htrip =>
      rw [← hedge] at hkind
      rw [Draft.take_through _ _ hkind] at htake
      cases htake
      refine Or.inr ⟨?_, eq_of_timeAfter?_zero hnow, rfl⟩
      rw [hold]
      exact Option.some_ne_none ride
    | stay | board => cases hc
    | access | egress | foot | mumo | hotel => exact absurd rfl hride

end Takes

/-! ## The first departure and the last arrival -/

namespace Draft

/-- The first stop has a departure, at the given time. -/
def Leaves (tt : Timetable) (d : Draft) (time : Time) : Prop :=
  ∃ stop event, d.stops[0]? = some stop ∧ stop.departure = some event ∧
    event.time = tt.period.toInstant time

/-- The present stop has an arrival, at the given time. -/
def Arrives (tt : Timetable) (d : Draft) (time : Time) : Prop :=
  ∃ event, d.here.arrival = some event ∧ event.time = tt.period.toInstant time

/-- The first stop is the present one, and nothing has left it. -/
structure Fresh (d : Draft) : Prop where
  past_eq : d.past = []
  departure_eq : d.here.departure = none

variable {d d' : Draft} {tt : Timetable} {time : Time}

theorem Extends.leaves (h : d.Extends d') (hl : d.Leaves tt time) : d'.Leaves tt time := by
  obtain ⟨stop, event, hstop, hdeparture, htime⟩ := hl
  obtain ⟨stop', hstop', hkeeps⟩ := h.stop 0 stop hstop
  exact ⟨stop', event, hstop', hkeeps.departure event hdeparture, htime⟩

/-- A finished journey leaves when its draft does. -/
theorem Leaves.departureTime?_eq (h : d.Leaves tt time) {duration : Nat} {journey : Journey}
    (hf : d.finish duration = .ok journey) :
    journey.departureTime? = some (tt.period.toInstant time) := by
  obtain ⟨stop, event, hstop, hdeparture, htime⟩ := h
  unfold Journey.departureTime?
  rw [(finish_parts hf).1]
  cases hs : d.stops with
  | nil =>
    rw [hs] at hstop
    cases hstop
  | cons first rest =>
    rw [hs] at hstop
    cases hstop
    rw [List.findSome?_cons, hdeparture, ← htime]
    rfl

/-- A finished journey ends when a vehicle or a walk has arrived at the last stop. -/
theorem Arrives.arrivalTime?_eq (h : d.Arrives tt time) {duration : Nat} {journey : Journey}
    (hf : d.finish duration = .ok journey) :
    journey.arrivalTime? = some (tt.period.toInstant time) := by
  obtain ⟨event, harrival, htime⟩ := h
  unfold Journey.arrivalTime?
  rw [(finish_parts hf).1, stops, List.reverse_reverse, List.findSome?_cons, harrival, ← htime]
  rfl

theorem Fresh.leaves (h : d.Fresh) (track : Option TrackId) :
    (d.depart (eventAt tt time track)).Leaves tt time := by
  refine ⟨(d.depart (eventAt tt time track)).here, eventAt tt time track, ?_, ?_, rfl⟩
  · rw [stops_eq]
    show (d.past.reverse ++ _)[0]? = _
    rw [h.past_eq]
    rfl
  · show d.here.departure.or _ = _
    rw [h.departure_eq]
    rfl

theorem start_fresh (tt : Timetable) (node : NodeId) : (start tt node).Fresh := by
  refine ⟨rfl, ?_⟩
  show (stopAt tt node).departure = none
  unfold stopAt
  split <;> rfl

theorem Fresh.board (h : d.Fresh) : d.board.Fresh := ⟨h.past_eq, h.departure_eq⟩

/-- The first section of a journey makes it leave. -/
theorem Fresh.rideTo (h : d.Fresh) (event : Event) (node : NodeId) :
    (d.rideTo tt event node).Leaves tt event.departure :=
  (d.rideTo_spec tt event node).1.leaves (h.leaves _)

theorem rideTo_arrives (tt : Timetable) (d : Draft) (event : Event) (node : NodeId) :
    (d.rideTo tt event node).Arrives tt event.arrival :=
  ⟨_, congrArg Stop.arrival (d.rideTo_spec tt event node).2, rfl⟩

end Draft

/-! ## Walks -/

/-- A step over an edge is written down as a walk of so many minutes. -/
structure QueryGraph.Walks (graph : QueryGraph) (ref : EdgeRef) (minutes : Nat) : Prop where
  isWalk : (graph.edge ref).kind.isWalk = true
  take : ∃ price kind, ∀ (d : Draft) (direction : Direction) (step : Step), step.edge = ref →
    d.take graph direction step =
      .ok (d.walk graph.timetable direction step (graph.edge ref) minutes price kind)

namespace QueryGraph

variable {graph : QueryGraph} {ref : EdgeRef} {minutes : Nat} {direction : Direction}
  {step : Step} {d d' : Draft}

theorem walks_of_foot {price : Nat} (hkind : (graph.edge ref).kind = .foot minutes price) :
    graph.Walks ref minutes := by
  refine ⟨congrArg EdgeKind.isWalk hkind, price, .foot, fun d direction step hstep => ?_⟩
  subst hstep
  exact Draft.take_foot direction step hkind

theorem walks_of_mumo {ride : Mumo} (hkind : (graph.edge ref).kind = .mumo ride) :
    graph.Walks ref ride.duration := by
  refine ⟨congrArg EdgeKind.isWalk hkind, ride.price, .mumo ride.id ride.name,
    fun d direction step hstep => ?_⟩
  subst hstep
  exact Draft.take_mumo direction step hkind

/-- The first walk of a journey makes it leave. -/
theorem Walks.leaves (h : graph.Walks step.edge minutes) (hfresh : d.Fresh)
    (htake : d.take graph direction step = .ok d') :
    d'.Leaves graph.timetable (Draft.walkTimes step minutes direction).1 := by
  obtain ⟨price, kind, hwalk⟩ := h.take
  rw [hwalk d direction step rfl] at htake
  cases htake
  exact (d.walk_spec _ _ _ _ _ _ _).1.leaves (hfresh.leaves _)

/-- The arrival at the present stop after a walk: a walk that ends where it begins says nothing
of its end. -/
theorem Walks.arrival_eq (h : graph.Walks step.edge minutes)
    (htake : d.take graph direction step = .ok d') :
    d'.here.arrival = if step.isRound graph then d.here.arrival else
      some (Draft.eventAt graph.timetable (Draft.walkTimes step minutes direction).2 none) := by
  obtain ⟨price, kind, hwalk⟩ := h.take
  rw [hwalk d direction step rfl] at htake
  cases htake
  have hhere := (d.walk_spec graph.timetable direction step (graph.edge step.edge) minutes price
    kind).2.2
  cases hround : step.isRound graph with
  | true =>
    rw [if_pos (Step.isRound_iff.1 hround).2] at hhere
    exact (congrArg Stop.arrival hhere).trans rfl
  | false =>
    rw [if_neg (Step.stationIndex_ne hround h.isWalk)] at hhere
    exact congrArg Stop.arrival hhere

/-- A walk to another station ends there. -/
theorem Walks.arrives (h : graph.Walks step.edge minutes) (hnot : step.isRound graph = false)
    (htake : d.take graph direction step = .ok d') :
    d'.Arrives graph.timetable (Draft.walkTimes step minutes direction).2 := by
  have harrival := h.arrival_eq htake
  rw [if_neg (by rw [hnot]; exact Bool.false_ne_true)] at harrival
  exact ⟨_, harrival, rfl⟩

end QueryGraph

/-! ## Trails -/

section Trail

variable {q : Query} {settings : Settings} {measures : List Measure} {label : Label}
  {before : List Label} {d : Draft}

/-- Whoever is pinned goes to a vehicle, boards one at once or walks at once. -/
theorem Trail.pinned_cases (hq : q.Sound) (id : LabelId) {ref : EdgeRef} {cost : EdgeCost}
    {now : Time} (h : Trail q settings measures (label :: before)) (hpinned : label.pinned = true)
    (href : ref ∈ q.graph.edgesAt label.node q.direction)
    (ht : Takes q.graph q.direction settings.maxMinutes label ref cost)
    (hnow : Run.timeAfter? label.now cost.time q.direction = some now) :
    ((q.graph.edge ref).kind = q.direction.access ∧ now = label.now ∧
        (q.after id label ref cost now).boarding = true ∧
        (q.after id label ref cost now).pinned = true) ∨
    (∃ legs used event, (q.graph.edge ref).kind = .route legs ∧ cost.connection = some used ∧
        Event.at? legs used.trip used.day = some event ∧ event.key q.direction = label.now) ∨
    (label.OnFoot ∧ (q.after id label ref cost now).pinned = true ∧
        ∃ minutes, q.graph.Walks ref minutes ∧ q.direction.Passes label.now minutes now) := by
  have hride := (h.placed hq).ride_eq_none (h.lastConnection_of_pinned hpinned)
  have hpass := passes_of_timeAfter? hnow
  have hstays : cost.connection = none → (q.after id label ref cost now).pinned = true := by
    intro hnone
    show (label.pinned && cost.connection.isNone) = true
    rw [hpinned, hnone]
    rfl
  cases ht with
  | access hkind => exact Or.inl ⟨hkind, eq_of_timeAfter?_zero hnow, rfl, hstays rfl⟩
  | board eid legs event hid hkind hnone hboarding hfind =>
    subst hid
    exact Or.inr (Or.inl ⟨legs, _, event, hkind, rfl,
      (boardable_spec hq.graph href hkind hfind).2.1,
      Takes.key_of_pinned hq.graph href hkind hfind hpinned⟩)
  | foot minutes price hkind hfoot =>
    exact Or.inr (Or.inr ⟨hfoot, hstays rfl, minutes, QueryGraph.walks_of_foot hkind, hpass⟩)
  | mumo ride time hkind hfoot htime hsame =>
    rw [hsame hpinned] at hpass
    exact Or.inr (Or.inr ⟨hfoot, hstays rfl, _, QueryGraph.walks_of_mumo hkind, hpass⟩)
  | hotel stay hkind hfoot hfirst hfree =>
    rw [hpinned] at hfree
    cases hfree
  | egress ride hkind hsome | stay eid legs ride event hid hkind hsome
  | through trips ride trip hkind hsome =>
    rw [hride] at hsome
    cases hsome

theorem Label.edge_stepTo {direction : Direction} {older newer : Label} {ref : EdgeRef} :
    (older.stepTo direction newer ref).edge = ref := by
  cases direction <;> rfl

/-- The goal is reached from somewhere else. -/
theorem Trail.node_ne_of_isGoal {next : Label}
    (h : Trail q settings measures (next :: label :: before))
    (hgoal : q.target.isGoal next = true) : next.node ≠ label.node := by
  intro heq
  cases h with
  | step id ref _ _ _ trail hnot href hnext hin =>
    obtain ⟨cost, now, -, -, rfl⟩ := expandEdge_eq_some_iff.1 hnext
    -- arriving once more passes no station, so the older label was at the goal already
    have hprogress : (q.after id label ref cost now).progress = label.progress := by
      show q.target.advance (q.after id label ref cost now).node label.progress = _
      rw [heq, trail.advance_eq]
    unfold Target.isGoal at hgoal hnot
    rw [hprogress, heq, hnot] at hgoal
    cases hgoal

/-- A round step leads from a node to itself. -/
theorem Step.tail_eq_head_of_isRound (hq : q.graph.Sound) (hone : q.graph.timetable.OneNode)
    {step : Step} {node : NodeId} {direction : Direction}
    (href : step.edge ∈ q.graph.edgesAt node direction) (h : step.isRound q.graph = true) :
    (q.graph.edge step.edge).tail = (q.graph.edge step.edge).head := by
  obtain ⟨hwalk, hsame⟩ := Step.isRound_iff.1 h
  have hfits := (hq.fits href).1
  have htail : Node.IsStation q.graph.timetable.nodes
      ((q.graph.edge step.edge).target .backward) := hfits.walk hwalk
  have hhead : Node.IsStation q.graph.timetable.nodes
      ((q.graph.edge step.edge).target .forward) := hfits.walk hwalk
  exact hone _ _ htail hhead hsame

/-! ### Going forward -/

/-- Going forward a journey leaves at the start, as soon as it leaves at all. -/
theorem Trail.leaves_forward (hq : q.Sound) (hpre : q.tripType = .preTrip)
    (hd : q.direction = .forward) (h : Trail q settings measures (label :: before))
    (node : NodeId) : ∀ d, (stepsBack .forward (label :: before)).reverse.foldlM
      (Draft.take q.graph .forward) (Draft.start q.graph.timetable node) = .ok d →
    (d.Fresh ∧ label.now = label.start ∧ label.pinned = true ∧
        (label.OnFoot → before = [])) ∨
      d.Leaves q.graph.timetable label.start := by
  refine Trail.along (P := fun label before => ∀ d,
    (stepsBack .forward (label :: before)).reverse.foldlM (Draft.take q.graph .forward)
      (Draft.start q.graph.timetable node) = .ok d →
    (d.Fresh ∧ label.now = label.start ∧ label.pinned = true ∧
        (label.OnFoot → before = [])) ∨
      d.Leaves q.graph.timetable label.start) ?_ ?_ h
  · intro time htime d hfold
    cases hfold
    refine Or.inl ⟨Draft.start_fresh _ _, rfl, ?_, fun _ => rfl⟩
    show (q.tripType == .preTrip) = true
    rw [hpre]
    rfl
  · intro id ref label before cost now trail href ht hnow hin ih d hfold
    obtain ⟨d₁, hfold₁, htake⟩ := Draft.foldlM_forward rfl hfold
    rcases ih d₁ hfold₁ with ⟨hfresh, hstart, hpinned, -⟩ | hleaves
    · rcases trail.pinned_cases hq id hpinned href ht hnow with
        ⟨hkind, htime, hboarding, hstays⟩ | ⟨legs, used, event, hkind, hused, hat, hkey⟩ |
          ⟨-, -, minutes, hwalks, hpass⟩
      · rw [hd] at hkind
        rw [Draft.take_enter _ _ hkind] at htake
        cases htake
        refine Or.inl ⟨hfresh.board, htime.trans hstart, hstays, fun hf => ?_⟩
        rw [hf.2] at hboarding
        cases hboarding
      · rw [Draft.take_route _ _ hkind hused hat] at htake
        cases htake
        rw [hd] at hkey
        have hdeparture : event.departure = label.start := hkey.trans hstart
        refine Or.inr ?_
        show Draft.Leaves _ _ label.start
        rw [← hdeparture]
        exact hfresh.rideTo event _
      · have hleaves := QueryGraph.Walks.leaves hwalks hfresh htake
        rw [hd] at hpass
        have hpass : now = label.now + minutes := hpass
        have htime : now - minutes = label.start := by
          simp only [Time] at hpass hstart ⊢
          omega
        refine Or.inr ?_
        show Draft.Leaves _ _ label.start
        rw [← htime]
        exact hleaves
    · exact Or.inr ((Draft.take_extends htake).leaves hleaves)

/-- Going forward, a vehicle has arrived at the present stop when its label is there. -/
theorem Trail.arrives_forward (hq : q.Sound) (hd : q.direction = .forward)
    (h : Trail q settings measures (label :: before)) (first : Draft) : ∀ d,
    (stepsBack .forward (label :: before)).reverse.foldlM (Draft.take q.graph .forward) first =
      .ok d → label.ride ≠ none → d.Arrives q.graph.timetable label.now := by
  refine Trail.along (P := fun label before => ∀ d,
    (stepsBack .forward (label :: before)).reverse.foldlM (Draft.take q.graph .forward) first =
      .ok d → label.ride ≠ none → d.Arrives q.graph.timetable label.now) ?_ ?_ h
  · intro time htime d hfold hride
    exact absurd rfl hride
  · intro id ref label before cost now trail href ht hnow hin ih d hfold hride
    obtain ⟨d₁, hfold₁, htake⟩ := Draft.foldlM_forward rfl hfold
    rcases ht.riding_cases hq.graph (trail.riding hq.graph) href hnow hride rfl rfl htake with
      ⟨event, htime, rfl⟩ | ⟨hold, htime, rfl⟩
    · rw [hd] at htime
      have htime : (q.after id label ref cost now).now = event.arrival := htime
      rw [htime]
      exact Draft.rideTo_arrives _ _ event _
    · have htime : (q.after id label ref cost now).now = label.now := htime
      rw [htime]
      exact ih _ hfold₁ hold

/-! ### Going backward -/

/-- Going backward, a journey that begins on a vehicle leaves when its label is there. -/
theorem Trail.leaves_backward (hq : q.Sound) (hd : q.direction = .backward)
    (h : Trail q settings measures (label :: before)) : ∀ d d' : Draft, d.Fresh →
    label.ride ≠ none →
    (stepsBack .backward (label :: before)).foldlM (Draft.take q.graph .backward) d = .ok d' →
    d'.Leaves q.graph.timetable label.now := by
  refine Trail.along (P := fun label before => ∀ d d' : Draft, d.Fresh → label.ride ≠ none →
    (stepsBack .backward (label :: before)).foldlM (Draft.take q.graph .backward) d = .ok d' →
    d'.Leaves q.graph.timetable label.now) ?_ ?_ h
  · intro time htime d d' hfresh hride
    exact absurd rfl hride
  · intro id ref label before cost now trail href ht hnow hin ih d d' hfresh hride hfold
    obtain ⟨d₁, htake, hrest⟩ := Draft.foldlM_backward rfl hfold
    rcases ht.riding_cases hq.graph (trail.riding hq.graph) href hnow hride rfl rfl htake with
      ⟨event, htime, rfl⟩ | ⟨hold, htime, rfl⟩
    · rw [hd] at htime
      have htime : (q.after id label ref cost now).now = event.departure := htime
      rw [htime]
      exact (Draft.foldlM_extends hrest).leaves (hfresh.rideTo event _)
    · have htime : (q.after id label ref cost now).now = label.now := htime
      rw [htime]
      exact ih _ _ hfresh hold hrest

/-- How a journey ends that a search backward has written so far. As long as nothing but
round walks lies behind a label, the journey ends as it stands there; after that it ends at a
time that differs from the start by the minutes of those walks. -/
inductive Trail.Ending (q : Query) (label : Label) (steps : List Step) : Prop
  | still (hpinned : label.pinned = true)
      (htime : label.now + roundMinutes q.graph steps = label.start)
      (hround : label.OnFoot → ∀ step ∈ steps, step.isRound q.graph = true)
      (hkeep : ∀ d d' : Draft, steps.foldlM (Draft.take q.graph .backward) d = .ok d' →
        d'.here.arrival = d.here.arrival)
  | ended (time : Time) (htime : time + roundMinutes q.graph steps = label.start)
      (hleft : ∃ step ∈ steps, step.isRound q.graph = false)
      (hends : ∀ d d' : Draft, steps.foldlM (Draft.take q.graph .backward) d = .ok d' →
        d'.Arrives q.graph.timetable time)

namespace Trail.Ending

variable {next : Label} {step : Step} {steps : List Step}

/-- What comes before the end of a journey does not change it. -/
theorem further {time : Time} (hstart : next.start = label.start)
    (htime : time + roundMinutes q.graph steps = label.start)
    (hleft : ∃ step ∈ steps, step.isRound q.graph = false)
    (hends : ∀ d d' : Draft, steps.foldlM (Draft.take q.graph .backward) d = .ok d' →
      d'.Arrives q.graph.timetable time) : Ending q next (step :: steps) := by
  obtain ⟨s, hs, hnot⟩ := hleft
  refine .ended time ?_ ⟨s, List.mem_cons_of_mem _ hs, hnot⟩ fun d d' hfold => ?_
  · rw [roundMinutes_cons_of_exists ⟨s, hs, hnot⟩, htime, hstart]
  · rw [List.foldlM_cons] at hfold
    obtain ⟨d₁, -, hfold⟩ := Fallible.bind_eq_ok.1 hfold
    exact hends d₁ d' hfold

variable (hstart : next.start = label.start)
  (htime : label.now + roundMinutes q.graph steps = label.start)
  (hkeep : ∀ d d' : Draft, steps.foldlM (Draft.take q.graph .backward) d = .ok d' →
    d'.here.arrival = d.here.arrival)

include hstart htime hkeep

/-- A step after which the next label stands brings the journey to an end there, unless it is
a round walk. -/
theorem arrive (hnot : step.isRound q.graph = false)
    (harrives : ∀ d d₁ : Draft, d.take q.graph .backward step = .ok d₁ →
      d₁.Arrives q.graph.timetable label.now) : Ending q next (step :: steps) := by
  refine .ended label.now ?_ ⟨step, List.mem_cons_self, hnot⟩ fun d d' hfold => ?_
  · rw [roundMinutes_cons_of_not hnot, htime, hstart]
  · rw [List.foldlM_cons] at hfold
    obtain ⟨d₁, htake, hfold⟩ := Fallible.bind_eq_ok.1 hfold
    obtain ⟨event, harrival, hinstant⟩ := harrives d d₁ htake
    exact ⟨event, (hkeep d₁ d' hfold).trans harrival, hinstant⟩

/-- A walk brings the journey to an end, unless it ends where it begins. -/
theorem walk {minutes : Nat} (hceiling : label.now ≤ Bounded.ceiling)
    (hround : ∀ step ∈ steps, step.isRound q.graph = true) (hpinned : next.pinned = true)
    (htail : step.atTail = next.now) (hhead : step.atHead = label.now)
    (hpass : label.now = next.now + minutes) (hwalks : q.graph.Walks step.edge minutes) :
    Ending q next (step :: steps) := by
  cases hr : step.isRound q.graph with
  | true =>
    refine .still hpinned ?_ (fun _ s hs => ?_) fun d d' hfold => ?_
    · rw [roundMinutes_cons_of_all hr hround, hstart, htail, hhead]
      simp only [Time] at htime hpass ⊢
      omega
    · rcases List.mem_cons.1 hs with rfl | hs
      · exact hr
      · exact hround s hs
    · rw [List.foldlM_cons] at hfold
      obtain ⟨d₁, htake, hfold⟩ := Fallible.bind_eq_ok.1 hfold
      exact (hkeep d₁ d' hfold).trans ((hwalks.arrival_eq htake).trans (if_pos hr))
  | false =>
    refine arrive hstart htime hkeep hr fun d d₁ htake => ?_
    have hends : (Draft.walkTimes step minutes .backward).2 = label.now := by
      show Bounded.add step.atTail minutes = label.now
      rw [htail, Bounded.add_eq_of_le (by rw [← hpass]; exact hceiling), hpass]
    rw [← hends]
    exact hwalks.arrives hr htake

end Trail.Ending

/-- Going backward, a journey ends at the start of the search but for round walks. -/
theorem Trail.ending (hq : q.Sound) (hpre : q.tripType = .preTrip) (hd : q.direction = .backward)
    (hceiling : ∀ time ∈ q.startTimes, time ≤ Bounded.ceiling)
    (h : Trail q settings measures (label :: before)) :
    Trail.Ending q label (stepsBack .backward (label :: before)) := by
  refine Trail.along (P := fun label before =>
    Trail.Ending q label (stepsBack .backward (label :: before))) ?_ ?_ h
  · intro time htime
    refine .still ?_ rfl (fun _ step hs => absurd hs List.not_mem_nil) fun d d' hfold => ?_
    · show (q.tripType == .preTrip) = true
      rw [hpre]
      rfl
    · cases hfold
      rfl
  · intro id ref label before cost now trail href ht hnow hin ih
    have hsteps : stepsBack .backward (q.after id label ref cost now :: label :: before) =
        label.stepTo .backward (q.after id label ref cost now) ref ::
          stepsBack .backward (label :: before) := rfl
    have hstart : (q.after id label ref cost now).start = label.start := rfl
    rw [hsteps]
    cases ih with
    | ended time htime hleft hends => exact .further hstart htime hleft hends
    | still hpinned htime hround hkeep =>
      rcases trail.pinned_cases hq id hpinned href ht hnow with
        ⟨hkind, hsame, hboarding, hstays⟩ | ⟨legs, used, event, hkind, hused, hat, hkey⟩ |
          ⟨hfoot, hstays, minutes, hwalks, hpass⟩
      · rw [hd] at hkind
        have hnot : (label.stepTo .backward (q.after id label ref cost now) ref).isRound q.graph =
            false := Step.isRound_of_not_isWalk (congrArg EdgeKind.isWalk hkind)
        refine .still hstays ?_ (fun hf => ?_) fun d d' hfold => ?_
        · rw [roundMinutes_cons_of_not hnot]
          rw [← hsame] at htime
          exact htime
        · rw [hf.2] at hboarding
          cases hboarding
        · rw [List.foldlM_cons, Draft.take_exit _ _ hkind] at hfold
          obtain ⟨d₁, hleave, hfold⟩ := Fallible.bind_eq_ok.1 hfold
          obtain ⟨ride, -, rfl⟩ := Draft.leave_eq_ok hleave
          exact (hkeep _ d' hfold).trans rfl
      · rw [hd] at hkey
        have hkey : event.arrival = label.now := hkey
        refine Trail.Ending.arrive hstart htime hkeep
          (Step.isRound_of_not_isWalk (congrArg EdgeKind.isWalk hkind)) fun d d₁ htake => ?_
        rw [Draft.take_route _ _ hkind hused hat] at htake
        cases htake
        rw [← hkey]
        exact Draft.rideTo_arrives _ _ event _
      · have horder := trail.inOrder
        rw [hd] at horder hpass
        have hle : label.now ≤ Bounded.ceiling :=
          Nat.le_trans horder (hceiling _ trail.start_mem)
        exact Trail.Ending.walk hstart htime hkeep hle (hround hfoot) hstays rfl rfl hpass hwalks

/-! ### Both directions -/

/-- The minutes at the end of a journey that it does not show. -/
def Query.unseen (q : Query) (steps : List Step) : Nat :=
  match q.direction with
  | .forward => 0
  | .backward => roundMinutes q.graph steps

theorem Query.unseen_eq_zero_iff {steps : List Step} :
    q.unseen steps = 0 ↔ q.direction = .forward ∨ roundMinutes q.graph steps = 0 := by
  unfold Query.unseen
  cases q.direction <;> simp

/-- Of the two ends of a journey, the one at which the search started. -/
def Direction.due {α : Type} (direction : Direction) (departure arrival : α) : α :=
  match direction with
  | .forward => departure
  | .backward => arrival

theorem Direction.due_map {α β : Type} (f : α → β) (direction : Direction)
    (departure arrival : α) :
    direction.due (f departure) (f arrival) = f (direction.due departure arrival) := by
  cases direction <;> rfl

/-- The step to the goal is not round. -/
theorem Trail.not_isRound (hq : q.Sound) (hone : q.graph.timetable.OneNode) {next : Label}
    (h : Trail q settings measures (next :: label :: before))
    (hgoal : q.target.isGoal next = true) {ref : EdgeRef} (hedge : next.edge = some ref) :
    (label.stepTo q.direction next ref).isRound q.graph = false := by
  have hne := h.node_ne_of_isGoal hgoal
  cases h with
  | step id ref' _ _ _ trail hnot href hnext hin =>
    obtain ⟨cost, now, -, -, rfl⟩ := expandEdge_eq_some_iff.1 hnext
    cases hedge
    rw [← Bool.not_eq_true]
    intro hround
    have hstep : (label.stepTo q.direction (q.after id label ref cost now) ref).edge = ref :=
      Label.edge_stepTo
    have heq := Step.tail_eq_head_of_isRound hq.graph hone (by rw [hstep]; exact href) hround
    rw [hstep] at heq
    refine hne ?_
    show (q.graph.edge ref).target q.direction = label.node
    rw [← (hq.graph.fits href).2]
    cases q.direction
    · exact heq.symm
    · exact heq

/-- The goal is reached in getting off a vehicle or on a walk. -/
theorem Trail.last_step (hq : q.Sound) (hone : q.graph.timetable.OneNode) {next : Label}
    (h : Trail q settings measures (next :: label :: before))
    (hgoal : q.target.isGoal next = true) :
    ∃ ref, next.edge = some ref ∧
      ((q.graph.edge ref).kind = q.direction.egress ∧ label.ride ≠ none ∧
          next.now = label.now ∨
        ∃ minutes, q.graph.Walks (label.stepTo q.direction next ref).edge minutes) := by
  have hfoot := h.onFoot_of_isGoal hq hgoal
  have hround : ∀ ref, next.edge = some ref →
      (label.stepTo q.direction next ref).isRound q.graph = false :=
    fun ref => h.not_isRound hq hone hgoal
  cases h with
  | step id ref _ _ _ trail hnot href hnext hin =>
    obtain ⟨cost, now, ht, hnow, rfl⟩ := expandEdge_eq_some_iff.1 hnext
    refine ⟨ref, rfl, ?_⟩
    rw [Label.edge_stepTo]
    cases ht with
    | access => exact Bool.noConfusion hfoot.2
    | stay | board | through => cases hfoot.1
    | egress ride hkind hride =>
      refine Or.inl ⟨hkind, ?_, eq_of_timeAfter?_zero hnow⟩
      rw [hride]
      exact Option.some_ne_none ride
    | foot minutes price hkind => exact Or.inr ⟨minutes, QueryGraph.walks_of_foot hkind⟩
    | mumo ride time hkind => exact Or.inr ⟨ride.duration, QueryGraph.walks_of_mumo hkind⟩
    | hotel stay hkind =>
      -- a night leads nowhere
      have hsame := (hq.graph.fits href).1.hotel hkind
      refine absurd ?_ (Step.stationIndex_ne (hround ref rfl)
        (by rw [Label.edge_stepTo, hkind]; rfl))
      rw [Label.edge_stepTo, hsame]

/-- A journey found forward leaves at the start of its search and ends where that has come. -/
theorem Trail.times_forward (hq : q.Sound) (hone : q.graph.timetable.OneNode)
    (hpre : q.tripType = .preTrip) (hd : q.direction = .forward) {next : Label}
    (h : Trail q settings measures (next :: label :: before))
    (hgoal : q.target.isGoal next = true) {node : NodeId}
    (hfold : (stepsBack .forward (next :: label :: before)).reverse.foldlM
      (Draft.take q.graph .forward) (Draft.start q.graph.timetable node) = .ok d) :
    d.Leaves q.graph.timetable next.start ∧ d.Arrives q.graph.timetable next.now := by
  obtain ⟨ref, hedge, hlast⟩ := h.last_step hq hone hgoal
  have hround := h.not_isRound hq hone hgoal hedge
  rw [hd] at hround hlast
  constructor
  · rcases h.leaves_forward hq hpre hd node d hfold with ⟨-, -, -, hnil⟩ | hleaves
    · cases hnil (h.onFoot_of_isGoal hq hgoal)
    · exact hleaves
  · obtain ⟨d₁, hfold₁, htake⟩ := Draft.foldlM_forward hedge hfold
    rcases hlast with ⟨hkind, hride, hnow⟩ | ⟨minutes, hwalks⟩
    · rw [Draft.take_exit _ _ hkind] at htake
      obtain ⟨ride, -, rfl⟩ := Draft.leave_eq_ok htake
      rw [hnow]
      have trail : Trail q settings measures ([next] ++ label :: before) := h
      exact trail.suffix.arrives_forward hq hd _ d₁ hfold₁ hride
    · have harrives := hwalks.arrives hround htake
      exact harrives

/-- A journey found backward leaves where its search has come, and ends at the start but for
round walks. -/
theorem Trail.times_backward (hq : q.Sound) (hone : q.graph.timetable.OneNode)
    (hpre : q.tripType = .preTrip) (hceiling : ∀ time ∈ q.startTimes, time ≤ Bounded.ceiling)
    (hd : q.direction = .backward) {next : Label}
    (h : Trail q settings measures (next :: label :: before))
    (hgoal : q.target.isGoal next = true) {node : NodeId}
    (hfold : (stepsBack .backward (next :: label :: before)).foldlM
      (Draft.take q.graph .backward) (Draft.start q.graph.timetable node) = .ok d) :
    d.Leaves q.graph.timetable next.now ∧ ∃ arrival, d.Arrives q.graph.timetable arrival ∧
      arrival + roundMinutes q.graph (stepsBack .backward (next :: label :: before)) =
        next.start := by
  obtain ⟨ref, hedge, hlast⟩ := h.last_step hq hone hgoal
  have hround := h.not_isRound hq hone hgoal hedge
  rw [hd] at hround hlast
  constructor
  · obtain ⟨d₁, htake, hfold₁⟩ := Draft.foldlM_backward hedge hfold
    rcases hlast with ⟨hkind, hride, hnow⟩ | ⟨minutes, hwalks⟩
    · rw [Draft.take_enter _ _ hkind] at htake
      cases htake
      rw [hnow]
      have trail : Trail q settings measures ([next] ++ label :: before) := h
      exact trail.suffix.leaves_backward hq hd _ d (Draft.start_fresh _ _).board hride hfold₁
    · have hleaves := hwalks.leaves (Draft.start_fresh _ _) htake
      exact (Draft.foldlM_extends hfold₁).leaves hleaves
  · cases h.ending hq hpre hd hceiling with
    | ended time htime hleft hends => exact ⟨time, hends _ d hfold, htime⟩
    | still hpinned htime hall hkeep =>
      -- the step to the goal would be round
      have hmem : label.stepTo .backward next ref ∈
          stepsBack .backward (next :: label :: before) := by
        rw [stepsBack, hedge]
        exact List.mem_append_left _ List.mem_cons_self
      rw [hall (h.onFoot_of_isGoal hq hgoal) _ hmem] at hround
      cases hround

/-- The times that the draft of a trail to the goal shows: a journey takes the minutes between
them, and the end at which the search started is where it started, but for the minutes that are
not seen. -/
theorem Trail.times (hq : q.Sound) (hone : q.graph.timetable.OneNode)
    (hpre : q.tripType = .preTrip) (hceiling : ∀ time ∈ q.startTimes, time ≤ Bounded.ceiling)
    {next : Label} (h : Trail q settings measures (next :: label :: before))
    (hgoal : q.target.isGoal next = true)
    (hfold : (travelSteps q.direction (next :: label :: before)).foldlM
      (Draft.take q.graph q.direction) (Draft.start q.graph.timetable (q.setsOutAt next)) = .ok d) :
    ∃ departure arrival, d.Leaves q.graph.timetable departure ∧
      d.Arrives q.graph.timetable arrival ∧
      arrival + q.unseen (travelSteps q.direction (next :: label :: before)) =
        departure + next.travelTime ∧
      q.direction.due departure
        (arrival + q.unseen (travelSteps q.direction (next :: label :: before))) = next.start := by
  have horder := h.inOrder
  unfold Label.travelTime Bounded.distance Query.unseen Direction.due
  cases hd : q.direction with
  | forward =>
    rw [hd] at hfold horder
    obtain ⟨hleaves, harrives⟩ := h.times_forward hq hone hpre hd hgoal hfold
    refine ⟨next.start, next.now, hleaves, harrives, ?_, rfl⟩
    simp only [Label.InOrder, Time] at horder ⊢
    omega
  | backward =>
    rw [hd] at hfold horder
    obtain ⟨hleaves, arrival, harrives, htime⟩ :=
      h.times_backward hq hone hpre hceiling hd hgoal hfold
    refine ⟨next.now, arrival, hleaves, harrives, ?_, htime⟩
    simp only [travelSteps, Label.InOrder, Time] at horder htime ⊢
    omega

end Trail

end JourneyPlanner
