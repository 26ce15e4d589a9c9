import JourneyPlanner.Proofs.Itinerary.Steps

/-!
# Sections

A section is one route edge of a journey, ridden with one event. Who rides a
section stands at its far end at the time at which the event ends
(`Trail.section_spec`), on the trip of that event; and until a vehicle is left
its day does not change. `Label.Riding` collects what a label says of the vehicle
that it is on, and `Trail.riding` shows it for all labels of trails.
-/

namespace JourneyPlanner

/-- The event that was used on an edge, if that is a route edge. -/
def QueryGraph.event? (graph : QueryGraph) (ref : EdgeRef) (connection : Option UsedConnection) :
    Option Event :=
  match (graph.edge ref).kind with
  | .route legs => connection.bind fun used => Event.at? legs used.trip used.day
  | _ => none

/-- The event used on the edge by which a label was reached, if that is a route
edge. -/
def Label.section? (graph : QueryGraph) (label : Label) : Option Event :=
  label.edge.bind fun ref => graph.event? ref label.connection

/-- The event used on a step, if that takes a route edge. -/
def Step.section? (graph : QueryGraph) (step : Step) : Option Event :=
  graph.event? step.edge step.connection

/-- Whether a label was reached over a through edge. -/
def Label.cameThrough (graph : QueryGraph) (label : Label) : Bool :=
  match label.edge.map fun ref => (graph.edge ref).kind with
  | some (.through _) => true
  | _ => false

/-- The time at which a search in a direction has an event behind it. -/
def Event.past (event : Event) : Direction → Time
  | .forward => event.arrival
  | .backward => event.departure

theorem QueryGraph.event?_eq {graph : QueryGraph} {ref : EdgeRef} {legs : Array Leg}
    (hkind : (graph.edge ref).kind = .route legs) (used : UsedConnection) :
    graph.event? ref (some used) = Event.at? legs used.trip used.day := by
  unfold QueryGraph.event?
  rw [hkind]
  rfl

theorem QueryGraph.event?_eq_some {graph : QueryGraph} {ref : EdgeRef} {used : UsedConnection}
    {event : Event} (h : graph.event? ref (some used) = some event) :
    ∃ legs, (graph.edge ref).kind = .route legs ∧
      Event.at? legs used.trip used.day = some event := by
  unfold QueryGraph.event? at h
  split at h
  · next legs hkind => exact ⟨legs, hkind, h⟩
  · cases h

theorem QueryGraph.event?_none (graph : QueryGraph) (ref : EdgeRef) :
    graph.event? ref none = none := by
  unfold QueryGraph.event?
  split <;> rfl

theorem Label.section?_eq {graph : QueryGraph} {label : Label} {ref : EdgeRef}
    (hedge : label.edge = some ref) : label.section? graph = graph.event? ref label.connection := by
  unfold Label.section?
  rw [hedge]
  rfl

theorem Label.section?_of_connection_none {graph : QueryGraph} {label : Label}
    (h : label.connection = none) : label.section? graph = none := by
  unfold Label.section?
  rw [h]
  cases label.edge with
  | none => rfl
  | some ref => exact graph.event?_none ref

/-- What a label says of the vehicle that it is on. -/
structure Label.Riding (graph : QueryGraph) (direction : Direction) (label : Label) : Prop where
  /-- The vehicle is the one of the section. -/
  vehicle : ∀ used, label.connection = some used → ∃ id event,
    label.edge = some (.timetable id) ∧ graph.edge (.timetable id) ∈ graph.timetable.edges ∧
      (graph.edge (.timetable id)).target direction = label.node ∧
      graph.event? (.timetable id) (some used) = some event ∧
      label.ride = some { trip := used.trip, day := used.day }
  route : ∀ ref legs, label.edge = some ref → (graph.edge ref).kind = .route legs →
    label.connection.isSome = true
  day_lt : ∀ ride, label.ride = some ride → ride.day < graph.timetable.period.days
  /-- Between two sections lies a through edge. -/
  through : label.ride.isSome = true → label.connection = none → label.cameThrough graph = true

section Trail

variable {q : Query} {settings : Settings} {measures : List Measure}

/-- An edge that is no route edge uses no event. -/
theorem Query.after_riding_of_none {id : LabelId} {label : Label} {ref : EdgeRef}
    {cost : EdgeCost} {now : Time} (hconnection : cost.connection = none)
    (hride : cost.ride = none) (hkind : ∀ legs, (q.graph.edge ref).kind ≠ .route legs) :
    (q.after id label ref cost now).Riding q.graph q.direction := by
  refine ⟨fun used hused => ?_, fun ref' legs href' hk => ?_, fun ride hr => ?_, fun hr => ?_⟩
  · have hused' : cost.connection = some used := hused
    rw [hconnection] at hused'
    cases hused'
  · cases href'
    exact absurd hk (hkind legs)
  · have hr' : cost.ride = some ride := hr
    rw [hride] at hr'
    cases hr'
  · have hr' : cost.ride.isSome = true := hr
    rw [hride] at hr'
    cases hr'

/-- A route edge uses an event of its own. -/
theorem Query.after_riding_of_route (hq : q.graph.Sound) {id : LabelId} {label : Label}
    {eid : EdgeId} {legs : Array Leg} {event : Event} {now : Time}
    (href : .timetable eid ∈ q.graph.edgesAt label.node q.direction)
    (hkind : (q.graph.edge (.timetable eid)).kind = .route legs)
    (hat : Event.at? legs event.trip event.day = some event)
    (hday : event.day < q.graph.timetable.period.days) (transfer : Bool) :
    (q.after id label (.timetable eid)
      (q.graph.timetable.rideCost eid event label.now transfer q.direction) now).Riding
        q.graph q.direction := by
  refine ⟨fun used hused => ?_, fun _ _ _ _ => rfl, fun ride hr => ?_, fun _ hc => ?_⟩
  · cases hused
    refine ⟨eid, event, rfl, (hq.edge_mem href).1, rfl, ?_, rfl⟩
    rw [QueryGraph.event?_eq hkind]
    exact hat
  · cases hr
    exact hday
  · cases hc

/-- An edge leads from a label that rides what it says to one that does. -/
theorem Takes.riding (hq : q.graph.Sound) {id : LabelId} {label : Label} {ref : EdgeRef}
    {cost : EdgeCost} {now : Time} (hl : label.Riding q.graph q.direction)
    (href : ref ∈ q.graph.edgesAt label.node q.direction)
    (ht : Takes q.graph q.direction settings.maxMinutes label ref cost) :
    (q.after id label ref cost now).Riding q.graph q.direction := by
  cases ht with
  | access hkind hfoot =>
    refine Query.after_riding_of_none rfl rfl fun legs hk => ?_
    rw [hkind] at hk
    cases hd : q.direction <;> rw [hd] at hk <;> cases hk
  | egress ride hkind hride =>
    refine Query.after_riding_of_none rfl rfl fun legs hk => ?_
    rw [hkind] at hk
    cases hd : q.direction <;> rw [hd] at hk <;> cases hk
  | stay eid legs ride event hid hkind hride hat hahead =>
    subst hid
    refine Query.after_riding_of_route hq href hkind (Event.at?_self hat) ?_ false
    rw [(Event.eq_of_at? hat).2.1]
    exact hl.day_lt ride hride
  | board eid legs event hid hkind hride hboarding hfind =>
    subst hid
    obtain ⟨-, hat, -, hday, -⟩ := boardable_spec hq href hkind hfind
    exact Query.after_riding_of_route hq href hkind hat hday _
  | through trips ride trip hkind hride htrip =>
    refine ⟨fun used hused => ?_, fun ref' legs href' hk => ?_, fun ride' hr => ?_, fun _ _ => ?_⟩
    · cases hused
    · cases href'
      rw [hkind] at hk
      cases hk
    · cases hr
      exact hl.day_lt ride hride
    · unfold Label.cameThrough
      show (match some (q.graph.edge ref).kind with
        | some (.through _) => true
        | _ => false) = true
      rw [hkind]
  | foot duration price hkind hfoot =>
    exact Query.after_riding_of_none rfl rfl fun legs hk => by rw [hkind] at hk; cases hk
  | mumo ride time hkind hfoot htime hpinned =>
    exact Query.after_riding_of_none rfl rfl fun legs hk => by rw [hkind] at hk; cases hk
  | hotel stay hkind hfoot hfirst hpinned =>
    exact Query.after_riding_of_none rfl rfl fun legs hk => by rw [hkind] at hk; cases hk

/-- Every label of a trail rides what it says. -/
theorem Trail.riding (hq : q.graph.Sound) {label : Label} {before : List Label}
    (h : Trail q settings measures (label :: before)) : label.Riding q.graph q.direction := by
  refine Trail.along (P := fun label _ => label.Riding q.graph q.direction) ?_ ?_ h
  · intro time htime
    refine ⟨fun used hused => ?_, fun ref legs href => ?_, fun ride hr => ?_, fun hr => ?_⟩
    · cases hused
    · cases href
    · cases hr
    · cases hr
  · intro id ref label before cost now trail href ht hnow hin ih
    exact ht.riding hq ih href

theorem Trail.tail_of_mem {labels : List Label} (h : Trail q settings measures labels)
    {label : Label} (hl : label ∈ labels) :
    ∃ before, Trail q settings measures (label :: before) := by
  obtain ⟨later, before, rfl⟩ := List.append_of_mem hl
  exact ⟨before, h.suffix⟩

/-- A run that may be boarded is not past. -/
theorem isAhead_of_boardable {graph : QueryGraph} (hg : graph.Sound) {label : Label} {id : EdgeId}
    {legs : Array Leg} {direction : Direction} {horizon : Nat} {event : Event}
    (href : EdgeRef.timetable id ∈ graph.edgesAt label.node direction)
    (hkind : (graph.edge (.timetable id)).kind = .route legs)
    (hfind : (label.boardable graph.timetable legs direction horizon).find?
      (label.inTime graph.timetable direction) = some event) :
    event.isAhead label.now direction = true := by
  obtain ⟨-, -, -, -, hbegin, hfinish⟩ := boardable_spec hg href hkind hfind
  -- a window never begins, or backward ends, beyond the present time
  unfold Timetable.boardingWindow at hbegin hfinish
  cases direction <;> cases hp : label.pinned <;> rw [hp] at hbegin hfinish
  · exact decide_eq_true hbegin
  · exact decide_eq_true hbegin
  · exact decide_eq_true (Nat.le_of_lt_succ (Nat.lt_of_lt_of_le hfinish (Nat.min_le_left _ _)))
  · exact decide_eq_true (Nat.le_of_lt_succ (Nat.lt_of_lt_of_le hfinish (Nat.min_le_left _ _)))

/-- Whoever uses an event rides a run of the edge, which is not past, to its end. -/
theorem Takes.section_spec (hq : q.graph.Sound) {label : Label} {ref : EdgeRef} {cost : EdgeCost}
    (hl : label.Riding q.graph q.direction) (href : ref ∈ q.graph.edgesAt label.node q.direction)
    (ht : Takes q.graph q.direction settings.maxMinutes label ref cost)
    {used : UsedConnection} (hc : cost.connection = some used) :
    ∃ id legs event transfer, ref = .timetable id ∧ (q.graph.edge ref).kind = .route legs ∧
      Event.at? legs event.trip event.day = some event ∧
      event.day < q.graph.timetable.period.days ∧
      event.isAhead label.now q.direction = true ∧
      cost = q.graph.timetable.rideCost id event label.now transfer q.direction := by
  cases ht with
  | stay id legs ride event hid hkind hride hat hahead =>
    refine ⟨id, legs, event, false, hid, hkind, Event.at?_self hat, ?_, hahead, rfl⟩
    rw [(Event.eq_of_at? hat).2.1]
    exact hl.day_lt ride hride
  | board id legs event hid hkind hride hboarding hfind =>
    subst hid
    obtain ⟨-, hat, -, hday, -⟩ := boardable_spec hq href hkind hfind
    exact ⟨id, legs, event, _, rfl, hkind, hat, hday, isAhead_of_boardable hq href hkind hfind, rfl⟩
  | access | egress | through | foot | mumo | hotel => cases hc

/-- No section ends before it begins. -/
theorem QueryGraph.Sound.departure_le {graph : QueryGraph} (h : graph.Sound) {node : NodeId}
    {direction : Direction} {id : EdgeId} {legs : Array Leg} {trip day : Nat} {event : Event}
    (href : EdgeRef.timetable id ∈ graph.edgesAt node direction)
    (hkind : (graph.edge (.timetable id)).kind = .route legs)
    (hat : Event.at? legs trip day = some event) :
    event.leg.Valid ∧ event.departure ≤ event.arrival := by
  obtain ⟨hvalid, hle, -⟩ := h.timetable.event_spec (h.edge_mem href).1 hkind hat
  exact ⟨hvalid, hle⟩

/-- No section ends beyond the range of times. -/
theorem QueryGraph.Sound.arrival_le {graph : QueryGraph} (h : graph.Sound) {node : NodeId}
    {direction : Direction} {id : EdgeId} {legs : Array Leg} {trip day : Nat} {event : Event}
    (href : EdgeRef.timetable id ∈ graph.edgesAt node direction)
    (hkind : (graph.edge (.timetable id)).kind = .route legs)
    (hat : Event.at? legs trip day = some event) (hday : day < graph.timetable.period.days) :
    event.arrival ≤ Bounded.ceiling := by
  have hlt := (h.timetable.event_spec (h.edge_mem href).1 hkind hat).2.2 hday
  exact Nat.le_trans (Nat.le_of_lt hlt) (by decide)

/-- Whoever rides an event to its end is there when it ends. -/
theorem Event.timeAfter?_span {event : Event} {now : Time} {direction : Direction}
    (hle : event.departure ≤ event.arrival) (hmax : event.arrival ≤ Bounded.ceiling)
    (hahead : event.isAhead now direction = true) :
    Run.timeAfter? now (event.span now direction) direction = some (event.past direction) := by
  cases direction with
  | forward =>
    refine Bounded.add?_eq_some_iff.2 ⟨?_, hmax⟩
    simp only [Event.isAhead, decide_eq_true_eq, Event.span, Event.past, Time] at *
    omega
  | backward =>
    refine Bounded.sub?_eq_some_iff.2 ?_
    simp only [Event.isAhead, decide_eq_true_eq, Event.span, Event.past, Time] at *
    omega

theorem Event.past_of_timeAfter? {event : Event} {now : Time} {after : Time}
    {direction : Direction} (hvalid : event.departure ≤ event.arrival)
    (hahead : event.isAhead now direction = true)
    (h : Run.timeAfter? now (event.span now direction) direction = some after) :
    after = event.past direction := by
  have hpass := passes_of_timeAfter? h
  cases direction <;>
    simp only [Event.isAhead, decide_eq_true_eq, Direction.Passes, Event.span, Event.past, Time]
      at * <;> omega

/-- Who has ridden an event has come over its section. -/
theorem section?_after {id : LabelId} {label : Label} {eid : EdgeId} {legs : Array Leg}
    {event : Event} {transfer : Bool} {now : Time}
    (hkind : (q.graph.edge (.timetable eid)).kind = .route legs)
    (hat : Event.at? legs event.trip event.day = some event) :
    (q.after id label (.timetable eid) (q.graph.timetable.rideCost eid event label.now transfer
      q.direction) now).section? q.graph = some event := by
  rw [Label.section?_eq rfl]
  show q.graph.event? _ (some _) = _
  rw [QueryGraph.event?_eq hkind]
  exact hat

/-- The section of a route edge: a run of one of its trips on a day of the
schedule, which the label has behind it. -/
theorem Trail.section_spec (hq : q.graph.Sound) {label : Label} {before : List Label}
    (h : Trail q settings measures (label :: before)) {used : UsedConnection}
    (hused : label.connection = some used) :
    ∃ event, label.section? q.graph = some event ∧
      used.category = (q.graph.timetable.info event.leg.info).category ∧
      event.day < q.graph.timetable.period.days ∧ event.leg.Valid ∧
      event.departure = Time.ofDay event.day event.leg.departure ∧
      event.arrival = Time.ofDay event.day event.leg.arrival ∧
      label.now = event.past q.direction ∧ label.lastConnection = some used := by
  cases h with
  | start time htime hin => cases hused
  | step id ref _ older before trail hgoal href hnext hin =>
    obtain ⟨cost, now, ht, hnow, rfl⟩ := expandEdge_eq_some_iff.1 hnext
    obtain ⟨eid, legs, event, transfer, rfl, hkind, hat, hday, hahead, rfl⟩ :=
      ht.section_spec hq (trail.riding hq) href hused
    cases hused
    obtain ⟨-, -, -, hdep, harr⟩ := Event.eq_of_at? hat
    obtain ⟨hvalid, hle⟩ := hq.departure_le href hkind hat
    exact ⟨event, section?_after hkind hat, rfl, hday, hvalid, hdep, harr,
      Event.past_of_timeAfter? hle hahead hnow, rfl⟩

end Trail

end JourneyPlanner
