import JourneyPlanner.Proofs.Itinerary.Writing

/-!
# The stops of a draft

Writing out a journey step by step never takes anything back. A stop that has been written
down keeps its station and its arrival, and what happens there later is only added to it
(`Stop.Keeps`); a move that has been written down stays. So whatever is known of a draft at
some stop holds of the journey in the end (`Draft.foldlM_extends`).
-/

namespace JourneyPlanner

/-- What a journey keeps of a stop as it goes on. -/
structure Stop.Keeps (old new : Stop) : Prop where
  station_eq : new.station = old.station
  arrival_eq : new.arrival = old.arrival
  departure : ∀ event, old.departure = some event → new.departure = some event
  exit : old.exit = true → new.exit = true

theorem Stop.Keeps.refl (stop : Stop) : stop.Keeps stop := ⟨rfl, rfl, fun _ h => h, id⟩

theorem Stop.Keeps.trans {first second third : Stop} (h : first.Keeps second)
    (h' : second.Keeps third) : first.Keeps third :=
  ⟨h'.station_eq.trans h.station_eq, h'.arrival_eq.trans h.arrival_eq,
    fun event hevent => h'.departure event (h.departure event hevent), fun hexit =>
      h'.exit (h.exit hexit)⟩

namespace Draft

/-- The stops so far, in the order of travel. -/
def stops (d : Draft) : List Stop := (d.here :: d.past).reverse

/-- All that is known of one draft holds of another further on. -/
structure Extends (d d' : Draft) : Prop where
  stop : ∀ (place : Nat) (stop : Stop), d.stops[place]? = some stop →
    ∃ stop', d'.stops[place]? = some stop' ∧ stop.Keeps stop'
  transports : d.transports ⊆ d'.transports

variable {d d' : Draft}

theorem stops_eq (d : Draft) : d.stops = d.past.reverse ++ [d.here] := List.reverse_cons

/-- The stops are the present one and as many as its position counts. -/
theorem length_stops (d : Draft) : d.stops.length = d.position + 1 := by
  rw [stops, List.length_reverse, List.length_cons, position]

/-- The last stop so far is the present one. -/
theorem getElem?_stops_position (d : Draft) : d.stops[d.position]? = some d.here := by
  rw [stops_eq, position, ← List.length_reverse, List.getElem?_concat_length]

theorem Extends.refl (d : Draft) : d.Extends d :=
  ⟨fun _ stop h => ⟨stop, h, .refl stop⟩, List.Subset.refl _⟩

/-- A draft that has been extended twice has been extended. -/
theorem Extends.trans {d'' : Draft} (h : d.Extends d') (h' : d'.Extends d'') :
    d.Extends d'' := by
  refine ⟨fun place stop hstop => ?_, List.Subset.trans h.transports h'.transports⟩
  obtain ⟨stop', hstop', hkeeps⟩ := h.stop place stop hstop
  obtain ⟨stop'', hstop'', hkeeps'⟩ := h'.stop place stop' hstop'
  exact ⟨stop'', hstop'', hkeeps.trans hkeeps'⟩

/-- No stop is taken back. -/
theorem Extends.position_le (h : d.Extends d') : d.position ≤ d'.position := by
  obtain ⟨stop', hstop', -⟩ := h.stop _ _ d.getElem?_stops_position
  have hlt := (List.getElem?_eq_some_iff.1 hstop').1
  rw [length_stops] at hlt
  omega

/-- Something has been added at the present stop. -/
theorem Extends.stay (hpast : d'.past = d.past) (hhere : d.here.Keeps d'.here)
    (htransports : d.transports ⊆ d'.transports) : d.Extends d' := by
  refine ⟨fun place stop hstop => ?_, htransports⟩
  rw [stops_eq] at hstop ⊢
  rw [hpast]
  rcases Nat.lt_or_ge place d.past.reverse.length with hlt | hge
  · rw [List.getElem?_append_left hlt] at hstop ⊢
    exact ⟨stop, hstop, .refl stop⟩
  · rw [List.getElem?_append_right hge] at hstop ⊢
    rw [List.getElem?_singleton] at hstop ⊢
    split at hstop
    · next hzero =>
      cases hstop
      exact ⟨d'.here, if_pos hzero, hhere⟩
    · cases hstop

/-- A stop has been added. -/
theorem moveTo_extends (d : Draft) (stop : Stop) : d.Extends (d.moveTo stop) := by
  refine ⟨fun place old hold => ⟨old, ?_, .refl old⟩, List.Subset.refl _⟩
  have hstops : (d.moveTo stop).stops = d.stops ++ [stop] := List.reverse_cons
  rw [hstops, List.getElem?_append_left (List.getElem?_eq_some_iff.1 hold).1]
  exact hold

/-! ## Steps -/

/-- A departure is written down once, and no later one replaces it. -/
theorem depart_extends (d : Draft) (event : StopEvent) : d.Extends (d.depart event) := by
  refine .stay rfl ⟨rfl, rfl, fun old hold => ?_, id⟩ (List.Subset.refl _)
  show d.here.departure.or (some event) = some old
  rw [hold]
  rfl

/-- Boarding adds to the present stop alone. -/
theorem board_extends (d : Draft) : d.Extends d.board :=
  .stay rfl ⟨rfl, rfl, fun _ h => h, id⟩ (List.Subset.refl _)

theorem writeRide_extends (tt : Timetable) (d : Draft) (ride : OpenRide) :
    d.Extends (d.writeRide tt ride) :=
  .stay rfl (.refl _) (List.subset_cons_self _ _)

/-- A vehicle is left at the present stop, with the ride on it written down. -/
theorem leave_eq_ok {tt : Timetable} (h : d.leave tt = .ok d') : ∃ ride, d.ride = some ride ∧
    d' = { d.writeRide tt ride with here := { (d.writeRide tt ride).here with exit := true } } := by
  unfold leave at h
  split at h
  · cases h
  · next ride hride =>
    cases h
    exact ⟨ride, hride, rfl⟩

/-- Leaving a vehicle takes nothing back. -/
theorem leave_extends {tt : Timetable} (h : d.leave tt = .ok d') : d.Extends d' := by
  obtain ⟨ride, -, rfl⟩ := leave_eq_ok h
  exact (d.writeRide_extends tt ride).trans
    (.stay rfl ⟨rfl, rfl, fun _ h => h, fun _ => rfl⟩ (List.Subset.refl _))

/-- A section departs at the present stop, unless something has departed there before, and
arrives at a new one. -/
theorem rideTo_spec (tt : Timetable) (d : Draft) (event : Event) (node : NodeId) :
    (d.depart (eventAt tt event.departure event.leg.departureTrack)).Extends
        (d.rideTo tt event node) ∧
      (d.rideTo tt event node).here =
        { stopAt tt node with
          arrival := some (eventAt tt event.arrival event.leg.arrivalTrack) } := by
  unfold rideTo
  extract_lets leg d₁ d₂ place ride info arrival
  refine ⟨?_, rfl⟩
  have h₁ : (d.depart (eventAt tt event.departure leg.departureTrack)).Extends d₂ := by
    unfold d₂ d₁
    split
    · split
      · exact .refl _
      · exact .stay rfl (.refl _) (List.subset_cons_self _ _)
    · exact .refl _
  have h₂ := d₂.moveTo_extends { stopAt tt node with arrival := some arrival }
  exact h₁.trans ⟨h₂.stop, h₂.transports⟩

/-- A walk sets out at the present stop, unless something has departed there before. It
arrives at a new stop, or at none if it ends where it begins. -/
theorem walk_spec (tt : Timetable) (direction : Direction) (d : Draft) (step : Step) (edge : Edge)
    (duration price : Nat) (kind : WalkKind) :
    (d.depart (eventAt tt (walkTimes step duration direction).1 none)).Extends
        (d.walk tt direction step edge duration price kind) ∧
      { first := d.position, last := (d.walk tt direction step edge duration price kind).position,
        move := .walk kind duration } ∈
          (d.walk tt direction step edge duration price kind).transports ∧
      (d.walk tt direction step edge duration price kind).here =
        if (tt.node edge.tail).stationIndex = (tt.node edge.head).stationIndex then
          (d.depart (eventAt tt (walkTimes step duration direction).1 none)).here
        else
          { stopAt tt edge.head with
            arrival := some (eventAt tt (walkTimes step duration direction).2 none) } := by
  rcases hw : walkTimes step duration direction with ⟨departure, arrival⟩
  unfold walk
  rw [hw]
  dsimp only
  by_cases hsame : (tt.node edge.tail).stationIndex = (tt.node edge.head).stationIndex
  · rw [if_pos hsame, if_pos hsame]
    exact ⟨.stay rfl (.refl _) (List.subset_cons_self _ _), List.mem_cons_self, rfl⟩
  · rw [if_neg hsame, if_neg hsame]
    have hmove := (d.depart (eventAt tt departure none)).moveTo_extends
      { stopAt tt edge.head with arrival := some (eventAt tt arrival none) }
    exact ⟨hmove.trans (.stay rfl (.refl _) (List.subset_cons_self _ _)),
      List.mem_cons_self, rfl⟩

theorem sleep_extends (d : Draft) (step : Step) (price : Nat) : d.Extends (d.sleep step price) :=
  .stay rfl (.refl _) (List.subset_cons_self _ _)

/-- No step takes anything back. -/
theorem take_extends {graph : QueryGraph} {direction : Direction} {step : Step}
    (h : d.take graph direction step = .ok d') : d.Extends d' := by
  cases hk : (graph.edge step.edge).kind with
  | enter =>
    rw [take_enter direction step hk] at h
    cases h
    exact d.board_extends
  | exit =>
    rw [take_exit direction step hk] at h
    exact leave_extends h
  | through trips =>
    rw [take_through direction step hk] at h
    cases h
    exact .refl d
  | route legs =>
    obtain ⟨used, event, -, -, rfl⟩ := take_route_eq_ok direction step hk h
    exact (d.depart_extends _).trans (d.rideTo_spec _ _ _).1
  | foot duration price =>
    rw [take_foot direction step hk] at h
    cases h
    exact (d.depart_extends _).trans (d.walk_spec _ _ _ _ _ _ _).1
  | mumo ride =>
    rw [take_mumo direction step hk] at h
    cases h
    exact (d.depart_extends _).trans (d.walk_spec _ _ _ _ _ _ _).1
  | hotel stay =>
    rw [take_hotel direction step hk] at h
    cases h
    exact d.sleep_extends step stay.price

/-- However many steps are written out, none takes anything back. -/
theorem foldlM_extends {graph : QueryGraph} {direction : Direction} {steps : List Step}
    (h : steps.foldlM (take graph direction) d = .ok d') : d.Extends d' := by
  induction steps generalizing d with
  | nil =>
    cases h
    exact .refl _
  | cons step steps ih =>
    rw [List.foldlM_cons] at h
    obtain ⟨d₁, h₁, h⟩ := Fallible.bind_eq_ok.1 h
    exact (take_extends h₁).trans (ih h)

/-- Going forward the step to the latest label of a trail is taken last. -/
theorem foldlM_forward {graph : QueryGraph} {next label : Label} {before : List Label}
    {ref : EdgeRef} (hedge : next.edge = some ref)
    (h : (stepsBack .forward (next :: label :: before)).reverse.foldlM (take graph .forward) d =
      .ok d') :
    ∃ d₁, (stepsBack .forward (label :: before)).reverse.foldlM (take graph .forward) d = .ok d₁ ∧
      d₁.take graph .forward (label.stepTo .forward next ref) = .ok d' := by
  rw [stepsBack, hedge, List.reverse_append, List.foldlM_append] at h
  obtain ⟨d₁, h₁, h⟩ := Fallible.bind_eq_ok.1 h
  obtain ⟨d₂, h₂, h⟩ := Fallible.bind_eq_ok.1 h
  cases h
  exact ⟨d₁, h₁, h₂⟩

/-- Going backward it is taken first. -/
theorem foldlM_backward {graph : QueryGraph} {next label : Label} {before : List Label}
    {ref : EdgeRef} (hedge : next.edge = some ref)
    (h : (stepsBack .backward (next :: label :: before)).foldlM (take graph .backward) d =
      .ok d') :
    ∃ d₁, d.take graph .backward (label.stepTo .backward next ref) = .ok d₁ ∧
      (stepsBack .backward (label :: before)).foldlM (take graph .backward) d₁ = .ok d' := by
  rw [stepsBack, hedge, List.foldlM_append] at h
  obtain ⟨d₁, h₁, h⟩ := Fallible.bind_eq_ok.1 h
  obtain ⟨d₂, h₂, h₁⟩ := Fallible.bind_eq_ok.1 h₁
  cases h₁
  exact ⟨d₁, h₂, h⟩

/-- A finished journey has the stops and the moves of its draft. -/
theorem finish_parts {duration : Nat} {journey : Journey} (h : d.finish duration = .ok journey) :
    journey.stops = d.stops ∧ journey.transports = d.transports.reverse := by
  obtain ⟨-, valid, rfl⟩ := finish_eq_ok h
  exact ⟨rfl, rfl⟩

end Draft

/-! ## The draft of a trail -/

section Trail

variable {q : Query} {settings : Settings} {measures : List Measure} {label : Label}
  {before : List Label}

/-- Where the traveller sets out, if a search has come to `label`. -/
def Query.setsOutAt (q : Query) (label : Label) : NodeId :=
  match q.direction with
  | .forward => q.target.origin
  | .backward => label.node

/-- A trail begins at the origin. -/
theorem Trail.getLast_node {labels : List Label} (h : Trail q settings measures labels) :
    labels.getLast?.map Label.node = some q.target.origin := by
  induction h with
  | start time htime hin => rfl
  | step id ref next label before trail hgoal href hnext hin ih =>
    rw [List.getLast?_cons_cons]
    exact ih

/-- The journey of a trail is the draft that its steps lead to, from where the traveller
sets out. -/
theorem Trail.drafted (h : Trail q settings measures (label :: before)) {journey : Journey}
    (hj : Journey.ofChain q.graph q.direction (label :: before) = .ok journey) :
    ∃ d, (travelSteps q.direction (label :: before)).foldlM (Draft.take q.graph q.direction)
        (Draft.start q.graph.timetable (q.setsOutAt label)) = .ok d ∧
      d.finish label.travelTime = .ok journey := by
  unfold Journey.ofChain at hj
  split at hj
  · next result before' first rest hlabels horder =>
    cases hlabels
    obtain ⟨steps, hsteps, hj⟩ := Fallible.bind_eq_ok.1 hj
    obtain ⟨d, hd, hfinish⟩ := Fallible.bind_eq_ok.1 hj
    have hfirst : first.node = q.setsOutAt label := by
      unfold Query.setsOutAt
      cases hd : q.direction with
      | forward =>
        have hhead := h.getLast_node
        rw [← List.head?_reverse] at hhead
        rw [hd] at horder
        have horder : (label :: before).reverse = first :: rest := horder
        rw [horder] at hhead
        exact Option.some.inj hhead
      | backward =>
        rw [hd] at horder
        cases horder
        rfl
    rw [← horder] at hsteps
    rw [steps_eq hsteps, hfirst] at hd
    exact ⟨d, hd, hfinish⟩
  · cases hj

end Trail

end JourneyPlanner
