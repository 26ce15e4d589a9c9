import JourneyPlanner.Proofs.Search.Sections

/-!
# Between two vehicles

`Standing` follows a traveller from one vehicle to the next, step by step in the
order of travel: since when the station has been reached, and what has been idled
away there. A search comes by the same steps in its own order. `Since` lists them
from the section that it used last, and two inductions along it say what the
search knows of the traveller (`Since.forward`, `Since.backward`):

> going forward, the present time is when the station was reached and what has
> been idled away since; going backward, the last walk ends as the later vehicle
> departs, but for what is idled away.
-/

namespace JourneyPlanner

/-- Where a traveller stands between two vehicles. -/
structure Standing where
  /-- When the station was reached, by the vehicle or by the last walk. -/
  reached : Time
  /-- The minutes since then that go by in nights, and in waiting which belongs to
  the walk. -/
  idle : Nat
  walked : Bool

namespace Standing

/-- The end of a walk. -/
def walk (direction : Direction) (step : Step) (duration : Nat) : Standing :=
  let reached := (Draft.walkTimes step duration direction).2
  { reached, idle := step.atHead - reached, walked := true }

/-- One step between two vehicles. -/
def take (graph : QueryGraph) (direction : Direction) (s : Standing) (step : Step) : Standing :=
  match (graph.edge step.edge).kind with
  | .foot duration _ => walk direction step duration
  | .mumo ride => walk direction step ride.duration
  | .hotel _ => { s with idle := s.idle + (step.atHead - step.atTail) }
  | _ => s

/-- Someone whom a vehicle has brought. -/
def arrived (event : Event) : Standing := { reached := event.arrival, idle := 0, walked := false }

end Standing

section Take

variable {graph : QueryGraph} {direction : Direction} {step : Step}

theorem Standing.take_foot {s : Standing} {duration price : Nat}
    (h : (graph.edge step.edge).kind = .foot duration price) :
    s.take graph direction step = walk direction step duration := by
  unfold Standing.take
  rw [h]

theorem Standing.take_mumo {s : Standing} {ride : Mumo}
    (h : (graph.edge step.edge).kind = .mumo ride) :
    s.take graph direction step = walk direction step ride.duration := by
  unfold Standing.take
  rw [h]

theorem Standing.take_hotel {s : Standing} {stay : Hotel}
    (h : (graph.edge step.edge).kind = .hotel stay) :
    s.take graph direction step = { s with idle := s.idle + (step.atHead - step.atTail) } := by
  unfold Standing.take
  rw [h]

theorem Standing.take_of_kind {s : Standing} (h : (graph.edge step.edge).kind.isWalk = false) :
    s.take graph direction step = s := by
  unfold Standing.take
  split
  · next hk => rw [hk] at h; cases h
  · next hk => rw [hk] at h; cases h
  · next hk => rw [hk] at h; cases h
  · rfl

/-- Going forward, the time at which a step ends is since when the station was
reached and what has been idled away since. -/
theorem Standing.take_forward {s : Standing} {step : Step}
    (hs : s.reached + s.idle = step.atTail) (hle : step.atTail ≤ step.atHead)
    (heq : (graph.edge step.edge).kind.isWalk = false → step.atTail = step.atHead) :
    (s.take graph .forward step).reached + (s.take graph .forward step).idle = step.atHead := by
  cases hk : (graph.edge step.edge).kind with
  | foot duration price =>
    rw [Standing.take_foot hk]
    simp [Standing.walk, Draft.walkTimes]
  | mumo ride =>
    rw [Standing.take_mumo hk]
    simp [Standing.walk, Draft.walkTimes]
  | hotel stay =>
    rw [Standing.take_hotel hk]
    simp only [Time] at hs hle ⊢
    omega
  | route legs | enter | exit | through trips =>
    have hwalk : (graph.edge step.edge).kind.isWalk = false := by rw [hk]; rfl
    rw [Standing.take_of_kind hwalk, hs, heq hwalk]

end Take

/-- Whether a step enters a vehicle. -/
def Step.Enters (graph : QueryGraph) (step : Step) : Prop :=
  (graph.edge step.edge).kind = .enter

theorem Step.not_enters {graph : QueryGraph} {step : Step} {kind : EdgeKind}
    (h : (graph.edge step.edge).kind = kind) (hne : kind ≠ .enter) : ¬ step.Enters graph :=
  fun hent => hne (h.symm.trans hent)

section Gap

variable {q : Query} {settings : Settings} {measures : List Measure}

theorem section?_stepTo (graph : QueryGraph) (direction : Direction) (label next : Label)
    {ref : EdgeRef} (hedge : next.edge = some ref) :
    (label.stepTo direction next ref).section? graph = next.section? graph := by
  rw [Label.section?_eq hedge]
  cases direction <;> rfl

/-- The steps that led to a label since the section with `event`, the latest
first. -/
inductive Since (q : Query) (settings : Settings) (measures : List Measure) (event : Event) :
    Label → List Step → Prop
  | arrived {label : Label} {before : List Label}
      (trail : Trail q settings measures (label :: before))
      (hsection : label.section? q.graph = some event) :
      Since q settings measures event label []
  | step {label : Label} {before : List Label} {gap : List Step} (id : LabelId) (ref : EdgeRef)
      (cost : EdgeCost) (now : Time) (h : Since q settings measures event label gap)
      (trail : Trail q settings measures (label :: before))
      (href : ref ∈ q.graph.edgesAt label.node q.direction)
      (ht : Takes q.graph q.direction settings.maxMinutes label ref cost)
      (hnow : Run.timeAfter? label.now cost.time q.direction = some now)
      (hnone : cost.connection = none) :
      Since q settings measures event (q.after id label ref cost now)
        (label.stepTo q.direction (q.after id label ref cost now) ref :: gap)

/-- Each step of a trail leads from one of its labels to the next. -/
theorem Trail.split {labels : List Label} (h : Trail q settings measures labels)
    {newer older : List Step} {step : Step}
    (hs : stepsBack q.direction labels = newer ++ step :: older) :
    ∃ id ref next label before, Trail q settings measures (label :: before) ∧
      ref ∈ q.graph.edgesAt label.node q.direction ∧
      Run.expandEdge q settings id label ref = .ok (some next) ∧
      Trail q settings measures (next :: label :: before) ∧
      step = label.stepTo q.direction next ref ∧ step.section? q.graph = next.section? q.graph ∧
      stepsBack q.direction (label :: before) = older := by
  induction h generalizing newer with
  | start time htime hin => cases newer <;> cases hs
  | step id ref next label before trail hgoal href hnext hin ih =>
    have hedge : next.edge = some ref := by
      obtain ⟨cost, now, -, -, rfl⟩ := expandEdge_eq_some_iff.1 hnext
      rfl
    rw [stepsBack, hedge] at hs
    cases newer with
    | nil =>
      obtain ⟨rfl, rfl⟩ := List.cons.inj hs
      have hsection := section?_stepTo q.graph q.direction label next hedge
      exact ⟨id, ref, next, label, before, trail, href, hnext,
        .step id ref next label before trail hgoal href hnext hin, rfl, hsection, rfl⟩
    | cons first newer => exact ih (List.cons.inj hs).2

/-- Steps without a section, back to the last one. -/
theorem Trail.since (hq : q.graph.Sound) {label : Label} {before : List Label}
    (h : Trail q settings measures (label :: before)) {gap older : List Step} {step : Step}
    {event : Event} (hs : stepsBack q.direction (label :: before) = gap ++ step :: older)
    (hsection : step.section? q.graph = some event)
    (hgap : ∀ s ∈ gap, s.section? q.graph = none) :
    Since q settings measures event label gap := by
  generalize hl : label :: before = labels at h
  induction h generalizing label before gap with
  | start time htime hin =>
    cases hl
    cases gap <;> cases hs
  | step id ref next label' before' trail hgoal href hnext hin ih =>
    cases hl
    have htrail := Trail.step id ref next label' before' trail hgoal href hnext hin
    obtain ⟨cost, now, ht, hnow, rfl⟩ := expandEdge_eq_some_iff.1 hnext
    have hstep := section?_stepTo q.graph q.direction label'
      (q.after id label' ref cost now) rfl
    cases gap with
    | nil =>
      obtain ⟨rfl, -⟩ := List.cons.inj hs
      rw [hstep] at hsection
      exact .arrived htrail hsection
    | cons first gap =>
      obtain ⟨rfl, htail⟩ := List.cons.inj hs
      have htail : stepsBack q.direction (label' :: before') = gap ++ step :: older := htail
      have hfirst := hgap _ List.mem_cons_self
      have hsince := ih htail (fun s hmem => hgap s (List.mem_cons_of_mem _ hmem)) rfl
      refine .step id ref cost now hsince trail href ht hnow ?_
      cases hc : cost.connection with
      | none => rfl
      | some used =>
        -- with a vehicle the step would have been a section
        obtain ⟨event', hevent, -⟩ := htrail.section_spec hq hc
        rw [hstep, hevent] at hfirst
        cases hfirst

/-- The time between the sections is right: an event ends where its label is, and
all times stay far below the ceiling. -/
theorem Trail.of_section? (hq : q.graph.Sound) {label : Label} {before : List Label}
    (h : Trail q settings measures (label :: before)) {event : Event}
    (hsection : label.section? q.graph = some event) :
    (∃ used, label.lastConnection = some used ∧
      used.category = (q.graph.timetable.info event.leg.info).category) ∧
      label.now = event.past q.direction ∧ event.departure ≤ event.arrival ∧
      event.arrival < Bounded.ceiling := by
  cases hc : label.connection with
  | none =>
    rw [Label.section?_of_connection_none hc] at hsection
    cases hsection
  | some used =>
    obtain ⟨event', hsection', hcategory, hday, hvalid, hdep, harr, hnow, hlast⟩ :=
      h.section_spec hq hc
    rw [hsection] at hsection'
    cases hsection'
    refine ⟨⟨used, hlast, hcategory⟩, hnow, ?_, ?_⟩
    · rw [hdep, harr]
      exact Nat.add_le_add_left hvalid.departure_le _
    · have hlate := hvalid.arrival_le
      have hdays := hq.timetable.days_le
      simp only [harr, Time, Time.ofDay, Time.perDay, lastMinute, DayMask.maxDays,
        Bounded.ceiling] at hlate hdays ⊢
      omega

/-- The vehicle used last is that of the section. -/
theorem Since.vehicle (hq : q.graph.Sound) {event : Event} {label : Label} {gap : List Step}
    (h : Since q settings measures event label gap) :
    (∃ used, label.lastConnection = some used ∧
      used.category = (q.graph.timetable.info event.leg.info).category) ∧
      event.departure < Bounded.ceiling := by
  induction h with
  | arrived trail hsection =>
    obtain ⟨hused, -, hle, hlt⟩ := trail.of_section? hq hsection
    exact ⟨hused, Nat.lt_of_le_of_lt hle hlt⟩
  | step id ref cost now h trail href ht hnow hnone ih =>
    obtain ⟨⟨used, hused, hcategory⟩, hlt⟩ := ih
    refine ⟨⟨used, ?_, hcategory⟩, hlt⟩
    rw [lastConnection_after, hnone]
    exact hused

/-! ## Going forward -/

/-- Going forward, a traveller is at the station since the last walk or the
vehicle, and the time since then has been idled away. -/
structure Since.Forward (q : Query) (event : Event) (label : Label) (gap : List Step) : Prop where
  elapsed : (gap.reverse.foldl (Standing.take q.graph .forward) (Standing.arrived event)).reached +
    (gap.reverse.foldl (Standing.take q.graph .forward) (Standing.arrived event)).idle = label.now
  enters : ∀ s ∈ gap, s.Enters q.graph →
    label.boarding = true ∧
      Node.AtOne q.graph.timetable.nodes (q.graph.edge s.edge).tail label.node

theorem Since.forward (hq : q.Sound) (hd : q.direction = .forward) {event : Event} {label : Label}
    {gap : List Step} (h : Since q settings measures event label gap) :
    Since.Forward q event label gap := by
  induction h with
  | arrived trail hsection =>
    refine ⟨?_, fun s hs => by cases hs⟩
    rw [(trail.of_section? hq.graph hsection).2.1, hd]
    rfl
  | @step label before gap id ref cost now h trail href ht hnow hnone ih =>
    refine ⟨?_, fun s hs hent => ?_⟩
    · have hpass := passes_of_timeAfter? hnow
      rw [hd] at hpass ⊢
      rw [List.reverse_cons, List.foldl_append]
      refine Standing.take_forward ih.elapsed (Nat.le.intro (Eq.symm hpass)) fun hwalk => ?_
      have hzero := ht.time_eq_zero hnone hwalk
      rw [hzero] at hpass
      exact Eq.symm hpass
    · rcases List.mem_cons.1 hs with rfl | hs
      · obtain ⟨hfits, -⟩ := hq.graph.fits href
        have hkind : (q.graph.edge ref).kind = Direction.forward.access := by
          rw [hd] at hent
          exact hent
        have hone := hfits.access hkind
        rw [hd] at ht ⊢
        cases ht with
        | access =>
          refine ⟨rfl, ?_⟩
          show Node.AtOne _ _ (q.graph.target ref q.direction)
          rw [hd]
          exact hone
        | egress ride hkind' => rw [hkind'] at hkind; cases hkind
        | stay | board => cases hnone
        | through trips ride trip hkind' => rw [hkind'] at hkind; cases hkind
        | foot duration price hkind' => rw [hkind'] at hkind; cases hkind
        | mumo ride time hkind' => rw [hkind'] at hkind; cases hkind
        | hotel stay hkind' => rw [hkind'] at hkind; cases hkind
      · -- someone about to board can only board
        obtain ⟨hboarding, -⟩ := ih.enters s hs hent
        have hsome := (ht.board_of_boarding (trail.placed hq) hboarding).1
        rw [hnone] at hsome
        cases hsome

/-! ## Going backward -/

/-- Going backward, the last walk ends as the vehicle departs, but for what is
idled away; and without a walk the station is still the same. The gap stands
between any earlier vehicle and the section, so this is for any way of
arriving. -/
structure Since.Backward (q : Query) (event : Event) (label : Label) (gap : List Step) : Prop where
  aboard : label.ride ≠ none → ∀ s ∈ gap, ¬ s.Enters q.graph
  standing :
    (∀ w : Standing, (gap.foldl (Standing.take q.graph .backward) w).walked = true ∧
      (gap.foldl (Standing.take q.graph .backward) w).reached +
        (gap.foldl (Standing.take q.graph .backward) w).idle = event.departure) ∨
    (∀ w : Standing, (gap.foldl (Standing.take q.graph .backward) w).walked = w.walked ∧
      (gap.foldl (Standing.take q.graph .backward) w).reached = w.reached ∧
      (gap.foldl (Standing.take q.graph .backward) w).idle + label.now =
        w.idle + event.departure) ∧
    ∀ s ∈ gap, s.Enters q.graph → q.graph.timetable.stationAt? (q.graph.edge s.edge).tail =
      q.graph.timetable.stationAt? label.node

theorem Timetable.stationAt?_eq_of_atOne {tt : Timetable} {station stop : NodeId}
    (h : Node.AtOne tt.nodes station stop) : tt.stationAt? station = tt.stationAt? stop := by
  obtain ⟨index, route, hstation, hstop⟩ := h
  unfold Timetable.stationAt? Timetable.node
  rw [hstation, hstop]
  rfl

/-- A step over an edge that is no walk changes nothing but the node. -/
theorem Since.Backward.pass {event : Event} {label next : Label} {gap : List Step} {step : Step}
    (h : Since.Backward q event label gap)
    (hwalk : (q.graph.edge step.edge).kind.isWalk = false) (hnow : next.now = label.now)
    (haboard : next.ride ≠ none → label.ride ≠ none ∧ ¬ step.Enters q.graph)
    (henter : step.Enters q.graph → q.graph.timetable.stationAt? (q.graph.edge step.edge).tail =
      q.graph.timetable.stationAt? next.node)
    (hsame : label.ride = none → q.graph.timetable.stationAt? label.node =
      q.graph.timetable.stationAt? next.node) :
    Since.Backward q event next (step :: gap) := by
  refine ⟨fun hride s hs => ?_, ?_⟩
  · obtain ⟨hlabel, hstep⟩ := haboard hride
    rcases List.mem_cons.1 hs with rfl | hs
    · exact hstep
    · exact h.aboard hlabel s hs
  · simp only [List.foldl_cons, Standing.take_of_kind hwalk, hnow]
    rcases h.standing with hwalked | ⟨hstill, hone⟩
    · exact Or.inl hwalked
    · refine Or.inr ⟨hstill, fun s hs hent => ?_⟩
      rcases List.mem_cons.1 hs with rfl | hs
      · exact henter hent
      · by_cases hride : label.ride = none
        · exact (hone s hs hent).trans (hsame hride)
        · exact absurd hent (h.aboard hride s hs)

/-- A walk ends where the way so far began. -/
theorem Since.Backward.walk {event : Event} {label next : Label} {gap : List Step} {step : Step}
    {duration : Nat} (h : Since.Backward q event label gap)
    (htake : ∀ w : Standing, w.take q.graph .backward step = Standing.walk .backward step duration)
    (hhead : step.atHead = label.now) (hle : step.atTail + duration ≤ label.now)
    (hride : next.ride = none) : Since.Backward q event next (step :: gap) := by
  have hend : (Standing.walk .backward step duration).reached +
      (Standing.walk .backward step duration).idle = label.now := by
    simp only [Standing.walk, Draft.walkTimes, Bounded.add, hhead, Time] at hle ⊢
    omega
  refine ⟨fun hr => absurd hride hr, Or.inl fun w => ?_⟩
  rw [List.foldl_cons, htake]
  rcases h.standing with hwalked | ⟨hstill, -⟩
  · -- a later walk has the last word
    exact hwalked _
  · obtain ⟨hw, hreached, hidle⟩ := hstill (Standing.walk .backward step duration)
    refine ⟨hw, ?_⟩
    rw [hreached]
    simp only [Time] at hend hidle ⊢
    omega

/-- A night is idled away where the traveller is. -/
theorem Since.Backward.rest {event : Event} {label next : Label} {gap : List Step} {step : Step}
    (h : Since.Backward q event label gap)
    (htake : ∀ w : Standing, w.take q.graph .backward step =
      { w with idle := w.idle + (label.now - next.now) })
    (hle : next.now ≤ label.now) (hride : next.ride = none) (hent : ¬ step.Enters q.graph)
    (hnode : next.node = label.node) : Since.Backward q event next (step :: gap) := by
  refine ⟨fun hr => absurd hride hr, ?_⟩
  rcases h.standing with hwalked | ⟨hstill, hone⟩
  · refine Or.inl fun w => ?_
    rw [List.foldl_cons]
    exact hwalked _
  · refine Or.inr ⟨fun w => ?_, fun s hs hs' => ?_⟩
    · -- the night comes first in the order of travel, so the gap starts from its end
      obtain ⟨hw, hreached, hidle⟩ := hstill (w.take q.graph .backward step)
      rw [List.foldl_cons, hw, hreached, htake w]
      rw [htake w] at hidle
      refine ⟨rfl, rfl, ?_⟩
      simp only [Time] at hle hidle ⊢
      omega
    · rcases List.mem_cons.1 hs with rfl | hs
      · exact absurd hs' hent
      · rw [hnode]
        exact hone s hs hs'

theorem Since.backward (hq : q.Sound) (hd : q.direction = .backward) {event : Event}
    {label : Label} {gap : List Step} (h : Since q settings measures event label gap) :
    Since.Backward q event label gap := by
  induction h with
  | arrived trail hsection =>
    refine ⟨fun _ s hs => (List.not_mem_nil hs).elim,
      Or.inr ⟨fun w => ⟨rfl, rfl, ?_⟩, fun s hs => (List.not_mem_nil hs).elim⟩⟩
    rw [(trail.of_section? hq.graph hsection).2.1, hd]
    rfl
  | @step label before gap id ref cost now h trail href ht hnow hnone ih =>
    have hpass := passes_of_timeAfter? hnow
    obtain ⟨hfits, hsource⟩ := hq.graph.fits href
    rw [hd] at hsource hpass ht ⊢
    -- only rides and walks take time, and the gap holds no ride
    have hkeep : (q.graph.edge ref).kind.isWalk = false → now = label.now := by
      intro hwalk
      have hzero := ht.time_eq_zero hnone hwalk
      rw [hzero] at hpass
      exact Eq.symm hpass
    have hnode : (q.after id label ref cost now).node = (q.graph.edge ref).tail := by
      show (q.graph.edge ref).target q.direction = _
      rw [hd]
      rfl
    have hlabel : label.node = (q.graph.edge ref).head := hsource.symm
    cases ht with
    | access hkind hfoot =>
      -- by this edge the search boards, so in the order of travel a vehicle is left
      have hwalk : (q.graph.edge ref).kind.isWalk = false := by rw [hkind]; rfl
      have hone := Timetable.stationAt?_eq_of_atOne (hfits.access hkind)
      refine ih.pass hwalk (hkeep hwalk) (fun hr => absurd rfl hr) (fun hent => ?_) fun _ => ?_
      · exact absurd hent (Step.not_enters hkind nofun)
      · rw [hnode, hlabel]
        exact hone
    | egress ride hkind hride =>
      have hwalk : (q.graph.edge ref).kind.isWalk = false := by rw [hkind]; rfl
      refine ih.pass hwalk (hkeep hwalk) (fun hr => absurd rfl hr) (fun _ => ?_) fun hr => ?_
      · rw [hnode]
        rfl
      · rw [hr] at hride
        cases hride
    | stay | board => cases hnone
    | through trips ride trip hkind hride htrip =>
      have hwalk : (q.graph.edge ref).kind.isWalk = false := by rw [hkind]; rfl
      refine ih.pass hwalk (hkeep hwalk) (fun _ => ⟨?_, Step.not_enters hkind nofun⟩)
        (fun hent => ?_) fun hr => ?_
      · rw [hride]
        exact Option.some_ne_none _
      · exact absurd hent (Step.not_enters hkind nofun)
      · rw [hr] at hride
        cases hride
    | foot duration price hkind hfoot =>
      exact ih.walk (fun w => Standing.take_foot hkind) rfl (Nat.le_of_eq (Eq.symm hpass)) rfl
    | mumo ride time hkind hfoot htime hpinned =>
      have hle := Mumo.duration_le_time htime
      refine ih.walk (fun w => Standing.take_mumo hkind) rfl
        (show now + ride.duration ≤ label.now from ?_) rfl
      rw [hpass]
      exact Nat.add_le_add_left hle now
    | hotel stay hkind hfoot hfirst hpinned =>
      refine ih.rest (fun w => Standing.take_hotel hkind) (Nat.le.intro (Eq.symm hpass)) rfl
        (Step.not_enters hkind nofun) ?_
      rw [hnode, hlabel, hfits.hotel hkind]

/-! ## The change -/

/-- A section at which a vehicle is boarded. -/
theorem inTime_of_section? (hq : q.Sound) {id : LabelId} {ref : EdgeRef} {next label : Label}
    (href : ref ∈ q.graph.edgesAt label.node q.direction)
    (hnext : Run.expandEdge q settings id label ref = .ok (some next)) {event : Event}
    (hsection : next.section? q.graph = some event) (hride : label.ride = none) :
    label.inTime q.graph.timetable q.direction event = true := by
  obtain ⟨cost, now, ht, hnow, rfl⟩ := expandEdge_eq_some_iff.1 hnext
  cases ht with
  | board eid legs event' hid hkind hride' hboarding hfind =>
    subst hid
    obtain ⟨hin, hat, -⟩ := boardable_spec hq.graph href hkind hfind
    have hsame : q.graph.event? (.timetable eid) (some _) = some event := hsection
    rw [QueryGraph.event?_eq hkind] at hsame
    simp only [hat] at hsame
    cases hsame
    exact hin
  | stay eid legs ride event' hid hkind hride' => rw [hride] at hride'; cases hride'
  | access | egress | through | foot | mumo | hotel =>
    rw [Label.section?_of_connection_none rfl] at hsection
    cases hsection

end Gap

end JourneyPlanner
