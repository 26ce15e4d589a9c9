import JourneyPlanner.Proofs.Network.Through
import JourneyPlanner.Proofs.Search.Sections
import JourneyPlanner.Proofs.Search.Turns

/-!
# Staying aboard

Whoever is on a vehicle can stay on it: on every route edge that goes on from there the
trip has a run that is not past (`Trail.aboard`). So no edge contradicts a label of a
trail, and the only thing that can stop a search is that there is no room for another
label (`Run.fault_of_run`).

The reason lies one or two edges back. Who has just ridden a section meets the route edge
that follows it on the same route, where the trip does not leave before it has arrived.
Who has come over a through edge has ridden a section before that, since no through edge
leads to another, and the mapping of its trips was checked against both sections. Going
backward the two sections change places, and the later is the one that is behind.
-/

namespace JourneyPlanner

/-- Who has ridden the first leg can still ride the second, as the search goes. -/
def Leg.Leads (first second : Leg) : Direction → Prop
  | .forward => first.arrival ≤ second.departure
  | .backward => second.arrival ≤ first.departure

/-- Who has ridden an event finds a leg on which the trip goes on ahead. -/
theorem Event.exists_ahead {legs legs' : Array Leg} {trip trip' day : Nat} {event : Event}
    {direction : Direction} {leg : Leg} (hat : Event.at? legs trip day = some event)
    (hleg : legs'[trip']? = some leg) (hleads : event.leg.Leads leg direction) :
    ∃ next, Event.at? legs' trip' day = some next ∧
      next.isAhead (event.past direction) direction = true := by
  obtain ⟨-, -, -, hdeparture, harrival⟩ := Event.eq_of_at? hat
  have hnext : Event.at? legs' trip' day = some
      { trip := trip', day, leg, departure := Time.ofDay day leg.departure,
        arrival := Time.ofDay day leg.arrival } := by
    unfold Event.at?
    rw [hleg]
    rfl
  refine ⟨_, hnext, ?_⟩
  cases direction with
  | forward =>
    show decide (event.arrival ≤ Time.ofDay day leg.departure) = true
    rw [decide_eq_true_eq, harrival]
    exact Nat.add_le_add_left hleads _
  | backward =>
    show decide (Time.ofDay day leg.arrival ≤ event.departure) = true
    rw [decide_eq_true_eq, hdeparture]
    exact Nat.add_le_add_left hleads _

theorem Direction.next?_eq_some {direction : Direction} {trips : List (Option Nat)}
    {trip next : Nat} (h : direction.next? trips trip = some next) :
    match direction with
    | .forward => trips[trip]? = some (some next)
    | .backward => trips[next]? = some (some trip) := by
  cases direction with
  | forward => exact EdgeKind.continuation?_eq_some_iff.1 h
  | backward => exact EdgeKind.continuation?_eq_some_iff.1 (EdgeKind.origin?_eq_some_iff.1 h).1

section Edges

variable {stations : Array Station} {nodes : Array Node} {edges : Array Edge}
  {direction : Direction} {edge next : Edge} {legs legs' : Array Leg}

/-- A trip goes on over the route edge that follows. -/
theorem Parts.Sound.exists_leads (h : Parts.Sound stations nodes edges) (hedge : edge ∈ edges)
    (hnext : next ∈ edges) (hmeet : edge.target direction = next.source direction)
    (hk : edge.kind = .route legs) (hk' : next.kind = .route legs') {trip : Nat} {leg : Leg}
    (hleg : legs[trip]? = some leg) :
    ∃ leg', legs'[trip]? = some leg' ∧ leg.Leads leg' direction := by
  have hthere : ∀ other : Array Leg, other.size = legs.size → ∃ leg', other[trip]? = some leg' := by
    intro other hsize
    have hlt : trip < other.size := by
      rw [hsize]
      exact (Array.getElem?_eq_some_iff.1 hleg).1
    exact ⟨_, Array.getElem?_eq_getElem hlt⟩
  cases direction with
  | forward =>
    have hfollow := h.follow edge hedge next hnext hmeet legs legs' hk hk'
    obtain ⟨leg', hleg'⟩ := hthere legs' hfollow.size_eq.symm
    exact ⟨leg', hleg', (hfollow.continues trip leg leg' hleg hleg').arrival_le⟩
  | backward =>
    have hfollow := h.follow next hnext edge hedge hmeet.symm legs' legs hk' hk
    obtain ⟨leg', hleg'⟩ := hthere legs' hfollow.size_eq
    exact ⟨leg', hleg', (hfollow.continues trip leg' leg hleg' hleg).arrival_le⟩

/-- A trip that goes on as another does so over the route edge beyond. -/
theorem Parts.Joined.exists_leads (h : Parts.Joined edges) {through : Edge}
    {trips : List (Option Nat)} (hedge : edge ∈ edges) (hthrough : through ∈ edges)
    (hnext : next ∈ edges) (hmeet : edge.target direction = through.source direction)
    (hmeet' : through.target direction = next.source direction) (hk : edge.kind = .route legs)
    (hkind : through.kind = .through trips) (hk' : next.kind = .route legs') {trip onward : Nat}
    {leg : Leg} (hleg : legs[trip]? = some leg)
    (honward : direction.next? trips trip = some onward) :
    ∃ leg', legs'[onward]? = some leg' ∧ leg.Leads leg' direction := by
  have hmapped := Direction.next?_eq_some honward
  cases direction with
  | forward =>
    obtain ⟨a, b, ha, hb, hle⟩ := h.join through hthrough trips hkind edge hedge next hnext hmeet
      hmeet' legs legs' hk hk' trip onward hmapped
    rw [hleg] at ha
    cases ha
    exact ⟨b, hb, hle⟩
  | backward =>
    obtain ⟨a, b, ha, hb, hle⟩ := h.join through hthrough trips hkind next hnext edge hedge
      hmeet'.symm hmeet.symm legs' legs hk' hk onward trip hmapped
    rw [hleg] at hb
    cases hb
    exact ⟨a, ha, hle⟩

theorem Parts.Joined.target_ne_source (h : Parts.Joined edges) {trips trips' : List (Option Nat)}
    (hedge : edge ∈ edges) (hnext : next ∈ edges) (hk : edge.kind = .through trips)
    (hk' : next.kind = .through trips') : edge.target direction ≠ next.source direction := by
  cases direction with
  | forward => exact h.apart edge hedge next hnext trips trips' hk hk'
  | backward => exact (h.apart next hnext edge hedge trips' trips hk' hk).symm

end Edges

section Trail

variable {q : Query} {settings : Settings} {measures : List Measure} {label : Label}
  {before : List Label} {ride : Ride}

/-- Who has come over a route edge has ridden it on the trip that it is still on. -/
theorem Trail.ridden (hq : q.graph.Sound) (h : Trail q settings measures (label :: before))
    (hride : label.ride = some ride) (hused : label.connection ≠ none) :
    ∃ edge ∈ q.graph.timetable.edges, ∃ legs event, edge.kind = .route legs ∧
      edge.target q.direction = label.node ∧
      Event.at? legs ride.trip ride.day = some event ∧ label.now = event.past q.direction := by
  obtain ⟨used, hused⟩ := Option.ne_none_iff_exists'.1 hused
  obtain ⟨id, event, hedge, hmem, htarget, hevent, hride'⟩ := (h.riding hq).vehicle used hused
  obtain ⟨legs, hkind, hat⟩ := QueryGraph.event?_eq_some hevent
  obtain ⟨event', hsection, -, -, -, -, -, hnow, -⟩ := h.section_spec hq hused
  rw [Label.section?_eq hedge, hused, hevent] at hsection
  cases hsection
  rw [hride] at hride'
  cases hride'
  exact ⟨_, hmem, legs, event, hkind, htarget, hat, hnow⟩

/-- Who is on a trip without having come over a route edge has come over a through edge. -/
theorem Trail.came_through (h : Trail q settings measures (label :: before))
    (hride : label.ride = some ride) (hnone : label.connection = none) :
    ∃ ref trips older before' ride', before = older :: before' ∧
      ref ∈ q.graph.edgesAt older.node q.direction ∧ (q.graph.edge ref).kind = .through trips ∧
      older.ride = some ride' ∧ ride.day = ride'.day ∧
      q.direction.next? trips ride'.trip = some ride.trip ∧
      label.node = (q.graph.edge ref).target q.direction ∧ label.now = older.now ∧
      Trail q settings measures before := by
  cases h with
  | start time htime hin => cases hride
  | step id ref _ older before' trail hgoal href hnext hin =>
    obtain ⟨cost, now, ht, hnow, rfl⟩ := expandEdge_eq_some_iff.1 hnext
    cases ht with
    | through trips ride' trip hkind hride' htrip =>
      cases hride
      exact ⟨ref, trips, older, before', ride', rfl, href, hkind, hride', rfl, htrip, rfl,
        eq_of_timeAfter?_zero hnow, trail⟩
    | access | egress | foot | mumo | hotel => cases hride
    | stay | board => cases hnone

/-- Whoever is on a vehicle can stay on it, wherever it goes. -/
theorem Trail.aboard (hq : q.graph.Sound) (hjoined : Parts.Joined q.graph.timetable.edges)
    (h : Trail q settings measures (label :: before)) (hride : label.ride = some ride)
    {id : EdgeId} {legs : Array Leg}
    (href : EdgeRef.timetable id ∈ q.graph.edgesAt label.node q.direction)
    (hkind : (q.graph.edge (.timetable id)).kind = .route legs) :
    ∃ event, Event.at? legs ride.trip ride.day = some event ∧
      event.isAhead label.now q.direction = true := by
  obtain ⟨hmem, hsource⟩ := hq.edge_mem href
  by_cases hused : label.connection = none
  · obtain ⟨ref, trips, older, before', ride', rfl, href', hkind', hride', hday, hnext, hnode,
      hnow, trail⟩ := h.came_through hride hused
    obtain ⟨hthrough, hsource'⟩ := hq.through_mem href' hkind'
    -- the section before the through edge
    have hused' : older.connection ≠ none := by
      intro hnone
      obtain ⟨ref₂, trips₂, older₂, before₂, ride₂, rfl, href₂, hkind₂, -, -, -, hnode₂, -, -⟩ :=
        trail.came_through hride' hnone
      obtain ⟨hthrough₂, -⟩ := hq.through_mem href₂ hkind₂
      exact hjoined.target_ne_source hthrough₂ hthrough hkind₂ hkind'
        (hnode₂.symm.trans hsource'.symm)
    obtain ⟨edge, hedge, legs', event, hk, htarget, hat, hpast⟩ := trail.ridden hq hride' hused'
    obtain ⟨-, -, hleg, -⟩ := Event.eq_of_at? hat
    obtain ⟨leg, hleg', hleads⟩ := hjoined.exists_leads hedge hthrough hmem
      (htarget.trans hsource'.symm) (hnode.symm.trans hsource.symm) hk hkind' hkind hleg hnext
    rw [hday, hnow, hpast]
    exact Event.exists_ahead hat hleg' hleads
  · obtain ⟨edge, hedge, legs', event, hk, htarget, hat, hpast⟩ := h.ridden hq hride hused
    obtain ⟨-, -, hleg, -⟩ := Event.eq_of_at? hat
    obtain ⟨leg, hleg', hleads⟩ := hq.timetable.parts.exists_leads hedge hmem
      (htarget.trans hsource.symm) hk hkind hleg
    rw [hpast]
    exact Event.exists_ahead hat hleg' hleads

/-- An edge can contradict only a label that is on a vehicle, and on a route edge. -/
theorem edgeCost_eq_error {graph : QueryGraph} {ref : EdgeRef} {direction : Direction}
    {horizon : Nat} {fault : SearchFault}
    (h : edgeCost graph label ref direction horizon = .error fault) :
    ∃ id legs ride, ref = .timetable id ∧ (graph.edge ref).kind = .route legs ∧
      label.ride = some ride ∧
      ∀ event, Event.at? legs ride.trip ride.day = some event →
        event.isAhead label.now direction = false := by
  unfold edgeCost at h
  dsimp only at h
  split at h
  · cases h
  · next hwalk =>
    split at h
    · cases h
    · cases h
    · cases h
    · cases h
    · next hkind =>
      split at h
      · cases h
      · next id ride hride =>
        refine ⟨id, _, ride, rfl, hkind, hride, fun event hat => ?_⟩
        refine Bool.eq_false_iff.2 fun hahead => ?_
        rw [stayAboard_eq_ok_iff.2 ⟨event, hat, hahead, rfl⟩] at h
        cases h
      · cases h
    · cases h
    · cases h
    · cases h
    · cases h

/-- No edge contradicts a label of a trail. -/
theorem Trail.edgeCost_ne_error (hq : q.graph.Sound)
    (hjoined : Parts.Joined q.graph.timetable.edges)
    (h : Trail q settings measures (label :: before)) {ref : EdgeRef}
    (href : ref ∈ q.graph.edgesAt label.node q.direction) {horizon : Nat} {fault : SearchFault} :
    edgeCost q.graph label ref q.direction horizon ≠ .error fault := by
  intro herror
  obtain ⟨id, legs, ride, rfl, hkind, hride, hpast⟩ := edgeCost_eq_error herror
  obtain ⟨event, hat, hahead⟩ := h.aboard hq hjoined hride href hkind
  rw [hpast event hat] at hahead
  cases hahead

end Trail

/-! ## What can stop a search -/

namespace Run

variable {q : Query} {settings : Settings} {measures : List Measure} {r : Run} {f : Frontier}
  {label : Label} {halt : Halt}

theorem fault_of_push (h : r.push label = .error halt) : halt.fault = .exhausted := by
  unfold Run.push at h
  dsimp only at h
  split at h
  · cases h
    rfl
  · cases h

theorem fault_of_start (h : Run.start q settings measures f = .error halt) :
    halt.fault = .exhausted := by
  refine Fallible.foldlM_error (P := fun _ : Run => True) (E := fun halt : Halt =>
    halt.fault = .exhausted) (fun _ _ _ _ _ _ => trivial) (fun r time halt _ _ hpush => ?_)
    trivial h
  unfold pushStart at hpush
  dsimp only at hpush
  split at hpush
  · cases hpush
  · cases hp : r.push (startLabel q measures time) with
    | ok r₁ =>
      rw [hp] at hpush
      cases hpush
    | error e =>
      rw [hp] at hpush
      cases hpush
      exact fault_of_push hp

theorem fault_of_expand (hq : q.graph.Sound) (hjoined : Parts.Joined q.graph.timetable.edges)
    {before : List Label} (htrail : Trail q settings measures (label :: before)) {id : LabelId}
    (h : r.expand q settings id label = .error halt) : halt.fault = .exhausted := by
  refine Fallible.foldlM_error (P := fun _ : Run => True) (E := fun halt : Halt =>
    halt.fault = .exhausted) (fun _ _ _ _ _ _ => trivial) (fun r ref halt href _ hpush => ?_)
    trivial h
  unfold pushEdge at hpush
  split at hpush
  · next fault hfault =>
    unfold expandEdge at hfault
    split at hfault
    · next hcost => exact absurd hcost (htrail.edgeCost_ne_error hq hjoined href)
    · cases hfault
    · cases hfault
  · cases hpush
  · split at hpush
    · cases hpush
    · exact fault_of_push hpush

theorem fault_of_visit (hq : q.Sound) (hjoined : Parts.Joined q.graph.timetable.edges)
    {order : List LabelId} {id : LabelId}
    (hs : Frontier.Sound q settings measures r.frontier order [id])
    (h : r.visit q settings id = .error halt) : halt.fault = .exhausted := by
  obtain ⟨label, links, ht⟩ := hs.waiting id List.mem_cons_self
  by_cases hbeaten : r.frontier.beatenByResult label = true ∨
      r.frontier.beatenAtNode label q.direction = true
  · obtain ⟨r₁, h₁, -⟩ := visit_of_beaten ht.get? hbeaten
    rw [h] at h₁
    cases h₁
  · rw [not_or, Bool.not_eq_true, Bool.not_eq_true] at hbeaten
    rw [visit_of_kept ht.get? hbeaten.1 hbeaten.2] at h
    split at h
    · cases h
    · exact fault_of_expand hq.graph hjoined ht.trail h

/-- A loop that fails does so in the turn after some others. -/
theorem fault_of_loop (hq : q.Sound) (hjoined : Parts.Joined q.graph.timetable.edges)
    (hf : f.Blank) (hr : Reached q settings measures f r) {budget : Nat}
    (h : Run.loop q settings budget r = .error halt) : halt.fault = .exhausted := by
  obtain ⟨s, hpasses, hends⟩ := hr.loop_ends hq hf budget
  rw [h] at hends
  cases hends with
  | fault _ hqueue hpop hvisit =>
    obtain ⟨order, hs⟩ := (hr.passes hpasses).sound hq hf
    exact fault_of_visit hq hjoined (pop_sound hs hpop).1 hvisit

/-- Nothing can stop a search but that there is no room for another label. -/
theorem fault_of_run (hq : q.Sound) (hjoined : Parts.Joined q.graph.timetable.edges)
    (hf : f.Blank) (h : q.run settings measures f = .error halt) : halt.fault = .exhausted := by
  rcases run_eq_error.1 h with hstart | ⟨r, hstart, hloop⟩
  · exact fault_of_start hstart
  · exact fault_of_loop hq hjoined hf (Reached.start hstart) hloop

end Run

end JourneyPlanner
