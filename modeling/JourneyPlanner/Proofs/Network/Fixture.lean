import JourneyPlanner.Network.Fixture
import JourneyPlanner.Proofs.Network.Window
import JourneyPlanner.Query.Graph

/-!
# Timetables that were built

`Timetable.Sound` is what a search knows about its timetable: the parts are
sound, and the lists of edges at a node hold exactly the edges that begin, or
end, there. `Fixture.build_sound` gives it for every timetable that a fixture
describes, whatever the fixture says; nothing later looks at a fixture again.

Adding a part to a draft either fails or is a call to its builder, so the builder in
the end is one that calls have led to (`Fixture.build_made`), and what they all keep
holds of it.
-/

namespace JourneyPlanner

/-- The parts of the timetable are sound and the edges at a node are those that
are taken from it. -/
structure Timetable.Sound (tt : Timetable) : Prop where
  parts : Parts.Sound tt.stations tt.nodes tt.edges
  mem_edgesAt : ∀ (id : EdgeId) (node : NodeId) (direction : Direction),
    id ∈ tt.edgesAt node direction ↔
      node < tt.nodes.size ∧ ∃ edge, tt.edges[id]? = some edge ∧ edge.source direction = node
  days_le : tt.period.days ≤ DayMask.maxDays

/-- An edge that fits is taken from a node that there is. -/
theorem Edge.Fits.source_lt {nodes : Array Node} {edge : Edge} (h : edge.Fits nodes)
    (direction : Direction) : edge.source direction < nodes.size := by
  cases direction
  · exact h.lt_size.1
  · exact h.lt_size.2

/-- An edge that is there is what its id is looked up as. -/
theorem Timetable.edge_eq {tt : Timetable} {id : EdgeId} {edge : Edge}
    (h : tt.edges[id]? = some edge) : tt.edge id = edge := by
  rw [Timetable.edge, h, Option.getD_some]

/-- The edges at a node are those of the timetable that are taken from there. -/
theorem Timetable.Sound.exists_mem_edgesAt {tt : Timetable} (h : tt.Sound) {node : NodeId}
    {direction : Direction} {P : Edge → Prop} :
    (∃ id ∈ tt.edgesAt node direction, P (tt.edge id)) ↔
      ∃ edge ∈ tt.edges, edge.source direction = node ∧ P edge := by
  constructor
  · rintro ⟨id, hid, hP⟩
    obtain ⟨-, edge, hedge, hsource⟩ := (h.mem_edgesAt _ _ _).1 hid
    rw [Timetable.edge_eq hedge] at hP
    exact ⟨edge, Array.mem_of_getElem? hedge, hsource, hP⟩
  · rintro ⟨edge, hmem, rfl, hP⟩
    obtain ⟨id, hedge⟩ := Array.getElem?_of_mem hmem
    refine ⟨id, (h.mem_edgesAt _ _ _).2
      ⟨(h.parts.fits edge hmem).source_lt direction, edge, hedge, rfl⟩, ?_⟩
    rw [Timetable.edge_eq hedge]
    exact hP

namespace Builder

/-! ## The edges at a node -/

/-- The edges at a node are those whose end is there, ascending. -/
theorem getElem?_edgesBySide {nodes : Nat} {edges : Array Edge} {side : Edge → NodeId}
    {node : NodeId} (h : node < nodes) :
    (edgesBySide nodes edges side)[node]? =
      some ((edges.toList.zipIdx.filter fun e => side e.1 == node).map (·.2)) := by
  unfold edgesBySide
  induction edges.toList.zipIdx with
  | nil => simp [h]
  | cons e rest ih =>
    rw [List.foldr_cons, Array.getElem?_modify, ih]
    split
    · next heq => simp [heq]
    · next hne => simp [hne]

/-- There is a list for every node, whether any edge has it on that side or not. -/
theorem size_edgesBySide (nodes : Nat) (edges : Array Edge) (side : Edge → NodeId) :
    (edgesBySide nodes edges side).size = nodes := by
  unfold edgesBySide
  induction edges.toList.zipIdx with
  | nil => simp
  | cons e rest ih => rw [List.foldr_cons, Array.size_modify, ih]

/-- A node's list has the edges that have it on this side, and the ids of no others. -/
theorem mem_edgesBySide {nodes : Nat} {edges : Array Edge} {side : Edge → NodeId}
    {node : NodeId} {id : EdgeId} :
    id ∈ (edgesBySide nodes edges side)[node]?.getD [] ↔
      node < nodes ∧ ∃ edge, edges[id]? = some edge ∧ side edge = node := by
  rcases Nat.lt_or_ge node nodes with h | h
  · rw [getElem?_edgesBySide h, Option.getD_some, List.mem_map]
    constructor
    · rintro ⟨⟨edge, i⟩, hmem, rfl⟩
      obtain ⟨hmem, hside⟩ := List.mem_filter.1 hmem
      have hget := List.mem_zipIdx_iff_getElem?.1 hmem
      rw [Array.getElem?_toList] at hget
      exact ⟨h, edge, hget, beq_iff_eq.1 hside⟩
    · rintro ⟨-, edge, hget, hside⟩
      refine ⟨(edge, id), List.mem_filter.2 ⟨?_, beq_iff_eq.2 hside⟩, rfl⟩
      rw [List.mem_zipIdx_iff_getElem?, Array.getElem?_toList]
      exact hget
  · rw [Array.getElem?_eq_none (by rw [size_edgesBySide]; exact h)]
    simp only [Option.getD_none, List.not_mem_nil, false_iff]
    exact fun hlt => absurd hlt.1 (Nat.not_lt.2 h)

/-- A node's list goes by the ids of the edges, from the smallest on. -/
theorem pairwise_edgesBySide (nodes : Nat) (edges : Array Edge) (side : Edge → NodeId)
    (node : NodeId) : ((edgesBySide nodes edges side)[node]?.getD []).Pairwise (· < ·) := by
  by_cases hnode : node < nodes
  · rw [getElem?_edgesBySide hnode, Option.getD_some]
    have hsub := (List.filter_sublist (p := fun e : Edge × Nat => side e.1 == node)
      (l := edges.toList.zipIdx)).map Prod.snd
    rw [List.zipIdx_map_snd] at hsub
    have hall : (List.range' 0 edges.toList.length).Pairwise (· < ·) := List.pairwise_lt_range'
    exact hall.sublist hsub
  · rw [Array.getElem?_eq_none (by rw [size_edgesBySide]; exact Nat.not_lt.1 hnode)]
    exact List.Pairwise.nil

/-- The timetable built of sound parts is sound: its lists are those of the edges. -/
theorem build_sound {b : Builder} (h : b.Sound) : b.build.Sound := by
  refine ⟨h.parts, fun id node direction => ?_, h.days_le⟩
  cases direction <;> exact mem_edgesBySide

end Builder

namespace Fixture

/-! ## Reading -/

/-- A minute that could be read is one of the clock. -/
theorem minute_le {text : Option String} {m : Nat} (h : Draft.minute text = .ok (some m)) :
    m ≤ lastMinute := by
  unfold Draft.minute at h
  split at h
  · cases h
  · split at h
    · next t ht =>
      cases h
      unfold Time.parse at ht
      split at ht
      · split at ht
        · cases ht
        · split at ht
          · cases ht
          · split at ht
            · cases ht
            · split at ht
              · cases ht
              · split at ht
                · cases ht
                · cases ht
                  simp only [Time.ofDay, lastMinute]
                  omega
      · cases ht
    · cases h

namespace Draft

variable {period : Period}

/-- The builder of the draft is one that calls have led to, none of them with a trip
that is out of time. -/
def Made (period : Period) (draft : Draft) : Prop := draft.builder.Made Trip.InTime period

/-- A track that is new is one call more. -/
theorem track_made {draft : Draft} {label : Option String} (h : draft.Made period) :
    (draft.track label).2.Made period := by
  unfold Draft.track
  split
  · exact h
  · split
    · exact h
    · exact Builder.Made.addTrack _ h

/-- Reading the stops of a trip adds only tracks, and its arrivals are minutes of the clock. -/
theorem stops_made {draft draft' : Draft} {times tracks : List (Option String × Option String)}
    {stops : List StopTime} (h : draft.Made period)
    (hs : Draft.stops draft times tracks = .ok (stops, draft')) :
    draft'.Made period ∧ ∀ stop ∈ stops, ∀ m ∈ stop.arrival, m ≤ lastMinute := by
  induction times generalizing draft tracks stops with
  | nil =>
    cases hs
    exact ⟨h, by simp⟩
  | cons time times ih =>
    unfold Draft.stops at hs
    obtain ⟨arrival, harrival, hs⟩ := Fallible.bind_eq_ok.1 hs
    obtain ⟨departure, -, hs⟩ := Fallible.bind_eq_ok.1 hs
    obtain ⟨⟨rest, draft₁⟩, hrest, hs⟩ := Fallible.bind_eq_ok.1 hs
    cases hs
    obtain ⟨hmade, hle⟩ := ih (track_made (track_made h)) hrest
    refine ⟨hmade, fun stop hstop m hm => ?_⟩
    rcases List.mem_cons.1 hstop with rfl | hstop
    · cases hm
      exact minute_le harrival
    · exact hle stop hstop m hm

/-- A trip that could be read is in time. -/
theorem trip_made {draft draft' : Draft} {entry : TripEntry} {trip : Trip} (h : draft.Made period)
    (ht : draft.trip entry = .ok (trip, draft')) : draft'.Made period ∧ trip.InTime := by
  unfold Draft.trip at ht
  obtain ⟨category, -, ht⟩ := Fallible.bind_eq_ok.1 ht
  obtain ⟨days, -, ht⟩ := Fallible.bind_eq_ok.1 ht
  obtain ⟨⟨stops, draft₁⟩, hstops, ht⟩ := Fallible.bind_eq_ok.1 ht
  cases ht
  refine stops_made ?_ hstops
  exact Builder.Made.addInfo _ h

/-- All trips of a route are in time if they could be read. -/
theorem trips_made {draft draft' : Draft} {entries : List TripEntry} {trips : List Trip}
    (h : draft.Made period) (ht : draft.trips entries = .ok (trips, draft')) :
    draft'.Made period ∧ ∀ trip ∈ trips, trip.InTime := by
  induction entries generalizing draft trips with
  | nil =>
    cases ht
    exact ⟨h, by simp⟩
  | cons entry entries ih =>
    unfold Draft.trips at ht
    obtain ⟨⟨first, draft₁⟩, hfirst, ht⟩ := Fallible.bind_eq_ok.1 ht
    obtain ⟨⟨rest, draft₂⟩, hrest, ht⟩ := Fallible.bind_eq_ok.1 ht
    cases ht
    obtain ⟨h₁, hin⟩ := trip_made h hfirst
    obtain ⟨h₂, hall⟩ := ih h₁ hrest
    refine ⟨h₂, fun trip htrip => ?_⟩
    rcases List.mem_cons.1 htrip with rfl | htrip
    · exact hin
    · exact hall trip htrip

/-! ## Adding -/

/-- Each category is one call more. -/
theorem addCategories_made {draft : Draft} {names : List String} (h : draft.Made period) :
    (names.foldl Draft.addCategory draft).Made period := by
  induction names generalizing draft with
  | nil => exact h
  | cons name names ih => exact ih (Builder.Made.addCategory name h)

/-- A station that was accepted is one call more. -/
theorem addStation_made {draft draft' : Draft} {entry : StationEntry} (h : draft.Made period)
    (ha : draft.addStation entry = .ok draft') : draft'.Made period := by
  unfold Draft.addStation at ha
  obtain ⟨⟨index, builder⟩, hb, ha⟩ := Fallible.bind_eq_ok.1 ha
  cases ha
  exact Builder.Made.addStation h hb

/-- An interchange rule between known platforms is one call more. -/
theorem addRule_made {station : StationIndex} {draft draft' : Draft} {rule : Interchange}
    (h : draft.Made period) (ha : addRule station draft rule = .ok draft') :
    draft'.Made period := by
  unfold addRule at ha
  obtain ⟨arriving, -, ha⟩ := Fallible.bind_eq_ok.1 ha
  obtain ⟨departing, -, ha⟩ := Fallible.bind_eq_ok.1 ha
  cases ha
  exact Builder.Made.setInterchange _ _ h

/-- All rules of a station keep the draft one that calls have led to. -/
theorem addRules_made {draft draft' : Draft} {entry : StationEntry} (h : draft.Made period)
    (ha : draft.addRules entry = .ok draft') : draft'.Made period := by
  unfold Draft.addRules at ha
  obtain ⟨station, -, ha⟩ := Fallible.bind_eq_ok.1 ha
  exact Fallible.foldlM_keeps (fun d rule d' _ hd => addRule_made hd) h ha

/-- A route is added with trips that are in time. -/
theorem addRoute_made {draft draft' : Draft} {entry : RouteEntry} (h : draft.Made period)
    (ha : draft.addRoute entry = .ok draft') : draft'.Made period := by
  unfold Draft.addRoute at ha
  obtain ⟨stops, -, ha⟩ := Fallible.bind_eq_ok.1 ha
  obtain ⟨⟨trips, draft₁⟩, htrips, ha⟩ := Fallible.bind_eq_ok.1 ha
  obtain ⟨⟨route, builder⟩, hb, ha⟩ := Fallible.bind_eq_ok.1 ha
  cases ha
  obtain ⟨h₁, hin⟩ := trips_made h htrips
  exact Builder.Made.addRoute h₁ hin hb

/-- A footpath that was accepted is one call more. -/
theorem addFootpath_made {draft draft' : Draft} {entry : FootpathEntry} (h : draft.Made period)
    (ha : draft.addFootpath entry = .ok draft') : draft'.Made period := by
  unfold Draft.addFootpath at ha
  obtain ⟨source, -, ha⟩ := Fallible.bind_eq_ok.1 ha
  obtain ⟨target, -, ha⟩ := Fallible.bind_eq_ok.1 ha
  obtain ⟨⟨edge, builder⟩, hb, ha⟩ := Fallible.bind_eq_ok.1 ha
  cases ha
  exact Builder.Made.addFootpath h hb

/-- A through service that was accepted is one call more. -/
theorem addThrough_made {draft draft' : Draft} {entry : ThroughEntry} (h : draft.Made period)
    (ha : draft.addThrough entry = .ok draft') : draft'.Made period := by
  unfold Draft.addThrough at ha
  obtain ⟨source, -, ha⟩ := Fallible.bind_eq_ok.1 ha
  obtain ⟨target, -, ha⟩ := Fallible.bind_eq_ok.1 ha
  obtain ⟨⟨edge, builder⟩, hb, ha⟩ := Fallible.bind_eq_ok.1 ha
  cases ha
  exact Builder.Made.addThrough h hb

end Draft

/-- Whatever a fixture says, its draft is one that calls have led to. -/
theorem draft_made {fixture : Fixture} {draft : Draft} (h : fixture.draft = .ok draft) :
    draft.Made { firstDay := fixture.firstDay, days := fixture.days } := by
  unfold Fixture.draft at h
  obtain ⟨d₁, h₁, h⟩ := Fallible.bind_eq_ok.1 h
  obtain ⟨d₂, h₂, h⟩ := Fallible.bind_eq_ok.1 h
  obtain ⟨d₃, h₃, h⟩ := Fallible.bind_eq_ok.1 h
  obtain ⟨d₄, h₄, h⟩ := Fallible.bind_eq_ok.1 h
  have hnew : Draft.Made { firstDay := fixture.firstDay, days := fixture.days }
      { builder := Builder.new { firstDay := fixture.firstDay, days := fixture.days }
        categories := [], stations := [], tracks := [], routes := #[] } := Builder.Made.new
  have s₁ := Fallible.foldlM_keeps (P := Draft.Made _)
    (fun d e d' _ hd => Draft.addStation_made hd) (Draft.addCategories_made hnew) h₁
  have s₂ := Fallible.foldlM_keeps (fun d e d' _ hd => Draft.addRules_made hd) s₁ h₂
  have s₃ := Fallible.foldlM_keeps (fun d e d' _ hd => Draft.addRoute_made hd) s₂ h₃
  have s₄ := Fallible.foldlM_keeps (fun d e d' _ hd => Draft.addFootpath_made hd) s₃ h₄
  exact Fallible.foldlM_keeps (fun d e d' _ hd => Draft.addThrough_made hd) s₄ h

/-- A timetable that a fixture describes is that of some builder, for no more days than
a mask can tell apart. -/
theorem build_made {fixture : Fixture} {tt : Timetable} (h : fixture.build = .ok tt) :
    ∃ b : Builder, b.Made Trip.InTime { firstDay := fixture.firstDay, days := fixture.days } ∧
      fixture.days ≤ DayMask.maxDays ∧ tt = b.build := by
  unfold Fixture.build at h
  split at h
  · cases h
  · next hdays =>
    obtain ⟨draft, hdraft, rfl⟩ := Fallible.map_eq_ok.1 h
    exact ⟨draft.builder, draft_made hdraft, by omega, rfl⟩

/-- Every timetable that a fixture describes is sound. -/
theorem build_sound {fixture : Fixture} {tt : Timetable} (h : fixture.build = .ok tt) :
    tt.Sound := by
  obtain ⟨b, hmade, hdays, rfl⟩ := build_made h
  exact Builder.build_sound (hmade.sound hdays)

end Fixture

/-- No run of a trip ends before it begins, and none that starts during the schedule lasts into the
second day after it. -/
theorem Timetable.Sound.event_spec {tt : Timetable} (h : tt.Sound) {edge : Edge}
    (hedge : edge ∈ tt.edges) {legs : Array Leg} (hkind : edge.kind = .route legs)
    {trip day : Nat} {event : Event} (hat : Event.at? legs trip day = some event) :
    event.leg.Valid ∧ event.departure ≤ event.arrival ∧
      (day < tt.period.days → event.arrival < (DayMask.maxDays + 1) * Time.perDay) := by
  obtain ⟨-, -, hleg, hdep, harr⟩ := Event.eq_of_at? hat
  have hvalid := h.parts.valid edge hedge legs hkind event.leg (Array.mem_of_getElem? hleg)
  refine ⟨hvalid, ?_, fun hday => ?_⟩
  · rw [hdep, harr]
    exact Nat.add_le_add_left hvalid.departure_le _
  · have hlast := hvalid.arrival_le
    have hdays := h.days_le
    rw [harr]
    simp only [Time.ofDay, Time.perDay, lastMinute, DayMask.maxDays, Time] at *
    omega

/-- No two nodes are those of one station itself. -/
def Timetable.OneNode (tt : Timetable) : Prop :=
  ∀ a b, Node.IsStation tt.nodes a → Node.IsStation tt.nodes b →
    (tt.node a).stationIndex = (tt.node b).stationIndex → a = b

/-- In every timetable that a fixture describes a station has one node. -/
theorem Fixture.build_oneNode {fixture : Fixture} {tt : Timetable}
    (h : fixture.build = .ok tt) : tt.OneNode := by
  obtain ⟨b, hmade, -, rfl⟩ := build_made h
  rintro first second ⟨i, hi⟩ ⟨j, hj⟩ heq
  have hfirst := hmade.stationNode_eq hi
  have hsecond := hmade.stationNode_eq hj
  unfold Timetable.node at heq
  rw [hi, hj, Option.getD_some, Option.getD_some] at heq
  have heq : i = j := heq
  rw [heq, hsecond] at hfirst
  exact (Option.some.inj hfirst).symm

end JourneyPlanner
