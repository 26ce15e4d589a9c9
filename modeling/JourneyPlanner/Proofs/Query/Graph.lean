import JourneyPlanner.Proofs.Calendar.Minutes
import JourneyPlanner.Proofs.Network.Fixture
import JourneyPlanner.Router

/-!
# Queries over sound timetables

The edges that a request brings along join stations, so that the graph of a
query is as sound as its timetable (`QueryGraph.make_sound`). What a request comes
to is told once (`Request.toQuery_eq_ok`): a query that came through has its ends at
stations, and its bounds are those of its own graph and goal (`Request.toQuery_sound`).
This is all that the proofs about a search ask of the query.
-/

namespace JourneyPlanner

/-- The node that is found for an identifier is that of a station so called. -/
theorem Timetable.exists_of_stationNode? {tt : Timetable} {id : String} {node : NodeId}
    (h : tt.stationNode? id = some node) :
    ∃ (index : StationIndex) (s : Station), tt.stations[index]? = some s ∧ s.id.text = id ∧
      s.node = node := by
  unfold stationNode? stationIndex? at h
  obtain ⟨index, hindex, h⟩ := Option.bind_eq_some_iff.1 h
  obtain ⟨s, hs, h⟩ := Option.bind_eq_some_iff.1 h
  cases h
  obtain ⟨hlt, htext, -⟩ := Array.findIdx?_eq_some_iff_getElem.1 hindex
  rw [(Array.getElem?_eq_some_iff.1 hs).2] at htext
  exact ⟨index, s, hs, beq_iff_eq.1 htext, rfl⟩

theorem Timetable.Sound.isStation_of_stationNode? {tt : Timetable} (h : tt.Sound) {id : String}
    {node : NodeId} (hn : tt.stationNode? id = some node) : Node.IsStation tt.nodes node := by
  obtain ⟨index, s, hs, -, rfl⟩ := Timetable.exists_of_stationNode? hn
  exact ⟨index, h.parts.station index s hs⟩

theorem RequestedWindow.lt_of_resolve? {window : RequestedWindow} {period : Period}
    {begin finish : Nat} (h : window.resolve? period = some (.daily begin finish)) :
    begin < Time.perDay ∧ finish < Time.perDay := by
  unfold RequestedWindow.resolve? at h
  split at h
  · cases h
    exact ⟨Nat.mod_lt _ (by decide), Nat.mod_lt _ (by decide)⟩
  · dsimp only at h
    split at h
    · cases h
    · obtain ⟨b, -, h⟩ := Option.bind_eq_some_iff.1 h
      obtain ⟨f, -, h⟩ := Option.bind_eq_some_iff.1 h
      cases h

/-- A window between two instants is dropped unless it has some time of the schedule. What is kept
is cut to the schedule, and both ends fall back to the minutes in which they lie. -/
theorem RequestedWindow.resolve?_absolute_cases {period : Period} {begin finish : Int}
    (hceiling : period.finish ≤ Bounded.ceiling) :
    (¬ (begin < finish ∧ begin < period.toInstant period.finish ∧ period.toInstant 0 < finish) ∧
        (RequestedWindow.absolute begin finish).resolve? period = none) ∨
      (begin < finish ∧ begin < period.toInstant period.finish ∧ period.toInstant 0 < finish) ∧
        ∃ b e, period.toTime? (max begin (period.toInstant 0)) = some b ∧
          period.toTime? (min finish (period.toInstant period.finish)) = some e ∧
          (RequestedWindow.absolute begin finish).resolve? period = some (.absolute b e) := by
  have hspan : (period.toInstant 0 : Int) ≤ period.toInstant period.finish :=
    Period.toInstant_mono (Nat.zero_le _)
  unfold resolve?
  dsimp only
  split
  · next hnever =>
    refine Or.inl ⟨?_, rfl⟩
    rintro ⟨horder, hbefore, hafter⟩
    rcases hnever with h | h | h
    · exact absurd hafter (Int.not_lt.2 h)
    · exact absurd hbefore (Int.not_lt.2 h)
    · exact absurd horder (Int.not_lt.2 h)
  · next hsome =>
    rw [not_or, not_or, Int.not_le, Int.not_le, Int.not_le] at hsome
    obtain ⟨hafter, hbefore, horder⟩ := hsome
    obtain ⟨b, hb⟩ := Period.exists_toTime? hceiling
      (Int.le_max_right begin (period.toInstant 0))
      (Int.max_le.2 ⟨Int.le_of_lt hbefore, hspan⟩)
    obtain ⟨e, he⟩ := Period.exists_toTime? hceiling
      (Int.le_min.2 ⟨Int.le_of_lt hafter, hspan⟩)
      (Int.min_le_right finish (period.toInstant period.finish))
    refine Or.inr ⟨⟨horder, hbefore, hafter⟩, b, e, hb, he, ?_⟩
    rw [hb, he]
    rfl

theorem AdditionalEdge.fits_of_resolve? {tt : Timetable} {extra : AdditionalEdge} {edge : Edge}
    (h : tt.Sound) (hr : extra.resolve? tt = some edge) :
    edge.Fits tt.nodes ∧ edge.kind.isWalk = true := by
  unfold AdditionalEdge.resolve? at hr
  split at hr
  · obtain ⟨node, hn, hr⟩ := Option.bind_eq_some_iff.1 hr
    cases hr
    exact ⟨⟨h.isStation_of_stationNode? hn, rfl, Nat.mod_lt _ (by decide)⟩, rfl⟩
  · next window =>
    obtain ⟨tail, ht, hr⟩ := Option.bind_eq_some_iff.1 hr
    obtain ⟨head, hh, hr⟩ := Option.bind_eq_some_iff.1 hr
    have hends := And.intro (h.isStation_of_stationNode? ht) (h.isStation_of_stationNode? hh)
    cases window with
    | none =>
      cases hr
      exact ⟨⟨hends, fun begin finish hdaily => by cases hdaily⟩, rfl⟩
    | some w =>
      obtain ⟨resolved, hw, hr⟩ := Option.bind_eq_some_iff.1 hr
      cases hr
      obtain ⟨w', hw', rfl⟩ := Option.map_eq_some_iff.1 hw
      refine ⟨⟨hends, fun begin finish hdaily => ?_⟩, rfl⟩
      cases hdaily
      exact RequestedWindow.lt_of_resolve? hw'

namespace QueryGraph

/-- The timetable is sound, and the additional edges are walks that fit into
it. -/
structure Sound (graph : QueryGraph) : Prop where
  timetable : graph.timetable.Sound
  extra : ∀ edge ∈ graph.extra, edge.Fits graph.timetable.nodes ∧ edge.kind.isWalk = true

theorem make_sound {tt : Timetable} (h : tt.Sound) (edges : List AdditionalEdge) :
    (make tt edges).Sound := by
  refine ⟨h, fun edge hedge => ?_⟩
  obtain ⟨extra, -, hr⟩ := List.mem_filterMap.1 (List.mem_toArray.1 hedge)
  exact AdditionalEdge.fits_of_resolve? h hr

/-- The edge of a timetable under its position. -/
theorem Sound.edge_mem {graph : QueryGraph} (h : graph.Sound) {node : NodeId}
    {direction : Direction} {id : EdgeId}
    (hid : EdgeRef.timetable id ∈ graph.edgesAt node direction) :
    graph.edge (.timetable id) ∈ graph.timetable.edges ∧
      (graph.edge (.timetable id)).source direction = node := by
  rcases List.mem_append.1 hid with hid | hid
  · obtain ⟨id', hid', heq⟩ := List.mem_map.1 hid
    cases heq
    obtain ⟨-, edge, hedge, hsource⟩ := (h.timetable.mem_edgesAt _ _ _).1 hid'
    have heq : graph.edge (.timetable id) = edge := Timetable.edge_eq hedge
    rw [heq]
    exact ⟨Array.mem_of_getElem? hedge, hsource⟩
  · obtain ⟨position, -, heq⟩ := List.mem_map.1 hid
    cases heq

theorem Sound.extra_mem {graph : QueryGraph} {node : NodeId} {direction : Direction}
    {position : Nat} (hid : EdgeRef.extra position ∈ graph.edgesAt node direction) :
    graph.edge (.extra position) ∈ graph.extra ∧
      (graph.edge (.extra position)).source direction = node := by
  rcases List.mem_append.1 hid with hid | hid
  · obtain ⟨id', -, heq⟩ := List.mem_map.1 hid
    cases heq
  · obtain ⟨position', hp, heq⟩ := List.mem_map.1 hid
    cases heq
    obtain ⟨hrange, hsource⟩ := List.mem_filter.1 hp
    refine ⟨?_, beq_iff_eq.1 hsource⟩
    have hlt := List.mem_range.1 hrange
    simp only [QueryGraph.edge, Array.getElem?_eq_getElem hlt, Option.getD_some]
    exact Array.getElem_mem hlt

/-- A through edge is one of the timetable. -/
theorem Sound.through_mem {graph : QueryGraph} (h : graph.Sound) {node : NodeId}
    {direction : Direction} {ref : EdgeRef} (href : ref ∈ graph.edgesAt node direction)
    {trips : List (Option Nat)} (hkind : (graph.edge ref).kind = .through trips) :
    graph.edge ref ∈ graph.timetable.edges ∧ (graph.edge ref).source direction = node := by
  cases ref with
  | timetable id => exact h.edge_mem href
  | extra position =>
    have hwalk := (h.extra _ (Sound.extra_mem href).1).2
    rw [hkind] at hwalk
    cases hwalk

/-- An edge at a node is taken from there, and fits. -/
theorem Sound.fits {graph : QueryGraph} (h : graph.Sound) {node : NodeId}
    {direction : Direction} {ref : EdgeRef} (href : ref ∈ graph.edgesAt node direction) :
    (graph.edge ref).Fits graph.timetable.nodes ∧ (graph.edge ref).source direction = node := by
  cases ref with
  | timetable id =>
    obtain ⟨hmem, hsource⟩ := h.edge_mem href
    exact ⟨h.timetable.parts.fits _ hmem, hsource⟩
  | extra position =>
    obtain ⟨hmem, hsource⟩ := Sound.extra_mem href
    exact ⟨(h.extra _ hmem).1, hsource⟩

/-- The reference is to an edge that the graph has. -/
def Has (graph : QueryGraph) : EdgeRef → Prop
  | .timetable id => id < graph.timetable.edges.size
  | .extra position => position < graph.extra.size

/-- The edges at a node are those of the graph that are taken from there. -/
theorem Sound.mem_edgesAt {graph : QueryGraph} (h : graph.Sound) {node : NodeId}
    {direction : Direction} {ref : EdgeRef} :
    ref ∈ graph.edgesAt node direction ↔
      graph.Has ref ∧ (graph.edge ref).source direction = node := by
  constructor
  · intro href
    refine ⟨?_, (h.fits href).2⟩
    rcases List.mem_append.1 href with hmem | hmem
    · obtain ⟨id, hid, rfl⟩ := List.mem_map.1 hmem
      obtain ⟨-, edge, hedge, -⟩ := (h.timetable.mem_edgesAt _ _ _).1 hid
      exact (Array.getElem?_eq_some_iff.1 hedge).1
    · obtain ⟨position, hposition, rfl⟩ := List.mem_map.1 hmem
      exact List.mem_range.1 (List.mem_filter.1 hposition).1
  · rintro ⟨hhas, hsource⟩
    cases ref with
    | timetable id =>
      have hlt : id < graph.timetable.edges.size := hhas
      have hget := Array.getElem?_eq_getElem hlt
      have hedge : graph.edge (.timetable id) = graph.timetable.edges[id] :=
        Timetable.edge_eq hget
      rw [hedge] at hsource
      have hfits := h.timetable.parts.fits _ (Array.getElem_mem hlt)
      refine List.mem_append_left _ (List.mem_map_of_mem ?_)
      refine (h.timetable.mem_edgesAt _ _ _).2 ⟨?_, _, hget, hsource⟩
      rw [← hsource]
      exact hfits.source_lt direction
    | extra position =>
      refine List.mem_append_right _ (List.mem_map_of_mem ?_)
      exact List.mem_filter.2 ⟨List.mem_range.2 hhas, beq_iff_eq.2 hsource⟩

/-- An edge is taken against a direction from where it leads to in that direction, and leads to
where it is taken from. -/
theorem Sound.mem_edgesAt_reverse {graph : QueryGraph} (h : graph.Sound) {node : NodeId}
    {direction : Direction} {ref : EdgeRef} :
    ref ∈ graph.edgesAt node direction.reverse ↔
      ref ∈ graph.edgesAt (graph.target ref direction.reverse) direction ∧
        graph.target ref direction = node := by
  unfold target
  rw [h.mem_edgesAt, h.mem_edgesAt, Edge.source_reverse, Edge.target_reverse]
  simp only [and_true]

/-- Edges are taken from nodes that there are. -/
theorem Sound.node_lt {graph : QueryGraph} (h : graph.Sound) {node : NodeId}
    {direction : Direction} {ref : EdgeRef} (href : ref ∈ graph.edgesAt node direction) :
    node < graph.timetable.nodes.size := by
  obtain ⟨hfits, hsource⟩ := h.fits href
  rw [← hsource]
  exact hfits.source_lt direction

end QueryGraph

/-- The graph is sound, both ends are stations, and the bounds are its own. -/
structure Query.Sound (q : Query) : Prop where
  graph : q.graph.Sound
  origin : Node.IsStation q.graph.timetable.nodes q.target.origin
  goal : Node.IsStation q.graph.timetable.nodes q.target.goal
  bounds_eq : q.bounds = LowerBounds.compute q.graph q.target.goal q.direction

namespace Request

theorem isStation_of_pathNodes {tt : Timetable} {request : Request} {nodes : List NodeId}
    (h : tt.Sound) (hp : request.pathNodes tt = .ok nodes) :
    ∀ node ∈ nodes, Node.IsStation tt.nodes node := by
  intro node hnode
  obtain ⟨stop, -, hstop⟩ := Fallible.exists_of_mem_mapM hp hnode
  split at hstop
  · next n hn =>
    cases hstop
    exact h.isStation_of_stationNode? hn
  · cases hstop

theorem target_sound {tt : Timetable} {request : Request} {target : Target} (h : tt.Sound)
    (ht : request.target tt = .ok target) :
    Node.IsStation tt.nodes target.origin ∧ Node.IsStation tt.nodes target.goal := by
  unfold Request.target at ht
  obtain ⟨nodes, hnodes, ht⟩ := Fallible.bind_eq_ok.1 ht
  have hall := isStation_of_pathNodes h hnodes
  split at ht
  · cases ht
  · next first rest =>
    have hfirst := hall first List.mem_cons_self
    have hlast : Node.IsStation tt.nodes (rest.getLast?.getD first) := by
      cases hl : rest.getLast? with
      | none => exact hfirst
      | some last => exact hall last (List.mem_cons_of_mem _ (List.mem_of_getLast? hl))
    dsimp only at ht
    split at ht
    · cases ht
    · split at ht
      · cases ht
      · split at ht
        · cases ht
          exact ⟨hfirst, hlast⟩
        · cases ht
          exact ⟨hlast, hfirst⟩

/-- A request comes to a query when nothing is wrong with it, its path leads somewhere and its
interval meets the schedule; all else of the query follows from these. -/
theorem toQuery_eq_ok {tt : Timetable} {request : Request} {q : Query} :
    request.toQuery tt = .ok q ↔
      ∃ target begin finish, request.fault? = none ∧ request.target tt = .ok target ∧
        scheduleInterval tt.period request.interval = .ok (begin, finish) ∧
        q = { graph := .make tt request.additionalEdges
              bounds := .compute (.make tt request.additionalEdges) target.goal request.direction
              target
              direction := request.direction
              startTimes :=
                if (LowerBounds.compute (.make tt request.additionalEdges) target.goal
                    request.direction).isReachable target.origin then
                  (QueryGraph.make tt request.additionalEdges).startTimes target.origin begin
                    finish request.tripType request.direction
                else []
              tripType := request.tripType } := by
  unfold Request.toQuery
  constructor
  · intro h
    split at h
    · cases h
    · next hfault =>
      obtain ⟨target, htarget, h⟩ := Fallible.bind_eq_ok.1 h
      obtain ⟨⟨begin, finish⟩, hinterval, h⟩ := Fallible.bind_eq_ok.1 h
      exact ⟨target, begin, finish, hfault, htarget, hinterval, (Except.ok.inj h).symm⟩
  · rintro ⟨target, begin, finish, hfault, htarget, hinterval, rfl⟩
    rw [hfault]
    exact Fallible.bind_eq_ok.2 ⟨target, htarget,
      Fallible.bind_eq_ok.2 ⟨(begin, finish), hinterval, rfl⟩⟩

/-- What is known of a query that a request came to. -/
theorem toQuery_sound {tt : Timetable} {request : Request} {q : Query} (h : tt.Sound)
    (hq : request.toQuery tt = .ok q) :
    q.Sound ∧ q.graph.timetable = tt ∧ q.direction = request.direction := by
  obtain ⟨target, begin, finish, -, ht, -, rfl⟩ := toQuery_eq_ok.1 hq
  obtain ⟨horigin, hgoal⟩ := target_sound h ht
  exact ⟨⟨QueryGraph.make_sound h _, horigin, hgoal, rfl⟩, rfl, rfl⟩

end Request

end JourneyPlanner
