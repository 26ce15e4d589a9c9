import JourneyPlanner.Proofs.Network.InPlace

/-!
# Whatever is called, the timetable is in order

Calls to put a timetable together come in any order and with any arguments; some are
refused. `Timetable.InOrder` is what can be relied on in the timetable that is built in the end, and
`calls_inOrder` says that it holds after any calls at all, and that a call that was refused has left
nothing behind.

All of it but the lists of edges at the nodes and the through edges is what a builder keeps
from call to call (`Builder.LaidOut`), read in the finished timetable. The lists are made in the
end, from the edges in their order. A through edge joins the ends of two routes, or of a single
one: a ring, which ends where it begins, can go on as itself (`not_joins_other`).
-/

namespace JourneyPlanner

/-- Each trip that goes on has a leg on the last edge of the one route and on the first of the
other, and does not leave before it has arrived. -/
def Route.Connects (edges : Array Edge) (first second : Route) (trips : List (Option Nat)) :
    Prop :=
  ∀ trip next : Nat, trips[trip]? = some (some next) → trip < first.trips ∧ next < second.trips ∧
    ∃ last start arriving departing a b, first.edges.getLast? = some last ∧
      edges[last]?.map Edge.kind = some (.route arriving) ∧ arriving[trip]? = some a ∧
      second.edges.head? = some start ∧ edges[start]?.map Edge.kind = some (.route departing) ∧
      departing[next]? = some b ∧ a.arrival ≤ b.departure

/-- What can be relied on in a timetable with these routes and this index of its stations. -/
structure Timetable.InOrder (tt : Timetable) (routes : Array Route)
    (index : StationId → Option StationIndex) : Prop where
  ends : ∀ edge ∈ tt.edges, edge.tail < tt.nodes.size ∧ edge.head < tt.nodes.size
  /-- An edge is listed once where it begins and once where it ends, and nowhere else. -/
  out_count : ∀ (id : EdgeId) (edge : Edge), tt.edges[id]? = some edge → ∀ node : NodeId,
    (tt.outEdges[node]?.getD []).count id = if edge.tail = node then 1 else 0
  in_count : ∀ (id : EdgeId) (edge : Edge), tt.edges[id]? = some edge → ∀ node : NodeId,
    (tt.inEdges[node]?.getD []).count id = if edge.head = node then 1 else 0
  ids_valid : ∀ s ∈ tt.stations, StationId.fault? s.id.text = none
  ids_unique : ∀ (i j : StationIndex) (s s' : Station), tt.stations[i]? = some s →
    tt.stations[j]? = some s' → s.id.text = s'.id.text → i = j
  indexed : ∀ (i : StationIndex) (s : Station), tt.stations[i]? = some s →
    index s.id = some i ∧ tt.stationIndex? s.id.text = some i
  of_index : ∀ (id : StationId) (i : StationIndex), index id = some i →
    ∃ s, tt.stations[i]? = some s ∧ s.id = id
  station_node : ∀ (i : StationIndex) (s : Station), tt.stations[i]? = some s →
    ∀ node : NodeId, tt.nodes[node]? = some (.station i) ↔ node = s.node
  legs : ∀ edge ∈ tt.edges, ∀ legs, edge.kind = .route legs → Leg.Ordered legs
  /-- The nodes and edges of a route are where it says, and they are all that there are. -/
  laid : ∀ (number : RouteId) (route : Route), routes[number]? = some route →
    route.Laid tt.nodes tt.edges number
  stop : ∀ (id : NodeId) (station : StationIndex) (number : RouteId),
    tt.nodes[id]? = some (.route station number) →
    ∃ route, routes[number]? = some route ∧ id ∈ route.nodes
  ride : ∀ (id : EdgeId) (edge : Edge) (legs : Array Leg), tt.edges[id]? = some edge →
    edge.kind = .route legs → ∃ route ∈ routes, id ∈ route.edges
  enter : ∀ edge ∈ tt.edges, edge.kind = .enter → ∃ route ∈ routes, ∃ i : Nat,
    route.nodes[i]? = some edge.head ∧ i + 1 < route.nodes.length
  exit : ∀ edge ∈ tt.edges, edge.kind = .exit → ∃ route ∈ routes, ∃ i : Nat,
    route.nodes[i]? = some edge.tail ∧ 0 < i
  through : ∀ edge ∈ tt.edges, ∀ trips, edge.kind = .through trips →
    ∃ (source target : RouteId) (first second : Route) (station : StationIndex),
      routes[source]? = some first ∧ routes[target]? = some second ∧
      first.nodes.getLast? = some edge.tail ∧ second.nodes.head? = some edge.head ∧
      tt.nodes[edge.tail]? = some (.route station source) ∧
      tt.nodes[edge.head]? = some (.route station target) ∧
      trips.length = first.trips ∧ first.Connects tt.edges second trips

namespace Builder

variable {b : Builder}

/-! ## The edges at a node -/

/-- An edge is in the list of the node at its end `side`, and there once. -/
theorem count_edgesBySide {nodes : Nat} {edges : Array Edge} {side : Edge → NodeId} {id : EdgeId}
    {edge : Edge} (hid : edges[id]? = some edge) (hlt : side edge < nodes) (node : NodeId) :
    ((edgesBySide nodes edges side)[node]?.getD []).count id =
      if side edge = node then 1 else 0 := by
  have hmem : id ∈ (edgesBySide nodes edges side)[node]?.getD [] ↔
      node < nodes ∧ ∃ edge, edges[id]? = some edge ∧ side edge = node := mem_edgesBySide
  by_cases hnode : side edge = node
  · rw [if_pos hnode]
    exact List.count_eq_one_of_mem ((pairwise_edgesBySide nodes edges side node).imp Nat.ne_of_lt)
      (hmem.2 ⟨hnode ▸ hlt, edge, hid, hnode⟩)
  · rw [if_neg hnode, List.count_eq_zero, hmem]
    rintro ⟨-, edge', hid', hside⟩
    rw [hid] at hid'
    cases hid'
    exact hnode hside

/-! ## Getting on and off -/

/-- An enter edge leads to a stop that is not the last of its route. -/
theorem LaidOut.enter (h : b.LaidOut) {edge : Edge} (hedge : edge ∈ b.edges)
    (hkind : edge.kind = .enter) : ∃ route ∈ b.routes, ∃ i : Nat,
      route.nodes[i]? = some edge.head ∧ i + 1 < route.nodes.length := by
  have hfits := h.fits edge hedge
  rw [Edge.Fits, hkind] at hfits
  obtain ⟨station, number, -, hhead⟩ := hfits
  obtain ⟨route, hroute, hmem⟩ := h.stop _ _ _ hhead
  obtain ⟨i, hi⟩ := List.getElem?_of_mem hmem
  refine ⟨route, Array.mem_of_getElem? hroute, i, hi, ?_⟩
  obtain ⟨place, -, hfilter⟩ := (h.laid number route hroute).board i _ station hi hhead
  have hin : edge ∈ b.edges.toList.filter (·.boardsAt edge.head) :=
    List.mem_filter.2 ⟨Array.mem_toList_iff.2 hedge, Edge.boardsAt_eq_true.2 ⟨hkind, rfl⟩⟩
  by_contra hlast
  rw [hfilter, if_neg hlast] at hin
  exact List.not_mem_nil hin

/-- An exit edge leads away from a stop that is not the first of its route. -/
theorem LaidOut.exit (h : b.LaidOut) {edge : Edge} (hedge : edge ∈ b.edges)
    (hkind : edge.kind = .exit) : ∃ route ∈ b.routes, ∃ i : Nat,
      route.nodes[i]? = some edge.tail ∧ 0 < i := by
  have hfits := h.fits edge hedge
  rw [Edge.Fits, hkind] at hfits
  obtain ⟨station, number, -, htail⟩ := hfits
  obtain ⟨route, hroute, hmem⟩ := h.stop _ _ _ htail
  obtain ⟨i, hi⟩ := List.getElem?_of_mem hmem
  refine ⟨route, Array.mem_of_getElem? hroute, i, hi, ?_⟩
  obtain ⟨place, -, hfilter⟩ := (h.laid number route hroute).alight i _ station hi htail
  have hin : edge ∈ b.edges.toList.filter (·.alightsAt edge.tail) :=
    List.mem_filter.2 ⟨Array.mem_toList_iff.2 hedge, Edge.alightsAt_eq_true.2 ⟨hkind, rfl⟩⟩
  by_contra hfirst
  rw [hfilter, if_neg hfirst] at hin
  exact List.not_mem_nil hin

/-! ## Going on -/

/-- What the builder takes for the legs on an edge of a route are its legs, one for each trip. -/
theorem LaidOut.legsOf (h : b.LaidOut) {number : RouteId} {route : Route}
    (hroute : b.routes[number]? = some route) {id : EdgeId} (hid : id ∈ route.edges) :
    b.edges[id]?.map Edge.kind = some (.route (b.legsOf (some id))) ∧
      (b.legsOf (some id)).size = route.trips := by
  obtain ⟨i, hi⟩ := List.getElem?_of_mem hid
  obtain ⟨tail, head, legs, -, -, hget, hsize⟩ := (h.laid number route hroute).ride i id hi
  have hlegs : b.legsOf (some id) = legs := by
    unfold Builder.legsOf
    rw [Option.bind_some, hget]
  rw [hlegs, hget]
  exact ⟨rfl, hsize⟩

/-- A route has at least one edge to ride. -/
theorem LaidOut.edges_ne_nil (h : b.LaidOut) {number : RouteId} {route : Route}
    (hroute : b.routes[number]? = some route) : route.edges ≠ [] := by
  have hlaid := h.laid number route hroute
  have htwo := hlaid.two_le
  have hlength := hlaid.edges_length
  apply List.ne_nil_of_length_pos
  omega

/-- A mapping that passes its check joins the last stop of one route to the first of the other. -/
theorem LaidOut.connects (h : b.LaidOut) {source target : RouteId} {first second : Route}
    {trips : List (Option Nat)} (hfirst : b.routes[source]? = some first)
    (hsecond : b.routes[target]? = some second)
    (hmapping : mappingFault? (b.legsOf first.edges.getLast?) (b.legsOf second.edges.head?) 0
      trips = none) : first.Connects b.edges second trips := by
  intro trip next hnext
  obtain ⟨x, y, ha, hb, hle⟩ := join_of_mappingFault? hmapping trip next hnext
  rw [Nat.zero_add] at ha
  have hlast := List.getLast?_eq_some_getLast (h.edges_ne_nil hfirst)
  have hstart := List.head?_eq_some_head (h.edges_ne_nil hsecond)
  rw [hlast] at ha
  rw [hstart] at hb
  obtain ⟨hkind, hsize⟩ := h.legsOf hfirst (List.mem_of_getLast? hlast)
  obtain ⟨hkind', hsize'⟩ := h.legsOf hsecond (List.mem_of_head? hstart)
  refine ⟨?_, ?_, _, _, _, _, x, y, hlast, hkind, ha, hstart, hkind', hb, hle⟩
  · rw [← hsize]
    exact (Array.getElem?_eq_some_iff.1 ha).1
  · rw [← hsize']
    exact (Array.getElem?_eq_some_iff.1 hb).1

/-- A through edge joins the last stop of a route to the first of a route there. -/
theorem Made.through {P : Trip → Prop} {period : Period} (h : b.Made P period) {edge : Edge}
    (hedge : edge ∈ b.edges) {trips : List (Option Nat)} (hkind : edge.kind = .through trips) :
    ∃ (source target : RouteId) (first second : Route) (station : StationIndex),
      b.routes[source]? = some first ∧ b.routes[target]? = some second ∧
      first.nodes.getLast? = some edge.tail ∧ second.nodes.head? = some edge.head ∧
      b.nodes[edge.tail]? = some (.route station source) ∧
      b.nodes[edge.head]? = some (.route station target) ∧
      trips.length = first.trips ∧ first.Connects b.edges second trips := by
  obtain ⟨first, hfirst, second, hsecond, hjoin⟩ := h.routed.through edge hedge trips hkind
  obtain ⟨source, hsource⟩ := Array.getElem?_of_mem hfirst
  obtain ⟨target, htarget⟩ := Array.getElem?_of_mem hsecond
  obtain ⟨hlast, hhead, hstation, hcount, hmapping⟩ := joinRoutes_eq_ok_iff.1 hjoin
  have hout := h.laidOut
  obtain ⟨s, hs⟩ := (hout.laid source first hsource).stop _ (List.mem_of_getLast? hlast)
  obtain ⟨s', hs'⟩ := (hout.laid target second htarget).stop _ (List.mem_of_head? hhead)
  have hsame : s = s' := by
    rw [hs, hs'] at hstation
    exact Option.some.inj hstation
  refine ⟨source, target, first, second, s, hsource, htarget, hlast, hhead, hs, ?_, hcount,
    hout.connects hsource htarget hmapping⟩
  rw [hs', hsame]

end Builder

/-! ## After any calls -/

namespace Assembly

/-- Two station ids of one text are one id. -/
theorem id_eq_of_text {id id' : StationId} (h : id.text = id'.text) : id = id' := by
  obtain ⟨text, valid⟩ := id
  obtain ⟨text', valid'⟩ := id'
  cases h
  rfl

/-- No two stations have one identifier. -/
theorem Indexed.unique {a : Assembly} (h : a.Indexed) {i j : StationIndex} {s s' : Station}
    (hs : a.stations[i]? = some s) (hs' : a.stations[j]? = some s')
    (htext : s.id.text = s'.id.text) : i = j := by
  have hi := (h s.id i).2 (by rw [hs, Option.map_some])
  have hj := (h s'.id j).2 (by rw [hs', Option.map_some])
  rw [id_eq_of_text htext, hj] at hi
  exact (Option.some.inj hi).symm

/-- The index finds every station under its own text. -/
theorem Indexed.stationIndex?_eq {a : Assembly} (h : a.Indexed) {i : StationIndex} {s : Station}
    (hs : a.stations[i]? = some s) : a.build.stationIndex? s.id.text = some i := by
  obtain ⟨hlt, rfl⟩ := Array.getElem?_eq_some_iff.1 hs
  refine Array.findIdx?_eq_some_iff_getElem.2 ⟨hlt, beq_self_eq_true _, fun j hj heq => ?_⟩
  have hlt' : j < a.stations.size := Nat.lt_trans hj hlt
  exact absurd (h.unique (Array.getElem?_eq_getElem hlt') hs (beq_iff_eq.1 heq)) (Nat.ne_of_lt hj)

/-- Every timetable that can be built has its routes and its index in order. -/
theorem Reached.inOrder {period : Period} {a : Assembly} (h : Reached period a) :
    a.build.InOrder a.routes a.index := by
  have hout := h.made.laidOut
  have hindex : ∀ (i : StationIndex) (s : Station), a.stations[i]? = some s →
      a.index s.id = some i := fun i s hs => (h.indexed s.id i).2 (by rw [hs, Option.map_some])
  have hstation : ∀ {i : StationIndex} {s : Station} {node : NodeId}, a.stations[i]? = some s →
      (a.nodes[node]? = some (.station i) ↔ node = s.node) := by
    intro i s node hs
    constructor
    · intro hnode
      have heq := h.made.stationNode_eq hnode
      rw [hs] at heq
      exact (Option.some.inj heq).symm
    · rintro rfl
      exact hout.station i s hs
  exact
    { ends := fun edge hedge => (hout.fits edge hedge).lt_size
      out_count := fun id edge hid => Builder.count_edgesBySide hid
        (hout.fits edge (Array.mem_of_getElem? hid)).lt_size.1
      in_count := fun id edge hid => Builder.count_edgesBySide hid
        (hout.fits edge (Array.mem_of_getElem? hid)).lt_size.2
      ids_valid := fun s _ => s.id.valid
      ids_unique := fun i j s s' hs hs' htext => h.indexed.unique hs hs' htext
      indexed := fun i s hs => ⟨hindex i s hs, h.indexed.stationIndex?_eq hs⟩
      of_index := fun id i hi => Option.map_eq_some_iff.1 ((h.indexed id i).1 hi)
      station_node := fun i s hs node => hstation hs
      legs := hout.ordered
      laid := hout.laid
      stop := hout.stop
      ride := hout.ride
      enter := fun edge hedge hkind => hout.enter hedge hkind
      exit := fun edge hedge hkind => hout.exit hedge hkind
      through := fun edge hedge trips hkind => h.made.through hedge hkind }

end Assembly

/-- After any calls, whatever they were given and however many of them have been refused, the
timetable that is built is in order, and the next call that is refused changes nothing. -/
theorem calls_inOrder (period : Period) (calls : List Call) :
    (((Assembly.new period).calls calls).build.InOrder ((Assembly.new period).calls calls).routes
        ((Assembly.new period).calls calls).index) ∧
      ∀ (call : Call) (fault : NetworkFault) (left : Assembly),
        call.work ((Assembly.new period).calls calls) = .error fault left →
        left = (Assembly.new period).calls calls := by
  have hreached := (Assembly.reached_new period).calls calls
  exact ⟨hreached.inOrder, fun call fault left hleft => hreached.eq_of_error hleft⟩

/-! ## A ring -/

/-- An edge from the last node of a route to the first of another one. -/
def Edge.JoinsOther (routes : Array Route) (edge : Edge) : Prop :=
  ∃ (source target : RouteId) (first second : Route), source ≠ target ∧
    routes[source]? = some first ∧ routes[target]? = some second ∧
    first.nodes.getLast? = some edge.tail ∧ second.nodes.head? = some edge.head

/-- A line from A by B back to A, whose vehicle sets out on its next round when it is back. -/
def ringCalls : List Call :=
  let stop (arrival departure : Option Nat) : StopTime := ⟨arrival, departure, none, none⟩
  [.category "RE", .info ⟨0, 1, "1", [], 5⟩, .station "A" "A" 2, .station "B" "B" 2,
    .route [0, 1, 0]
      [⟨0, DayMask.all, [stop none (some 60), stop (some 70) (some 70), stop (some 80) none]⟩,
        ⟨0, DayMask.all, [stop none (some 90), stop (some 100) (some 100), stop (some 110) none]⟩],
    .through 0 0 [some 1, none]]

/-- The one route there is, and the edge over which it goes on. -/
theorem ring_goes_on : ∃ period : Period,
    ((Assembly.new period).calls ringCalls).routes.size = 1 ∧
      ∃ edge ∈ ((Assembly.new period).calls ringCalls).build.edges, ∃ trips,
        edge.kind = .through trips := by
  refine ⟨⟨⟨2026, 3, 2, by decide, by decide⟩, 1⟩, by decide +kernel, ?_⟩
  have hsix : (((Assembly.new ⟨⟨2026, 3, 2, by decide, by decide⟩, 1⟩).calls
      ringCalls).build.edges[6]?.bind fun edge => match edge.kind with
        | .through trips => some trips
        | _ => none) = some [some 1, none] := by decide +kernel
  obtain ⟨edge, hget, htrips⟩ := Option.bind_eq_some_iff.1 hsix
  refine ⟨edge, Array.mem_of_getElem? hget, ?_⟩
  split at htrips
  · next trips hkind => exact ⟨trips, hkind⟩
  · cases htrips

/-- Two routes are not always what a through edge joins: a ring can go on as itself. -/
theorem not_joins_other :
    ¬ ∀ (period : Period) (calls : List Call),
      ∀ edge ∈ ((Assembly.new period).calls calls).build.edges, ∀ trips,
        edge.kind = .through trips →
        edge.JoinsOther ((Assembly.new period).calls calls).routes := by
  intro hall
  obtain ⟨period, hroutes, edge, hedge, trips, hkind⟩ := ring_goes_on
  obtain ⟨source, target, first, second, hne, hsource, htarget, -⟩ :=
    hall period ringCalls edge hedge trips hkind
  have hlt := (Array.getElem?_eq_some_iff.1 hsource).1
  have hlt' := (Array.getElem?_eq_some_iff.1 htarget).1
  rw [hroutes] at hlt hlt'
  exact hne ((Nat.lt_one_iff.1 hlt).trans (Nat.lt_one_iff.1 hlt').symm)

end JourneyPlanner
