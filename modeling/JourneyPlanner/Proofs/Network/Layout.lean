import JourneyPlanner.Proofs.Network.Through
import Mathlib.Data.List.Nodup

/-!
# How routes are laid out

`Builder.LaidOut` says where everything is in a builder that calls have led to, whatever
they were given:

* a station has its own node, and every edge joins the sorts of nodes that its kind calls for;
* the legs on a route edge are ordered by departure and by arrival, and none runs back in time;
* a route (`Route.Laid`) has a node of its own for every stop and a route edge from each stop to
  the next, all with one leg for every trip, each the next part of the same trip on the edge
  before; one can get on anywhere but at its last stop, and off anywhere but at its first, over
  just one edge;
* no stop and no route edge belongs to anything but a route.

Parts are only ever added, so that what has been laid out stays as it is as long as no later edge
gets on or off at an old stop (`Route.Laid.append`). None does: such edges come with their
route only, and lead to its own new nodes.
-/

namespace JourneyPlanner

/-- Legs in the order of their departures and of their arrivals at once, none back in time. -/
structure Leg.Ordered (legs : Array Leg) : Prop where
  sorted : legs.toList.Pairwise Leg.NoLater
  forward : ∀ leg ∈ legs, leg.departure ≤ leg.arrival

namespace Edge

/-- One gets on over this edge at a stop. -/
def boardsAt (edge : Edge) (stop : NodeId) : Bool :=
  match edge.kind with
  | .enter => edge.head == stop
  | _ => false

/-- One gets off over this edge at a stop. -/
def alightsAt (edge : Edge) (stop : NodeId) : Bool :=
  match edge.kind with
  | .exit => edge.tail == stop
  | _ => false

variable {edge : Edge} {tail head stop : NodeId}

@[simp]
theorem boardsAt_enter : boardsAt { tail, head, kind := .enter } stop = (head == stop) := rfl

@[simp]
theorem boardsAt_exit : boardsAt { tail, head, kind := .exit } stop = false := rfl

@[simp]
theorem alightsAt_enter : alightsAt { tail, head, kind := .enter } stop = false := rfl

@[simp]
theorem alightsAt_exit : alightsAt { tail, head, kind := .exit } stop = (tail == stop) := rfl

/-- An edge boards at a stop exactly when it is an enter edge that leads there. -/
theorem boardsAt_eq_true : edge.boardsAt stop = true ↔ edge.kind = .enter ∧ edge.head = stop := by
  unfold boardsAt
  split
  · next h => simp [h]
  · next h => simpa using fun hk => absurd hk h

/-- An edge alights at a stop exactly when it is an exit edge from there. -/
theorem alightsAt_eq_true : edge.alightsAt stop = true ↔ edge.kind = .exit ∧ edge.tail = stop := by
  unfold alightsAt
  split
  · next h => simp [h]
  · next h => simpa using fun hk => absurd hk h

end Edge

/-- Where the route with a number is to be found. -/
structure Route.Laid (route : Route) (nodes : Array Node) (edges : Array Edge)
    (number : RouteId) : Prop where
  two_le : 2 ≤ route.nodes.length
  nodup : route.nodes.Nodup
  stop : ∀ id ∈ route.nodes, ∃ station, nodes[id]? = some (.route station number)
  edges_length : route.edges.length + 1 = route.nodes.length
  ride : ∀ (i : Nat) (id : EdgeId), route.edges[i]? = some id → ∃ tail head legs,
    route.nodes[i]? = some tail ∧ route.nodes[i + 1]? = some head ∧
      edges[id]? = some { tail, head, kind := .route legs } ∧ legs.size = route.trips
  follow : ∀ (i : Nat) (id id' : EdgeId) (edge edge' : Edge) (legs legs' : Array Leg),
    route.edges[i]? = some id → route.edges[i + 1]? = some id' → edges[id]? = some edge →
    edges[id']? = some edge' → edge.kind = .route legs → edge'.kind = .route legs' →
    Leg.Follow legs legs'
  board : ∀ (i : Nat) (id : NodeId) (station : StationIndex), route.nodes[i]? = some id →
    nodes[id]? = some (.route station number) → ∃ place, nodes[place]? = some (.station station) ∧
      edges.toList.filter (·.boardsAt id) =
        if i + 1 < route.nodes.length then [{ tail := place, head := id, kind := .enter }] else []
  alight : ∀ (i : Nat) (id : NodeId) (station : StationIndex), route.nodes[i]? = some id →
    nodes[id]? = some (.route station number) → ∃ place, nodes[place]? = some (.station station) ∧
      edges.toList.filter (·.alightsAt id) =
        if 0 < i then [{ tail := id, head := place, kind := .exit }] else []

/-- What has been laid out stays so as long as one gets on and off there over old edges only. -/
theorem Route.Laid.append {route : Route} {nodes : Array Node} {edges others : Array Edge}
    {number : RouteId} (h : route.Laid nodes edges number) (more : Array Node)
    (hothers : ∀ edge ∈ others, ∀ id < nodes.size,
      edge.boardsAt id = false ∧ edge.alightsAt id = false) :
    route.Laid (nodes ++ more) (edges ++ others) number := by
  have hlt : ∀ id ∈ route.nodes, id < nodes.size := by
    intro id hid
    obtain ⟨station, hs⟩ := h.stop id hid
    exact (Array.getElem?_eq_some_iff.1 hs).1
  have hold : ∀ id ∈ route.nodes, (nodes ++ more)[id]? = nodes[id]? :=
    fun id hid => Array.getElem?_append_left (hlt id hid)
  have hedge : ∀ (i : Nat) (id : EdgeId), route.edges[i]? = some id →
      (edges ++ others)[id]? = edges[id]? := by
    intro i id hid
    obtain ⟨tail, head, legs, -, -, hride, -⟩ := h.ride i id hid
    rw [hride, Builder.getElem?_append_of_eq_some hride]
  have hnone : ∀ {side : Edge → Bool}, (∀ edge ∈ others, side edge = false) →
      (edges ++ others).toList.filter side = edges.toList.filter side := by
    intro side hside
    rw [Array.toList_append, List.filter_append, List.append_right_eq_self, List.filter_eq_nil_iff]
    intro edge hmem
    rw [hside edge (Array.mem_toList_iff.1 hmem)]
    exact Bool.false_ne_true
  refine ⟨h.two_le, h.nodup, ?_, h.edges_length, ?_, ?_, ?_, ?_⟩
  · intro id hid
    rw [hold id hid]
    exact h.stop id hid
  · intro i id hid
    rw [hedge i id hid]
    exact h.ride i id hid
  · intro i id id' edge edge' legs legs' hid hid' he he'
    rw [hedge i id hid] at he
    rw [hedge (i + 1) id' hid'] at he'
    exact h.follow i id id' edge edge' legs legs' hid hid' he he'
  · intro i id station hid hs
    have hmem := List.mem_of_getElem? hid
    rw [hold id hmem] at hs
    obtain ⟨place, hplace, hfilter⟩ := h.board i id station hid hs
    refine ⟨place, Builder.getElem?_append_of_eq_some hplace, ?_⟩
    rw [hnone fun edge he => (hothers edge he id (hlt id hmem)).1]
    exact hfilter
  · intro i id station hid hs
    have hmem := List.mem_of_getElem? hid
    rw [hold id hmem] at hs
    obtain ⟨place, hplace, hfilter⟩ := h.alight i id station hid hs
    refine ⟨place, Builder.getElem?_append_of_eq_some hplace, ?_⟩
    rw [hnone fun edge he => (hothers edge he id (hlt id hmem)).2]
    exact hfilter

namespace Builder

variable {b b' : Builder}

/-! ## The invariant -/

/-- Where the parts are that have been added so far. -/
structure LaidOut (b : Builder) : Prop where
  station : ∀ (index : StationIndex) (s : Station), b.stations[index]? = some s →
    b.nodes[s.node]? = some (.station index)
  fits : ∀ edge ∈ b.edges, edge.Fits b.nodes
  ordered : ∀ edge ∈ b.edges, ∀ legs, edge.kind = .route legs → Leg.Ordered legs
  laid : ∀ (number : RouteId) (route : Route), b.routes[number]? = some route →
    route.Laid b.nodes b.edges number
  stop : ∀ (id : NodeId) (station : StationIndex) (number : RouteId),
    b.nodes[id]? = some (.route station number) →
    ∃ route, b.routes[number]? = some route ∧ id ∈ route.nodes
  ride : ∀ (id : EdgeId) (edge : Edge) (legs : Array Leg), b.edges[id]? = some edge →
    edge.kind = .route legs → ∃ route ∈ b.routes, id ∈ route.edges

/-- Before anything has been added the layout is as it should be. -/
theorem new_laidOut (period : Period) : (new period).LaidOut := by
  refine ⟨?_, ?_, ?_, ?_, ?_, ?_⟩ <;> simp [new]

/-- The node of a station is that station's. -/
theorem LaidOut.stationNode (h : b.LaidOut) {index : StationIndex}
    (hi : index < b.stations.size) :
    b.nodes[b.stationNode index]? = some (.station index) :=
  getElem?_stationNode h.station hi

/-- A station keeps the layout. -/
theorem LaidOut.addStation {id name : String} {time : Nat} {index : StationIndex}
    (h : b.LaidOut) (ha : b.addStation id name time = .ok (index, b')) : b'.LaidOut := by
  obtain ⟨sid, -, -, -, rfl⟩ := addStation_eq_ok ha
  have hnodes : b.nodes.push (.station b.stations.size) =
      b.nodes ++ #[Node.station b.stations.size] := Array.push_eq_append
  refine ⟨?_, ?_, h.ordered, ?_, ?_, h.ride⟩
  · intro i s hs
    rw [Array.getElem?_push] at hs ⊢
    split at hs
    · next heq =>
      cases hs
      rw [if_pos rfl, heq]
    · have hold := h.station i s hs
      have hlt := (Array.getElem?_eq_some_iff.1 hold).1
      rw [if_neg (by omega)]
      exact hold
  · intro edge hedge
    show edge.Fits (b.nodes.push _)
    rw [hnodes]
    exact (h.fits edge hedge).append
  · intro number route hroute
    have hlaid := (h.laid number route hroute).append #[.station b.stations.size]
      (fun edge hedge => absurd hedge (Array.not_mem_empty edge))
    rw [Array.append_empty] at hlaid
    show route.Laid (b.nodes.push _) b.edges number
    rw [hnodes]
    exact hlaid
  · intro i station number hi
    rw [Array.getElem?_push] at hi
    split at hi
    · cases hi
    · exact h.stop i station number hi

/-- An interchange rule keeps the layout. -/
theorem LaidOut.setInterchange {station : StationIndex} {rule : InterchangeRule}
    (h : b.LaidOut) : (b.setInterchange station rule).LaidOut := by
  refine ⟨fun index s hs => ?_, h.fits, h.ordered, h.laid, h.stop, h.ride⟩
  simp only [Builder.setInterchange, Array.getElem?_modify] at hs ⊢
  split at hs
  · obtain ⟨s₀, hs₀, rfl⟩ := Option.map_eq_some_iff.1 hs
    exact h.station index s₀ hs₀
  · exact h.station index s hs

/-- A path or a through edge can be added wherever it fits. -/
theorem LaidOut.pushEdge {edge : Edge} (h : b.LaidOut) (hfit : edge.Fits b.nodes)
    (hroute : ∀ legs, edge.kind ≠ .route legs) (henter : edge.kind ≠ .enter)
    (hexit : edge.kind ≠ .exit) : LaidOut { b with edges := b.edges.push edge } := by
  refine ⟨h.station, ?_, ?_, ?_, h.stop, ?_⟩
  · intro e he
    rcases Array.mem_push.1 he with he | rfl
    · exact h.fits e he
    · exact hfit
  · intro e he legs hk
    rcases Array.mem_push.1 he with he | rfl
    · exact h.ordered e he legs hk
    · exact absurd hk (hroute legs)
  · intro number route hr
    have hnone : ∀ e ∈ #[edge], ∀ id < b.nodes.size,
        e.boardsAt id = false ∧ e.alightsAt id = false := by
      intro e he id hid
      rw [Array.mem_singleton.1 he]
      rw [← Bool.not_eq_true, ← Bool.not_eq_true, Edge.boardsAt_eq_true, Edge.alightsAt_eq_true]
      exact ⟨fun hb => henter hb.1, fun ha => hexit ha.1⟩
    have hlaid := (h.laid number route hr).append #[] hnone
    rw [Array.append_empty] at hlaid
    show route.Laid b.nodes (b.edges.push edge) number
    rw [Array.push_eq_append]
    exact hlaid
  · intro id e legs he hk
    have he' : (b.edges.push edge)[id]? = some e := he
    rw [Array.getElem?_push] at he'
    split at he'
    · cases he'
      exact absurd hk (hroute legs)
    · exact h.ride id e legs he' hk

/-! ## A new route -/

section PushRoute

/-- Of the edges into and out of vehicles none is at a node that is no stop. -/
theorem filter_accessEdges_of_notMem (number : Nat) {pairs : List (NodeId × NodeId)} {id : NodeId}
    (h : id ∉ pairs.map Prod.snd) :
    (accessEdges number pairs).filter (·.boardsAt id) = [] ∧
      (accessEdges number pairs).filter (·.alightsAt id) = [] := by
  have hne : ∀ pair ∈ pairs, pair.2 ≠ id := by
    intro pair hpair heq
    exact h (heq ▸ List.mem_map_of_mem hpair)
  rw [List.filter_eq_nil_iff, List.filter_eq_nil_iff]
  constructor
  · intro edge hedge
    rw [Edge.boardsAt_eq_true]
    obtain ⟨pair, hpair, rfl | rfl⟩ := mem_accessEdges hedge
    · exact fun hb => hne pair hpair hb.2
    · exact fun hb => nomatch hb.1
  · intro edge hedge
    rw [Edge.alightsAt_eq_true]
    obtain ⟨pair, hpair, rfl | rfl⟩ := mem_accessEdges hedge
    · exact fun ha => nomatch ha.1
    · exact fun ha => hne pair hpair ha.2

/-- At a stop one gets on over one edge, unless it is the last, and off over one, unless it is
the first of all. -/
theorem filter_accessEdges (number : Nat) {i : Nat} {pairs : List (NodeId × NodeId)}
    {place id : NodeId} (hnodup : (pairs.map Prod.snd).Nodup) (h : pairs[i]? = some (place, id)) :
    (accessEdges number pairs).filter (·.boardsAt id) =
        (if i + 1 < pairs.length then [{ tail := place, head := id, kind := .enter }] else []) ∧
      (accessEdges number pairs).filter (·.alightsAt id) =
        (if 0 < number + i then [{ tail := id, head := place, kind := .exit }] else []) := by
  induction pairs generalizing number i with
  | nil => cases h
  | cons pair rest ih =>
    obtain ⟨place', id'⟩ := pair
    rw [List.map_cons, List.nodup_cons] at hnodup
    unfold accessEdges
    simp only [List.filter_append]
    cases i with
    | zero =>
      cases h
      obtain ⟨hboard, halight⟩ := filter_accessEdges_of_notMem (number + 1) hnodup.1
      rw [hboard, halight]
      constructor
      · cases rest <;> by_cases hfirst : number = 0 <;> simp [hfirst]
      · cases rest <;> by_cases hfirst : number = 0 <;> simp [hfirst, Nat.pos_iff_ne_zero]
    | succ i =>
      rw [List.getElem?_cons_succ] at h
      have hne : id' ≠ id := by
        intro heq
        have hmem : (place, id).2 ∈ rest.map Prod.snd :=
          List.mem_map_of_mem (List.mem_of_getElem? h)
        exact hnodup.1 (heq ▸ hmem)
      obtain ⟨hboard, halight⟩ := ih (number + 1) hnodup.2 h
      rw [hboard, halight, List.length_cons, show number + 1 + i = number + (i + 1) by omega]
      constructor
      · by_cases hlast : rest.isEmpty = true <;> by_cases hfirst : number = 0 <;>
          simp [hlast, hfirst, hne]
      · by_cases hlast : rest.isEmpty = true <;> by_cases hfirst : number = 0 <;>
          simp [hlast, hfirst, hne]

variable {stops : List StationIndex} {sections : List (List Leg)} {trips : Nat}

/-- At the stops of a new route one gets on and off over its own edges only. -/
theorem filter_edges_pushRoute {i : Nat} {s : StationIndex} (h : b.LaidOut)
    (hs : stops[i]? = some s) :
    (b.pushRoute stops trips sections).2.edges.toList.filter (·.boardsAt (b.nodes.size + i)) =
        (if i + 1 < stops.length then
          [{ tail := b.stationNode s, head := b.nodes.size + i, kind := .enter }] else []) ∧
      (b.pushRoute stops trips sections).2.edges.toList.filter
          (·.alightsAt (b.nodes.size + i)) =
        (if 0 < i then
          [{ tail := b.nodes.size + i, head := b.stationNode s, kind := .exit }] else []) := by
  have hnew : ∀ edge ∈ b.edges.toList, edge.boardsAt (b.nodes.size + i) ≠ true ∧
      edge.alightsAt (b.nodes.size + i) ≠ true := by
    intro edge hedge
    obtain ⟨htail, hhead⟩ := (h.fits edge (Array.mem_toList_iff.1 hedge)).lt_size
    rw [Ne, Ne, Edge.boardsAt_eq_true, Edge.alightsAt_eq_true]
    simp only [NodeId] at *
    exact ⟨fun hb => by omega, fun ha => by omega⟩
  have hride : ∀ {nodes : List NodeId}, ∀ edge ∈ (nodes.zip (nodes.drop 1)).zipWith
      (fun ends legs => ({ tail := ends.1, head := ends.2, kind := .route legs.toArray } : Edge))
      sections, edge.boardsAt (b.nodes.size + i) ≠ true ∧
        edge.alightsAt (b.nodes.size + i) ≠ true := by
    intro nodes edge hedge
    obtain ⟨j, hj⟩ := List.getElem?_of_mem hedge
    obtain ⟨ends, legs, -, -, rfl⟩ := List.getElem?_zipWith_eq_some.1 hj
    exact ⟨Bool.false_ne_true, Bool.false_ne_true⟩
  have hnodup : (((stops.map b.stationNode).zip
      ((List.range stops.length).map (b.nodes.size + ·))).map Prod.snd).Nodup := by
    rw [List.map_snd_zip (by simp)]
    exact List.Nodup.map (fun x y hxy => Nat.add_left_cancel hxy) List.nodup_range
  obtain ⟨hboard, halight⟩ := filter_accessEdges 0 hnodup
    (getElem?_access.2 ⟨rfl, s, hs, rfl⟩)
  rw [edges_pushRoute, Array.toList_append, routeEdges]
  rw [List.filter_append, List.filter_append, List.filter_append, List.filter_append, hboard,
    halight, List.filter_eq_nil_iff.2 fun edge he => (hnew edge he).1,
    List.filter_eq_nil_iff.2 fun edge he => (hride edge he).1,
    List.filter_eq_nil_iff.2 fun edge he => (hnew edge he).2,
    List.filter_eq_nil_iff.2 fun edge he => (hride edge he).2]
  refine ⟨?_, ?_⟩
  · simp
  · simp

theorem getElem?_push_of_eq_some {α : Type} {xs : Array α} {i : Nat} {x y : α}
    (h : xs[i]? = some x) : (xs.push y)[i]? = some x := by
  rw [Array.push_eq_append]
  exact getElem?_append_of_eq_some h

/-- The route edges of a new route, by their places in it. -/
theorem rideEdge_pushRoute (hsections : sections.length = stops.length - 1) {i : Nat}
    {id : EdgeId} (hid : ((List.range sections.length).map (b.edges.size + ·))[i]? = some id) :
    ∃ legs, i + 1 < stops.length ∧ sections[i]? = some legs ∧
      (b.pushRoute stops trips sections).2.edges[id]? =
        some { tail := b.nodes.size + i, head := b.nodes.size + (i + 1),
               kind := .route legs.toArray } := by
  obtain ⟨hlt, rfl⟩ := getElem?_range_map.1 hid
  have hlegs := List.getElem?_eq_getElem hlt
  exact ⟨_, by omega, hlegs, getElem?_edges_pushRoute trips (by omega) hlegs⟩

/-- The stops of a new route, by their places in it, each with the node of its station, which
was there before. -/
theorem stop_pushRoute (h : b.LaidOut) (hthere : ∀ s ∈ stops, s < b.stations.size) {i : Nat}
    {id : NodeId} {station : StationIndex}
    (hid : ((List.range stops.length).map (b.nodes.size + ·))[i]? = some id)
    (hnode : (b.pushRoute stops trips sections).2.nodes[id]? =
      some (.route station b.routes.size)) :
    id = b.nodes.size + i ∧ stops[i]? = some station ∧
      (b.pushRoute stops trips sections).2.nodes[b.stationNode station]? =
        some (.station station) := by
  obtain ⟨hlt, rfl⟩ := getElem?_range_map.1 hid
  have hs := List.getElem?_eq_getElem hlt
  rw [getElem?_nodes_pushRoute trips hs] at hnode
  cases hnode
  exact ⟨rfl, hs,
    (grows_pushRoute trips).node _ _ (h.stationNode (hthere _ (List.mem_of_getElem? hs)))⟩

/-- The new route lies on its own nodes and edges. -/
theorem laid_pushRoute (h : b.LaidOut) (hstops : 2 ≤ stops.length)
    (hthere : ∀ s ∈ stops, s < b.stations.size)
    (hsections : sections.length = stops.length - 1)
    (hsize : ∀ legs ∈ sections, legs.length = trips)
    (hfollow : ∀ (i : Nat) (legs legs' : List Leg), sections[i]? = some legs →
      sections[i + 1]? = some legs' → Leg.Follow legs.toArray legs'.toArray) :
    Route.Laid
      { nodes := (List.range stops.length).map (b.nodes.size + ·)
        edges := (List.range sections.length).map (b.edges.size + ·), trips }
      (b.pushRoute stops trips sections).2.nodes (b.pushRoute stops trips sections).2.edges
      b.routes.size := by
  refine ⟨by simpa using hstops, ?_, ?_, ?_, ?_, ?_, ?_, ?_⟩
  · exact List.Nodup.map (fun x y hxy => Nat.add_left_cancel hxy) List.nodup_range
  · intro id hid
    obtain ⟨i, hi, rfl⟩ := List.mem_map.1 hid
    exact ⟨_, getElem?_nodes_pushRoute trips
      (List.getElem?_eq_getElem (List.mem_range.1 hi))⟩
  · simp only [List.length_map, List.length_range]
    omega
  · intro i id hid
    obtain ⟨legs, hlt, hlegs, hget⟩ := rideEdge_pushRoute hsections hid
    exact ⟨_, _, _, getElem?_range_map.2 ⟨by omega, rfl⟩, getElem?_range_map.2 ⟨hlt, rfl⟩, hget,
      hsize legs (List.mem_of_getElem? hlegs)⟩
  · intro i id id' edge edge' legs legs' hid hid' he he' hk hk'
    obtain ⟨l, -, hl, hget⟩ := rideEdge_pushRoute hsections hid
    obtain ⟨l', -, hl', hget'⟩ := rideEdge_pushRoute hsections hid'
    rw [hget] at he
    rw [hget'] at he'
    cases he
    cases he'
    cases hk
    cases hk'
    exact hfollow i l l' hl hl'
  · intro i id station hid hnode
    obtain ⟨rfl, hs, hstation⟩ := stop_pushRoute h hthere hid hnode
    refine ⟨_, hstation, ?_⟩
    rw [List.length_map, List.length_range]
    exact (filter_edges_pushRoute h hs).1
  · intro i id station hid hnode
    obtain ⟨rfl, hs, hstation⟩ := stop_pushRoute h hthere hid hnode
    exact ⟨_, hstation, (filter_edges_pushRoute h hs).2⟩

/-- A route that was there stays where it is: one gets on and off at the new stops only. -/
theorem LaidOut.laid_of_pushRoute (h : b.LaidOut) {number : RouteId} {route : Route}
    (hroute : b.routes[number]? = some route) :
    route.Laid (b.pushRoute stops trips sections).2.nodes
      (b.pushRoute stops trips sections).2.edges number := by
  rw [nodes_pushRoute, edges_pushRoute]
  refine (h.laid number route hroute).append _ fun edge hedge id hid => ?_
  rw [← Bool.not_eq_true, ← Bool.not_eq_true, Edge.boardsAt_eq_true, Edge.alightsAt_eq_true]
  rcases mem_routeEdges (List.mem_toArray.1 hedge) with
    ⟨i, legs, -, -, rfl⟩ | ⟨i, s, -, rfl | rfl⟩
  · exact ⟨nofun, nofun⟩
  · refine ⟨fun hb => ?_, nofun⟩
    have hhead : b.nodes.size + i = id := hb.2
    omega
  · refine ⟨nofun, fun ha => ?_⟩
    have htail : b.nodes.size + i = id := ha.2
    omega

/-- The edges of a route join nodes of the sorts that they should. -/
theorem LaidOut.fits_pushRoute (h : b.LaidOut) (hthere : ∀ s ∈ stops, s < b.stations.size) :
    ∀ edge ∈ (b.pushRoute stops trips sections).2.edges,
      edge.Fits (b.pushRoute stops trips sections).2.nodes := by
  intro edge hedge
  rcases mem_edges_pushRoute trips hedge with hold | ⟨i, legs, hi, -, rfl⟩ | ⟨i, s, hs, hedge⟩
  · rw [nodes_pushRoute]
    exact (h.fits edge hold).append
  · exact ⟨isStop_pushRoute trips (by omega), isStop_pushRoute trips hi⟩
  · have hat : Node.AtOne (b.pushRoute stops trips sections).2.nodes
        (b.stationNode s) (b.nodes.size + i) :=
      ⟨s, b.routes.size,
        (grows_pushRoute trips).node _ _ (h.stationNode (hthere s (List.mem_of_getElem? hs))),
        getElem?_nodes_pushRoute trips hs⟩
    rcases hedge with rfl | rfl
    · exact hat
    · exact hat

/-- A route gets the next nodes and edges there are, in order. -/
theorem routes_pushRoute : (b.pushRoute stops trips sections).2.routes = b.routes.push
    { nodes := (List.range stops.length).map (b.nodes.size + ·)
      edges := (List.range sections.length).map (b.edges.size + ·), trips } := rfl

/-- Every stop belongs to a route, the new ones to the new one. -/
theorem LaidOut.route_of_stop_pushRoute (h : b.LaidOut) {id : NodeId} {station : StationIndex}
    {number : RouteId}
    (hid : (b.pushRoute stops trips sections).2.nodes[id]? = some (.route station number)) :
    ∃ route, (b.pushRoute stops trips sections).2.routes[number]? = some route ∧
      id ∈ route.nodes := by
  rw [routes_pushRoute]
  rw [nodes_pushRoute, Array.getElem?_append] at hid
  split at hid
  · obtain ⟨route, hroute, hmem⟩ := h.stop id station number hid
    exact ⟨route, getElem?_push_of_eq_some hroute, hmem⟩
  · next hle =>
    rw [List.getElem?_toArray, List.getElem?_map] at hid
    obtain ⟨s, hs, hnode⟩ := Option.map_eq_some_iff.1 hid
    cases hnode
    have hlt := (List.getElem?_eq_some_iff.1 hs).1
    exact ⟨_, Array.getElem?_push_size, List.mem_map.2 ⟨_, List.mem_range.2 hlt,
      Nat.add_sub_cancel' (Nat.le_of_not_lt hle)⟩⟩

/-- Every route edge belongs to a route, the new ones to the new one. -/
theorem LaidOut.route_of_ride_pushRoute (h : b.LaidOut) {id : EdgeId} {edge : Edge}
    {legs : Array Leg} (hid : (b.pushRoute stops trips sections).2.edges[id]? = some edge)
    (hk : edge.kind = .route legs) :
    ∃ route ∈ (b.pushRoute stops trips sections).2.routes, id ∈ route.edges := by
  rw [routes_pushRoute]
  rw [edges_pushRoute, Array.getElem?_append] at hid
  split at hid
  · obtain ⟨route, hroute, hmem⟩ := h.ride id edge legs hid hk
    exact ⟨route, Array.mem_push_of_mem _ hroute, hmem⟩
  · next hle =>
    refine ⟨_, Array.mem_push_self, ?_⟩
    rw [List.getElem?_toArray, routeEdges, List.getElem?_append] at hid
    split at hid
    · obtain ⟨ends, l, -, hl, -⟩ := List.getElem?_zipWith_eq_some.1 hid
      have hlt := (List.getElem?_eq_some_iff.1 hl).1
      exact List.mem_map.2 ⟨_, List.mem_range.2 hlt,
        Nat.add_sub_cancel' (Nat.le_of_not_lt hle)⟩
    · -- what comes after the rides is no route edge
      obtain ⟨pair, -, rfl | rfl⟩ := mem_accessEdges (List.mem_of_getElem? hid)
      · cases hk
      · cases hk

/-- A route whose sections follow each other keeps the layout. -/
theorem LaidOut.pushRoute (h : b.LaidOut) (hstops : 2 ≤ stops.length)
    (hthere : ∀ s ∈ stops, s < b.stations.size)
    (hsections : sections.length = stops.length - 1)
    (hlegs : ∀ legs ∈ sections, legs.length = trips ∧ Leg.Ordered legs.toArray)
    (hfollow : ∀ (i : Nat) (legs legs' : List Leg), sections[i]? = some legs →
      sections[i + 1]? = some legs' → Leg.Follow legs.toArray legs'.toArray) :
    (b.pushRoute stops trips sections).2.LaidOut := by
  refine ⟨?_, h.fits_pushRoute hthere, ?_, ?_,
    fun id station number hid => h.route_of_stop_pushRoute hid,
    fun id edge legs hid hk => h.route_of_ride_pushRoute hid hk⟩
  · intro index s hs
    exact (grows_pushRoute trips).node _ _ (h.station index s hs)
  · intro edge hedge legs hk
    rcases mem_edges_pushRoute trips hedge with
      hold | ⟨i, legs', hi, hget, rfl⟩ | ⟨i, s, hs, rfl | rfl⟩
    · exact h.ordered edge hold legs hk
    · cases hk
      exact (hlegs legs' (List.mem_of_getElem? hget)).2
    · cases hk
    · cases hk
  · intro number route hroute
    rw [routes_pushRoute, Array.getElem?_push] at hroute
    split at hroute
    · next heq =>
      cases hroute
      rw [heq]
      exact laid_pushRoute h hstops hthere hsections (fun legs hl => (hlegs legs hl).1) hfollow
    · exact h.laid_of_pushRoute hroute

end PushRoute

/-- The sections of a route that has been added: each has one leg for every trip. -/
theorem sections_of_addRoute {stops : List StationIndex} {trips : List Trip} {route : RouteId}
    (h : b.addRoute stops trips = .ok (route, b')) :
    ∃ sections : List (List Leg), sections.length = stops.length - 1 ∧
      (∀ legs ∈ sections, legs.length = trips.length ∧ Leg.Ordered legs.toArray) ∧
      (∀ (i : Nat) (legs legs' : List Leg), sections[i]? = some legs →
        sections[i + 1]? = some legs' → Leg.Follow legs.toArray legs'.toArray) ∧
      (route, b') = b.pushRoute stops trips.length sections := by
  obtain ⟨-, -, legs, hlegs, hsorted, heq⟩ := addRoute_eq_ok h
  have hjoin : ∀ trip ∈ legs, Trip.LegsJoin stops.length trip := by
    intro trip htrip
    obtain ⟨x, -, hok⟩ := Fallible.exists_of_forall₂ hlegs htrip
    exact (Trip.legs_join hok).1
  refine ⟨_, length_legsBySection (stops.length - 1) legs, fun section' hsection => ?_,
    fun i first second => legsBySection_follow hjoin, heq⟩
  obtain ⟨i, hi⟩ := List.getElem?_of_mem hsection
  refine ⟨?_, hsorted section' hsection, fun leg hleg => ?_⟩
  · rw [(getElem?_of_legsBySection (fun t ht => (hjoin t ht).length_eq) hi).1,
      ← hlegs.length_eq, List.length_zipIdx]
  · obtain ⟨trip, htrip, hmem⟩ := exists_mem_of_legsBySection hsection (List.mem_toArray.1 hleg)
    exact (hjoin trip htrip).forward leg hmem

/-- An accepted route keeps the layout. -/
theorem LaidOut.addRoute {stops : List StationIndex} {trips : List Trip} {route : RouteId}
    (h : b.LaidOut) (ha : b.addRoute stops trips = .ok (route, b')) : b'.LaidOut := by
  obtain ⟨hstops, hthere, -⟩ := addRoute_eq_ok ha
  obtain ⟨sections, hsections, hlegs, hfollow, heq⟩ := sections_of_addRoute ha
  have hpush := h.pushRoute hstops hthere hsections hlegs hfollow
  rw [← heq] at hpush
  exact hpush

/-- A through service keeps the layout. -/
theorem LaidOut.addThrough {source target : RouteId} {trips : List (Option Nat)} {edge : EdgeId}
    (h : b.LaidOut) (ha : b.addThrough source target trips = .ok (edge, b')) : b'.LaidOut := by
  obtain ⟨first, second, tail, head, hfirst, hsecond, hjoin, rfl⟩ := addThrough_eq_ok ha
  obtain ⟨htail, hhead, -⟩ := joinRoutes_eq_ok_iff.1 hjoin
  obtain ⟨s, hs⟩ := (h.laid source first hfirst).stop tail (List.mem_of_getLast? htail)
  obtain ⟨s', hs'⟩ := (h.laid target second hsecond).stop head (List.mem_of_head? hhead)
  exact h.pushEdge ⟨⟨s, _, hs⟩, ⟨s', _, hs'⟩⟩ nofun nofun nofun

/-- A footpath keeps the layout. -/
theorem LaidOut.addFootpath {source target : StationIndex} {duration : Nat} {edge : EdgeId}
    (h : b.LaidOut) (ha : b.addFootpath source target duration = .ok (edge, b')) :
    b'.LaidOut := by
  obtain ⟨hsource, htarget, rfl⟩ := addFootpath_eq_ok ha
  exact h.pushEdge ⟨⟨source, h.stationNode hsource⟩, ⟨target, h.stationNode htarget⟩⟩
    nofun nofun nofun

/-- However a builder has come about, all is where it belongs. -/
theorem Made.laidOut {P : Trip → Prop} {period : Period} (h : b.Made P period) : b.LaidOut := by
  induction h with
  | new => exact new_laidOut period
  | addCategory name h ih => exact ⟨ih.station, ih.fits, ih.ordered, ih.laid, ih.stop, ih.ride⟩
  | addTrack name h ih => exact ⟨ih.station, ih.fits, ih.ordered, ih.laid, ih.stop, ih.ride⟩
  | addInfo info h ih => exact ⟨ih.station, ih.fits, ih.ordered, ih.laid, ih.stop, ih.ride⟩
  | addStation h ha ih => exact ih.addStation ha
  | setInterchange station rule h ih => exact ih.setInterchange
  | addRoute h hin ha ih => exact ih.addRoute ha
  | addThrough h ha ih => exact ih.addThrough ha
  | addFootpath h ha ih => exact ih.addFootpath ha

end Builder

end JourneyPlanner
