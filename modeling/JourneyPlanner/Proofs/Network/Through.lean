import JourneyPlanner.Proofs.Network.Fixture

/-!
# Through edges

A train may go on under another route. `Parts.Joined` says what a search may take for
granted about the edges over which it does:

* whatever route edge leads up to a through edge, and whatever route edge leads on from
  it, each trip that goes on has a leg on both, and does not leave over the second before
  it has arrived over the first (`Leg.Join`);
* no through edge leads to another.

Nor does a through edge leave its station (`Timetable.ThroughAtOne`).

When a through edge is accepted only two route edges are looked at, the last of the one
route and the first of the other. That these are all there are is an invariant of the
builder, `Builder.Routed`: each stop of a route has a node of its own, which at most one
route edge enters and at most one leaves, and no first stop is a last stop. None of it
depends on what the calls were given, so it holds of any builder that calls lead to.
-/

namespace JourneyPlanner

/-- Each trip over the first legs that goes on as another does so over the second, and
does not leave there before it has arrived. -/
def Leg.Join (trips : List (Option Nat)) (first second : Array Leg) : Prop :=
  ∀ trip next : Nat, trips[trip]? = some (some next) → ∃ a b : Leg, first[trip]? = some a ∧
    second[next]? = some b ∧ a.arrival ≤ b.departure

/-- What holds of the through edges among edges that have been accepted. -/
structure Parts.Joined (edges : Array Edge) : Prop where
  join : ∀ edge ∈ edges, ∀ trips, edge.kind = .through trips → ∀ first ∈ edges, ∀ second ∈ edges,
    first.head = edge.tail → edge.head = second.tail → ∀ legs legs', first.kind = .route legs →
    second.kind = .route legs' → Leg.Join trips legs legs'
  apart : ∀ edge ∈ edges, ∀ other ∈ edges, ∀ trips trips', edge.kind = .through trips →
    other.kind = .through trips' → edge.head ≠ other.tail

/-! ## Looking up a trip -/

namespace EdgeKind

variable {trips : List (Option Nat)} {i t : Nat}

/-- A trip goes on as another exactly where the mapping names it. -/
theorem continuation?_eq_some_iff : continuation? trips i = some t ↔ trips[i]? = some (some t) :=
  Option.join_eq_some_iff

theorem continuation?_of_lt (h : i < trips.length) : continuation? trips i = trips[i] := by
  rw [continuation?, List.getElem?_eq_getElem h, Option.join_some]

theorem lt_of_continuation? (h : continuation? trips i = some t) : i < trips.length :=
  (List.getElem?_eq_some_iff.1 (continuation?_eq_some_iff.1 h)).1

/-- The first trip that goes on as another is the one that this comes from. -/
theorem origin?_eq_some_iff :
    origin? trips t = some i ↔
      continuation? trips i = some t ∧ ∀ j < i, continuation? trips j ≠ some t := by
  unfold origin?
  rw [List.findIdx?_eq_some_iff_getElem]
  constructor
  · rintro ⟨hlt, hfound, hbefore⟩
    refine ⟨(continuation?_of_lt hlt).trans (beq_iff_eq.1 hfound), fun j hj heq => ?_⟩
    rw [continuation?_of_lt (hj.trans hlt)] at heq
    exact hbefore j hj (beq_iff_eq.2 heq)
  · rintro ⟨hfound, hbefore⟩
    have hlt := lt_of_continuation? hfound
    rw [continuation?_of_lt hlt] at hfound
    refine ⟨hlt, beq_iff_eq.2 hfound, fun j hj heq => hbefore j hj ?_⟩
    rw [continuation?_of_lt (hj.trans hlt), beq_iff_eq.1 heq]

end EdgeKind

namespace Builder

variable {b b' : Builder} {source target : Route} {trips : List (Option Nat)}

/-! ## What is checked -/

/-- A mapping of trips without a fault. -/
theorem join_of_mappingFault? {arriving departing : Array Leg} {number : Nat}
    (h : mappingFault? arriving departing number trips = none) :
    ∀ trip next : Nat, trips[trip]? = some (some next) → ∃ a b : Leg,
      arriving[number + trip]? = some a ∧ departing[next]? = some b ∧
        a.arrival ≤ b.departure := by
  -- the second case is a trip that ends, the fourth one that goes on in time
  fun_induction mappingFault? arriving departing number trips with
  | case1 number => exact fun trip next hnext => by cases hnext
  | case2 number rest ih =>
    intro trip next hnext
    cases trip with
    | zero => cases hnext
    | succ trip =>
      obtain ⟨a, b, ha, hb, hle⟩ := ih h trip next hnext
      exact ⟨a, b, by rw [← ha, Nat.add_right_comm, Nat.add_assoc], hb, hle⟩
  | case3 => cases h
  | case4 number target rest arrival departure hdeparture harrival hle ih =>
    intro trip next hnext
    cases trip with
    | zero =>
      cases hnext
      exact ⟨arrival, departure, harrival, hdeparture, Nat.le_of_not_lt hle⟩
    | succ trip =>
      obtain ⟨a, b, ha, hb, hle⟩ := ih h trip next hnext
      exact ⟨a, b, by rw [← ha, Nat.add_right_comm, Nat.add_assoc], hb, hle⟩
  | case5 => cases h

/-! ## Where routes lie -/

/-- A route edge whose end `side` is at a node. -/
def RidesAt (b : Builder) (id : Option EdgeId) (node : Option NodeId) (side : Edge → NodeId) :
    Prop :=
  ∃ edge legs, id.bind (b.edges[·]?) = some edge ∧ edge.kind = .route legs ∧
    node = some (side edge)

/-- The nodes of a route are there; its first edge leaves the first of them, and its last
enters the last. -/
structure Lays (b : Builder) (route : Route) : Prop where
  nodes_lt : ∀ id ∈ route.nodes, id < b.nodes.size
  first : b.RidesAt route.edges.head? route.nodes.head? Edge.tail
  last : b.RidesAt route.edges.getLast? route.nodes.getLast? Edge.head

/-- How the routes that have been added lie to one another. -/
structure Routed (b : Builder) : Prop where
  lays : ∀ route ∈ b.routes, b.Lays route
  ends_lt : ∀ edge ∈ b.edges, ∀ legs, edge.kind = .route legs →
    edge.tail < b.nodes.size ∧ edge.head < b.nodes.size
  /-- Not more than one route edge leaves a node, nor enters it. -/
  sole : ∀ edge ∈ b.edges, ∀ other ∈ b.edges, ∀ legs legs', edge.kind = .route legs →
    other.kind = .route legs' → edge.tail = other.tail ∨ edge.head = other.head → legs = legs'
  apart : ∀ route ∈ b.routes, ∀ other ∈ b.routes, route.nodes.head? ≠ other.nodes.getLast?
  through : ∀ edge ∈ b.edges, ∀ trips, edge.kind = .through trips → ∃ source ∈ b.routes,
    ∃ target ∈ b.routes, b.joinRoutes source target trips = .ok (edge.tail, edge.head)

/-- Before anything has been added all routes lie as they should. -/
theorem new_routed (period : Period) : (new period).Routed := by
  refine ⟨?_, ?_, ?_, ?_, ?_⟩ <;> simp [new]

/-- The legs of an edge that is ridden are those the builder reads there. -/
theorem RidesAt.legsOf_eq {id : Option EdgeId} {node : Option NodeId} {side : Edge → NodeId}
    (h : b.RidesAt id node side) : ∃ edge ∈ b.edges, edge.kind = .route (b.legsOf id) ∧
      node = some (side edge) := by
  obtain ⟨edge, legs, hedge, hkind, hnode⟩ := h
  obtain ⟨i, -, hi⟩ := Option.bind_eq_some_iff.1 hedge
  refine ⟨edge, Array.mem_of_getElem? hi, ?_, hnode⟩
  unfold legsOf
  rw [hedge]
  obtain ⟨tail, head, kind⟩ := edge
  cases hkind
  rfl

/-- The through edges of a builder fit in with its route edges. -/
theorem Routed.joined (h : b.Routed) : Parts.Joined b.edges := by
  refine ⟨?_, ?_⟩
  · intro edge hedge trips hkind first hfirst second hsecond harrive hdepart legs legs' hk hk'
    obtain ⟨source, hsource, target, htarget, hjoin⟩ := h.through edge hedge trips hkind
    obtain ⟨htail, hhead, -, -, hmapping⟩ := joinRoutes_eq_ok_iff.1 hjoin
    -- the edges that were looked at are the only ones there
    obtain ⟨last, hlast, hlegs, hnode⟩ := (h.lays source hsource).last.legsOf_eq
    obtain ⟨next, hnext, hlegs', hnode'⟩ := (h.lays target htarget).first.legsOf_eq
    have hsame : last.head = first.head := by
      rw [htail] at hnode
      exact (Option.some.inj hnode).symm.trans harrive.symm
    have hsame' : next.tail = second.tail := by
      rw [hhead] at hnode'
      exact (Option.some.inj hnode').symm.trans hdepart
    have heq := h.sole last hlast first hfirst _ _ hlegs hk (Or.inr hsame)
    have heq' := h.sole next hnext second hsecond _ _ hlegs' hk' (Or.inl hsame')
    intro trip onward honward
    rw [← heq, ← heq']
    have hall := join_of_mappingFault? hmapping trip onward honward
    rw [Nat.zero_add] at hall
    exact hall
  · intro edge hedge other hother trips trips' hkind hkind' heq
    obtain ⟨_, _, target, htarget, hjoin⟩ := h.through edge hedge trips hkind
    obtain ⟨source, hsource, _, _, hjoin'⟩ := h.through other hother trips' hkind'
    have hhead := (joinRoutes_eq_ok_iff.1 hjoin).2.1
    have htail := (joinRoutes_eq_ok_iff.1 hjoin').1
    refine h.apart target htarget source hsource ?_
    rw [hhead, htail, heq]

/-! ## More parts -/

/-- Nothing that was there has been changed or taken away. -/
structure Grows (b b' : Builder) : Prop where
  node : ∀ (id : NodeId) (node : Node), b.nodes[id]? = some node → b'.nodes[id]? = some node
  edge : ∀ (id : EdgeId) (edge : Edge), b.edges[id]? = some edge → b'.edges[id]? = some edge

theorem getElem?_append_of_eq_some {α : Type} {xs more : Array α} {i : Nat} {x : α}
    (h : xs[i]? = some x) : (xs ++ more)[i]? = some x := by
  rw [Array.getElem?_append_left (Array.getElem?_eq_some_iff.1 h).1, h]

/-- What is only added to has grown. -/
theorem Grows.of_append {moreNodes : Array Node} {moreEdges : Array Edge}
    (hnodes : b'.nodes = b.nodes ++ moreNodes) (hedges : b'.edges = b.edges ++ moreEdges) :
    b.Grows b' := by
  refine ⟨fun id node h => ?_, fun id edge h => ?_⟩
  · rw [hnodes]
    exact getElem?_append_of_eq_some h
  · rw [hedges]
    exact getElem?_append_of_eq_some h

theorem Grows.lt_size (h : b.Grows b') {id : NodeId} (hid : id < b.nodes.size) :
    id < b'.nodes.size :=
  (Array.getElem?_eq_some_iff.1 (h.node id _ (Array.getElem?_eq_getElem hid))).1

/-- A route edge stays where it is as the parts grow. -/
theorem RidesAt.grow {id : Option EdgeId} {node : Option NodeId} {side : Edge → NodeId}
    (h : b.RidesAt id node side) (hg : b.Grows b') : b'.RidesAt id node side := by
  obtain ⟨edge, legs, hedge, hkind, hnode⟩ := h
  obtain ⟨i, rfl, hi⟩ := Option.bind_eq_some_iff.1 hedge
  exact ⟨edge, legs, hg.edge i edge hi, hkind, hnode⟩

/-- The legs of a route edge stay the same as the parts grow. -/
theorem RidesAt.legsOf_grow {id : Option EdgeId} {node : Option NodeId} {side : Edge → NodeId}
    (h : b.RidesAt id node side) (hg : b.Grows b') : b'.legsOf id = b.legsOf id := by
  obtain ⟨edge, legs, hedge, -, -⟩ := h
  obtain ⟨i, rfl, hi⟩ := Option.bind_eq_some_iff.1 hedge
  unfold legsOf
  rw [Option.bind_some, Option.bind_some, hi, hg.edge i edge hi]

/-- A route stays laid as the parts grow. -/
theorem Lays.grow {route : Route} (h : b.Lays route) (hg : b.Grows b') : b'.Lays route :=
  ⟨fun id hid => hg.lt_size (h.nodes_lt id hid), h.first.grow hg, h.last.grow hg⟩

/-- Routes that could be joined still can. -/
theorem Lays.joinRoutes_grow {ends : NodeId × NodeId} (hs : b.Lays source) (ht : b.Lays target)
    (hg : b.Grows b') (h : b.joinRoutes source target trips = .ok ends) :
    b'.joinRoutes source target trips = .ok ends := by
  obtain ⟨tail, head⟩ := ends
  obtain ⟨htail, hhead, hstation, hcount, hmapping⟩ := joinRoutes_eq_ok_iff.1 h
  have hkeep : ∀ id, id < b.nodes.size → b'.nodes[id]? = b.nodes[id]? := by
    intro id hid
    rw [Array.getElem?_eq_getElem hid, hg.node id _ (Array.getElem?_eq_getElem hid)]
  refine joinRoutes_eq_ok_iff.2 ⟨htail, hhead, ?_, hcount, ?_⟩
  · rw [hkeep tail (hs.nodes_lt tail (List.mem_of_getLast? htail)),
      hkeep head (ht.nodes_lt head (List.mem_of_head? hhead)), hstation]
  · rw [hs.last.legsOf_grow hg, ht.first.legsOf_grow hg, hmapping]

/-- Without a new route the new edges are none that is ridden, and through edges between
routes that can be joined. -/
theorem Routed.grow (h : b.Routed) (hg : b.Grows b') (hroutes : b'.routes = b.routes)
    (hedges : ∀ edge ∈ b'.edges, edge ∈ b.edges ∨ (∀ legs, edge.kind ≠ .route legs) ∧
      ∀ trips, edge.kind = .through trips → ∃ source ∈ b.routes, ∃ target ∈ b.routes,
        b.joinRoutes source target trips = .ok (edge.tail, edge.head)) : b'.Routed := by
  have hold : ∀ edge ∈ b'.edges, ∀ legs, edge.kind = .route legs → edge ∈ b.edges := by
    intro edge hedge legs hk
    rcases hedges edge hedge with hmem | ⟨hnot, -⟩
    · exact hmem
    · exact absurd hk (hnot legs)
  refine ⟨?_, ?_, ?_, ?_, ?_⟩
  · intro route hroute
    rw [hroutes] at hroute
    exact (h.lays route hroute).grow hg
  · intro edge hedge legs hk
    obtain ⟨htail, hhead⟩ := h.ends_lt edge (hold edge hedge legs hk) legs hk
    exact ⟨hg.lt_size htail, hg.lt_size hhead⟩
  · intro edge hedge other hother legs legs' hk hk'
    exact h.sole edge (hold edge hedge legs hk) other (hold other hother legs' hk') legs legs'
      hk hk'
  · rw [hroutes]
    exact h.apart
  · intro edge hedge trips hk
    obtain ⟨source, hsource, target, htarget, hjoin⟩ : ∃ source ∈ b.routes, ∃ target ∈ b.routes,
        b.joinRoutes source target trips = .ok (edge.tail, edge.head) := by
      rcases hedges edge hedge with hmem | ⟨-, hthrough⟩
      · exact h.through edge hmem trips hk
      · exact hthrough trips hk
    rw [hroutes]
    exact ⟨source, hsource, target, htarget,
      (h.lays source hsource).joinRoutes_grow (h.lays target htarget) hg hjoin⟩

/-- Other parts have no say in it. -/
theorem Routed.same (h : b.Routed) (hnodes : b'.nodes = b.nodes) (hedges : b'.edges = b.edges)
    (hroutes : b'.routes = b.routes) : b'.Routed := by
  refine h.grow ⟨fun id node hid => ?_, fun id edge hid => ?_⟩ hroutes fun edge hedge => ?_
  · rw [hnodes]
    exact hid
  · rw [hedges]
    exact hid
  · rw [hedges] at hedge
    exact Or.inl hedge

/-- A station leaves the routes as they lie. -/
theorem Routed.addStation {id name : String} {time : Nat} {index : StationIndex} (h : b.Routed)
    (ha : b.addStation id name time = .ok (index, b')) : b'.Routed := by
  obtain ⟨sid, -, -, -, rfl⟩ := addStation_eq_ok ha
  exact h.grow (.of_append Array.push_eq_append (Array.append_empty).symm) rfl
    fun edge hedge => Or.inl hedge

/-- A footpath leaves the routes as they lie. -/
theorem Routed.addFootpath {first second : StationIndex} {duration : Nat} {id : EdgeId}
    (h : b.Routed) (ha : b.addFootpath first second duration = .ok (id, b')) : b'.Routed := by
  obtain ⟨-, -, rfl⟩ := addFootpath_eq_ok ha
  refine h.grow (.of_append (Array.append_empty).symm Array.push_eq_append) rfl fun edge hedge => ?_
  rcases Array.mem_push.1 hedge with hedge | rfl
  · exact Or.inl hedge
  · exact Or.inr ⟨nofun, nofun⟩

/-- A through service leaves the routes as they lie, and joins two that did. -/
theorem Routed.addThrough {first second : RouteId} {id : EdgeId} (h : b.Routed)
    (ha : b.addThrough first second trips = .ok (id, b')) : b'.Routed := by
  obtain ⟨source, target, tail, head, hsource, htarget, hjoin, rfl⟩ := addThrough_eq_ok ha
  refine h.grow (.of_append (Array.append_empty).symm Array.push_eq_append) rfl
    fun edge hedge => ?_
  rcases Array.mem_push.1 hedge with hedge | rfl
  · exact Or.inl hedge
  · refine Or.inr ⟨nofun, fun trips' hk => ?_⟩
    cases hk
    exact ⟨source, Array.mem_of_getElem? hsource, target, Array.mem_of_getElem? htarget, hjoin⟩

/-! ## A new route -/

section PushRoute

variable {stops : List StationIndex} {count : Nat} {sections : List (List Leg)}

/-- A route only adds nodes and edges. -/
theorem grows_pushRoute (count : Nat) : b.Grows (b.pushRoute stops count sections).2 :=
  .of_append (nodes_pushRoute count) (by simp only [Builder.pushRoute, append_list]; rfl)

/-- Where the route edges of the new route are. -/
theorem getElem?_edges_pushRoute (count : Nat) {i : Nat} {legs : List Leg}
    (hi : i + 1 < stops.length) (hlegs : sections[i]? = some legs) :
    (b.pushRoute stops count sections).2.edges[b.edges.size + i]? =
      some { tail := b.nodes.size + i, head := b.nodes.size + (i + 1),
             kind := .route legs.toArray } := by
  simp only [Builder.pushRoute, append_list]
  rw [Array.getElem?_append_right (by omega), Nat.add_sub_cancel_left, List.getElem?_toArray]
  have hnodes : (List.range stops.length).map (b.nodes.size + ·) =
      (List.range stops.length).map (b.nodes.size + ·) := rfl
  have hride := (getElem?_rides hnodes).2 ⟨legs, hi, hlegs, rfl⟩
  rw [List.getElem?_append_left (List.getElem?_eq_some_iff.1 hride).1]
  exact hride

/-- The new route, last in the list, lies between its nodes. -/
theorem lays_pushRoute (count : Nat) (hstops : 2 ≤ stops.length)
    (hsections : sections.length = stops.length - 1) :
    ∃ route, (b.pushRoute stops count sections).2.routes = b.routes.push route ∧
      (b.pushRoute stops count sections).2.Lays route ∧
      route.nodes.head? = some b.nodes.size ∧
      route.nodes.getLast? = some (b.nodes.size + (stops.length - 1)) := by
  have hfirst : (b.pushRoute stops count sections).2.RidesAt (some (b.edges.size + 0))
      (some (b.nodes.size + 0)) Edge.tail := by
    have hlegs : sections[0]? = some sections[0] := List.getElem?_eq_getElem (by omega)
    exact ⟨_, _, getElem?_edges_pushRoute count (by omega) hlegs, rfl, rfl⟩
  have hlast : (b.pushRoute stops count sections).2.RidesAt
      (some (b.edges.size + (sections.length - 1))) (some (b.nodes.size + (stops.length - 1)))
      Edge.head := by
    have hlegs : sections[sections.length - 1]? = some sections[sections.length - 1] :=
      List.getElem?_eq_getElem (by omega)
    refine ⟨_, _, getElem?_edges_pushRoute count (by omega) hlegs, rfl, ?_⟩
    rw [show sections.length - 1 + 1 = stops.length - 1 by omega]
  have hhead : ∀ (first n : Nat), 0 < n →
      ((List.range n).map (first + ·)).head? = some (first + 0) := by
    intro first n hn
    rw [List.head?_map, List.head?_range, if_neg (by omega)]
    rfl
  have hgetLast : ∀ (first n : Nat), 0 < n →
      ((List.range n).map (first + ·)).getLast? = some (first + (n - 1)) := by
    intro first n hn
    rw [List.getLast?_map, List.getLast?_range, if_neg (by omega)]
    rfl
  refine ⟨{ nodes := (List.range stops.length).map (b.nodes.size + ·)
            edges := (List.range sections.length).map (b.edges.size + ·)
            trips := count }, rfl, ⟨?_, ?_, ?_⟩, ?_, ?_⟩
  · intro id hid
    obtain ⟨i, hi, rfl⟩ := List.mem_map.1 hid
    exact (isStop_pushRoute count (List.mem_range.1 hi)).lt_size
  · rw [hhead _ _ (by omega), hhead _ _ (by omega)]
    exact hfirst
  · rw [hgetLast _ _ (by omega), hgetLast _ _ (by omega)]
    exact hlast
  · exact hhead _ _ (by omega)
  · exact hgetLast _ _ (by omega)

/-- A ride is old, between old nodes, or new, between new ones. -/
theorem Routed.ride_pushRoute (h : b.Routed) (count : Nat) {edge : Edge}
    (hedge : edge ∈ (b.pushRoute stops count sections).2.edges) {legs : Array Leg}
    (hk : edge.kind = .route legs) :
    (edge ∈ b.edges ∧ edge.tail < b.nodes.size ∧ edge.head < b.nodes.size) ∨
      ∃ i l, i + 1 < stops.length ∧ sections[i]? = some l ∧ legs = l.toArray ∧
        edge.tail = b.nodes.size + i ∧ edge.head = b.nodes.size + (i + 1) := by
  rcases mem_edges_pushRoute count hedge with hold | ⟨i, l, hi, hl, rfl⟩ | ⟨i, s, -, rfl | rfl⟩
  · exact Or.inl ⟨hold, h.ends_lt edge hold legs hk⟩
  · cases hk
    exact Or.inr ⟨i, l, hi, hl, rfl, rfl, rfl⟩
  · cases hk
  · cases hk

/-- A route of two stops or more lies by itself, at nodes of its own. -/
theorem Routed.pushRoute (h : b.Routed) (count : Nat) (hstops : 2 ≤ stops.length)
    (hsections : sections.length = stops.length - 1) :
    (b.pushRoute stops count sections).2.Routed := by
  have hg : b.Grows (b.pushRoute stops count sections).2 := grows_pushRoute count
  obtain ⟨route, hroutes, hlays, hfirst, hlast⟩ :=
    lays_pushRoute (b := b) count hstops hsections
  have hroute : ∀ other ∈ (b.pushRoute stops count sections).2.routes,
      other ∈ b.routes ∨ other = route := by
    intro other hother
    rw [hroutes] at hother
    exact Array.mem_push.1 hother
  refine ⟨?_, ?_, ?_, ?_, ?_⟩
  · intro other hother
    rcases hroute other hother with hold | rfl
    · exact (h.lays other hold).grow hg
    · exact hlays
  · intro edge hedge legs hk
    rcases h.ride_pushRoute count hedge hk with ⟨-, htail, hhead⟩ | ⟨i, l, hi, -, -, htail, hhead⟩
    · exact ⟨hg.lt_size htail, hg.lt_size hhead⟩
    · rw [htail, hhead]
      exact ⟨(isStop_pushRoute count (by omega)).lt_size, (isStop_pushRoute count hi).lt_size⟩
  · intro edge hedge other hother legs legs' hk hk' hends
    rcases h.ride_pushRoute count hedge hk with
      ⟨hold, htail, hhead⟩ | ⟨i, l, -, hl, rfl, htail, hhead⟩
    · rcases h.ride_pushRoute count hother hk' with
        ⟨hold', -, -⟩ | ⟨j, l', -, -, -, htail', hhead'⟩
      · exact h.sole edge hold other hold' legs legs' hk hk' hends
      · simp only [NodeId] at *
        omega
    · rcases h.ride_pushRoute count hother hk' with
        ⟨-, htail', hhead'⟩ | ⟨j, l', -, hl', rfl, htail', hhead'⟩
      · simp only [NodeId] at *
        omega
      · have hij : i = j := by
          simp only [NodeId] at *
          omega
        rw [hij, hl'] at hl
        cases hl
        rfl
  · intro first hf last hl heq
    rcases hroute first hf with hold | rfl
    · rcases hroute last hl with hold' | rfl
      · exact h.apart first hold last hold' heq
      · rw [hlast] at heq
        have hlt := (h.lays first hold).nodes_lt _ (List.mem_of_head? heq)
        exact absurd hlt (Nat.not_lt.2 (Nat.le_add_right _ _))
    · rcases hroute last hl with hold' | rfl
      · rw [hfirst] at heq
        have hlt := (h.lays last hold').nodes_lt _ (List.mem_of_getLast? heq.symm)
        exact absurd hlt (Nat.lt_irrefl _)
      · rw [hfirst, hlast] at heq
        have hsame : b.nodes.size = b.nodes.size + (stops.length - 1) := Option.some.inj heq
        omega
  · intro edge hedge trips hk
    rcases mem_edges_pushRoute count hedge with hold | ⟨i, l, -, -, rfl⟩ | ⟨i, s, -, rfl | rfl⟩
    · obtain ⟨source, hsource, target, htarget, hjoin⟩ := h.through edge hold trips hk
      rw [hroutes]
      exact ⟨source, Array.mem_push_of_mem _ hsource, target, Array.mem_push_of_mem _ htarget,
        (h.lays source hsource).joinRoutes_grow (h.lays target htarget) hg hjoin⟩
    · cases hk
    · cases hk
    · cases hk

end PushRoute

/-- An accepted route lies by itself, and the others as they did. -/
theorem Routed.addRoute {stops : List StationIndex} {trips : List Trip} {id : RouteId}
    (h : b.Routed) (ha : b.addRoute stops trips = .ok (id, b')) : b'.Routed := by
  obtain ⟨hstops, -, legs, -, -, heq⟩ := addRoute_eq_ok ha
  have hpush := h.pushRoute trips.length hstops (length_legsBySection (stops.length - 1) legs)
  rw [← heq] at hpush
  exact hpush

/-- However a builder has come about, its routes lie as they should. -/
theorem Made.routed {P : Trip → Prop} {period : Period} (h : b.Made P period) : b.Routed := by
  induction h with
  | new => exact new_routed period
  | addCategory name h ih => exact ih.same rfl rfl rfl
  | addTrack name h ih => exact ih.same rfl rfl rfl
  | addInfo info h ih => exact ih.same rfl rfl rfl
  | addStation h ha ih => exact ih.addStation ha
  | setInterchange station rule h ih => exact ih.same rfl rfl rfl
  | addRoute h hin ha ih => exact ih.addRoute ha
  | addThrough h ha ih => exact ih.addThrough ha
  | addFootpath h ha ih => exact ih.addFootpath ha

end Builder

/-- In every timetable that a fixture describes the through edges fit in with the route
edges. -/
theorem Fixture.build_joined {fixture : Fixture} {tt : Timetable}
    (h : fixture.build = .ok tt) : Parts.Joined tt.edges := by
  obtain ⟨b, hmade, -, rfl⟩ := build_made h
  exact hmade.routed.joined

/-- Every through edge lies within one station. -/
def Timetable.ThroughAtOne (tt : Timetable) : Prop :=
  ∀ edge ∈ tt.edges, ∀ trips, edge.kind = .through trips →
    (tt.node edge.tail).stationIndex = (tt.node edge.head).stationIndex

/-- In every timetable that a fixture describes a train goes on where it has arrived. -/
theorem Fixture.build_throughAtOne {fixture : Fixture} {tt : Timetable}
    (h : fixture.build = .ok tt) : tt.ThroughAtOne := by
  obtain ⟨b, hmade, -, rfl⟩ := build_made h
  intro edge hedge trips hkind
  obtain ⟨source, -, target, -, hjoin⟩ := hmade.routed.through edge hedge trips hkind
  have hstation := (Builder.joinRoutes_eq_ok_iff.1 hjoin).2.2.1
  have hnode : ∀ id, b.build.node id = b.nodes[id]?.getD default := fun id => rfl
  rw [hnode, hnode]
  cases htail : b.nodes[edge.tail]? with
  | none =>
    rw [htail, Option.map_none] at hstation
    rw [Option.map_eq_none_iff.1 hstation.symm]
  | some tail =>
    rw [htail, Option.map_some] at hstation
    obtain ⟨head, hhead, hsame⟩ := Option.map_eq_some_iff.1 hstation.symm
    rw [hhead]
    exact hsame.symm

end JourneyPlanner
