import JourneyPlanner.Network.Builder
import JourneyPlanner.Proofs.Fallible
import Mathlib.Data.List.Chain

/-!
# What a builder keeps

`Parts.Sound` collects what a search may take for granted about stations, nodes
and edges, and what no part that is accepted can break:

* an edge joins the sorts of nodes that its kind calls for (`Edge.Fits`), and
  the node of a station is that station's;
* on a route edge no leg runs back in time, and the legs are ordered by
  departure and by arrival at once (`Leg.NoLater`);
* where one route edge ends and another begins, they belong to one route: both
  have the same trips, and trip by trip they are the same train, which does not
  leave before it has arrived (`Leg.Follow`).

The last holds because each stop of a route has a node of its own. An edge that
is there already cannot touch a node that is new, so the edges of a new route
meet each other only.
-/

namespace JourneyPlanner

/-- The last minute that the time of a leg may be, counted from the day on
which the trip starts. -/
def lastMinute : Nat := 47 * 60 + 59

/-- Nothing runs back in time, or into the third day. -/
structure Leg.Valid (leg : Leg) : Prop where
  departure_le : leg.departure ≤ leg.arrival
  arrival_le : leg.arrival ≤ lastMinute

/-- The first leg neither leaves nor arrives after the second. -/
structure Leg.NoLater (first second : Leg) : Prop where
  departure_le : first.departure ≤ second.departure
  arrival_le : first.arrival ≤ second.arrival

/-- The second leg is the same train as the first, further on. -/
structure Leg.Continues (first second : Leg) : Prop where
  days_eq : second.days = first.days
  info_eq : second.info = first.info
  arrival_le : first.arrival ≤ second.departure

/-- Trip by trip the second legs continue the first. -/
structure Leg.Follow (first second : Array Leg) : Prop where
  size_eq : first.size = second.size
  continues : ∀ (trip : Nat) (a b : Leg), first[trip]? = some a → second[trip]? = some b →
    a.Continues b

/-- A node of a station itself. -/
def Node.IsStation (nodes : Array Node) (id : NodeId) : Prop :=
  ∃ station, nodes[id]? = some (.station station)

/-- The stop of some route. -/
def Node.IsStop (nodes : Array Node) (id : NodeId) : Prop :=
  ∃ station route, nodes[id]? = some (.route station route)

/-- A station and the stop of a route there. -/
def Node.AtOne (nodes : Array Node) (station stop : NodeId) : Prop :=
  ∃ index route, nodes[station]? = some (.station index) ∧
    nodes[stop]? = some (.route index route)

/-- The ends of a daily window are minutes of a day. -/
def Mumo.InDay (ride : Mumo) : Prop :=
  ∀ begin finish, ride.window = some (.daily begin finish) →
    begin < Time.perDay ∧ finish < Time.perDay

/-- An edge joins the sorts of nodes that its kind calls for, and what it says
of a minute of the day is one. -/
def Edge.Fits (nodes : Array Node) (edge : Edge) : Prop :=
  match edge.kind with
  | .route _ | .through _ => Node.IsStop nodes edge.tail ∧ Node.IsStop nodes edge.head
  | .enter => Node.AtOne nodes edge.tail edge.head
  | .exit => Node.AtOne nodes edge.head edge.tail
  | .foot .. => Node.IsStation nodes edge.tail ∧ Node.IsStation nodes edge.head
  | .mumo ride => (Node.IsStation nodes edge.tail ∧ Node.IsStation nodes edge.head) ∧ ride.InDay
  | .hotel stay =>
    Node.IsStation nodes edge.tail ∧ edge.head = edge.tail ∧ stay.checkout < Time.perDay

/-- What holds of stations, nodes and edges that have been accepted. -/
structure Parts.Sound (stations : Array Station) (nodes : Array Node) (edges : Array Edge) :
    Prop where
  station : ∀ (index : Nat) (s : Station), stations[index]? = some s →
    nodes[s.node]? = some (.station index)
  fits : ∀ edge ∈ edges, edge.Fits nodes
  valid : ∀ edge ∈ edges, ∀ legs, edge.kind = .route legs → ∀ leg ∈ legs, leg.Valid
  sorted : ∀ edge ∈ edges, ∀ legs, edge.kind = .route legs → legs.toList.Pairwise Leg.NoLater
  follow : ∀ first ∈ edges, ∀ second ∈ edges, first.head = second.tail →
    ∀ legs legs', first.kind = .route legs → second.kind = .route legs' → Leg.Follow legs legs'

/-! ## More nodes -/

section Append

variable {nodes more : Array Node} {id station stop : NodeId}

/-- A station's node stays one when nodes are added. -/
theorem Node.IsStation.append (h : Node.IsStation nodes id) :
    Node.IsStation (nodes ++ more) id := by
  obtain ⟨s, hs⟩ := h
  exact ⟨s, by rw [Array.getElem?_append_left (Array.getElem?_eq_some_iff.1 hs).1, hs]⟩

/-- A route's stop stays one when nodes are added. -/
theorem Node.IsStop.append (h : Node.IsStop nodes id) : Node.IsStop (nodes ++ more) id := by
  obtain ⟨s, r, hs⟩ := h
  exact ⟨s, r, by rw [Array.getElem?_append_left (Array.getElem?_eq_some_iff.1 hs).1, hs]⟩

/-- A station and a stop there stay so when nodes are added. -/
theorem Node.AtOne.append (h : Node.AtOne nodes station stop) :
    Node.AtOne (nodes ++ more) station stop := by
  obtain ⟨s, r, h₁, h₂⟩ := h
  refine ⟨s, r, ?_, ?_⟩
  · rw [Array.getElem?_append_left (Array.getElem?_eq_some_iff.1 h₁).1, h₁]
  · rw [Array.getElem?_append_left (Array.getElem?_eq_some_iff.1 h₂).1, h₂]

theorem Node.IsStop.lt_size (h : Node.IsStop nodes id) : id < nodes.size := by
  obtain ⟨s, r, hs⟩ := h
  exact (Array.getElem?_eq_some_iff.1 hs).1

theorem Node.IsStation.lt_size (h : Node.IsStation nodes id) : id < nodes.size := by
  obtain ⟨s, hs⟩ := h
  exact (Array.getElem?_eq_some_iff.1 hs).1

/-- No node is both a station's own and a route's stop. -/
theorem Node.IsStation.not_isStop (h : Node.IsStation nodes id) : ¬ Node.IsStop nodes id := by
  obtain ⟨s, hs⟩ := h
  rintro ⟨s', r, hs'⟩
  rw [hs] at hs'
  cases hs'

theorem Node.AtOne.isStation (h : Node.AtOne nodes station stop) :
    Node.IsStation nodes station := by
  obtain ⟨s, r, h₁, h₂⟩ := h
  exact ⟨s, h₁⟩

theorem Node.AtOne.isStop (h : Node.AtOne nodes station stop) : Node.IsStop nodes stop := by
  obtain ⟨s, r, h₁, h₂⟩ := h
  exact ⟨s, r, h₂⟩

/-- An edge that fits goes on fitting when nodes are added. -/
theorem Edge.Fits.append {edge : Edge} (h : edge.Fits nodes) : edge.Fits (nodes ++ more) := by
  unfold Edge.Fits at h ⊢
  split at h
  · exact ⟨h.1.append, h.2.append⟩
  · exact ⟨h.1.append, h.2.append⟩
  · exact h.append
  · exact h.append
  · exact ⟨h.1.append, h.2.append⟩
  · exact ⟨⟨h.1.1.append, h.1.2.append⟩, h.2⟩
  · exact ⟨h.1.append, h.2⟩

end Append

/-- A night leads nowhere. -/
theorem Edge.Fits.hotel {nodes : Array Node} {edge : Edge} {stay : Hotel} (h : edge.Fits nodes)
    (hkind : edge.kind = .hotel stay) : edge.head = edge.tail := by
  unfold Edge.Fits at h
  rw [hkind] at h
  exact h.2.1

/-- A hotel that fits is left at a minute of the day. -/
theorem Edge.Fits.checkout_lt {nodes : Array Node} {edge : Edge} {stay : Hotel}
    (h : edge.Fits nodes) (hkind : edge.kind = .hotel stay) : stay.checkout < Time.perDay := by
  unfold Edge.Fits at h
  rw [hkind] at h
  exact h.2.2

/-- A daily window that fits begins and ends at minutes of the day. -/
theorem Edge.Fits.inDay {nodes : Array Node} {edge : Edge} {ride : Mumo} (h : edge.Fits nodes)
    (hkind : edge.kind = .mumo ride) : ride.InDay := by
  unfold Edge.Fits at h
  rw [hkind] at h
  exact h.2

/-- Both ends of an edge that fits are there. -/
theorem Edge.Fits.lt_size {nodes : Array Node} {edge : Edge} (h : edge.Fits nodes) :
    edge.tail < nodes.size ∧ edge.head < nodes.size := by
  unfold Edge.Fits at h
  split at h
  · exact ⟨h.1.lt_size, h.2.lt_size⟩
  · exact ⟨h.1.lt_size, h.2.lt_size⟩
  · exact ⟨h.isStation.lt_size, h.isStop.lt_size⟩
  · exact ⟨h.isStop.lt_size, h.isStation.lt_size⟩
  · exact ⟨h.1.lt_size, h.2.lt_size⟩
  · exact ⟨h.1.1.lt_size, h.1.2.lt_size⟩
  · exact ⟨h.1.lt_size, by rw [h.2.1]; exact h.1.lt_size⟩

/-! ## The legs of a trip -/

namespace Trip

/-- The times that a trip is given stay below the last minute. -/
def InTime (trip : Trip) : Prop := ∀ stop ∈ trip.stops, ∀ m ∈ stop.arrival, m ≤ lastMinute

/-- One leg for every two neighbouring stops; none runs back in time, and none
leaves before the one ahead has arrived. -/
theorem legsFrom_spec {number stop reached : Nat} {info : InfoId} {days : DayMask}
    {stops : List StopTime} {legs : List Leg}
    (h : legsFrom number info days stop reached stops = .ok legs) :
    legs.length = stops.length - 1 ∧
      (∀ leg ∈ legs, leg.info = info ∧ leg.days = days ∧ leg.departure ≤ leg.arrival ∧
        ∃ s ∈ stops, leg.arrival ∈ s.arrival) ∧
      (∀ leg ∈ legs.head?, reached ≤ leg.departure) ∧
      legs.IsChain (fun a b => a.arrival ≤ b.departure) := by
  -- the first five cases are the faults, the sixth is a leg, the last too few stops for one
  fun_induction legsFrom number info days stop reached stops generalizing legs with
  | case1 => cases h
  | case2 => cases h
  | case3 => cases h
  | case4 => cases h
  | case5 => cases h
  | case6 stop reached here next rest departure hd arrival ha hr hle legs' hrest ih =>
    obtain ⟨hlen, hall, hhead, hchain⟩ := ih hrest
    cases h
    refine ⟨?_, ?_, ?_, ?_⟩
    · simp only [List.length_cons] at hlen ⊢
      omega
    · intro leg hleg
      rcases List.mem_cons.1 hleg with rfl | hleg
      · exact ⟨rfl, rfl, by simpa using hle, next, by simp, ha⟩
      · obtain ⟨h₁, h₂, h₃, s, hs, h₄⟩ := hall leg hleg
        exact ⟨h₁, h₂, h₃, s, List.mem_cons_of_mem _ hs, h₄⟩
    · intro leg hleg
      cases hleg
      simpa using hr
    · cases legs' with
      | nil => exact List.IsChain.singleton _
      | cons second others => exact List.IsChain.cons_cons (hhead second rfl) hchain
  | case7 stops stop reached hshort =>
    cases h
    refine ⟨?_, by simp, by simp, List.IsChain.nil⟩
    match stops, hshort with
    | [], _ => rfl
    | [_], _ => rfl
    | here :: next :: rest, hshort => exact absurd rfl (hshort here next rest)

/-- The legs of a trip over a route: as many as the route has sections, none of them back in
time, each the next part of the one before. -/
structure LegsJoin (stops : Nat) (legs : List Leg) : Prop where
  length_eq : legs.length = stops - 1
  forward : ∀ leg ∈ legs, leg.departure ≤ leg.arrival
  continues : ∀ (i : Nat) (a b : Leg), legs[i]? = some a → legs[i + 1]? = some b → a.Continues b

/-- The legs of a trip join its stops, and each arrives when the trip arrives at some stop. -/
theorem legs_join {trip : Trip} {number stops days : Nat} {legs : List Leg}
    (h : trip.legs number stops days = .ok legs) :
    LegsJoin stops legs ∧ ∀ leg ∈ legs, ∃ s ∈ trip.stops, leg.arrival ∈ s.arrival := by
  unfold Trip.legs at h
  split at h
  · cases h
  · next hlen =>
    split at h
    · cases h
    · obtain ⟨hlength, hall, -, hchain⟩ := legsFrom_spec h
      refine ⟨⟨by rw [hlength, Decidable.not_not.1 hlen], fun leg hleg => (hall leg hleg).2.2.1,
        ?_⟩, fun leg hleg => (hall leg hleg).2.2.2⟩
      intro i a b ha hb
      obtain ⟨hi, rfl⟩ := List.getElem?_eq_some_iff.1 hb
      obtain ⟨hi', rfl⟩ := List.getElem?_eq_some_iff.1 ha
      obtain ⟨h₁, h₂, -⟩ := hall _ (List.getElem_mem hi')
      obtain ⟨h₃, h₄, -⟩ := hall _ (List.getElem_mem hi)
      exact ⟨h₄.trans h₂.symm, h₃.trans h₁.symm, List.isChain_iff_getElem.1 hchain i hi⟩

/-- The legs that a trip has on a route. -/
structure LegsSound (stops : Nat) (legs : List Leg) : Prop where
  length_eq : legs.length = stops - 1
  valid : ∀ leg ∈ legs, leg.Valid
  continues : ∀ (i : Nat) (a b : Leg), legs[i]? = some a → legs[i + 1]? = some b → a.Continues b

theorem LegsSound.join {stops : Nat} {legs : List Leg} (h : LegsSound stops legs) :
    LegsJoin stops legs :=
  ⟨h.length_eq, fun leg hleg => (h.valid leg hleg).departure_le, h.continues⟩

/-- The legs of a trip in time are in time. -/
theorem legs_sound {trip : Trip} {number stops days : Nat} {legs : List Leg}
    (hin : trip.InTime) (h : trip.legs number stops days = .ok legs) : LegsSound stops legs := by
  obtain ⟨hjoin, harrival⟩ := legs_join h
  refine ⟨hjoin.length_eq, fun leg hleg => ⟨hjoin.forward leg hleg, ?_⟩, hjoin.continues⟩
  obtain ⟨s, hs, ha⟩ := harrival leg hleg
  exact hin s hs _ ha

end Trip

namespace Builder

/-! ## The legs of a section -/

/-- Legs in which no order fault is found are ordered. -/
theorem pairwise_of_orderFault? {edge : EdgeId} {legs : List Leg}
    (h : orderFault? edge legs = none) : legs.Pairwise Leg.NoLater := by
  have htrans : ∀ a b c : Leg, a.NoLater b → b.NoLater c → a.NoLater c :=
    fun a b c h₁ h₂ =>
      ⟨Nat.le_trans h₁.1 h₂.1, Nat.le_trans h₁.2 h₂.2⟩
  have : Trans Leg.NoLater Leg.NoLater Leg.NoLater := ⟨fun {a b c} => htrans a b c⟩
  rw [← List.isChain_iff_pairwise]
  fun_induction orderFault? edge legs with
  | case1 => cases h
  | case2 => cases h
  | case3 first second rest hd ha ih =>
    exact List.IsChain.cons_cons ⟨Nat.le_of_not_lt hd, Nat.le_of_not_lt ha⟩ (ih h)
  | case4 legs hshort =>
    match legs, hshort with
    | [], _ => exact List.IsChain.nil
    | [leg], _ => exact List.IsChain.singleton leg
    | first :: second :: rest, hshort => exact absurd rfl (hshort first second rest)

/-- Where every item has a value, leaving out the missing ones moves none. -/
theorem getElem?_filterMap_of_isSome {α β : Type} {f : α → Option β} {l : List α}
    (h : ∀ x ∈ l, (f x).isSome = true) (i : Nat) : (l.filterMap f)[i]? = l[i]?.bind f := by
  induction l generalizing i with
  | nil => rfl
  | cons x l ih =>
    obtain ⟨y, hy⟩ := Option.isSome_iff_exists.1 (h x List.mem_cons_self)
    rw [List.filterMap_cons_some hy]
    cases i with
    | zero => simp [hy]
    | succ i => simpa using ih (fun z hz => h z (List.mem_cons_of_mem x hz)) i

/-- The sections of the trips of a route: as a list of legs for each trip, seen
section by section. -/
structure SectionsSound (stops : Nat) (sections : List (List Leg)) : Prop where
  length_eq : sections.length = stops - 1
  valid : ∀ legs ∈ sections, ∀ leg ∈ legs, leg.Valid
  follow : ∀ (i : Nat) (legs legs' : List Leg), sections[i]? = some legs →
    sections[i + 1]? = some legs' → Leg.Follow legs.toArray legs'.toArray

/-- There is one section for each pair of stops that follow each other. -/
theorem length_legsBySection (n : Nat) (trips : List (List Leg)) :
    (legsBySection n trips).length = n := by
  simp [legsBySection]

/-- A section has the legs of all trips between its two stops. -/
theorem getElem?_legsBySection {n i : Nat} {trips : List (List Leg)} {legs : List Leg}
    (h : (legsBySection n trips)[i]? = some legs) : i < n ∧ legs = trips.filterMap (·[i]?) := by
  unfold legsBySection at h
  rw [List.getElem?_map, Option.map_eq_some_iff] at h
  obtain ⟨j, hj, rfl⟩ := h
  obtain ⟨hlt, rfl⟩ := List.getElem?_eq_some_iff.1 hj
  rw [List.length_range] at hlt
  rw [List.getElem_range]
  exact ⟨hlt, rfl⟩

/-- A leg of a section is that of some trip. -/
theorem exists_mem_of_legsBySection {n : Nat} {trips : List (List Leg)} {legs : List Leg}
    (h : legs ∈ legsBySection n trips) {leg : Leg} (hleg : leg ∈ legs) :
    ∃ trip ∈ trips, leg ∈ trip := by
  obtain ⟨i, hi⟩ := List.getElem?_of_mem h
  obtain ⟨-, rfl⟩ := getElem?_legsBySection hi
  obtain ⟨trip, htrip, hget⟩ := List.mem_filterMap.1 hleg
  exact ⟨trip, htrip, List.mem_of_getElem? hget⟩

/-- Where no trip lacks a leg on a section, all sections list the trips at the same places. -/
theorem getElem?_of_legsBySection {n i : Nat} {trips : List (List Leg)} {legs : List Leg}
    (hall : ∀ trip ∈ trips, trip.length = n) (h : (legsBySection n trips)[i]? = some legs) :
    legs.length = trips.length ∧
      ∀ t : Nat, legs[t]? = trips[t]?.bind fun trip : List Leg => trip[i]? := by
  obtain ⟨hlt, rfl⟩ := getElem?_legsBySection h
  have hsome : ∀ trip ∈ trips, (trip[i]?).isSome = true := by
    intro trip htrip
    rw [isSome_getElem?, hall trip htrip]
    exact hlt
  refine ⟨?_, getElem?_filterMap_of_isSome hsome⟩
  rw [List.length_filterMap_eq_countP, List.countP_eq_length.2 hsome]

/-- From one section to the next each trip goes on. -/
theorem legsBySection_follow {stops i : Nat} {trips : List (List Leg)} {legs legs' : List Leg}
    (hall : ∀ trip ∈ trips, Trip.LegsJoin stops trip)
    (h : (legsBySection (stops - 1) trips)[i]? = some legs)
    (h' : (legsBySection (stops - 1) trips)[i + 1]? = some legs') :
    Leg.Follow legs.toArray legs'.toArray := by
  have hlength : ∀ trip ∈ trips, trip.length = stops - 1 := fun t ht => (hall t ht).length_eq
  obtain ⟨hsize, hget⟩ := getElem?_of_legsBySection hlength h
  obtain ⟨hsize', hget'⟩ := getElem?_of_legsBySection hlength h'
  refine ⟨by rw [List.size_toArray, List.size_toArray, hsize, hsize'], ?_⟩
  intro trip a b ha hb
  rw [List.getElem?_toArray, hget] at ha
  rw [List.getElem?_toArray, hget'] at hb
  obtain ⟨t, ht, ha⟩ := Option.bind_eq_some_iff.1 ha
  obtain ⟨t', ht', hb⟩ := Option.bind_eq_some_iff.1 hb
  rw [ht] at ht'
  cases ht'
  exact (hall t (List.mem_of_getElem? ht)).continues i a b ha hb

/-- Sections are sound if the legs of every trip are. -/
theorem legsBySection_sound {stops : Nat} {trips : List (List Leg)}
    (h : ∀ legs ∈ trips, Trip.LegsSound stops legs) :
    SectionsSound stops (legsBySection (stops - 1) trips) := by
  refine ⟨length_legsBySection _ _, ?_, ?_⟩
  · intro legs hlegs leg hleg
    obtain ⟨trip, htrip, hmem⟩ := exists_mem_of_legsBySection hlegs hleg
    exact (h trip htrip).valid leg hmem
  · intro i legs legs' hi hi'
    exact legsBySection_follow (fun trip htrip => (h trip htrip).join) hi hi'

/-! ## What an operation has done -/

section Operations

variable {b b' : Builder}

/-- A station that passes the check is one that there is. -/
theorem checkStation_ok {b : Builder} {station : StationIndex} {u : Unit}
    (h : b.checkStation station = .ok u) : station < b.stations.size := by
  unfold checkStation at h
  split at h
  · assumption
  · cases h

/-- A station is added if its id is well formed and new, at a node of its own. -/
theorem addStation_eq_ok {id name : String} {time : Nat} {index : StationIndex}
    (h : b.addStation id name time = .ok (index, b')) :
    ∃ sid, StationId.parse id = .ok sid ∧ b.stations.any (·.id = sid) = false ∧
      index = b.stations.size ∧ b' = { b with
        stations := b.stations.push
          { id := sid, name, transferTime := time, rules := [], node := b.nodes.size }
        nodes := b.nodes.push (.station b.stations.size) } := by
  unfold Builder.addStation at h
  split at h
  · cases h
  · next sid hsid =>
    split at h
    · cases h
    · next hnew =>
      cases h
      exact ⟨sid, hsid, Bool.not_eq_true _ ▸ hnew, rfl, rfl⟩

/-- A route is added with stops that are there, on sections that its trips have in order. -/
theorem addRoute_eq_ok {stops : List StationIndex} {trips : List Trip} {route : RouteId}
    (h : b.addRoute stops trips = .ok (route, b')) :
    2 ≤ stops.length ∧ (∀ s ∈ stops, s < b.stations.size) ∧ ∃ legs : List (List Leg),
      List.Forall₂ (fun (x : Trip × Nat) l => x.1.legs x.2 stops.length b.period.days = .ok l)
        trips.zipIdx legs ∧
      (∀ section' ∈ legsBySection (stops.length - 1) legs, section'.Pairwise Leg.NoLater) ∧
      (route, b') = b.pushRoute stops trips.length (legsBySection (stops.length - 1) legs) := by
  unfold Builder.addRoute at h
  split at h
  · cases h
  · next hshort =>
    obtain ⟨u, hcheck, h⟩ := Fallible.bind_eq_ok.1 h
    obtain ⟨legs, hlegs, h⟩ := Fallible.bind_eq_ok.1 h
    dsimp only at h
    split at h
    · cases h
    · next horder =>
      refine ⟨Nat.le_of_not_lt hshort,
        fun s hs => checkStation_ok (Fallible.forM_ok hcheck s hs), legs,
        Fallible.forall₂_of_mapM hlegs, fun section' hsection => ?_, (Except.ok.inj h).symm⟩
      obtain ⟨i, hi⟩ := List.getElem?_of_mem hsection
      exact pairwise_of_orderFault? (List.findSome?_eq_none_iff.1 horder (section', i)
        (List.mem_zipIdx_iff_getElem?.2 hi))

/-- Routes are joined if both are there and the mapping passes its check. -/
theorem addThrough_eq_ok {source target : RouteId} {trips : List (Option Nat)} {edge : EdgeId}
    (h : b.addThrough source target trips = .ok (edge, b')) :
    ∃ first second tail head, b.routes[source]? = some first ∧ b.routes[target]? = some second ∧
      b.joinRoutes first second trips = .ok (tail, head) ∧
      b' = { b with edges := b.edges.push { tail, head, kind := .through trips } } := by
  unfold Builder.addThrough at h
  split at h
  · cases h
  · cases h
  · next first second hfirst hsecond =>
    split at h
    · cases h
    · next tail head hjoin =>
      cases h
      exact ⟨first, second, tail, head, hfirst, hsecond, hjoin, rfl⟩

/-- The new edge comes after all others. -/
theorem addThrough_answer {source target : RouteId} {trips : List (Option Nat)} {edge : EdgeId}
    (h : b.addThrough source target trips = .ok (edge, b')) : edge = b.edges.size := by
  unfold Builder.addThrough at h
  split at h
  · cases h
  · cases h
  · split at h
    · cases h
    · cases h
      rfl

/-- A footpath is added between two stations that there are. -/
theorem addFootpath_eq_ok {source target : StationIndex} {duration : Nat} {edge : EdgeId}
    (h : b.addFootpath source target duration = .ok (edge, b')) :
    source < b.stations.size ∧ target < b.stations.size ∧
      b' = { b with edges := b.edges.push { tail := b.stationNode source,
                                            head := b.stationNode target,
                                            kind := .foot duration 0 } } := by
  unfold Builder.addFootpath at h
  obtain ⟨u, hsource, h⟩ := Fallible.bind_eq_ok.1 h
  obtain ⟨u', htarget, h⟩ := Fallible.bind_eq_ok.1 h
  cases h
  exact ⟨checkStation_ok hsource, checkStation_ok htarget, rfl⟩

end Operations

/-! ## The invariant -/

/-- What holds of the parts added so far. -/
structure Sound (b : Builder) : Prop where
  parts : Parts.Sound b.stations b.nodes b.edges
  routes : ∀ route ∈ b.routes, ∀ id ∈ route.nodes, Node.IsStop b.nodes id
  days_le : b.period.days ≤ DayMask.maxDays

/-- Before anything has been added all parts are sound. -/
theorem new_sound {period : Period} (h : period.days ≤ DayMask.maxDays) :
    (new period).Sound := by
  refine ⟨⟨?_, ?_, ?_, ?_, ?_⟩, ?_, h⟩ <;> simp [new]

/-- Where every station has its node, so has the one of an index. -/
theorem getElem?_stationNode {b : Builder}
    (h : ∀ (index : StationIndex) (station : Station), b.stations[index]? = some station →
      b.nodes[station.node]? = some (.station index))
    {index : StationIndex} (hi : index < b.stations.size) :
    b.nodes[b.stationNode index]? = some (.station index) := by
  unfold Builder.stationNode
  rw [Array.getElem?_eq_getElem hi]
  exact h index _ (Array.getElem?_eq_getElem hi)

/-- The node of a station is that station's. -/
theorem Sound.stationNode {b : Builder} (h : b.Sound) {index : StationIndex}
    (hi : index < b.stations.size) :
    b.nodes[b.stationNode index]? = some (.station index) :=
  getElem?_stationNode h.parts.station hi

/-- A station keeps the parts sound. -/
theorem Sound.addStation {b b' : Builder} {id name : String} {time : Nat} {index : StationIndex}
    (h : b.Sound) (ha : b.addStation id name time = .ok (index, b')) : b'.Sound := by
  obtain ⟨sid, -, -, -, rfl⟩ := addStation_eq_ok ha
  refine ⟨⟨?_, ?_, h.parts.valid, h.parts.sorted, h.parts.follow⟩, ?_, h.days_le⟩
  · intro index s hs
    rw [Array.getElem?_push] at hs ⊢
    split at hs
    · next heq =>
      cases hs
      rw [if_pos rfl, heq]
    · have hold := h.parts.station index s hs
      have hlt := (Array.getElem?_eq_some_iff.1 hold).1
      rw [if_neg (by omega)]
      exact hold
  · intro edge hedge
    show Edge.Fits (b.nodes.push _) edge
    rw [Array.push_eq_append]
    exact (h.parts.fits edge hedge).append
  · intro route hroute id hid
    show Node.IsStop (b.nodes.push _) id
    rw [Array.push_eq_append]
    exact (h.routes route hroute id hid).append

/-- An interchange rule keeps the parts sound. -/
theorem Sound.setInterchange {b : Builder} {station : StationIndex} {rule : InterchangeRule}
    (h : b.Sound) : (b.setInterchange station rule).Sound := by
  refine ⟨⟨?_, h.parts.fits, h.parts.valid, h.parts.sorted, h.parts.follow⟩, h.routes, h.days_le⟩
  intro index s hs
  simp only [Builder.setInterchange, Array.getElem?_modify] at hs ⊢
  split at hs
  · obtain ⟨s₀, hs₀, rfl⟩ := Option.map_eq_some_iff.1 hs
    exact h.parts.station index s₀ hs₀
  · exact h.parts.station index s hs

/-- An edge of any kind but a route edge can be added wherever it fits. -/
theorem Sound.pushEdge {b : Builder} {edge : Edge} (h : b.Sound) (hfit : edge.Fits b.nodes)
    (hkind : ∀ legs, edge.kind ≠ .route legs) :
    Sound { b with edges := b.edges.push edge } := by
  refine ⟨⟨h.parts.station, ?_, ?_, ?_, ?_⟩, h.routes, h.days_le⟩
  · intro e he
    rcases Array.mem_push.1 he with he | rfl
    · exact h.parts.fits e he
    · exact hfit
  · intro e he legs hk
    rcases Array.mem_push.1 he with he | rfl
    · exact h.parts.valid e he legs hk
    · exact absurd hk (hkind legs)
  · intro e he legs hk
    rcases Array.mem_push.1 he with he | rfl
    · exact h.parts.sorted e he legs hk
    · exact absurd hk (hkind legs)
  · intro e he f hf hef legs legs' hk hk'
    rcases Array.mem_push.1 he with he | rfl
    · rcases Array.mem_push.1 hf with hf | rfl
      · exact h.parts.follow e he f hf hef legs legs' hk hk'
      · exact absurd hk' (hkind legs')
    · exact absurd hk (hkind legs)

/-- A footpath keeps the parts sound. -/
theorem Sound.addFootpath {b b' : Builder} {source target : StationIndex} {duration : Nat}
    {edge : EdgeId} (h : b.Sound)
    (ha : b.addFootpath source target duration = .ok (edge, b')) : b'.Sound := by
  obtain ⟨hsource, htarget, rfl⟩ := addFootpath_eq_ok ha
  exact h.pushEdge ⟨⟨source, h.stationNode hsource⟩, ⟨target, h.stationNode htarget⟩⟩ (by simp)

/-- Two routes can be joined if the one ends where the other begins and every trip goes
on as one that is there, in time. -/
theorem joinRoutes_eq_ok_iff {b : Builder} {source target : Route} {trips : List (Option Nat)}
    {tail head : NodeId} :
    b.joinRoutes source target trips = .ok (tail, head) ↔
      source.nodes.getLast? = some tail ∧ target.nodes.head? = some head ∧
        b.nodes[tail]?.map Node.stationIndex = b.nodes[head]?.map Node.stationIndex ∧
        trips.length = source.trips ∧
        mappingFault? (b.legsOf source.edges.getLast?) (b.legsOf target.edges.head?) 0 trips =
          none := by
  unfold joinRoutes
  constructor
  · intro h
    split at h
    · next last first hlast hfirst =>
      split at h
      · cases h
      · next hstation =>
        split at h
        · cases h
        · next hcount =>
          split at h
          · cases h
          · next hmapping =>
            cases h
            exact ⟨hlast, hfirst, Decidable.not_not.1 hstation, Decidable.not_not.1 hcount,
              hmapping⟩
    · cases h
  · rintro ⟨hlast, hfirst, hstation, hcount, hmapping⟩
    rw [hlast, hfirst]
    dsimp only
    rw [if_neg (not_not_intro hstation), if_neg (not_not_intro hcount), hmapping]

/-- A through service keeps the parts sound. -/
theorem Sound.addThrough {b b' : Builder} {source target : RouteId} {trips : List (Option Nat)}
    {edge : EdgeId} (h : b.Sound)
    (ha : b.addThrough source target trips = .ok (edge, b')) : b'.Sound := by
  obtain ⟨first, second, tail, head, hfirst, hsecond, hjoin, rfl⟩ := addThrough_eq_ok ha
  obtain ⟨htail, hhead, -⟩ := joinRoutes_eq_ok_iff.1 hjoin
  exact h.pushEdge
    ⟨h.routes first (Array.mem_of_getElem? hfirst) tail (List.mem_of_getLast? htail),
      h.routes second (Array.mem_of_getElem? hsecond) head (List.mem_of_head? hhead)⟩ (by simp)

/-! ## A new route -/

section PushRoute

variable {stops : List StationIndex} {trips : Nat} {sections : List (List Leg)}

theorem append_list {α : Type} (xs : Array α) (l : List α) : xs ++ l = xs ++ l.toArray :=
  Array.ext' (by simp)

theorem getElem?_range_map {first n i x : Nat} :
    ((List.range n).map (first + ·))[i]? = some x ↔ i < n ∧ x = first + i := by
  rw [List.getElem?_map, Option.map_eq_some_iff]
  constructor
  · rintro ⟨k, hk, rfl⟩
    obtain ⟨hlt, rfl⟩ := List.getElem?_eq_some_iff.1 hk
    rw [List.length_range] at hlt
    rw [List.getElem_range]
    exact ⟨hlt, rfl⟩
  · rintro ⟨hlt, rfl⟩
    exact ⟨i, List.getElem?_range hlt, rfl⟩

/-- The route edges between the stops of a new route, whose nodes begin at
`first`. -/
theorem getElem?_rides {first i : Nat} {edge : Edge} {nodes : List NodeId}
    (hnodes : nodes = (List.range stops.length).map (first + ·)) :
    ((nodes.zip (nodes.drop 1)).zipWith
      (fun ends legs => ({ tail := ends.1, head := ends.2, kind := .route legs.toArray } : Edge))
      sections)[i]? = some edge ↔
    ∃ legs, i + 1 < stops.length ∧ sections[i]? = some legs ∧
      edge = { tail := first + i, head := first + (i + 1), kind := .route legs.toArray } := by
  have hnode : ∀ j node, nodes[j]? = some node ↔ j < stops.length ∧ node = first + j :=
    fun j node => hnodes ▸ getElem?_range_map
  rw [List.getElem?_zipWith_eq_some]
  constructor
  · rintro ⟨⟨tail, head⟩, legs, hends, hlegs, rfl⟩
    rw [List.getElem?_zip_eq_some, List.getElem?_drop, hnode, hnode] at hends
    obtain ⟨⟨-, rfl⟩, hlt, rfl⟩ := hends
    rw [Nat.add_comm 1 i] at hlt ⊢
    exact ⟨legs, hlt, hlegs, rfl⟩
  · rintro ⟨legs, hlt, hlegs, rfl⟩
    refine ⟨(first + i, first + (i + 1)), legs, ?_, hlegs, rfl⟩
    rw [List.getElem?_zip_eq_some, List.getElem?_drop, hnode, hnode, Nat.add_comm 1 i]
    exact ⟨⟨by omega, rfl⟩, hlt, rfl⟩

/-- An access edge boards at a stop or leaves it, and belongs to that stop's station. -/
theorem mem_accessEdges {stop : Nat} {pairs : List (NodeId × NodeId)} {edge : Edge}
    (h : edge ∈ accessEdges stop pairs) :
    ∃ pair ∈ pairs, edge = { tail := pair.1, head := pair.2, kind := .enter } ∨
      edge = { tail := pair.2, head := pair.1, kind := .exit } := by
  induction pairs generalizing stop with
  | nil => simp [accessEdges] at h
  | cons pair rest ih =>
    unfold accessEdges at h
    rw [List.mem_append, List.mem_append] at h
    rcases h with (h | h) | h
    · split at h
      · cases h
      · exact ⟨pair, List.mem_cons_self, Or.inl (List.mem_singleton.1 h)⟩
    · split at h
      · cases h
      · exact ⟨pair, List.mem_cons_self, Or.inr (List.mem_singleton.1 h)⟩
    · obtain ⟨pair', hmem, hedge⟩ := ih h
      exact ⟨pair', List.mem_cons_of_mem pair hmem, hedge⟩

variable {b : Builder}

/-- A route adds one node for each of its stops. -/
theorem nodes_pushRoute (trips : Nat) : (b.pushRoute stops trips sections).2.nodes =
    b.nodes ++ (stops.map fun s => Node.route s b.routes.size).toArray := by
  simp only [Builder.pushRoute, append_list]

/-- The nodes of a new route are those of its stops, in order. -/
theorem getElem?_nodes_pushRoute (trips : Nat) {i : Nat} {s : StationIndex}
    (hs : stops[i]? = some s) :
    (b.pushRoute stops trips sections).2.nodes[b.nodes.size + i]? =
      some (.route s b.routes.size) := by
  rw [nodes_pushRoute, Array.getElem?_append_right (by omega), Nat.add_sub_cancel_left,
    List.getElem?_toArray, List.getElem?_map, hs]
  rfl

theorem isStop_pushRoute (trips : Nat) {i : Nat} (hi : i < stops.length) :
    Node.IsStop (b.pushRoute stops trips sections).2.nodes (b.nodes.size + i) :=
  ⟨_, _, getElem?_nodes_pushRoute trips (List.getElem?_eq_getElem hi)⟩

/-- The edges that a new route brings. -/
def routeEdges (b : Builder) (stops : List StationIndex) (sections : List (List Leg)) :
    List Edge :=
  let nodes := (List.range stops.length).map (b.nodes.size + ·)
  (nodes.zip (nodes.drop 1)).zipWith
    (fun ends legs => { tail := ends.1, head := ends.2, kind := .route legs.toArray }) sections ++
  accessEdges 0 ((stops.map b.stationNode).zip nodes)

/-- A route adds the edges between its stops and those of access. -/
theorem edges_pushRoute (trips : Nat) : (b.pushRoute stops trips sections).2.edges =
    b.edges ++ (b.routeEdges stops sections).toArray := by
  simp only [Builder.pushRoute, append_list]
  rfl

/-- The stops of a new route, each with the node of its station and with its own. -/
theorem getElem?_access {i : Nat} {place here : NodeId} :
    ((stops.map b.stationNode).zip ((List.range stops.length).map (b.nodes.size + ·)))[i]? =
        some (place, here) ↔
      here = b.nodes.size + i ∧ ∃ s, stops[i]? = some s ∧ place = b.stationNode s := by
  rw [List.getElem?_zip_eq_some, List.getElem?_map, List.getElem?_map, Option.map_eq_some_iff,
    Option.map_eq_some_iff]
  constructor
  · rintro ⟨⟨s, hs, rfl⟩, j, hj, rfl⟩
    obtain ⟨hlt, rfl⟩ := List.getElem?_eq_some_iff.1 hj
    rw [List.getElem_range]
    exact ⟨rfl, s, hs, rfl⟩
  · rintro ⟨rfl, s, hs, rfl⟩
    exact ⟨⟨s, hs, rfl⟩, i, List.getElem?_range (List.getElem?_eq_some_iff.1 hs).1, rfl⟩

/-- A new edge is ridden between two stops of the new route, or it leads into one of its
vehicles or out of it. -/
theorem mem_routeEdges {edge : Edge} (hedge : edge ∈ b.routeEdges stops sections) :
    (∃ i legs, i + 1 < stops.length ∧ sections[i]? = some legs ∧
        edge = { tail := b.nodes.size + i, head := b.nodes.size + (i + 1),
                 kind := .route legs.toArray }) ∨
      ∃ (i : Nat) (s : StationIndex), stops[i]? = some s ∧
        (edge = { tail := b.stationNode s, head := b.nodes.size + i, kind := .enter } ∨
          edge = { tail := b.nodes.size + i, head := b.stationNode s, kind := .exit }) := by
  rcases List.mem_append.1 hedge with hedge | hedge
  · obtain ⟨i, hi⟩ := List.getElem?_of_mem hedge
    obtain ⟨legs, hride⟩ := (getElem?_rides rfl).1 hi
    exact Or.inl ⟨i, legs, hride⟩
  · obtain ⟨⟨station, here⟩, hpair, hedge⟩ := mem_accessEdges hedge
    obtain ⟨i, hi⟩ := List.getElem?_of_mem hpair
    obtain ⟨rfl, s, hs, rfl⟩ := getElem?_access.1 hi
    exact Or.inr ⟨i, s, hs, hedge⟩

/-- An edge was there before the new route, or it is ridden between two of its
stops, or it leads into one of its vehicles or out of it. -/
theorem mem_edges_pushRoute (trips : Nat) {edge : Edge}
    (hedge : edge ∈ (b.pushRoute stops trips sections).2.edges) :
    edge ∈ b.edges ∨
      (∃ i legs, i + 1 < stops.length ∧ sections[i]? = some legs ∧
        edge = { tail := b.nodes.size + i, head := b.nodes.size + (i + 1),
                 kind := .route legs.toArray }) ∨
      ∃ (i : Nat) (s : StationIndex), stops[i]? = some s ∧
        (edge = { tail := b.stationNode s, head := b.nodes.size + i, kind := .enter } ∨
          edge = { tail := b.nodes.size + i, head := b.stationNode s, kind := .exit }) := by
  rw [edges_pushRoute] at hedge
  rcases Array.mem_append.1 hedge with hedge | hedge
  · exact Or.inl hedge
  · exact Or.inr (mem_routeEdges (List.mem_toArray.1 hedge))

/-- An edge that is new and not ridden fits. -/
theorem Sound.mem_edges_pushRoute (h : b.Sound) (trips : Nat)
    (hstops : ∀ s ∈ stops, s < b.stations.size) {edge : Edge}
    (hedge : edge ∈ (b.pushRoute stops trips sections).2.edges) :
    edge ∈ b.edges ∨
      (∃ i legs, i + 1 < stops.length ∧ sections[i]? = some legs ∧
        edge = { tail := b.nodes.size + i, head := b.nodes.size + (i + 1),
                 kind := .route legs.toArray }) ∨
      ((∀ legs, edge.kind ≠ .route legs) ∧
        edge.Fits (b.pushRoute stops trips sections).2.nodes) := by
  rcases Builder.mem_edges_pushRoute trips hedge with hold | hride | ⟨i, s, hs, hedge⟩
  · exact Or.inl hold
  · exact Or.inr (Or.inl hride)
  · -- the station was there before, its stop is new
    have hat : Node.AtOne (b.pushRoute stops trips sections).2.nodes
        (b.stationNode s) (b.nodes.size + i) := by
      have hold := h.stationNode (hstops s (List.mem_of_getElem? hs))
      refine ⟨s, b.routes.size, ?_, getElem?_nodes_pushRoute trips hs⟩
      rw [nodes_pushRoute, Array.getElem?_append_left (Array.getElem?_eq_some_iff.1 hold).1]
      exact hold
    rcases hedge with rfl | rfl
    · exact Or.inr (Or.inr ⟨nofun, hat⟩)
    · exact Or.inr (Or.inr ⟨nofun, hat⟩)

/-- A route laid of sound and sorted sections keeps the parts sound. -/
theorem Sound.pushRoute (h : b.Sound) (trips : Nat) (hstops : ∀ s ∈ stops, s < b.stations.size)
    (hsound : SectionsSound stops.length sections)
    (hsorted : ∀ legs ∈ sections, legs.Pairwise Leg.NoLater) :
    (b.pushRoute stops trips sections).2.Sound := by
  refine ⟨⟨?_, ?_, ?_, ?_, ?_⟩, ?_, h.days_le⟩
  · intro index s hs
    have hold := h.parts.station index s hs
    rw [nodes_pushRoute, Array.getElem?_append_left (Array.getElem?_eq_some_iff.1 hold).1]
    exact hold
  · intro edge hedge
    rcases h.mem_edges_pushRoute trips hstops hedge with hold | ⟨i, legs, hi, -, rfl⟩ | ⟨-, hfits⟩
    · rw [nodes_pushRoute]
      exact (h.parts.fits edge hold).append
    · exact ⟨isStop_pushRoute trips (by omega), isStop_pushRoute trips hi⟩
    · exact hfits
  · intro edge hedge legs hk leg hleg
    rcases h.mem_edges_pushRoute trips hstops hedge with
      hold | ⟨i, legs', hi, hget, rfl⟩ | ⟨hkind, -⟩
    · exact h.parts.valid edge hold legs hk leg hleg
    · cases hk
      exact hsound.valid legs' (List.mem_of_getElem? hget) leg (by simpa using hleg)
    · exact absurd hk (hkind legs)
  · intro edge hedge legs hk
    rcases h.mem_edges_pushRoute trips hstops hedge with
      hold | ⟨i, legs', hi, hget, rfl⟩ | ⟨hkind, -⟩
    · exact h.parts.sorted edge hold legs hk
    · cases hk
      exact hsorted legs' (List.mem_of_getElem? hget)
    · exact absurd hk (hkind legs)
  · -- new rides meet only one another: their ends are new
    intro first hfirst second hsecond hjoin legs legs' hk hk'
    rcases h.mem_edges_pushRoute trips hstops hfirst with
      hold | ⟨i, l, hi, hget, rfl⟩ | ⟨hkind, -⟩
    · rcases h.mem_edges_pushRoute trips hstops hsecond with
        hold' | ⟨i, l, hi, hget, rfl⟩ | ⟨hkind, -⟩
      · exact h.parts.follow first hold second hold' hjoin legs legs' hk hk'
      · have hlt := (h.parts.fits first hold).lt_size.2
        exact absurd hjoin (Nat.ne_of_lt (Nat.lt_of_lt_of_le hlt (Nat.le_add_right _ _)))
      · exact absurd hk' (hkind legs')
    · rcases h.mem_edges_pushRoute trips hstops hsecond with
        hold' | ⟨j, l', hj, hget', rfl⟩ | ⟨hkind, -⟩
      · have hlt := (h.parts.fits second hold').lt_size.1
        exact absurd hjoin.symm (Nat.ne_of_lt (Nat.lt_of_lt_of_le hlt (Nat.le_add_right _ _)))
      · cases hk
        cases hk'
        have hij : i + 1 = j := Nat.add_left_cancel hjoin
        rw [← hij] at hget'
        exact hsound.follow i l l' hget hget'
      · exact absurd hk' (hkind legs')
    · exact absurd hk (hkind legs)
  · intro route hroute id hid
    have hroute' : route ∈ b.routes.push _ := hroute
    rcases Array.mem_push.1 hroute' with hroute | rfl
    · rw [nodes_pushRoute]
      exact (h.routes route hroute id hid).append
    · obtain ⟨i, hi, rfl⟩ := List.mem_map.1 hid
      exact isStop_pushRoute trips (List.mem_range.1 hi)

end PushRoute

/-- An accepted route with trips in time keeps the parts sound. -/
theorem Sound.addRoute {b b' : Builder} {stops : List StationIndex} {trips : List Trip}
    {route : RouteId} (h : b.Sound) (hin : ∀ trip ∈ trips, trip.InTime)
    (ha : b.addRoute stops trips = .ok (route, b')) : b'.Sound := by
  obtain ⟨-, hthere, legs, hlegs, hsorted, heq⟩ := addRoute_eq_ok ha
  have hsound : ∀ l ∈ legs, Trip.LegsSound stops.length l := by
    intro l hl
    obtain ⟨⟨trip, number⟩, hmem, hok⟩ := Fallible.exists_of_forall₂ hlegs hl
    have htrip := List.mem_of_getElem? (List.mem_zipIdx_iff_getElem?.1 hmem)
    exact Trip.legs_sound (hin trip htrip) hok
  have hpush := h.pushRoute trips.length hthere (legsBySection_sound hsound) hsorted
  rw [← heq] at hpush
  exact hpush

/-! ## The builders that there can be -/

/-- The builders for a period that calls can lead to, one after the other, where what
holds of every trip is `P`. A call that is refused leads nowhere. -/
inductive Made (P : Trip → Prop) (period : Period) : Builder → Prop
  | new : Made P period (Builder.new period)
  | addCategory {b : Builder} (name : String) (h : Made P period b) :
      Made P period (b.addCategory name).2
  | addTrack {b : Builder} (name : String) (h : Made P period b) :
      Made P period (b.addTrack name).2
  | addInfo {b : Builder} (info : TripInfo) (h : Made P period b) :
      Made P period (b.addInfo info).2
  | addStation {b b' : Builder} {id name : String} {time : Nat} {index : StationIndex}
      (h : Made P period b) (ha : b.addStation id name time = .ok (index, b')) :
      Made P period b'
  | setInterchange {b : Builder} (station : StationIndex) (rule : InterchangeRule)
      (h : Made P period b) : Made P period (b.setInterchange station rule)
  | addRoute {b b' : Builder} {stops : List StationIndex} {trips : List Trip} {route : RouteId}
      (h : Made P period b) (hin : ∀ trip ∈ trips, P trip)
      (ha : b.addRoute stops trips = .ok (route, b')) : Made P period b'
  | addThrough {b b' : Builder} {source target : RouteId} {trips : List (Option Nat)}
      {edge : EdgeId} (h : Made P period b)
      (ha : b.addThrough source target trips = .ok (edge, b')) : Made P period b'
  | addFootpath {b b' : Builder} {source target : StationIndex} {duration : Nat} {edge : EdgeId}
      (h : Made P period b) (ha : b.addFootpath source target duration = .ok (edge, b')) :
      Made P period b'

/-- Everything that calls lead to is sound, if all its trips are in time. -/
theorem Made.sound {period : Period} {b : Builder} (h : Made Trip.InTime period b)
    (hdays : period.days ≤ DayMask.maxDays) : b.Sound := by
  induction h with
  | new => exact new_sound hdays
  | addCategory name h ih => exact ⟨ih.parts, ih.routes, ih.days_le⟩
  | addTrack name h ih => exact ⟨ih.parts, ih.routes, ih.days_le⟩
  | addInfo info h ih => exact ⟨ih.parts, ih.routes, ih.days_le⟩
  | addStation h ha ih => exact ih.addStation ha
  | setInterchange station rule h ih => exact ih.setInterchange
  | addRoute h hin ha ih => exact ih.addRoute hin ha
  | addThrough h ha ih => exact ih.addThrough ha
  | addFootpath h ha ih => exact ih.addFootpath ha

/-- A node of a station itself is the node that the station names. -/
theorem Made.stationNode_eq {P : Trip → Prop} {period : Period} {b : Builder} (h : b.Made P period)
    {id : NodeId} {index : StationIndex} (hid : b.nodes[id]? = some (.station index)) :
    (b.stations[index]?.map Station.node) = some id := by
  induction h generalizing id index with
  | new => cases hid
  | addCategory name h ih => exact ih hid
  | addTrack name h ih => exact ih hid
  | addInfo info h ih => exact ih hid
  | addStation h ha ih =>
    obtain ⟨sid, -, -, -, rfl⟩ := addStation_eq_ok ha
    rw [Array.getElem?_push] at hid ⊢
    split at hid
    · next heq =>
      cases hid
      rw [if_pos rfl, heq]
      rfl
    · have hold := ih hid
      obtain ⟨s, hs, -⟩ := Option.map_eq_some_iff.1 hold
      have hlt := (Array.getElem?_eq_some_iff.1 hs).1
      rw [if_neg (by omega)]
      exact hold
  | setInterchange station rule h ih =>
    simp only [Builder.setInterchange, Array.getElem?_modify] at hid ⊢
    have hold := ih hid
    split
    · rw [Option.map_map]
      exact hold
    · exact hold
  | @addRoute b b' stops trips route h hin ha ih =>
    obtain ⟨-, -, legs, -, -, heq⟩ := addRoute_eq_ok ha
    obtain rfl : b' = (b.pushRoute stops trips.length
      (legsBySection (stops.length - 1) legs)).2 := congrArg Prod.snd heq
    -- the new nodes are those of stops
    rw [nodes_pushRoute, Array.getElem?_append] at hid
    split at hid
    · exact ih hid
    · rw [List.getElem?_toArray, List.getElem?_map] at hid
      obtain ⟨s, -, hs⟩ := Option.map_eq_some_iff.1 hid
      cases hs
  | addThrough h ha ih =>
    obtain ⟨-, -, tail, head, -, -, -, rfl⟩ := addThrough_eq_ok ha
    exact ih hid
  | addFootpath h ha ih =>
    obtain ⟨-, -, rfl⟩ := addFootpath_eq_ok ha
    exact ih hid

end Builder

end JourneyPlanner
