import JourneyPlanner.Proofs.Network.Layout
import Mathlib.Logic.Function.Basic

/-!
# Parts put together in place

The operations of a `Builder` answer with a new builder, so it goes without saying that one
that fails changes nothing. An `Assembly` holds the same parts, and the position of each
station by its identifier, but is changed in place: a route comes in node by node and edge
by edge, and `Work` that fails leaves behind whatever it has done until then.

The main statement is `Call.refines`. Any call to an assembly either fails as the operation of
the builder does, with nothing changed, or leads to the parts that the operation leads to. It
holds since a call first looks (`Work.inspect`) at everything that may be wrong, and none of
the steps by which it changes the parts afterwards can fail.
-/

namespace JourneyPlanner

/-- The parts added so far, and where to find a station by its identifier. -/
structure Assembly extends Builder where
  index : StationId → Option StationIndex

/-- Work on an assembly. Where it fails, what it has done until then stays done. -/
abbrev Work (α : Type) := EStateM NetworkFault Assembly α

namespace Assembly

/-- Nothing has been added yet. -/
def new (period : Period) : Assembly := { Builder.new period with index := fun _ => none }

/-- Some more nodes. -/
def addNodes (a : Assembly) (nodes : List Node) : Assembly := { a with nodes := a.nodes ++ nodes }

/-- Some more edges. -/
def addEdges (a : Assembly) (edges : List Edge) : Assembly := { a with edges := a.edges ++ edges }

@[simp]
theorem addNodes_nil (a : Assembly) : a.addNodes [] = a := by
  rw [addNodes, Array.appendList_nil]

@[simp]
theorem addEdges_nil (a : Assembly) : a.addEdges [] = a := by
  rw [addEdges, Array.appendList_nil]

theorem addNodes_addNodes (a : Assembly) (first second : List Node) :
    (a.addNodes first).addNodes second = a.addNodes (first ++ second) := by
  simp only [addNodes, Builder.append_list, Array.append_assoc, List.append_toArray]

theorem addEdges_addEdges (a : Assembly) (first second : List Edge) :
    (a.addEdges first).addEdges second = a.addEdges (first ++ second) := by
  simp only [addEdges, Builder.append_list, Array.append_assoc, List.append_toArray]

theorem stationNode_addEdges (a : Assembly) (edges : List Edge) :
    (a.addEdges edges).stationNode = a.stationNode := rfl

/-- The index leads to the stations that there are, each under its own identifier, and to
nothing else. -/
def Indexed (a : Assembly) : Prop :=
  ∀ id i, a.index id = some i ↔ a.stations[i]?.map Station.id = some id

end Assembly

namespace Work

variable {α β : Type}

/-- Looks at the parts, which may not be as they should. -/
def inspect (check : Builder → Except NetworkFault α) : Work α := fun a =>
  match check a.toBuilder with
  | .ok answer => .ok answer a
  | .error fault => .error fault a

/-- Adds a node. -/
def pushNode (node : Node) : Work NodeId := do
  let a ← get
  set { a with nodes := a.nodes.push node }
  return a.nodes.size

/-- Adds an edge. -/
def pushEdge (edge : Edge) : Work EdgeId := do
  let a ← get
  set { a with edges := a.edges.push edge }
  return a.edges.size

/-- Adds a vehicle category. -/
def addCategory (name : String) : Work CategoryId := do
  let a ← get
  set { a with categories := a.categories.push name }
  return Builder.shortId a.categories.size

/-- Adds a track. -/
def addTrack (name : String) : Work TrackId := do
  let a ← get
  set { a with tracks := a.tracks.push name }
  return Builder.shortId a.tracks.size

/-- Adds the description of a trip. -/
def addInfo (info : TripInfo) : Work InfoId := do
  let a ← get
  set { a with infos := a.infos.push info }
  return Builder.longId a.infos.size

/-- Adds a station: its node, its place in the index, then the station itself. -/
def addStation (id name : String) (transferTime : Nat) : Work StationIndex := do
  let id ← inspect fun _ => (StationId.parse id).mapError .invalidStationId
  if ((← get).index id).isSome then throw (.duplicateStation id.text)
  let index := (← get).stations.size
  let node ← pushNode (.station index)
  modify fun a => { a with index := Function.update a.index id (some index) }
  modify fun a =>
    { a with stations := a.stations.push { id, name, transferTime, rules := [], node } }
  return index

/-- Sets the interchange time between two categories, if the station is there. -/
def setInterchange (station : StationIndex) (rule : InterchangeRule) : Work Unit :=
  modify fun a => { a with stations := a.stations.modify station (·.setRule rule) }

/-- Adds an edge under a condition. -/
def pushIf (c : Prop) [Decidable c] (edge : Edge) : Work Unit :=
  if c then discard (pushEdge edge) else pure ()

/-- Adds the edges into and out of the vehicles at a stop. -/
def pushAccess (stops : Nat) (station : StationIndex) (here : NodeId) (stop : Nat) :
    Work Unit := do
  let there := (← get).stationNode station
  pushIf (stop + 1 < stops) { tail := there, head := here, kind := .enter }
  pushIf (0 < stop) { tail := here, head := there, kind := .exit }

/-- Looks at the stops of a route, at its trips one by one, and at the order of the trips on
one edge after another. -/
def checkRoute (stops : List StationIndex) (trips : List Trip) : Work (List (List Leg)) := do
  if stops.length < 2 then throw (.routeTooShort stops.length)
  stops.forM fun s => inspect (·.checkStation s)
  let legs ← trips.zipIdx.mapM fun (trip, number) =>
    inspect fun b => trip.legs number stops.length b.period.days
  (Builder.legsBySection (stops.length - 1) legs).zipIdx.mapM fun (legs, i) =>
    inspect fun b =>
      match Builder.orderFault? (b.edges.size + i) legs with
      | some fault => .error fault
      | none => .ok legs

/-- Adds the nodes of a route, the edges between them, and stop by stop the edges into and
out of the vehicles. -/
def layRoute (stops : List StationIndex) (trips : Nat) (sections : List (List Leg)) :
    Work RouteId := do
  let route := (← get).routes.size
  let nodes ← stops.mapM fun s => pushNode (.route s route)
  let edges ← ((nodes.zip (nodes.drop 1)).zip sections).mapM fun (ends, legs) =>
    pushEdge { tail := ends.1, head := ends.2, kind := .route legs.toArray }
  (stops.zip nodes).zipIdx.forM fun ((station, here), stop) =>
    pushAccess stops.length station here stop
  modify fun a => { a with routes := a.routes.push { nodes, edges, trips } }
  return route

/-- Adds a route. -/
def addRoute (stops : List StationIndex) (trips : List Trip) : Work RouteId := do
  let sections ← checkRoute stops trips
  layRoute stops trips.length sections

/-- Joins the last stop of a route to the first of a route. -/
def addThrough (source target : RouteId) (trips : List (Option Nat)) : Work EdgeId := do
  let (tail, head) ← inspect fun b =>
    match b.routes[source]?, b.routes[target]? with
    | none, _ => .error (.unknownRoute source)
    | _, none => .error (.unknownRoute target)
    | some first, some second => (b.joinRoutes first second trips).mapError .invalidThrough
  pushEdge { tail, head, kind := .through trips }

/-- Adds a footpath in one direction. -/
def addFootpath (source target : StationIndex) (duration : Nat) : Work EdgeId := do
  inspect (·.checkStation source)
  inspect (·.checkStation target)
  let a ← get
  pushEdge { tail := a.stationNode source, head := a.stationNode target, kind := .foot duration 0 }

/-! ## Steps -/

section Steps

variable {γ : Type} {a a' : Assembly}

/-- Work goes on from where it succeeded. -/
theorem bind_of_ok {w : Work α} {f : α → Work β} {answer : α} (h : w a = .ok answer a') :
    (w >>= f) a = f answer a' := by
  show EStateM.bind w f a = _
  rw [EStateM.bind, h]

/-- Work stops where it failed, and leaves what it had done. -/
theorem bind_of_error {w : Work α} {f : α → Work β} {fault : NetworkFault}
    (h : w a = .error fault a') : (w >>= f) a = .error fault a' := by
  show EStateM.bind w f a = _
  rw [EStateM.bind, h]

/-- An inspection that finds nothing wrong changes nothing. -/
theorem inspect_of_ok {check : Builder → Except NetworkFault α} {answer : α}
    (h : check a.toBuilder = .ok answer) : inspect check a = .ok answer a := by
  rw [inspect, h]

/-- An inspection that finds a fault changes nothing. -/
theorem inspect_of_error {check : Builder → Except NetworkFault α} {fault : NetworkFault}
    (h : check a.toBuilder = .error fault) : inspect check a = .error fault a := by
  rw [inspect, h]

/-- Two inspections in a row are one inspection. -/
theorem inspect_bind (check : Builder → Except NetworkFault α)
    (next : α → Builder → Except NetworkFault β) :
    (inspect check >>= fun x => inspect (next x)) =
      inspect fun b => check b >>= fun x => next x b := by
  funext a
  cases h : check a.toBuilder with
  | error fault =>
    rw [bind_of_error (inspect_of_error h), inspect_of_error]
    rw [h]
    rfl
  | ok answer =>
    rw [bind_of_ok (inspect_of_ok h), inspect, inspect, h]
    rfl

/-- Looking at one thing after another is looking at them all. -/
theorem mapM_inspect (check : γ → Builder → Except NetworkFault β) (l : List γ) :
    (l.mapM fun x => inspect (check x)) = inspect fun b => l.mapM (check · b) := by
  induction l with
  | nil => rfl
  | cons x l ih =>
    have hpure : ∀ r, (pure r : Work (List β)) = inspect fun _ => pure r := fun r => rfl
    rw [List.mapM_cons, ih]
    simp only [hpure, inspect_bind, List.mapM_cons]

/-- Inspecting every item of a list is one inspection. -/
theorem forM_inspect (check : γ → Builder → Except NetworkFault Unit) (l : List γ) :
    (l.forM fun x => inspect (check x)) = inspect fun b => l.forM (check · b) := by
  induction l with
  | nil => rfl
  | cons x l ih =>
    show (inspect (check x) >>= fun _ => l.forM fun x => inspect (check x)) = _
    rw [ih, inspect_bind]
    rfl

/-- The positions of a run of new entries, the first of them apart. -/
theorem map_range_succ (first n : Nat) :
    (List.range (n + 1)).map (first + ·) = first :: (List.range n).map (first + 1 + ·) := by
  rw [List.range_succ_eq_map, List.map_cons, List.map_map]
  congr 1
  refine List.map_congr_left fun i _ => ?_
  show first + (i + 1) = first + 1 + i
  omega

theorem pushNode_eq (node : Node) : pushNode node a = .ok a.nodes.size (a.addNodes [node]) := by
  rw [Assembly.addNodes, Array.appendList_cons, Array.appendList_nil]
  rfl

theorem pushEdge_eq (edge : Edge) : pushEdge edge a = .ok a.edges.size (a.addEdges [edge]) := by
  rw [Assembly.addEdges, Array.appendList_cons, Array.appendList_nil]
  rfl

/-- A list of nodes is added in order, each under the next id. -/
theorem mapM_pushNode (f : γ → Node) (l : List γ) :
    (l.mapM fun x => pushNode (f x)) a =
      .ok ((List.range l.length).map (a.nodes.size + ·)) (a.addNodes (l.map f)) := by
  induction l generalizing a with
  | nil =>
    rw [List.map_nil, Assembly.addNodes_nil]
    rfl
  | cons x l ih =>
    have hsize : (a.addNodes [f x]).nodes.size = a.nodes.size + 1 := by simp [Assembly.addNodes]
    rw [List.mapM_cons, bind_of_ok (pushNode_eq _), bind_of_ok ih, List.length_cons,
      map_range_succ, Assembly.addNodes_addNodes, hsize]
    rfl

/-- A list of edges is added in order, each under the next id. -/
theorem mapM_pushEdge (f : γ → Edge) (l : List γ) :
    (l.mapM fun x => pushEdge (f x)) a =
      .ok ((List.range l.length).map (a.edges.size + ·)) (a.addEdges (l.map f)) := by
  induction l generalizing a with
  | nil =>
    rw [List.map_nil, Assembly.addEdges_nil]
    rfl
  | cons x l ih =>
    have hsize : (a.addEdges [f x]).edges.size = a.edges.size + 1 := by simp [Assembly.addEdges]
    rw [List.mapM_cons, bind_of_ok (pushEdge_eq _), bind_of_ok ih, List.length_cons,
      map_range_succ, Assembly.addEdges_addEdges, hsize]
    rfl

theorem pushIf_eq (c : Prop) [Decidable c] (edge : Edge) :
    pushIf c edge a = .ok () (a.addEdges (if c then [edge] else [])) := by
  by_cases h : c
  · rw [pushIf, if_pos h, if_pos h]
    show (pushEdge edge >>= fun _ => pure ()) a = _
    rw [bind_of_ok (pushEdge_eq edge)]
    rfl
  · rw [pushIf, if_neg h, if_neg h, Assembly.addEdges_nil]
    rfl

/-- A stop gets an edge to board unless it is the last, and one to leave unless it is the first. -/
theorem pushAccess_eq (stops : Nat) (station : StationIndex) (here : NodeId) (stop : Nat) :
    pushAccess stops station here stop a = .ok () (a.addEdges
      ((if stop + 1 < stops then
          [{ tail := a.stationNode station, head := here, kind := .enter }] else []) ++
        (if 0 < stop then
          [{ tail := here, head := a.stationNode station, kind := .exit }] else []))) := by
  have hget : (get : Work Assembly) a = .ok a a := rfl
  rw [pushAccess, bind_of_ok hget, bind_of_ok (pushIf_eq _ _), pushIf_eq,
    Assembly.addEdges_addEdges]

/-- Stop by stop the same edges come in as all at once. -/
theorem forM_pushAccess {stops stop : Nat} (pairs : List (StationIndex × NodeId))
    (hstops : stop + pairs.length = stops) :
    ((pairs.zipIdx stop).forM fun ((station, here), stop) =>
      pushAccess stops station here stop) a =
      .ok () (a.addEdges
        (Builder.accessEdges stop (pairs.map fun p => (a.stationNode p.1, p.2)))) := by
  induction pairs generalizing a stop with
  | nil =>
    rw [List.map_nil, Builder.accessEdges, Assembly.addEdges_nil]
    rfl
  | cons pair rest ih =>
    obtain ⟨station, here⟩ := pair
    rw [List.length_cons] at hstops
    show (pushAccess stops station here stop >>= fun _ =>
      (rest.zipIdx (stop + 1)).forM fun ((station, here), stop) =>
        pushAccess stops station here stop) a = _
    rw [bind_of_ok (pushAccess_eq stops station here stop), ih (by omega),
      Assembly.addEdges_addEdges, Assembly.stationNode_addEdges, List.map_cons,
      Builder.accessEdges, List.isEmpty_map]
    have hlast : stop + 1 < stops ↔ ¬ rest.isEmpty = true := by
      cases rest with
      | nil => simp at hstops ⊢; omega
      | cons next rest => simp at hstops ⊢; omega
    simp only [hlast, Nat.pos_iff_ne_zero, ite_not]

end Steps

/-! ## What the calls come to -/

/-- Work does what an operation of a builder does; where that fails, so does the work, and
leaves everything as it was. -/
structure Refines (w : Work α) (op : Builder → Except NetworkFault (α × Builder)) : Prop where
  fails : ∀ {a : Assembly} {fault : NetworkFault}, a.Indexed → op a.toBuilder = .error fault →
    w a = .error fault a
  comes : ∀ {a : Assembly} {answer : α} {b : Builder}, a.Indexed →
    op a.toBuilder = .ok (answer, b) →
    ∃ a', w a = .ok answer a' ∧ a'.toBuilder = b ∧ a'.Indexed

/-- The outcome of an operation that leaves the index alone. -/
def outcome (a : Assembly) :
    Except NetworkFault (α × Builder) → EStateM.Result NetworkFault Assembly α
  | .ok (answer, b) => .ok answer { a with toBuilder := b }
  | .error fault => .error fault a

/-- Work that answers as the operation does, and changes no station, refines it. -/
theorem Refines.of_outcome {w : Work α} {op : Builder → Except NetworkFault (α × Builder)}
    (hout : ∀ a : Assembly, w a = outcome a (op a.toBuilder))
    (hids : ∀ {b answer b'}, op b = .ok (answer, b') →
      ∀ i : Nat, b'.stations[i]?.map Station.id = b.stations[i]?.map Station.id) :
    Refines w op := by
  refine ⟨fun {a fault} _ hop => ?_, fun {a answer b} ha hop => ?_⟩
  · rw [hout, hop]
    rfl
  · refine ⟨{ a with toBuilder := b }, ?_, rfl, fun id i => ?_⟩
    · rw [hout, hop]
      rfl
    · show a.index id = some i ↔ b.stations[i]?.map Station.id = some id
      rw [hids hop, ha]

section Calls

variable {a : Assembly}

/-- A look at the parts fails in both, or in neither. -/
theorem inspect_bind_eq {check : Builder → Except NetworkFault β} {next : β → Work α}
    {op : β → Except NetworkFault (α × Builder)}
    (h : ∀ x, check a.toBuilder = .ok x → next x a = outcome a (op x)) :
    (inspect check >>= next) a = outcome a (check a.toBuilder >>= op) := by
  cases hx : check a.toBuilder with
  | error fault =>
    rw [bind_of_error (inspect_of_error hx)]
    rfl
  | ok x =>
    rw [bind_of_ok (inspect_of_ok hx), h x hx]
    rfl

/-- A route that passed the check is laid node by node as it would be laid at once. -/
theorem layRoute_eq {stops : List StationIndex} {sections : List (List Leg)} (trips : Nat)
    (hsections : sections.length = stops.length - 1) :
    layRoute stops trips sections a = .ok (a.pushRoute stops trips sections).1
      { a with toBuilder := (a.pushRoute stops trips sections).2 } := by
  have hget : (get : Work Assembly) a = .ok a a := rfl
  rw [layRoute, bind_of_ok hget, bind_of_ok (mapM_pushNode _ _), bind_of_ok (mapM_pushEdge _ _),
    bind_of_ok (forM_pushAccess _ (by simp)), Assembly.addEdges_addEdges]
  -- the same edges, and as many of them
  have hrides : ∀ nodes : List NodeId,
      ((nodes.zip (nodes.drop 1)).zip sections).map (fun x =>
        ({ tail := x.1.1, head := x.1.2, kind := .route x.2.toArray } : Edge)) =
      (nodes.zip (nodes.drop 1)).zipWith (fun ends legs =>
        { tail := ends.1, head := ends.2, kind := .route legs.toArray }) sections :=
    fun nodes => List.map_zip_eq_zipWith
  have haccess : ∀ (f : StationIndex → NodeId) (nodes : List NodeId),
      (stops.zip nodes).map (fun p => (f p.1, p.2)) = (stops.map f).zip nodes :=
    fun f nodes => List.zip_map_left.symm
  have hcount : ∀ first : Nat, (((((List.range stops.length).map (first + ·)).zip
      (((List.range stops.length).map (first + ·)).drop 1)).zip sections)).length =
      sections.length := by
    intro first
    simp only [List.length_zip, List.length_map, List.length_range, List.length_drop]
    omega
  rw [hrides, haccess, hcount]
  rfl

/-- Looking for disorder on one edge after another finds the first there is. -/
theorem mapM_order {n : Nat} (l : List (List Leg × Nat)) :
    (l.mapM fun x => match Builder.orderFault? (n + x.2) x.1 with
      | some fault => (.error fault : Except NetworkFault (List Leg))
      | none => .ok x.1) =
    match l.findSome? fun x => Builder.orderFault? (n + x.2) x.1 with
    | some fault => .error fault
    | none => .ok (l.map (·.1)) := by
  induction l with
  | nil => rfl
  | cons x l ih =>
    rw [List.mapM_cons, ih, List.findSome?_cons]
    cases Builder.orderFault? (n + x.2) x.1 with
    | some fault => rfl
    | none =>
      cases l.findSome? fun x => Builder.orderFault? (n + x.2) x.1 with
      | some fault => rfl
      | none => rfl

/-- Adding a route step by step comes to what the operation comes to. -/
theorem addRoute_eq (stops : List StationIndex) (trips : List Trip) :
    addRoute stops trips a = outcome a (a.toBuilder.addRoute stops trips) := by
  by_cases hshort : stops.length < 2
  · simp only [addRoute, checkRoute, Builder.addRoute, if_pos hshort]
    rfl
  simp only [addRoute, checkRoute, Builder.addRoute, if_neg hshort, forM_inspect, mapM_inspect,
    mapM_order, bind_assoc]
  refine inspect_bind_eq fun _ _ => inspect_bind_eq fun legs _ => ?_
  cases horder : (Builder.legsBySection (stops.length - 1) legs).zipIdx.findSome?
      fun x => Builder.orderFault? (a.edges.size + x.2) x.1 with
  | some fault =>
    rw [bind_of_error (inspect_of_error (by rw [horder]))]
    rfl
  | none =>
    rw [bind_of_ok (inspect_of_ok (by rw [horder])), List.zipIdx_map_fst,
      layRoute_eq trips.length (Builder.length_legsBySection _ _)]
    rfl

/-- Joining routes step by step comes to what the operation comes to. -/
theorem addThrough_eq (source target : RouteId) (trips : List (Option Nat)) :
    addThrough source target trips a = outcome a (a.toBuilder.addThrough source target trips) := by
  rw [addThrough, Builder.addThrough]
  cases hsource : a.routes[source]? with
  | none =>
    rw [bind_of_error (inspect_of_error (by rw [hsource]))]
    rfl
  | some first =>
    cases htarget : a.routes[target]? with
    | none =>
      rw [bind_of_error (inspect_of_error (by rw [hsource, htarget]))]
      rfl
    | some second =>
      cases hjoin : a.joinRoutes first second trips with
      | error fault =>
        rw [bind_of_error (inspect_of_error (by simp only [hsource, htarget, hjoin]; rfl))]
        simp only [hjoin]
        rfl
      | ok ends =>
        rw [bind_of_ok (inspect_of_ok (by simp only [hsource, htarget, hjoin]; rfl))]
        simp only [hjoin]
        rfl

/-- Adding a footpath step by step comes to what the operation comes to. -/
theorem addFootpath_eq (source target : StationIndex) (duration : Nat) :
    addFootpath source target duration a =
      outcome a (a.toBuilder.addFootpath source target duration) :=
  inspect_bind_eq fun _ _ => inspect_bind_eq fun _ _ => rfl

/-- The index is asked for an identifier where the builder looks through its stations. -/
theorem isSome_index (ha : a.Indexed) (id : StationId) :
    (a.index id).isSome = a.stations.any (·.id = id) := by
  rw [Bool.eq_iff_iff, Option.isSome_iff_exists, Array.any_eq_true']
  constructor
  · rintro ⟨i, hi⟩
    obtain ⟨s, hs, hid⟩ := Option.map_eq_some_iff.1 ((ha id i).1 hi)
    exact ⟨s, Array.mem_of_getElem? hs, decide_eq_true hid⟩
  · rintro ⟨s, hs, hid⟩
    obtain ⟨i, hi⟩ := Array.getElem?_of_mem hs
    exact ⟨i, (ha id i).2 (by rw [hi, Option.map_some, of_decide_eq_true hid])⟩

/-- The index after a new station. -/
theorem indexed_push {station : Station} (ha : a.Indexed) (hnew : a.index station.id = none)
    {id : StationId} {i : StationIndex} :
    Function.update a.index station.id (some a.stations.size) id = some i ↔
      (a.stations.push station)[i]?.map Station.id = some id := by
  rw [Array.getElem?_push, Function.update_apply]
  by_cases hid : id = station.id
  · rw [if_pos hid, hid]
    by_cases hi : i = a.stations.size
    · simp [hi]
    · rw [if_neg hi, ← ha, hnew, Option.some.injEq]
      simp [Ne.symm hi]
  · rw [if_neg hid]
    by_cases hi : i = a.stations.size
    · -- the last place is that of the new station, whose identifier this is not
      have hnone : a.stations[i]?.map Station.id = none := by simp [hi]
      rw [if_pos hi, ha, hnone, Option.map_some, Option.some.injEq]
      simp [Ne.symm hid]
    · rw [if_neg hi, ha]

/-- A station is added to the index as well, under an id that nothing else has. -/
theorem addStation_refines (id name : String) (time : Nat) :
    Refines (addStation id name time) (·.addStation id name time) := by
  have hget : ∀ a : Assembly, (get : Work Assembly) a = .ok a a := fun a => rfl
  refine ⟨fun {a fault} ha hop => ?_, fun {a index b} ha hop => ?_⟩
  · unfold Builder.addStation at hop
    split at hop
    · next f hid =>
      cases hop
      rw [addStation, bind_of_error (inspect_of_error (by rw [hid]; rfl))]
    · next sid hid =>
      split at hop
      · next hany =>
        cases hop
        rw [addStation, bind_of_ok (inspect_of_ok (by rw [hid]; rfl)), bind_of_ok (hget a),
          isSome_index ha, if_pos hany]
        rfl
      · cases hop
  · obtain ⟨sid, hid, hany, rfl, rfl⟩ := Builder.addStation_eq_ok hop
    have hnew : a.index sid = none := by
      rw [← Option.not_isSome_iff_eq_none, isSome_index ha, hany]
      exact Bool.false_ne_true
    have hindexed (station : Station) (hid : station.id = sid) (nodes : Array Node) :
        Assembly.Indexed { a with
          stations := a.stations.push station
          nodes
          index := Function.update a.index sid (some a.stations.size) } := by
      intro id i
      rw [← hid]
      exact indexed_push ha (hid ▸ hnew)
    refine ⟨_, ?_, rfl, hindexed ⟨sid, name, time, [], a.nodes.size⟩ rfl _⟩
    rw [addStation, bind_of_ok (inspect_of_ok (by rw [hid]; rfl)), bind_of_ok (hget a),
      isSome_index ha, hany]
    rfl

/-- The rule goes to a station that keeps its identifier. -/
theorem setInterchange_refines (station : StationIndex) (rule : InterchangeRule) :
    Refines (setInterchange station rule)
      (fun b => .ok ((), b.setInterchange station rule)) := by
  refine .of_outcome (fun a => rfl) fun {b answer b'} hop i => ?_
  cases hop
  show (b.stations.modify station (·.setRule rule))[i]?.map Station.id = _
  rw [Array.getElem?_modify]
  split
  · rw [Option.map_map]
    rfl
  · rfl

/-- A route is added as the operation adds it. -/
theorem addRoute_refines (stops : List StationIndex) (trips : List Trip) :
    Refines (addRoute stops trips) (·.addRoute stops trips) := by
  refine .of_outcome (fun a => addRoute_eq stops trips) fun hop i => ?_
  obtain ⟨-, -, legs, -, -, heq⟩ := Builder.addRoute_eq_ok hop
  cases heq
  rfl

/-- A through service is added as the operation adds it. -/
theorem addThrough_refines (source target : RouteId) (trips : List (Option Nat)) :
    Refines (addThrough source target trips) (·.addThrough source target trips) := by
  refine .of_outcome (fun a => addThrough_eq source target trips) fun hop i => ?_
  obtain ⟨-, -, tail, head, -, -, -, rfl⟩ := Builder.addThrough_eq_ok hop
  rfl

/-- A footpath is added as the operation adds it. -/
theorem addFootpath_refines (source target : StationIndex) (duration : Nat) :
    Refines (addFootpath source target duration) (·.addFootpath source target duration) := by
  refine .of_outcome (fun a => addFootpath_eq source target duration) fun hop i => ?_
  obtain ⟨-, -, rfl⟩ := Builder.addFootpath_eq_ok hop
  rfl

/-- What becomes of an answer makes no difference. -/
theorem Refines.map {w : Work α} {op : Builder → Except NetworkFault (α × Builder)}
    (h : Refines w op) (f : α → β) :
    Refines (f <$> w) (fun b => (op b).map (Prod.map f id)) := by
  refine ⟨fun {a fault} ha hop => ?_, fun {a answer b} ha hop => ?_⟩
  · cases hx : op a.toBuilder with
    | error e =>
      rw [hx] at hop
      cases hop
      rw [map_eq_pure_bind]
      exact bind_of_error (h.fails ha hx)
    | ok x =>
      rw [hx] at hop
      cases hop
  · obtain ⟨⟨x, b'⟩, hx, heq⟩ := Fallible.map_eq_ok.1 hop
    cases heq
    obtain ⟨a', hw, hb, hindexed⟩ := h.comes ha hx
    refine ⟨a', ?_, hb, hindexed⟩
    rw [map_eq_pure_bind]
    exact bind_of_ok hw

end Calls

end Work

/-- A call to an assembly. -/
inductive Call where
  | category (name : String)
  | track (name : String)
  | info (description : TripInfo)
  | station (key name : String) (transferTime : Nat)
  | interchange (place : StationIndex) (rule : InterchangeRule)
  | route (stops : List StationIndex) (trips : List Trip)
  | through (source target : RouteId) (trips : List (Option Nat))
  | footpath (source target : StationIndex) (duration : Nat)

namespace Call

/-- What a call does. It answers with the position of the part that it adds. -/
def work : Call → Work (Option Nat)
  | category name => some <$> Work.addCategory name
  | track name => some <$> Work.addTrack name
  | info description => some <$> Work.addInfo description
  | station key name transferTime => some <$> Work.addStation key name transferTime
  | interchange place rule => (fun _ => none) <$> Work.setInterchange place rule
  | route stops trips => some <$> Work.addRoute stops trips
  | through source target trips => some <$> Work.addThrough source target trips
  | footpath source target duration => some <$> Work.addFootpath source target duration

/-- The operation of a builder that a call stands for. -/
def op : Call → Builder → Except NetworkFault (Option Nat × Builder)
  | category name, b => .ok ((b.addCategory name).map some id)
  | track name, b => .ok ((b.addTrack name).map some id)
  | info description, b => .ok ((b.addInfo description).map some id)
  | station key name transferTime, b => (b.addStation key name transferTime).map (.map some id)
  | interchange place rule, b => .ok (none, b.setInterchange place rule)
  | route stops trips, b => (b.addRoute stops trips).map (.map some id)
  | through source target trips, b => (b.addThrough source target trips).map (.map some id)
  | footpath source target duration, b => (b.addFootpath source target duration).map (.map some id)

/-- A call in place comes to what the operation of the builder comes to, and where that
fails nothing has been changed. -/
theorem refines (call : Call) : Work.Refines call.work call.op := by
  cases call with
  | category name => exact .of_outcome (fun a => rfl) fun hop i => by cases hop; rfl
  | track name => exact .of_outcome (fun a => rfl) fun hop i => by cases hop; rfl
  | info description => exact .of_outcome (fun a => rfl) fun hop i => by cases hop; rfl
  | station key name transferTime => exact (Work.addStation_refines key name transferTime).map some
  | interchange place rule => exact (Work.setInterchange_refines place rule).map _
  | route stops trips => exact (Work.addRoute_refines stops trips).map some
  | through source target trips => exact (Work.addThrough_refines source target trips).map some
  | footpath source target duration =>
    exact (Work.addFootpath_refines source target duration).map some

/-- An operation leads from one builder that there can be to another. -/
theorem made_of_op {call : Call} {period : Period} {b b' : Builder} {answer : Option Nat}
    (hb : b.Made (fun _ => True) period) (h : call.op b = .ok (answer, b')) :
    b'.Made (fun _ => True) period := by
  cases call with
  | category name =>
    cases h
    exact hb.addCategory name
  | track name =>
    cases h
    exact hb.addTrack name
  | info description =>
    cases h
    exact hb.addInfo description
  | interchange place rule =>
    cases h
    exact hb.setInterchange place rule
  | station key name transferTime =>
    obtain ⟨x, hx, heq⟩ := Fallible.map_eq_ok.1 h
    cases heq
    exact hb.addStation hx
  | route stops trips =>
    obtain ⟨x, hx, heq⟩ := Fallible.map_eq_ok.1 h
    cases heq
    exact hb.addRoute (fun _ _ => trivial) hx
  | through source target trips =>
    obtain ⟨x, hx, heq⟩ := Fallible.map_eq_ok.1 h
    cases heq
    exact hb.addThrough hx
  | footpath source target duration =>
    obtain ⟨x, hx, heq⟩ := Fallible.map_eq_ok.1 h
    cases heq
    exact hb.addFootpath hx

end Call

namespace Assembly

/-- The assembly after a call, whether that has failed or not. -/
def call (a : Assembly) (c : Call) : Assembly :=
  match c.work a with
  | .ok _ a' => a'
  | .error _ a' => a'

/-- What a call answers, unless it is refused. -/
def answer? (a : Assembly) (c : Call) : Option Nat :=
  match c.work a with
  | .ok answer _ => answer
  | .error _ _ => none

/-- The assembly after some calls. -/
def calls (a : Assembly) (cs : List Call) : Assembly := cs.foldl call a

/-- The finished timetable. -/
def build (a : Assembly) : Timetable := a.toBuilder.build

/-- An assembly that calls lead to. -/
structure Reached (period : Period) (a : Assembly) : Prop where
  made : a.toBuilder.Made (fun _ => True) period
  indexed : a.Indexed

/-- An assembly with nothing added is one that calls lead to. -/
theorem reached_new (period : Period) : Reached period (new period) := by
  refine ⟨.new, fun id i => ?_⟩
  simp [new, Builder.new]

/-- A call is refused and changes nothing, or it does and answers what the operation does. -/
theorem Indexed.call_cases {a : Assembly} (h : a.Indexed) (c : Call) :
    ((∃ fault, c.op a.toBuilder = .error fault) ∧ a.answer? c = none ∧ a.call c = a) ∨
      c.op a.toBuilder = .ok (a.answer? c, (a.call c).toBuilder) ∧ (a.call c).Indexed := by
  unfold Assembly.call Assembly.answer?
  cases hop : c.op a.toBuilder with
  | error fault =>
    rw [c.refines.fails h hop]
    exact Or.inl ⟨⟨fault, rfl⟩, rfl, rfl⟩
  | ok x =>
    obtain ⟨answer, b⟩ := x
    obtain ⟨a', hw, hb, hindexed⟩ := c.refines.comes h hop
    rw [hw]
    exact Or.inr ⟨by rw [hb], hindexed⟩

/-- A call leads on to another such assembly, whether it is refused or not. -/
theorem Reached.call {period : Period} {a : Assembly} (h : Reached period a) (c : Call) :
    Reached period (a.call c) := by
  rcases h.indexed.call_cases c with ⟨-, -, heq⟩ | ⟨hop, hindexed⟩
  · rw [heq]
    exact h
  · exact ⟨Call.made_of_op h.made hop, hindexed⟩

/-- Calls lead on to another such assembly, however many are refused. -/
theorem Reached.calls {period : Period} {a : Assembly} (h : Reached period a) (cs : List Call) :
    Reached period (a.calls cs) := by
  unfold Assembly.calls
  induction cs generalizing a with
  | nil => exact h
  | cons c cs ih => exact ih (h.call c)

/-- A call that is refused leaves nothing behind. -/
theorem Reached.eq_of_error {period : Period} {a a' : Assembly} (h : Reached period a) {c : Call}
    {fault : NetworkFault} (hw : c.work a = .error fault a') : a' = a := by
  cases hop : c.op a.toBuilder with
  | error fault' =>
    rw [c.refines.fails h.indexed hop] at hw
    cases hw
    rfl
  | ok x =>
    obtain ⟨a'', hw', -⟩ := c.refines.comes h.indexed hop
    rw [hw'] at hw
    cases hw

end Assembly

end JourneyPlanner
