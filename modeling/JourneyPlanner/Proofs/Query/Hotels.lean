import JourneyPlanner.Proofs.Query.Bounds
import JourneyPlanner.Proofs.Query.Graph
import Mathlib.Data.List.Forall2

/-!
# A request without its hotels

Leaving out the nights that a request offers leaves a query with other additional edges and
nothing else changed (`Request.toQuery_withoutHotels`). A night leads nowhere, so that no
node comes nearer to the goal by it (`LowerBounds.compute_withoutHotels`), and one cannot
set out by it at any time (`QueryGraph.startTimes_withoutHotels`).

The edges that are left move up in the list of additional edges. `Counterpart` relates the
number of an edge there to the one that it had, and at every node the edges that are left
are, one by one, those that there were apart from the nights (`edgesAt_withoutHotels`).
-/

namespace JourneyPlanner

/-- Whether an edge is a night at a hotel. -/
def EdgeKind.isHotel : EdgeKind → Bool
  | .hotel _ => true
  | _ => false

theorem EdgeKind.isHotel_iff {kind : EdgeKind} :
    kind.isHotel = true ↔ ∃ stay, kind = .hotel stay := by
  cases kind <;> simp [isHotel]

/-- Whether an edge of a request is a night at a hotel. -/
def AdditionalEdge.isHotel : AdditionalEdge → Bool
  | .hotel .. => true
  | .mumo .. => false

/-- The request without the hotels that it offers. -/
def Request.withoutHotels (request : Request) : Request :=
  { request with additionalEdges := request.additionalEdges.filter (!·.isHotel) }

namespace QueryGraph

/-- The graph without the hotels of the request. -/
def withoutHotels (graph : QueryGraph) : QueryGraph :=
  { graph with extra := (graph.extra.toList.filter (!·.kind.isHotel)).toArray }

/-- Whether an edge is a hotel that the request brought. -/
def isStay (graph : QueryGraph) : EdgeRef → Bool
  | .timetable _ => false
  | .extra position => (graph.edge (.extra position)).kind.isHotel

/-- An edge of the graph without hotels, and the same edge of the graph with them. -/
inductive Counterpart (graph : QueryGraph) : EdgeRef → EdgeRef → Prop
  | timetable (id : EdgeId) : Counterpart graph (.timetable id) (.timetable id)
  | extra {left position : Nat}
      (h : graph.withoutHotels.edge (.extra left) = graph.edge (.extra position)) :
      Counterpart graph (.extra left) (.extra position)

end QueryGraph

/-- The query without the hotels of the request. -/
def Query.withoutHotels (q : Query) : Query := { q with graph := q.graph.withoutHotels }

/-! ## The edges that are left -/

/-- Where related items are taken to the same, related lists are. -/
theorem map_eq_of_forall₂ {α β γ : Type} {R : α → β → Prop} {l : List α} {l' : List β}
    {f : α → γ} {g : β → γ} (h : List.Forall₂ R l l') (hR : ∀ a b, R a b → f a = g b) :
    l.map f = l'.map g := by
  rw [← List.forall₂_eq_eq_eq, List.forall₂_map_left_iff, List.forall₂_map_right_iff]
  exact h.imp hR

theorem AdditionalEdge.isHotel_of_resolve? {tt : Timetable} {extra : AdditionalEdge} {edge : Edge}
    (h : extra.resolve? tt = some edge) : edge.kind.isHotel = extra.isHotel := by
  cases extra with
  | hotel station checkout minStay price =>
    obtain ⟨node, -, h⟩ := Option.bind_eq_some_iff.1 h
    cases h
    rfl
  | mumo source target duration price id name window =>
    obtain ⟨tail, -, h⟩ := Option.bind_eq_some_iff.1 h
    obtain ⟨head, -, h⟩ := Option.bind_eq_some_iff.1 h
    cases window with
    | none =>
      cases h
      rfl
    | some window =>
      obtain ⟨window', -, h⟩ := Option.bind_eq_some_iff.1 h
      cases h
      rfl

namespace QueryGraph

theorem make_withoutHotels (tt : Timetable) (edges : List AdditionalEdge) :
    make tt (edges.filter (!·.isHotel)) = (make tt edges).withoutHotels := by
  unfold make withoutHotels
  dsimp only
  rw [List.filterMap_filter, List.filter_filterMap]
  congr 2
  refine List.filterMap_congr fun extra _ => ?_
  cases hr : extra.resolve? tt with
  | none => cases extra.isHotel <;> rfl
  | some edge =>
    rw [Option.filter_some, AdditionalEdge.isHotel_of_resolve? hr]

variable (graph : QueryGraph) (node : NodeId) (direction : Direction)

/-- The additional edges at a node are those of the list that begin there. -/
theorem map_extraAt : (graph.extraAt node direction).map (fun i => graph.edge (.extra i)) =
    graph.extra.toList.filter fun edge => edge.source direction == node := by
  have hall : (List.range graph.extra.size).map (fun i => graph.edge (.extra i)) =
      graph.extra.toList := by
    refine List.ext_getElem (by simp) fun i hi hi' => ?_
    have hlt : i < graph.extra.size := by simpa using hi
    simp [QueryGraph.edge, hlt]
  rw [← hall, List.filter_map]
  rfl

/-- One by one, the edges that are left at a node are those that there were, apart from the
nights. -/
theorem edgesAt_withoutHotels : List.Forall₂ graph.Counterpart
    (graph.withoutHotels.edgesAt node direction)
    ((graph.edgesAt node direction).filter (!graph.isStay ·)) := by
  have hextra : (graph.withoutHotels.extraAt node direction).map
        (fun i => graph.withoutHotels.edge (.extra i)) =
      ((graph.extraAt node direction).filter ((!graph.isStay ·) ∘ .extra)).map
        (fun i => graph.edge (.extra i)) := by
    have hfilter : (graph.extraAt node direction).filter ((!graph.isStay ·) ∘ .extra) =
        (graph.extraAt node direction).filter
          ((fun edge : Edge => !edge.kind.isHotel) ∘ fun i => graph.edge (.extra i)) := rfl
    rw [hfilter, ← List.filter_map, map_extraAt, map_extraAt, List.filter_filter]
    show (graph.extra.toList.filter _).filter _ = _
    rw [List.filter_filter]
    exact List.filter_congr fun edge _ => Bool.and_comm _ _
  unfold edgesAt
  rw [List.filter_append, List.filter_map, List.filter_map]
  refine List.rel_append ?_ ?_
  · -- no edge of the timetable is left out
    have hkept : (graph.timetable.edgesAt node direction).filter
        ((!graph.isStay ·) ∘ EdgeRef.timetable) = graph.timetable.edgesAt node direction :=
      List.filter_eq_self.2 fun _ _ => rfl
    rw [hkept, List.forall₂_map_left_iff, List.forall₂_map_right_iff]
    exact List.forall₂_same.2 fun id _ => .timetable id
  · rw [List.forall₂_map_left_iff, List.forall₂_map_right_iff]
    rw [← List.forall₂_eq_eq_eq, List.forall₂_map_left_iff, List.forall₂_map_right_iff] at hextra
    exact hextra.imp fun left position h => .extra h

variable {graph}

theorem Counterpart.edge_eq {ref ref' : EdgeRef} (h : graph.Counterpart ref ref') :
    graph.withoutHotels.edge ref = graph.edge ref' := by
  cases h with
  | timetable id => rfl
  | extra h => exact h

theorem Counterpart.target_eq {ref ref' : EdgeRef} (h : graph.Counterpart ref ref')
    (direction : Direction) :
    graph.withoutHotels.target ref direction = graph.target ref' direction := by
  unfold target
  rw [h.edge_eq]

theorem Sound.withoutHotels (h : graph.Sound) : graph.withoutHotels.Sound :=
  ⟨h.timetable, fun edge hedge =>
    h.extra edge (Array.mem_def.2 (List.mem_filter.1 (List.mem_toArray.1 hedge)).1)⟩

/-- At a node the graph without hotels has the edges that are no nights. -/
theorem map_edge_withoutHotels (node : NodeId) (direction : Direction) :
    (graph.withoutHotels.edgesAt node direction).map graph.withoutHotels.edge =
      ((graph.edgesAt node direction).filter (!graph.isStay ·)).map graph.edge :=
  map_eq_of_forall₂ (graph.edgesAt_withoutHotels node direction) fun _ _ h => h.edge_eq

/-- A night ends where it begins. -/
theorem Sound.target_of_isStay (h : graph.Sound) {node : NodeId} {direction : Direction}
    {ref : EdgeRef} (href : ref ∈ graph.edgesAt node direction) (hstay : graph.isStay ref = true) :
    graph.target ref direction = node := by
  cases ref with
  | timetable id => cases hstay
  | extra position =>
    obtain ⟨hfits, hsource⟩ := h.fits href
    obtain ⟨stay, hkind⟩ := EdgeKind.isHotel_iff.1 hstay
    have hends := hfits.hotel hkind
    unfold target
    rw [← hsource]
    cases direction
    · exact hends
    · exact hends.symm

end QueryGraph

/-! ## The bounds -/

namespace LowerBounds

open Bounded

variable {graph : QueryGraph} {goal : NodeId} {direction : Direction} {weight : EdgeKind → Nat}
  {nodes : List NodeId} {node : NodeId} {total : Nat}

/-- A way goes on without its nights, and comes to no more. -/
theorem Way.withoutHotels (hg : graph.Sound) (h : Way graph direction weight goal nodes total)
    (hnode : nodes.head? = some node) :
    ∃ rest total', Way graph.withoutHotels direction weight goal (node :: rest) total' ∧
      total' ≤ total := by
  induction h generalizing node with
  | goal h =>
    cases hnode
    exact ⟨[], 0, .goal h, Nat.le_refl _⟩
  | @step first ref rest total href way ih =>
    cases hnode
    obtain ⟨rest', total', way', hle⟩ := ih rfl
    cases hstay : graph.isStay ref with
    | true =>
      rw [hg.target_of_isStay href hstay] at way'
      exact ⟨rest', total', way', by omega⟩
    | false =>
      have hmem : graph.edge ref ∈
          (graph.withoutHotels.edgesAt first direction).map graph.withoutHotels.edge := by
        rw [QueryGraph.map_edge_withoutHotels]
        exact List.mem_map_of_mem (List.mem_filter.2 ⟨href, by simp [hstay]⟩)
      obtain ⟨left, hleft, heq⟩ := List.mem_map.1 hmem
      unfold QueryGraph.target at way'
      rw [← heq] at way' ⊢
      exact ⟨_, _, .step hleft way', by omega⟩

/-- No way is new. -/
theorem Way.of_withoutHotels (h : Way graph.withoutHotels direction weight goal nodes total) :
    Way graph direction weight goal nodes total := by
  induction h with
  | goal h => exact .goal h
  | @step first left rest total hleft way ih =>
    have hmem : graph.withoutHotels.edge left ∈
        ((graph.edgesAt first direction).filter (!graph.isStay ·)).map graph.edge := by
      rw [← QueryGraph.map_edge_withoutHotels]
      exact List.mem_map_of_mem hleft
    obtain ⟨ref, href, heq⟩ := List.mem_map.1 hmem
    unfold QueryGraph.target at ih ⊢
    rw [← heq] at ih ⊢
    exact .step (List.mem_filter.1 href).1 ih

theorem distances_withoutHotels (hg : graph.Sound) (hgoal : goal < graph.timetable.nodes.size) :
    LowerBounds.distances graph.withoutHotels goal direction weight =
      LowerBounds.distances graph goal direction weight := by
  have hsize : (distances graph.withoutHotels goal direction weight).size =
      (distances graph goal direction weight).size := by
    rw [size_distances, size_distances]
    rfl
  refine eq_of_distanceAt_eq hsize fun node => ?_
  refine Nat.le_antisymm (distanceAt_le_of_ways hg.withoutHotels hgoal hg hgoal ?_)
    (distanceAt_le_of_ways hg hgoal hg.withoutHotels hgoal ?_)
  · exact fun rest total way => way.withoutHotels hg rfl
  · exact fun rest total way => ⟨rest, total, way.of_withoutHotels, Nat.le_refl _⟩

/-- No node comes nearer to the goal by a night. -/
theorem compute_withoutHotels (hg : graph.Sound) (hgoal : goal < graph.timetable.nodes.size) :
    compute graph.withoutHotels goal direction = compute graph goal direction := by
  unfold compute
  rw [distances_withoutHotels hg hgoal, distances_withoutHotels hg hgoal,
    distances_withoutHotels hg hgoal]
  rfl

end LowerBounds

/-! ## The start times -/

namespace QueryGraph

variable {graph : QueryGraph} {begin finish : Time} {direction : Direction}

theorem Counterpart.edgeTimes_eq {ref ref' : EdgeRef} (h : graph.Counterpart ref ref') :
    graph.withoutHotels.edgeTimes begin finish direction ref =
      graph.edgeTimes begin finish direction ref' := by
  unfold edgeTimes target
  rw [h.edge_eq]
  rfl

/-- A night is no walk that one can set out on at any time. -/
theorem edgeTimes_of_isStay {ref : EdgeRef} (h : graph.isStay ref = true) :
    graph.edgeTimes begin finish direction ref = [] := by
  cases ref with
  | timetable id => cases h
  | extra position =>
    obtain ⟨stay, hkind⟩ := EdgeKind.isHotel_iff.1 h
    unfold edgeTimes
    rw [hkind]
    rfl

theorem startTimes_withoutHotels (origin : NodeId) (tripType : TripType) :
    graph.withoutHotels.startTimes origin begin finish tripType direction =
      graph.startTimes origin begin finish tripType direction := by
  have hnearby : (graph.withoutHotels.edgesAt origin direction).flatMap
        (graph.withoutHotels.edgeTimes begin finish direction) =
      (graph.edgesAt origin direction).flatMap (graph.edgeTimes begin finish direction) := by
    rw [List.flatMap_def, map_eq_of_forall₂ (graph.edgesAt_withoutHotels origin direction)
      fun _ _ h => h.edgeTimes_eq, ← List.flatMap_def]
    induction graph.edgesAt origin direction with
    | nil => rfl
    | cons ref refs ih =>
      rw [List.flatMap_cons, ← ih, List.filter_cons]
      cases hstay : graph.isStay ref with
      | false => rfl
      | true => rw [edgeTimes_of_isStay hstay]; rfl
  unfold startTimes
  rw [hnearby]
  rfl

end QueryGraph

/-! ## The query -/

/-- Without its hotels a request comes to the same query, but for the graph. -/
theorem Request.toQuery_withoutHotels {tt : Timetable} {request : Request} {q : Query}
    (h : tt.Sound) (hq : request.toQuery tt = .ok q) :
    request.withoutHotels.toQuery tt = .ok q.withoutHotels := by
  obtain ⟨target, begin, finish, hfault, htarget, hinterval, rfl⟩ := toQuery_eq_ok.1 hq
  refine toQuery_eq_ok.2 ⟨target, begin, finish, hfault, htarget, hinterval, ?_⟩
  have hmake : QueryGraph.make tt request.withoutHotels.additionalEdges =
      (QueryGraph.make tt request.additionalEdges).withoutHotels :=
    QueryGraph.make_withoutHotels tt _
  have hdirection : request.withoutHotels.direction = request.direction := rfl
  have htrip : request.withoutHotels.tripType = request.tripType := rfl
  have hgoal := (target_sound h htarget).2.lt_size
  rw [hmake, hdirection, htrip,
    LowerBounds.compute_withoutHotels (QueryGraph.make_sound h request.additionalEdges) hgoal,
    QueryGraph.startTimes_withoutHotels]
  rfl

end JourneyPlanner
