import JourneyPlanner.Proofs.Query.Graph
import Mathlib.Data.List.Nodup
import Mathlib.Logic.Function.Basic

/-!
# Where the edges of a query are listed

The graph of a query lists an edge wherever it can be taken: at one end going forward, at the other
going backward. `Timetable.Adjacent` says that of the edges of a timetable, and the lists of a builder
are so (`Builder.build_adjacent`); for the graph of a query it follows that each edge is in the list
of one node in each direction, and there once (`Adjacent.mem_edgesAt`, `Adjacent.nodup_edgesAt`).

The additional edges of a request can be put into lists as they come, each at once at both of its ends
(`EdgeTables.push`). That makes the same lists as looking for the edges of a node when they are asked
for (`EdgeTables.lists_ofRequest`).
-/

namespace JourneyPlanner

/-! ## The edges of a timetable -/

/-- The edges that are listed at a node are those that are taken from there, in order. -/
structure Timetable.Adjacent (tt : Timetable) : Prop where
  mem_iff : ∀ node direction (id : EdgeId), id ∈ tt.edgesAt node direction ↔
    ∃ edge, tt.edges[id]? = some edge ∧ edge.source direction = node
  ascends : ∀ node direction, (tt.edgesAt node direction).Pairwise (· < ·)

/-- Tables built over edges between nodes that there are list each edge where it starts and ends. -/
theorem Builder.build_adjacent {b : Builder}
    (h : ∀ edge ∈ b.edges, edge.tail < b.nodes.size ∧ edge.head < b.nodes.size) :
    b.build.Adjacent := by
  have hmem : ∀ side : Edge → NodeId, (∀ edge ∈ b.edges, side edge < b.nodes.size) →
      ∀ (node : NodeId) (id : EdgeId),
        id ∈ (edgesBySide b.nodes.size b.edges side)[node]?.getD [] ↔
          ∃ edge, b.edges[id]? = some edge ∧ side edge = node := by
    intro side hlt node id
    have hiff : id ∈ (edgesBySide b.nodes.size b.edges side)[node]?.getD [] ↔
        node < b.nodes.size ∧ ∃ edge, b.edges[id]? = some edge ∧ side edge = node :=
      mem_edgesBySide
    rw [hiff, and_iff_right_of_imp]
    rintro ⟨edge, hedge, rfl⟩
    exact hlt edge (Array.mem_of_getElem? hedge)
  refine ⟨?_, ?_⟩
  · intro node direction id
    cases direction with
    | forward => exact hmem Edge.tail (fun edge hedge => (h edge hedge).1) node id
    | backward => exact hmem Edge.head (fun edge hedge => (h edge hedge).2) node id
  · intro node direction
    cases direction <;> exact pairwise_edgesBySide _ _ _ node

/-! ## The edges of a graph -/

namespace QueryGraph

variable {graph : QueryGraph} {node : NodeId} {direction : Direction} {ref : EdgeRef}

/-- A request's own edge is listed at a node exactly when it starts there in the search direction.
-/
theorem mem_extraAt {position : Nat} : position ∈ graph.extraAt node direction ↔
    position < graph.extra.size ∧ (graph.edge (.extra position)).source direction = node := by
  unfold extraAt
  rw [List.mem_filter, List.mem_range, beq_iff_eq]

/-- A request's own edges are listed in the order in which it names them. -/
theorem pairwise_extraAt (graph : QueryGraph) (node : NodeId) (direction : Direction) :
    (graph.extraAt node direction).Pairwise (· < ·) :=
  List.pairwise_lt_range.filter _

end QueryGraph

namespace Timetable.Adjacent

variable {graph : QueryGraph} {node : NodeId} {direction : Direction} {ref : EdgeRef}

/-- The edges at a node are those of the graph that are taken from there. -/
theorem mem_edgesAt (h : graph.timetable.Adjacent) : ref ∈ graph.edgesAt node direction ↔
    graph.Has ref ∧ (graph.edge ref).source direction = node := by
  unfold QueryGraph.edgesAt
  rw [List.mem_append, List.mem_map, List.mem_map]
  cases ref with
  | timetable id =>
    constructor
    · rintro (⟨id', hid, heq⟩ | ⟨position, -, heq⟩)
      · cases heq
        obtain ⟨edge, hedge, hsource⟩ := (h.mem_iff node direction id).1 hid
        refine ⟨(Array.getElem?_eq_some_iff.1 hedge).1, ?_⟩
        have heq : graph.edge (.timetable id) = edge := Timetable.edge_eq hedge
        rw [heq]
        exact hsource
      · cases heq
    · rintro ⟨hhas, hsource⟩
      have hget := Array.getElem?_eq_getElem (show id < graph.timetable.edges.size from hhas)
      have heq : graph.edge (.timetable id) = _ := Timetable.edge_eq hget
      rw [heq] at hsource
      exact Or.inl ⟨id, (h.mem_iff node direction id).2 ⟨_, hget, hsource⟩, rfl⟩
  | extra position =>
    show _ ↔ position < graph.extra.size ∧ _
    rw [← QueryGraph.mem_extraAt]
    constructor
    · rintro (⟨id, -, heq⟩ | ⟨position', hposition, heq⟩)
      · cases heq
      · cases heq
        exact hposition
    · exact fun hposition => Or.inr ⟨position, hposition, rfl⟩

/-- No edge is listed twice at a node. -/
theorem nodup_edgesAt (h : graph.timetable.Adjacent) (node : NodeId) (direction : Direction) :
    (graph.edgesAt node direction).Nodup := by
  have hids : (graph.timetable.edgesAt node direction).Nodup :=
    (h.ascends node direction).imp Nat.ne_of_lt
  have hpositions : (graph.extraAt node direction).Nodup :=
    (graph.pairwise_extraAt node direction).imp Nat.ne_of_lt
  unfold QueryGraph.edgesAt
  refine List.nodup_append.2 ⟨?_, ?_, ?_⟩
  · exact List.Nodup.map (fun _ _ heq => EdgeRef.timetable.inj heq) hids
  · exact List.Nodup.map (fun _ _ heq => EdgeRef.extra.inj heq) hpositions
  · intro ref hid ref' hposition heq
    subst heq
    obtain ⟨id, -, rfl⟩ := List.mem_map.1 hid
    obtain ⟨position, -, heq⟩ := List.mem_map.1 hposition
    cases heq

end Timetable.Adjacent

/-! ## Lists that grow edge by edge -/

/-- The additional edges so far, and for each node the positions of those that can be taken from
there. -/
structure EdgeTables where
  edges : Array Edge
  lists : Direction → NodeId → List Nat

namespace EdgeTables

def empty : EdgeTables := { edges := #[], lists := fun _ _ => [] }

/-- The edge comes last in the list of either end. -/
def push (tables : EdgeTables) (edge : Edge) : EdgeTables :=
  { edges := tables.edges.push edge
    lists := fun direction => Function.update (tables.lists direction) (edge.source direction)
      (tables.lists direction (edge.source direction) ++ [tables.edges.size]) }

/-- The edges of a request that can be used, one after the other. -/
def ofRequest (tt : Timetable) (edges : List AdditionalEdge) : EdgeTables :=
  edges.foldl (fun tables edge => match edge.resolve? tt with
    | some edge => tables.push edge
    | none => tables) empty

/-- Each list has the edges that are taken from its node, in order. -/
def Listed (tables : EdgeTables) : Prop := ∀ direction node, tables.lists direction node =
  (List.range tables.edges.size).filter fun position =>
    (tables.edges[position]?.getD default).source direction == node

/-- Adding an edge to the tables keeps every edge listed where it belongs. -/
theorem Listed.push {tables : EdgeTables} (h : tables.Listed) (edge : Edge) :
    (tables.push edge).Listed := by
  intro direction node
  have hold : ∀ position ∈ List.range tables.edges.size,
      (((tables.edges.push edge)[position]?.getD default).source direction == node) =
        ((tables.edges[position]?.getD default).source direction == node) := by
    intro position hposition
    have hlt := List.mem_range.1 hposition
    rw [Array.getElem?_push, if_neg (Nat.ne_of_lt hlt)]
  show Function.update (tables.lists direction) (edge.source direction) _ node =
    (List.range (tables.edges.push edge).size).filter fun position =>
      ((tables.edges.push edge)[position]?.getD default).source direction == node
  rw [Array.size_push, List.range_succ, List.filter_append, List.filter_congr hold,
    List.filter_singleton, Array.getElem?_push_size, Option.getD_some, ← h direction node]
  by_cases hnode : node = edge.source direction
  · subst hnode
    rw [Function.update_self]
    simp
  · rw [Function.update_of_ne hnode, beq_eq_false_iff_ne.2 (Ne.symm hnode)]
    simp

/-- Edges added one after the other stand behind those that were there, in their order. -/
theorem edges_foldl_push (tables : EdgeTables) (edges : List Edge) :
    (edges.foldl push tables).edges = tables.edges ++ edges := by
  induction edges generalizing tables with
  | nil => simp
  | cons edge edges ih =>
    rw [List.foldl_cons, ih]
    show tables.edges.push edge ++ edges = _
    simp

/-- Edges added one after the other are all listed where they belong. -/
theorem Listed.foldl_push {tables : EdgeTables} (h : tables.Listed) (edges : List Edge) :
    (edges.foldl EdgeTables.push tables).Listed := by
  induction edges generalizing tables with
  | nil => exact h
  | cons edge edges ih => exact ih (h.push edge)

/-- The tables of a request hold those of its edges that resolve, in order. -/
theorem ofRequest_eq (tt : Timetable) (edges : List AdditionalEdge) :
    ofRequest tt edges = (edges.filterMap (AdditionalEdge.resolve? tt)).foldl push empty := by
  unfold ofRequest
  rw [List.foldl_filterMap]
  congr 1
  funext tables edge
  cases edge.resolve? tt <;> rfl

/-- The tables of a request hold the edges its query graph has besides the timetable's. -/
theorem edges_ofRequest (tt : Timetable) (edges : List AdditionalEdge) :
    (ofRequest tt edges).edges = (QueryGraph.make tt edges).extra := by
  rw [ofRequest_eq, edges_foldl_push]
  simp [empty, QueryGraph.make]

/-- The lists are those of the graph. -/
theorem lists_ofRequest (tt : Timetable) (edges : List AdditionalEdge) (direction : Direction)
    (node : NodeId) : (ofRequest tt edges).lists direction node =
      (QueryGraph.make tt edges).extraAt node direction := by
  have hempty : empty.Listed := fun _ _ => rfl
  have hlisted := hempty.foldl_push (edges.filterMap (AdditionalEdge.resolve? tt))
  rw [← ofRequest_eq] at hlisted
  rw [hlisted direction node, edges_ofRequest]
  rfl

end EdgeTables

end JourneyPlanner
