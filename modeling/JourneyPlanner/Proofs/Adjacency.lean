import JourneyPlanner.Proofs.Assembly
import JourneyPlanner.Proofs.Calendar.Minutes
import JourneyPlanner.Proofs.Query.Adjacency

/-!
# Forward and backward

The main result of this file, `adjacency_converse`, is about any edges that a request brings along to
any timetable that calls can put together:

> those of them are in the graph, in their order, whose stations are known and whose window opens
> during the schedule; an edge is listed once where it begins, going forward, and once where it ends,
> going backward; and every list has the edges of the timetable in order of their identifiers, and
> after them the additional ones in the order in which they came.

A window of instants opens during the schedule if it is not empty and neither of the two is over when
the other begins (`RequestedWindow.Opens`); as long as there is a day in the schedule, that means that
they have an instant in common. A schedule of no days has no instants, but a window opens during it if
its midnight is in the window and not its first instant.
-/

namespace JourneyPlanner

/-! ## Edges that can be used -/

/-- A station has the identifier. -/
def Timetable.Knows (tt : Timetable) (id : String) : Prop := ∃ s ∈ tt.stations, s.id.text = id

instance (tt : Timetable) (id : String) : Decidable (tt.Knows id) :=
  decidable_of_iff ((tt.stations.any fun s => s.id.text == id) = true) (by
    rw [Array.any_eq_true']
    simp only [beq_iff_eq]
    rfl)

/-- The window is not empty, and neither it nor the schedule is over when the other begins. A window
of every day opens as often as there are days. -/
def RequestedWindow.Opens (period : Period) : RequestedWindow → Prop
  | .daily .. => True
  | .absolute begin finish => begin < finish ∧ begin < period.toInstant period.finish ∧
      period.toInstant 0 < finish

instance (period : Period) (window : RequestedWindow) : Decidable (window.Opens period) :=
  match window with
  | .daily .. => isTrue trivial
  | .absolute begin finish => inferInstanceAs (Decidable (begin < finish ∧
      begin < period.toInstant period.finish ∧ period.toInstant 0 < finish))

/-- During a schedule of some days a window opens if and only if there is an instant in both. -/
theorem RequestedWindow.opens_iff_exists {period : Period} (hdays : 0 < period.days)
    (begin finish : Int) : (RequestedWindow.absolute begin finish).Opens period ↔
      ∃ instant : Int, (begin ≤ instant ∧ instant < finish) ∧
        period.toInstant 0 ≤ instant ∧ instant < period.toInstant period.finish := by
  have hspan : (period.toInstant 0 : Int) < period.toInstant period.finish := by
    rw [Period.toInstant_eq, Period.toInstant_eq]
    simp only [Period.finish, Time.ofDay, Time.perDay, Bounded.Instant]
    omega
  constructor
  · rintro ⟨hnonempty, hbefore, hafter⟩
    exact ⟨max begin (period.toInstant 0), ⟨Int.le_max_left _ _, Int.max_lt.2 ⟨hnonempty, hafter⟩⟩,
      Int.le_max_right _ _, Int.max_lt.2 ⟨hbefore, hspan⟩⟩
  · rintro ⟨instant, ⟨hbegin, hfinish⟩, hfirst, hlast⟩
    exact ⟨Int.lt_of_le_of_lt hbegin hfinish, Int.lt_of_le_of_lt hbegin hlast,
      Int.lt_of_le_of_lt hfirst hfinish⟩

namespace AdditionalEdge

/-- The identifiers of the stations from which and to which an edge leads. -/
def ends : AdditionalEdge → String × String
  | .hotel station _ _ _ => (station, station)
  | .mumo source target _ _ _ _ _ => (source, target)

/-- The window of an edge, if it has one. -/
def window? : AdditionalEdge → Option RequestedWindow
  | .hotel _ _ _ _ => none
  | .mumo _ _ _ _ _ _ window => window

/-- Both stations are known, and the window opens during the schedule. -/
structure Usable (tt : Timetable) (extra : AdditionalEdge) : Prop where
  source : tt.Knows extra.ends.1
  target : tt.Knows extra.ends.2
  opens : ∀ window ∈ extra.window?, window.Opens tt.period

instance (tt : Timetable) (extra : AdditionalEdge) : Decidable (extra.Usable tt) :=
  decidable_of_iff (tt.Knows extra.ends.1 ∧ tt.Knows extra.ends.2 ∧
    ∀ window ∈ extra.window?, window.Opens tt.period)
    ⟨fun ⟨hsource, htarget, hopens⟩ => ⟨hsource, htarget, hopens⟩,
      fun h => ⟨h.source, h.target, h.opens⟩⟩

/-- The edge that a request's edge comes to, between the nodes of its stations. -/
structure ComesTo (tt : Timetable) (extra : AdditionalEdge) (edge : Edge) : Prop where
  resolved : extra.resolve? tt = some edge
  tail : ∃ s ∈ tt.stations, s.id.text = extra.ends.1 ∧ s.node = edge.tail
  head : ∃ s ∈ tt.stations, s.id.text = extra.ends.2 ∧ s.node = edge.head

end AdditionalEdge

variable {tt : Timetable} {id : String} {node : NodeId} {extra : AdditionalEdge} {edge : Edge}

theorem Timetable.exists_mem_of_stationNode? (h : tt.stationNode? id = some node) :
    ∃ s ∈ tt.stations, s.id.text = id ∧ s.node = node := by
  obtain ⟨index, s, hs, hnamed⟩ := exists_of_stationNode? h
  exact ⟨s, Array.mem_of_getElem? hs, hnamed⟩

/-- The stations that are known are those that have a node. -/
theorem Timetable.knows_iff : tt.Knows id ↔ ∃ node, tt.stationNode? id = some node := by
  constructor
  · rintro ⟨s, hs, htext⟩
    unfold stationNode? stationIndex?
    cases hi : tt.stations.findIdx? fun s => s.id.text == id with
    | none =>
      have hnone := Array.findIdx?_eq_none_iff.1 hi s hs
      rw [htext, beq_self_eq_true] at hnone
      cases hnone
    | some i =>
      obtain ⟨hlt, -⟩ := Array.findIdx?_eq_some_iff_getElem.1 hi
      refine ⟨tt.stations[i].node, ?_⟩
      simp [Array.getElem?_eq_getElem hlt]
  · rintro ⟨node, hnode⟩
    obtain ⟨s, hs, htext, -⟩ := Timetable.exists_mem_of_stationNode? hnode
    exact ⟨s, hs, htext⟩

/-- A window that opens has a place in the schedule. -/
theorem RequestedWindow.opens_iff_resolve? {period : Period} {window : RequestedWindow}
    (hceiling : period.finish ≤ Bounded.ceiling) :
    window.Opens period ↔ ∃ resolved, window.resolve? period = some resolved := by
  cases window with
  | daily begin finish => exact iff_of_true trivial ⟨_, rfl⟩
  | absolute begin finish =>
    rcases resolve?_absolute_cases hceiling with ⟨hnever, hnone⟩ | ⟨hopens, b, e, -, -, hsome⟩
    · refine iff_of_false hnever ?_
      rintro ⟨resolved, hresolved⟩
      rw [hnone] at hresolved
      cases hresolved
    · exact iff_of_true hopens ⟨_, hsome⟩

namespace AdditionalEdge

/-- An edge joins the nodes of its stations. -/
theorem nodes_of_resolve? (h : extra.resolve? tt = some edge) :
    tt.stationNode? extra.ends.1 = some edge.tail ∧
      tt.stationNode? extra.ends.2 = some edge.head := by
  cases extra with
  | hotel station checkout minStay price =>
    obtain ⟨node, hnode, h⟩ := Option.bind_eq_some_iff.1 h
    cases h
    exact ⟨hnode, hnode⟩
  | mumo source target duration price id name window =>
    obtain ⟨tail, htail, h⟩ := Option.bind_eq_some_iff.1 h
    obtain ⟨head, hhead, h⟩ := Option.bind_eq_some_iff.1 h
    cases window with
    | none =>
      cases h
      exact ⟨htail, hhead⟩
    | some window =>
      obtain ⟨resolved, -, h⟩ := Option.bind_eq_some_iff.1 h
      cases h
      exact ⟨htail, hhead⟩

/-- Nothing else is needed of an edge than its stations and its window. -/
theorem exists_resolve?_iff : (∃ edge, extra.resolve? tt = some edge) ↔
    (∃ tail, tt.stationNode? extra.ends.1 = some tail) ∧
      (∃ head, tt.stationNode? extra.ends.2 = some head) ∧
      ∀ window ∈ extra.window?, ∃ resolved, window.resolve? tt.period = some resolved := by
  cases extra with
  | hotel station checkout minStay price =>
    cases htail : tt.stationNode? station <;> simp [resolve?, ends, window?, htail]
  | mumo source target duration price id name window =>
    cases htail : tt.stationNode? source with
    | none => simp [resolve?, ends, htail]
    | some tail =>
      cases hhead : tt.stationNode? target with
      | none => simp [resolve?, ends, htail, hhead]
      | some head =>
        cases window with
        | none => simp [resolve?, ends, window?, htail, hhead]
        | some window =>
          cases hresolved : window.resolve? tt.period <;>
            simp [resolve?, ends, window?, htail, hhead, hresolved]

theorem comesTo_of_resolve? (h : extra.resolve? tt = some edge) : extra.ComesTo tt edge := by
  obtain ⟨htail, hhead⟩ := nodes_of_resolve? h
  exact ⟨h, Timetable.exists_mem_of_stationNode? htail,
    Timetable.exists_mem_of_stationNode? hhead⟩

/-- The edges that can be used are those that come to an edge of the graph. -/
theorem usable_iff (hceiling : tt.period.finish ≤ Bounded.ceiling) :
    extra.Usable tt ↔ ∃ edge, extra.resolve? tt = some edge := by
  rw [exists_resolve?_iff, ← Timetable.knows_iff, ← Timetable.knows_iff]
  constructor
  · rintro ⟨hsource, htarget, hopens⟩
    refine ⟨hsource, htarget, fun window hwindow => ?_⟩
    exact (RequestedWindow.opens_iff_resolve? hceiling).1 (hopens window hwindow)
  · rintro ⟨hsource, htarget, hresolved⟩
    refine ⟨hsource, htarget, fun window hwindow => ?_⟩
    exact (RequestedWindow.opens_iff_resolve? hceiling).2 (hresolved window hwindow)

/-- The additional edges of a graph are those that can be used, in their order. -/
theorem forall₂_comesTo (hceiling : tt.period.finish ≤ Bounded.ceiling)
    (extras : List AdditionalEdge) :
    List.Forall₂ (ComesTo tt) (extras.filter fun extra => extra.Usable tt)
      (QueryGraph.make tt extras).extra.toList := by
  show List.Forall₂ (ComesTo tt) _ (extras.filterMap (resolve? tt))
  induction extras with
  | nil => exact .nil
  | cons extra extras ih =>
    by_cases husable : extra.Usable tt
    · obtain ⟨edge, hedge⟩ := (usable_iff hceiling).1 husable
      rw [List.filter_cons, if_pos (decide_eq_true husable), List.filterMap_cons_some hedge]
      exact .cons (comesTo_of_resolve? hedge) ih
    · have hnone : extra.resolve? tt = none := by
        rw [Option.eq_none_iff_forall_ne_some]
        intro edge hedge
        exact husable ((usable_iff hceiling).2 ⟨edge, hedge⟩)
      rw [List.filter_cons, if_neg (by simpa using husable), List.filterMap_cons_none hnone]
      exact ih

end AdditionalEdge

/-! ## Both directions -/

section Graph

variable {graph : QueryGraph} {ref : EdgeRef} {direction : Direction}

theorem Timetable.Adjacent.count_eq_one_iff (h : graph.timetable.Adjacent) :
    (graph.edgesAt node direction).count ref = 1 ↔
      graph.Has ref ∧ (graph.edge ref).source direction = node := by
  rw [← h.mem_edgesAt]
  constructor
  · intro hcount
    refine List.count_pos_iff.1 ?_
    omega
  · exact List.count_eq_one_of_mem (h.nodup_edgesAt node direction)

/-- An edge that leads from one node to another going forward leads back going backward. -/
theorem Timetable.Adjacent.converse (h : graph.timetable.Adjacent) (u v : NodeId) :
    (graph.edgesAt u .forward).count ref = 1 ∧ graph.target ref .forward = v ↔
      (graph.edgesAt v .backward).count ref = 1 ∧ graph.target ref .backward = u := by
  rw [h.count_eq_one_iff, h.count_eq_one_iff]
  show (_ ∧ (graph.edge ref).tail = u) ∧ (graph.edge ref).head = v ↔
    (_ ∧ (graph.edge ref).head = v) ∧ (graph.edge ref).tail = u
  rw [and_right_comm]

end Graph

/-- Whatever edges a request brings to a timetable that calls have put together: in the graph are
those that can be used, for which a window has to open during the schedule; if that has at least one
day, the window opens if and only if the two have an instant in common (a schedule of no days is a
midnight, and a window around it opens all the same); an edge is listed at most once at a node, and it
is if it is taken from there; an edge that leads from one node to another going forward leads back
going backward; each list has the edges of the timetable before the additional ones, both in order; and
putting the additional ones into lists as they come makes the same lists. -/
theorem adjacency_converse {period : Period} {calls : List Call} {extras : List AdditionalEdge}
    {graph : QueryGraph}
    (hgraph : graph = QueryGraph.make ((Assembly.new period).calls calls).build extras) :
    (graph.timetable.period.finish ≤ Bounded.ceiling →
      List.Forall₂ (AdditionalEdge.ComesTo graph.timetable)
        (extras.filter fun extra => extra.Usable graph.timetable) graph.extra.toList) ∧
    (0 < graph.timetable.period.days → ∀ begin finish,
      (RequestedWindow.absolute begin finish).Opens graph.timetable.period ↔
        ∃ instant : Int, (begin ≤ instant ∧ instant < finish) ∧
          graph.timetable.period.toInstant 0 ≤ instant ∧
          instant < graph.timetable.period.toInstant graph.timetable.period.finish) ∧
    (∀ node direction ref, (graph.edgesAt node direction).count ref ≤ 1 ∧
      ((graph.edgesAt node direction).count ref = 1 ↔
        graph.Has ref ∧ (graph.edge ref).source direction = node)) ∧
    (∀ ref u v, (graph.edgesAt u .forward).count ref = 1 ∧ graph.target ref .forward = v ↔
      (graph.edgesAt v .backward).count ref = 1 ∧ graph.target ref .backward = u) ∧
    (∀ node direction, ∃ (ids : List EdgeId) (positions : List Nat),
      graph.edgesAt node direction = ids.map .timetable ++ positions.map .extra ∧
        ids.Pairwise (· < ·) ∧ positions.Pairwise (· < ·)) ∧
    (EdgeTables.ofRequest graph.timetable extras).edges = graph.extra ∧
    ∀ direction node, (EdgeTables.ofRequest graph.timetable extras).lists direction node =
      graph.extraAt node direction := by
  have hadjacent : graph.timetable.Adjacent := by
    rw [hgraph]
    exact Builder.build_adjacent ((Assembly.reached_new period).calls calls).inOrder.ends
  refine ⟨?_, RequestedWindow.opens_iff_exists, ?_, fun ref u v => hadjacent.converse u v, ?_, ?_,
    ?_⟩
  · intro hceiling
    rw [hgraph] at hceiling ⊢
    exact AdditionalEdge.forall₂_comesTo hceiling extras
  · intro node direction ref
    exact ⟨List.nodup_iff_count_le_one.1 (hadjacent.nodup_edgesAt node direction) ref,
      hadjacent.count_eq_one_iff⟩
  · intro node direction
    exact ⟨_, _, rfl, hadjacent.ascends node direction, graph.pairwise_extraAt node direction⟩
  · rw [hgraph]
    exact EdgeTables.edges_ofRequest _ extras
  · intro direction node
    rw [hgraph]
    exact EdgeTables.lists_ofRequest _ extras direction node

/-- A way from A to B, and one from A back to where it began. -/
def walkCalls : List Call :=
  [.station "A" "A" 2, .station "B" "B" 2, .footpath 0 1 5, .footpath 0 0 3]

/-- Three edges that can be used on the second of March 2026; a ride to a station that is unknown, and
one that is over when the day begins. -/
def marchExtras : List AdditionalEdge :=
  [.mumo "A" "Q" 15 30 7 "taxi" none,
    .hotel "A" 540 360 80,
    .mumo "B" "A" 15 30 7 "taxi" (some (.absolute 1772402400 1772409600)),
    .mumo "B" "A" 15 30 7 "taxi" (some (.absolute 1772406000 1772416800)),
    .mumo "A" "B" 15 30 7 "taxi" none]

/-- The hotel is listed at A in both directions, and so is the way back to A; the ride from B is the
second of the additional edges, since two have been left out. -/
theorem adjacency_converse_walks : ∃ (period : Period) (graph : QueryGraph),
    graph = QueryGraph.make ((Assembly.new period).calls walkCalls).build marchExtras ∧
    graph.timetable.period.finish ≤ Bounded.ceiling ∧
    graph.edgesAt 0 .forward = [.timetable 0, .timetable 1, .extra 0, .extra 2] ∧
    graph.edgesAt 0 .backward = [.timetable 1, .extra 0, .extra 1] ∧
    List.Forall₂ (AdditionalEdge.ComesTo graph.timetable)
      [.hotel "A" 540 360 80,
        .mumo "B" "A" 15 30 7 "taxi" (some (.absolute 1772406000 1772416800)),
        .mumo "A" "B" 15 30 7 "taxi" none] graph.extra.toList ∧
    (graph.edgesAt 1 .forward).count (.extra 1) = 1 ∧ graph.target (.extra 1) .forward = 0 := by
  obtain ⟨graph, hgraph⟩ : ∃ graph, graph = QueryGraph.make
    ((Assembly.new ⟨⟨2026, 3, 2, by decide, by decide⟩, 1⟩).calls walkCalls).build marchExtras :=
    ⟨_, rfl⟩
  obtain ⟨hextra, -, -, hconverse, -⟩ := adjacency_converse hgraph
  have hceiling : graph.timetable.period.finish ≤ Bounded.ceiling := by
    rw [hgraph]
    decide +kernel
  have hforward : graph.edgesAt 0 .forward = [.timetable 0, .timetable 1, .extra 0, .extra 2] := by
    rw [hgraph]
    decide +kernel
  have hbackward : graph.edgesAt 0 .backward = [.timetable 1, .extra 0, .extra 1] := by
    rw [hgraph]
    decide +kernel
  have husable : marchExtras.filter (fun extra => extra.Usable graph.timetable) =
      [.hotel "A" 540 360 80,
        .mumo "B" "A" 15 30 7 "taxi" (some (.absolute 1772406000 1772416800)),
        .mumo "A" "B" 15 30 7 "taxi" none] := by
    rw [hgraph]
    decide +kernel
  have htarget : graph.target (.extra 1) .backward = 1 := by
    rw [hgraph]
    decide +kernel
  have hall := hextra hceiling
  rw [husable] at hall
  have hback : (graph.edgesAt 0 .backward).count (.extra 1) = 1 := by
    rw [hbackward]
    decide
  exact ⟨_, graph, hgraph, hceiling, hforward, hbackward, hall,
    (hconverse (.extra 1) 1 0).2 ⟨hback, htarget⟩⟩

end JourneyPlanner
