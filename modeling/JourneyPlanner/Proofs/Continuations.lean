import JourneyPlanner.Proofs.Network.Tables
import JourneyPlanner.Proofs.Search.Traverse

/-!
# Going on as another trip, and coming from one

A through edge names for each trip that arrives the one as which it goes on. A search looks there
for the trip that it is on: going forward among those that arrive, going backward among those that
are named. The main result of this file, `through_converse_iff`:

> whatever is called before and after, a through edge that is accepted leads backward from a trip to
> the first of those that go on as this trip, if there are any. The two directions are converse to
> each other, and a search stays aboard in the one wherever it does in the other, if and only if no
> trip is named twice.

That a trip is named twice is not looked for when an edge is accepted. No search comes backward to
the second of two trips that go on as the same (`second_origin_lost`).
-/

namespace JourneyPlanner

namespace EdgeKind

/-- No two trips go on as the same one. -/
def NamesOnce (trips : List (Option Nat)) : Prop := (trips.filterMap id).Nodup

instance (trips : List (Option Nat)) : Decidable (NamesOnce trips) :=
  inferInstanceAs (Decidable (trips.filterMap id).Nodup)

variable {trips : List (Option Nat)} {i t : Nat}

/-- Where a trip is named there is one from which it comes. -/
theorem exists_origin?_iff :
    (∃ i, origin? trips t = some i) ↔ ∃ i, continuation? trips i = some t := by
  constructor
  · rintro ⟨i, hi⟩
    exact ⟨i, (origin?_eq_some_iff.1 hi).1⟩
  · rintro ⟨i, hi⟩
    rw [← Option.isSome_iff_exists, origin?, List.findIdx?_isSome, List.any_eq_true]
    exact ⟨some t, List.mem_of_getElem? (continuation?_eq_some_iff.1 hi), beq_self_eq_true _⟩

theorem namesOnce_iff :
    NamesOnce trips ↔ ∀ i j t, continuation? trips i = some t → continuation? trips j = some t →
      i = j := by
  unfold NamesOnce
  rw [List.Nodup, List.pairwise_filterMap, List.pairwise_iff_getElem]
  constructor
  · intro h i j t hi hj
    have hilt := lt_of_continuation? hi
    have hjlt := lt_of_continuation? hj
    rw [continuation?_of_lt hilt] at hi
    rw [continuation?_of_lt hjlt] at hj
    rcases Nat.lt_trichotomy i j with hlt | heq | hgt
    · exact absurd rfl (h i j hilt hjlt hlt t hi t hj)
    · exact heq
    · exact absurd rfl (h j i hjlt hilt hgt t hj t hi)
  · rintro h i j hilt hjlt hlt t hi _ hj rfl
    have hsame := h i j t ((continuation?_of_lt hilt).trans hi) ((continuation?_of_lt hjlt).trans hj)
    exact Nat.ne_of_lt hlt hsame

theorem converse_iff :
    (∀ i t, continuation? trips i = some t ↔ origin? trips t = some i) ↔ NamesOnce trips := by
  rw [namesOnce_iff]
  constructor
  · intro h i j t hi hj
    have hsame := ((h i t).1 hi).symm.trans ((h j t).1 hj)
    exact Option.some.inj hsame
  · intro h i t
    refine ⟨fun hi => origin?_eq_some_iff.2 ⟨hi, fun j hj heq => ?_⟩,
      fun hi => (origin?_eq_some_iff.1 hi).1⟩
    exact Nat.ne_of_lt hj (h j i t heq hi)

end EdgeKind

/-- Whoever is on a trip stays aboard over an edge, and is on another trip then. -/
def StaysAboard (graph : QueryGraph) (ref : EdgeRef) (direction : Direction) (trip next : Nat) :
    Prop :=
  ∀ (label : Label) (day horizon : Nat), label.ride = some { trip, day } →
    edgeCost graph label ref direction horizon = .ok (some { ride := some { trip := next, day } })

/-- A search follows what the edge names. -/
theorem staysAboard_iff {graph : QueryGraph} {ref : EdgeRef} {direction : Direction}
    {trip next : Nat} {trips : List (Option Nat)} (hkind : (graph.edge ref).kind = .through trips) :
    StaysAboard graph ref direction trip next ↔ direction.next? trips trip = some next := by
  constructor
  · intro h
    obtain ⟨label, hride⟩ : ∃ label : Label, label.ride = some { trip, day := 0 } :=
      ⟨{ Label.atStart 0 0 0 false default with ride := some { trip, day := 0 } }, rfl⟩
    rcases (takes_of_edgeCost (h label 0 0 hride)).of_riding hride with
      ⟨hegress, -⟩ | ⟨_, _, _, -, hroute, -⟩ | ⟨_, _, hthrough, hnext, hcost⟩
    · rw [hkind] at hegress
      cases direction <;> cases hegress
    · rw [hkind] at hroute
      cases hroute
    · rw [hkind] at hthrough
      cases hthrough
      cases hcost
      exact hnext
  · intro h label day horizon hride
    exact edgeCost_of_takes (.through trips { trip, day } next hkind hride h)

/-- Who stays aboard in a direction, and as whom, is who does in the other. -/
def Reversible (graph : QueryGraph) (ref : EdgeRef) : Prop :=
  ∀ i t, StaysAboard graph ref .forward i t ↔ StaysAboard graph ref .backward t i

theorem reversible_iff {graph : QueryGraph} {ref : EdgeRef} {trips : List (Option Nat)}
    (hkind : (graph.edge ref).kind = .through trips) :
    Reversible graph ref ↔ EdgeKind.NamesOnce trips := by
  rw [← EdgeKind.converse_iff]
  refine forall_congr' fun i => forall_congr' fun t => ?_
  rw [staysAboard_iff hkind, staysAboard_iff hkind]
  rfl

namespace Assembly

variable {period : Period} {source target : RouteId} {trips : List (Option Nat)} {id : EdgeId}

/-- A through edge that is accepted is where the answer says. -/
theorem Reached.edge_of_answer {a : Assembly} (h : Reached period a)
    (hid : a.answer? (.through source target trips) = some id) : ∃ edge : Edge,
      (a.call (.through source target trips)).edges[id]? = some edge ∧
        edge.kind = .through trips := by
  rcases h.indexed.call_cases (.through source target trips) with ⟨-, hrefused, -⟩ | ⟨hok, -⟩
  · rw [hrefused] at hid
    cases hid
  · obtain ⟨⟨id', b'⟩, hadd, heq⟩ := Fallible.map_eq_ok.1 hok
    obtain ⟨hsame, hparts⟩ := Prod.mk.inj heq
    rw [hid] at hsame
    cases hsame
    obtain ⟨-, -, tail, head, -, -, -, rfl⟩ := Builder.addThrough_eq_ok hadd
    refine ⟨{ tail, head, kind := .through trips }, ?_, rfl⟩
    rw [← hparts, Builder.addThrough_answer hadd]
    exact Array.getElem?_push_size

/-- Whatever is called later, it stays there. -/
theorem kind_of_answer {before : List Call}
    (hid : ((new period).calls before).answer? (.through source target trips) = some id)
    (later : List Call) (tt : Timetable)
    (htt : tt = ((new period).calls (before ++ .through source target trips :: later)).build) :
    (tt.edge id).kind = .through trips := by
  have hreached := (reached_new period).calls before
  obtain ⟨edge, hedge, hkind⟩ := hreached.edge_of_answer hid
  have hlater := ((hreached.call _).grows later).edge id edge hedge
  rw [htt, Assembly.calls, List.foldl_append, Timetable.edge_eq hlater, hkind]

end Assembly

/-- Whatever is called before and after, going backward over a through edge that is accepted one
comes from the first trip that goes on as one's own, if any does. Forward and backward are converse
to each other, for the mapping and for a search over the edge, if and only if it names no trip
twice. -/
theorem through_converse_iff {period : Period} {before : List Call} {source target : RouteId}
    {trips : List (Option Nat)} {id : EdgeId}
    (haccepted : ((Assembly.new period).calls before).answer? (.through source target trips) =
      some id) (later : List Call) :
    (((Assembly.new period).calls
        (before ++ .through source target trips :: later)).build.edge id).kind = .through trips ∧
      (∀ i t, EdgeKind.origin? trips t = some i ↔ EdgeKind.continuation? trips i = some t ∧
        ∀ j < i, EdgeKind.continuation? trips j ≠ some t) ∧
      (∀ t, (∃ i, EdgeKind.origin? trips t = some i) ↔
        ∃ i, EdgeKind.continuation? trips i = some t) ∧
      ((∀ i t, EdgeKind.continuation? trips i = some t ↔ EdgeKind.origin? trips t = some i) ↔
        EdgeKind.NamesOnce trips) ∧
      ∀ graph : QueryGraph, graph.timetable = ((Assembly.new period).calls
          (before ++ .through source target trips :: later)).build →
        (Reversible graph (.timetable id) ↔ EdgeKind.NamesOnce trips) := by
  have hkind := Assembly.kind_of_answer haccepted later
  exact ⟨hkind _ rfl, fun i t => EdgeKind.origin?_eq_some_iff,
    fun t => EdgeKind.exists_origin?_iff, EdgeKind.converse_iff,
    fun graph hgraph => reversible_iff (hkind graph.timetable hgraph)⟩

/-- Trains from `A` to `B` and from there to `C`, at these times. -/
def connecting (arriving departing : List (Nat × Nat)) : List Call :=
  let trip (times : Nat × Nat) : Trip :=
    ⟨0, DayMask.all, [⟨none, some times.1, none, none⟩, ⟨some times.2, none, none, none⟩]⟩
  [.category "RE", .info ⟨0, 1, "1", [], 0⟩, .station "A" "A" 0, .station "B" "B" 5,
    .station "C" "C" 0, .route [0, 1] (arriving.map trip), .route [1, 2] (departing.map trip)]

/-- Three trains to `B`, and two that go on from there when they have all arrived. -/
def trioCalls : List Call := connecting [(10, 20), (15, 22), (16, 24)] [(25, 30), (35, 40)]

/-- Two of three trains go on, each as a train of its own. -/
theorem through_converse_iff_trioCalls : ∃ (period : Period) (id : EdgeId),
    ((Assembly.new period).calls trioCalls).answer?
      (.through 0 1 [some 1, none, some 0]) = some id ∧
    (∀ i t, EdgeKind.continuation? [some 1, none, some 0] i = some t ↔
      EdgeKind.origin? [some 1, none, some 0] t = some i) ∧
    ∀ graph : QueryGraph, graph.timetable = ((Assembly.new period).calls
        (trioCalls ++ [.through 0 1 [some 1, none, some 0]])).build →
      Reversible graph (.timetable id) := by
  let period : Period := ⟨⟨2026, 3, 2, by decide, by decide⟩, 1⟩
  have haccepted : ((Assembly.new period).calls trioCalls).answer?
      (.through 0 1 [some 1, none, some 0]) = some 6 := by
    decide +kernel
  obtain ⟨-, -, -, hconverse, hsearch⟩ := through_converse_iff haccepted []
  exact ⟨period, 6, haccepted, hconverse.2 (by decide),
    fun graph hgraph => (hsearch graph hgraph).2 (by decide)⟩

/-- Two trains to `B`, and one that goes on from there. -/
def pairCalls : List Call := connecting [(10, 20), (15, 22)] [(25, 30)]

/-- Two trains go on as the same one, which is accepted. Going forward a search stays aboard from
the second of them, and going backward it does not come there. -/
theorem second_origin_lost : ∃ (period : Period) (id : EdgeId),
    ((Assembly.new period).calls pairCalls).answer? (.through 0 1 [some 0, some 0]) = some id ∧
    EdgeKind.continuation? [some 0, some 0] 1 = some 0 ∧
    EdgeKind.origin? [some 0, some 0] 0 ≠ some 1 ∧
    ∀ graph : QueryGraph, graph.timetable = ((Assembly.new period).calls
        (pairCalls ++ [.through 0 1 [some 0, some 0]])).build →
      StaysAboard graph (.timetable id) .forward 1 0 ∧
        ¬ StaysAboard graph (.timetable id) .backward 0 1 := by
  let period : Period := ⟨⟨2026, 3, 2, by decide, by decide⟩, 1⟩
  have haccepted : ((Assembly.new period).calls pairCalls).answer?
      (.through 0 1 [some 0, some 0]) = some 6 := by
    decide +kernel
  refine ⟨period, 6, haccepted, rfl, by decide, fun graph hgraph => ?_⟩
  have hkind : (graph.edge (.timetable 6)).kind = .through [some 0, some 0] :=
    Assembly.kind_of_answer haccepted [] graph.timetable hgraph
  exact ⟨(staysAboard_iff hkind).2 rfl,
    fun hback => absurd ((staysAboard_iff hkind).1 hback) (by decide)⟩

end JourneyPlanner
