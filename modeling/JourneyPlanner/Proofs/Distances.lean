import JourneyPlanner.Proofs.Query.Bounds
import JourneyPlanner.Proofs.Router
import Mathlib.Order.Bounds.Defs

/-!
# Lower bounds are exact

The main result of this file, `lowerBounds_exact`:

> whatever edges a request brings along, the bound of a node is the least that the edges
> of any path from there to the goal come to, as long as that is below the ceiling, and
> the ceiling where there is no such path; and the distances stop spreading by
> themselves.

This holds of the minutes, the boardings and the price alike, since nothing is used of
a weight but that it is a number. A path may pass a node as often as it likes, and edges
without weight may lead round in circles: of all the sums below the ceiling there is
still a least one, and `LowerBounds.exists_way` has the path to it.
-/

namespace JourneyPlanner

namespace LowerBounds

open Bounded

/-- What the edges of each path from a node to `goal` come to. -/
def pathSums (graph : QueryGraph) (direction : Direction) (weight : EdgeKind → Nat)
    (goal node : NodeId) : Set Nat :=
  {total | ∃ rest, Way graph direction weight goal (node :: rest) total}

/-- Every node of the graph has its distance. -/
structure Exact (graph : QueryGraph) (direction : Direction) (weight : EdgeKind → Nat)
    (goal : NodeId) (distances : Array Nat) : Prop where
  size_eq : distances.size = graph.timetable.nodes.size
  goal_eq : distances[goal]? = some 0
  getElem?_eq_iff : ∀ node < graph.timetable.nodes.size, ∀ distance,
    distances[node]? = some distance ↔
      (IsLeast (pathSums graph direction weight goal node) distance ∧ distance < ceiling) ∨
        (distance = ceiling ∧
          ∀ total ∈ pathSums graph direction weight goal node, ceiling ≤ total)

variable {graph : QueryGraph} {goal : NodeId}

theorem exact_distances (hg : graph.Sound) (hgoal : goal < graph.timetable.nodes.size)
    (direction : Direction) (weight : EdgeKind → Nat) :
    Exact graph direction weight goal (distances graph goal direction weight) := by
  have hget : ∀ node < graph.timetable.nodes.size,
      (distances graph goal direction weight)[node]? =
        some (distanceAt (distances graph goal direction weight) node) := by
    intro node hnode
    have hlt : node < (distances graph goal direction weight).size := by
      rw [size_distances]
      exact hnode
    simp [distanceAt, hlt]
  have hlower : ∀ node, ∀ total ∈ pathSums graph direction weight goal node,
      distanceAt (distances graph goal direction weight) node ≤ total := by
    rintro node total ⟨rest, way⟩
    exact distanceAt_le hg hgoal way
  refine ⟨size_distances, ?_, fun node hnode distance => ?_⟩
  · rw [hget goal hgoal, distanceAt_goal hg hgoal]
  · rw [hget node hnode, Option.some.injEq]
    have hceiling : distanceAt (distances graph goal direction weight) node ≤ ceiling :=
      distanceAt_le_ceiling hg hgoal node
    constructor
    · rintro rfl
      rcases Nat.lt_or_eq_of_le hceiling with hlt | heq
      · exact Or.inl ⟨⟨exists_way hg hgoal hlt, hlower node⟩, hlt⟩
      · refine Or.inr ⟨heq, fun total htotal => ?_⟩
        rw [← heq]
        exact hlower node total htotal
    · rintro (⟨⟨hmem, hleast⟩, hlt⟩ | ⟨rfl, hfar⟩)
      · have hle := hlower node distance hmem
        exact Nat.le_antisymm hle
          (hleast (exists_way hg hgoal (Nat.lt_of_le_of_lt hle hlt)))
      · refine Nat.le_antisymm hceiling (Nat.le_of_not_lt fun hlt => ?_)
        exact absurd hlt (Nat.not_lt.2 (hfar _ (exists_way hg hgoal hlt)))

end LowerBounds

/-- The bounds of a query are the distances of shortest paths, and no entry is left on the agenda
from which they could have come nearer. -/
theorem lowerBounds_exact {fixture : Fixture} {tt : Timetable} (hbuild : fixture.build = .ok tt)
    (edges : List AdditionalEdge) {goal : NodeId} (hgoal : goal < tt.nodes.size)
    (direction : Direction) :
    let graph := QueryGraph.make tt edges
    let bounds := LowerBounds.compute graph goal direction
    (LowerBounds.Exact graph direction LowerBounds.minutesOf goal bounds.minutes ∧
      LowerBounds.Exact graph direction (LowerBounds.boardingsOf direction) goal
        bounds.boardings ∧
      LowerBounds.Exact graph direction (LowerBounds.priceOf tt) goal bounds.price) ∧
    ∀ weight, (LowerBounds.spread graph goal direction weight).agenda = [] := by
  have hg : (QueryGraph.make tt edges).Sound :=
    QueryGraph.make_sound (Fixture.build_sound hbuild) edges
  exact ⟨⟨LowerBounds.exact_distances hg hgoal _ _, LowerBounds.exact_distances hg hgoal _ _,
    LowerBounds.exact_distances hg hgoal _ _⟩,
    fun weight => (LowerBounds.spread_spec hg hgoal).2⟩

/-- Two stations that are no time apart, and two more with no way to them but what a request
brings along. -/
def farOut : Fixture :=
  { firstDay := Fixture.firstMonday, days := 1, categories := [],
    stations := [.plain "A" 0, .plain "B" 0, .plain "C" 0, .plain "D" 0], routes := [],
    footpaths := [⟨"A", "B", 0⟩, ⟨"B", "A", 0⟩], through := [] }

/-- Two rides, which together take longer than can be counted. -/
def farOut.rides : List AdditionalEdge :=
  [.mumo "B" "C" 3000000000 2 1 "cab" none, .mumo "C" "D" 3000000000 2 2 "cab" none]

/-- The bounds of the four stations. -/
def farOut.boundsMatch (tt : Timetable) : Bool :=
  let bounds := LowerBounds.compute (QueryGraph.make tt farOut.rides) 3 .forward
  decide (tt.nodes.size = 4) &&
    decide (bounds.minutes = #[Bounded.ceiling, Bounded.ceiling, 3000000000, 0]) &&
    decide (bounds.price = #[4, 4, 2, 0])

/-- From the first station the last one costs four, and takes too long by any path. -/
theorem lowerBounds_exact_farOut : ∃ tt, farOut.build = .ok tt ∧ 3 < tt.nodes.size ∧
    IsLeast (LowerBounds.pathSums (QueryGraph.make tt farOut.rides) .forward
      (LowerBounds.priceOf tt) 3 0) 4 ∧
    ∀ total ∈ LowerBounds.pathSums (QueryGraph.make tt farOut.rides) .forward
      LowerBounds.minutesOf 3 0, Bounded.ceiling ≤ total := by
  have hfound : farOut.build.toOption.any farOut.boundsMatch = true := by decide +kernel
  obtain ⟨tt, hbuild, hmatch⟩ := (Option.any_eq_true _ _).1 hfound
  have hbuild := Fixture.toOption_eq_some hbuild
  unfold farOut.boundsMatch at hmatch
  simp only [Bool.and_eq_true, decide_eq_true_eq] at hmatch
  obtain ⟨⟨hsize, hminutes⟩, hprice⟩ := hmatch
  have hgoal : 3 < tt.nodes.size := by omega
  have hfirst : 0 < tt.nodes.size := by omega
  obtain ⟨⟨hminutesExact, -, hpriceExact⟩, -⟩ :=
    lowerBounds_exact hbuild farOut.rides hgoal .forward
  refine ⟨tt, hbuild, hgoal, ?_, ?_⟩
  · rcases (hpriceExact.getElem?_eq_iff 0 hfirst 4).1 (by rw [hprice]; rfl) with hleast | hfar
    · exact hleast.1
    · exact absurd hfar.1 (by decide)
  · rcases (hminutesExact.getElem?_eq_iff 0 hfirst Bounded.ceiling).1 (by rw [hminutes]; rfl)
      with hleast | hfar
    · exact absurd hleast.2 (Nat.lt_irrefl _)
    · exact hfar.2

end JourneyPlanner
