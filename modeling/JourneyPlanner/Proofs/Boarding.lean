import JourneyPlanner.Proofs.Search.Horizon
import JourneyPlanner.Proofs.Router

/-!
# The first vehicle that can be boarded

The main result of this file, `boarding_first_feasible`:

> someone about to board takes, of all runs of a trip that leave within the horizon and
> with time for the change, the one that a search meets first; and no cost comes back
> exactly if there is no such run.

What may be boarded (`Label.Feasible`) is said without windows. The ends of the window
that `Timetable.board?` looks through are cut at the ceiling, and so is the sum of the
present time and the change. This makes no difference, since every run of a timetable
lies below the ceiling (`Timetable.Sound.event_spec`). The one exception is a label that
goes backward from the ceiling itself, where a change of any length would seem to fit.

The first event of the window need not be feasible, as the time for the change depends
on what is boarded. That the one found is the first feasible one rests on the order of
the events (`Window.find?_make_spec`).
-/

namespace JourneyPlanner

/-- An event that a label can wait for: a pinned label has to meet it at once, any other within the
horizon of its start. -/
def Label.CanAwait (label : Label) (horizon : Nat) (event : Event) : Direction → Prop
  | .forward => label.now ≤ event.departure ∧
      if label.pinned then event.departure = label.now
      else event.departure ≤ label.start + horizon
  | .backward => event.arrival ≤ label.now ∧
      if label.pinned then event.arrival = label.now
      else label.start - horizon ≤ event.arrival

/-- There is time to change between the vehicle used last, if there was one, and that of an
event. -/
def Label.CanChange (tt : Timetable) (label : Label) (event : Event) : Direction → Prop
  | .forward => ∀ last ∈ label.lastConnection,
      label.now + tt.interchangeTime label.node last.category
        (tt.info event.leg.info).category ≤ event.departure
  | .backward => ∀ last ∈ label.lastConnection,
      event.arrival + tt.interchangeTime label.node (tt.info event.leg.info).category
        last.category ≤ label.now

/-- A run of a trip that a label can board. -/
structure Label.Feasible (tt : Timetable) (label : Label) (legs : Array Leg)
    (direction : Direction) (horizon : Nat) (event : Event) : Prop where
  at?_eq : Event.at? legs event.trip event.day = some event
  day_lt : event.day < tt.period.days
  runsOn : event.leg.days.runsOn event.day = true
  canAwait : label.CanAwait horizon event direction
  canChange : label.CanChange tt event direction

/-- Of the events of which something holds, the one that a search meets first. -/
def Event.IsFirst (direction : Direction) (P : Event → Prop) (event : Event) : Prop :=
  P event ∧ ∀ other, P other → event = other ∨ event.Before direction other

section Window

variable {tt : Timetable} {label : Label} {legs : Array Leg} {direction : Direction}
  {horizon : Nat} {event : Event}

/-- The window for boarding holds what a label can wait for. -/
theorem Label.canAwait_iff (hlt : event.key direction < Bounded.ceiling) :
    label.CanAwait horizon event direction ↔
      (Timetable.boardingWindow label direction horizon).1 ≤ event.key direction ∧
        event.key direction < (Timetable.boardingWindow label direction horizon).2 := by
  unfold Label.CanAwait Timetable.boardingWindow
  cases direction <;> cases label.pinned <;>
    simp only [Event.key, Bounded.add, reduceIte, Bool.false_eq_true, Time] at * <;> omega

/-- A change fits before, or backward after, the event if it does so without the ceiling. -/
theorem Label.canChange_iff (hlt : event.key direction < Bounded.ceiling)
    (hroom : direction = .backward → label.now < Bounded.ceiling)
    (hawait : label.CanAwait horizon event direction) :
    label.CanChange tt event direction ↔ label.inTime tt direction event = true := by
  unfold Label.CanAwait at hawait
  unfold Label.CanChange Label.inTime Timetable.changeTime Event.leaves
  cases direction <;> cases label.lastConnection <;> dsimp only <;> rw [decide_eq_true_eq] <;>
    simp only [Event.key, Bounded.add, Option.mem_def, Option.some.injEq, forall_eq', reduceCtorEq,
      false_implies, implies_true, true_iff, eq_self, true_implies, Time] at * <;>
    omega

/-- The feasible events are those of the window that leave time for the change. -/
theorem Label.feasible_iff (hsorted : legs.toList.Pairwise Leg.NoLater)
    (hlt : ∀ trip day event, Event.at? legs trip day = some event → day < tt.period.days →
      event.key direction < Bounded.ceiling)
    (hroom : direction = .backward → label.now < Bounded.ceiling) :
    label.Feasible tt legs direction horizon event ↔
      event ∈ (label.boardable tt legs direction horizon).events ∧
        label.inTime tt direction event = true := by
  rw [Label.mem_boardable_iff hsorted]
  constructor
  · rintro ⟨hat, hday, hruns, hawait, hchange⟩
    have hkey := hlt _ _ _ hat hday
    exact ⟨⟨hat, hruns, hday, (Label.canAwait_iff hkey).1 hawait⟩,
      (Label.canChange_iff hkey hroom hawait).1 hchange⟩
  · rintro ⟨⟨hat, hruns, hday, hin⟩, htime⟩
    have hkey := hlt _ _ _ hat hday
    have hawait := (Label.canAwait_iff hkey).2 hin
    exact ⟨hat, hday, hruns, hawait, (Label.canChange_iff hkey hroom hawait).2 htime⟩

end Window

/-- Whoever is about to board takes the first feasible run, which the cost leads to the end of (or
backward to the beginning), and nothing if there is none. -/
theorem boarding_first_feasible {fixture : Fixture} {tt : Timetable}
    (hbuild : fixture.build = .ok tt) {graph : QueryGraph} (hgraph : graph.timetable = tt)
    {id : EdgeId} {edge : Edge} (hedge : tt.edges[id]? = some edge) {legs : Array Leg}
    (hkind : edge.kind = .route legs) {label : Label} (hride : label.ride = none)
    (hboarding : label.boarding = true) {direction : Direction}
    (hroom : direction = .backward → label.now < Bounded.ceiling) (horizon : Nat) :
    ∃ found : Option Event,
      (found = none ↔ ∀ event, ¬ label.Feasible tt legs direction horizon event) ∧
      (∀ event ∈ found,
        event.IsFirst direction (label.Feasible tt legs direction horizon) ∧
        match direction with
        | .forward => label.now ≤ event.arrival
        | .backward => event.departure ≤ label.now) ∧
      edgeCost graph label (.timetable id) direction horizon = .ok (found.map fun event =>
        { time := match direction with
            | .forward => event.arrival - label.now
            | .backward => label.now - event.departure
          price := (tt.info event.leg.info).price
          transfer := label.lastConnection.isSome
          connection := some { edge := id, trip := event.trip, day := event.day,
                               category := (tt.info event.leg.info).category }
          ride := some { trip := event.trip, day := event.day }
          boarding := false
          hotel := false }) := by
  subst hgraph
  have hsound := Fixture.build_sound hbuild
  have hmem : edge ∈ graph.timetable.edges := Array.mem_of_getElem? hedge
  have hsorted := hsound.parts.sorted edge hmem legs hkind
  have hlt : ∀ trip day event, Event.at? legs trip day = some event →
      day < graph.timetable.period.days → event.key direction < Bounded.ceiling := by
    intro trip day event hat hday
    obtain ⟨-, hle, hlast⟩ := hsound.event_spec hmem hkind hat
    have harrival : event.arrival < Bounded.ceiling := Nat.lt_trans (hlast hday) (by decide)
    cases direction
    · exact Nat.lt_of_le_of_lt hle harrival
    · exact harrival
  have hfeasible : ∀ event, label.Feasible graph.timetable legs direction horizon event ↔ _ :=
    fun event => Label.feasible_iff hsorted hlt hroom
  refine ⟨(label.boardable graph.timetable legs direction horizon).find?
    (label.inTime graph.timetable direction), ?_, fun event hfound => ⟨⟨?_, ?_⟩, ?_⟩, ?_⟩
  · rw [Window.find?_eq, List.find?_eq_none]
    simp only [hfeasible, not_and]
  · exact (hfeasible event).2 (Window.mem_of_find? hfound)
  · intro other hother
    obtain ⟨hin, htime⟩ := (hfeasible other).1 hother
    exact Window.find?_make_spec hsorted hfound hin htime
  · obtain ⟨hat, -, -, hawait, -⟩ := (hfeasible event).2 (Window.mem_of_find? hfound)
    have hle := (hsound.event_spec hmem hkind hat).2.1
    cases direction
    · exact Nat.le_trans hawait.1 hle
    · exact Nat.le_trans hle hawait.1
  · have hsame : (graph.edge (.timetable id)).kind = .route legs := by
      rw [QueryGraph.edge, Timetable.edge_eq hedge, hkind]
    unfold edgeCost
    rw [hsame, hride, hboarding]
    cases direction <;> rfl

/-- Two trains from a station where a change takes ten minutes. -/
def tightChange : Fixture :=
  { firstDay := Fixture.firstMonday, days := 1, categories := ["RE"],
    stations := [.plain "A" 10, .plain "B" 0],
    routes := [⟨["A", "B"], [.single "08:00" "08:10" 0 none, .single "08:20" "08:30" 0 none]⟩],
    footpaths := [], through := [] }

/-- Someone who has come by train, and is at the stop five minutes before the first of the two. -/
def tightChange.waiting : Label :=
  { Label.atStart 2 475 0 false [] with
    boarding := true, lastConnection := some { edge := 0, trip := 0, day := 0, category := 0 } }

/-- The section from there. -/
def tightChange.legs? (tt : Timetable) : Option (Array Leg) := do
  match (← tt.edges[0]?).kind with
  | .route legs => some legs
  | _ => none

/-- The ride of whoever boards there. -/
def tightChange.ride? (tt : Timetable) : Option Ride := do
  let cost ← (edgeCost (QueryGraph.make tt []) tightChange.waiting (.timetable 0) .forward
    1440).toOption
  (← cost).ride

/-- There is no time for the first train, so that the second one is taken. -/
theorem boarding_first_feasible_tightChange : ∃ tt edge legs, tightChange.build = .ok tt ∧
    tt.edges[0]? = some edge ∧ edge.kind = .route legs ∧ ∃ event : Event, event.trip = 1 ∧
    event.IsFirst .forward (tightChange.waiting.Feasible tt legs .forward 1440) := by
  have hfound : tightChange.build.toOption.any (fun tt => (tightChange.legs? tt).isSome &&
      decide (tightChange.ride? tt = some ⟨1, 0⟩)) = true := by decide +kernel
  obtain ⟨tt, hbuild, hmatch⟩ := (Option.any_eq_true _ _).1 hfound
  have hbuild := Fixture.toOption_eq_some hbuild
  rw [Bool.and_eq_true, decide_eq_true_eq, Option.isSome_iff_exists] at hmatch
  obtain ⟨⟨legs, hlegs⟩, hride⟩ := hmatch
  unfold tightChange.legs? at hlegs
  obtain ⟨edge, hedge, hlegs⟩ := Option.bind_eq_some_iff.1 hlegs
  split at hlegs
  · next legs' hkind =>
    cases hlegs
    have hgraph : (QueryGraph.make tt []).timetable = tt := rfl
    have hnone : tightChange.waiting.ride = none := rfl
    have hwaiting : tightChange.waiting.boarding = true := rfl
    have hroom : Direction.forward = .backward →
        tightChange.waiting.now < Bounded.ceiling := fun h => by cases h
    obtain ⟨found, -, hfirst, hcost⟩ :=
      boarding_first_feasible hbuild hgraph hedge hkind hnone hwaiting hroom 1440
    unfold tightChange.ride? at hride
    rw [hcost] at hride
    cases found with
    | none => cases hride
    | some event =>
      have htrip : event.trip = 1 := congrArg Ride.trip (Option.some.inj hride)
      exact ⟨tt, edge, legs, hbuild, hedge, hkind, event, htrip, (hfirst event rfl).1⟩
  · cases hlegs

end JourneyPlanner
