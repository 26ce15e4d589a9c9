import JourneyPlanner.Proofs.Handles
import JourneyPlanner.Proofs.Itinerary.Visits
import Mathlib.Data.List.Destutter
import Mathlib.Data.List.Sort

/-!
# A journey keeps to its path

The main result of this file, `path_in_order`:

> a journey begins at the first station of the path and ends at the last, and between them
> the traveller comes by the whole path in order, each time on no vehicle.

The draft that a journey is written out from stands at the stations of the path one after
the other (`Trail.visits`). Where stations follow each other that are the same, one stop may
stand for them all; taken once each, they are some of the stops in their order
(`Draft.Visits.sublist`).
-/

namespace JourneyPlanner

namespace Journey

/-- Whether the traveller is on no vehicle at a stop: it is the first or the last, or a
vehicle is left there, or a walk begins or ends. -/
def isOff (journey : Journey) (place : Nat) : Bool :=
  place == 0 || place + 1 == journey.stops.length ||
    journey.stops[place]?.any (·.exit) || journey.transports.any (·.walksAt place)

/-- The stops at which the traveller is on no vehicle. -/
def offVehicle (journey : Journey) : List Stop :=
  ((List.range journey.stops.length).filter journey.isOff).filterMap (journey.stops[·]?)

end Journey

/-! ## Places and stations -/

/-- In an ascending list of places, those that follow each other at one station can be left
out but for one. -/
theorem exists_map_eq_destutter' {α : Type} [DecidableEq α] (f : Nat → α) (place : Nat)
    (places : List Nat) (h : (place :: places).Pairwise (· ≤ ·)) :
    ∃ rest, (place :: rest).Pairwise (· < ·) ∧ rest ⊆ places ∧
      (places.map f).destutter' (· ≠ ·) (f place) = (place :: rest).map f := by
  induction places generalizing place with
  | nil => exact ⟨[], List.pairwise_singleton _ _, List.Subset.refl _, rfl⟩
  | cons next places ih =>
    rw [List.map_cons]
    by_cases hne : f place ≠ f next
    · obtain ⟨rest, hsorted, hsub, heq⟩ := ih next h.of_cons
      rw [List.destutter'_cons_pos (h := hne), heq]
      have hlt : place < next := by
        refine Nat.lt_of_le_of_ne (List.rel_of_pairwise_cons h List.mem_cons_self) ?_
        rintro rfl
        exact hne rfl
      refine ⟨next :: rest, hsorted.cons fun later hlater => ?_, List.cons_subset_cons _ hsub, rfl⟩
      rcases List.mem_cons.1 hlater with rfl | hlater
      · exact hlt
      · exact Nat.lt_trans hlt (List.rel_of_pairwise_cons hsorted hlater)
    · -- the next place is passed over
      rw [List.destutter'_cons_neg (h := hne)]
      obtain ⟨rest, hsorted, hsub, heq⟩ :=
        ih place (h.sublist (List.Sublist.cons_cons _ (List.sublist_cons_self _ _)))
      exact ⟨rest, hsorted, List.subset_cons_of_subset _ hsub, heq⟩

theorem exists_map_eq_destutter {α : Type} [DecidableEq α] (f : Nat → α) {places : List Nat}
    (h : places.Pairwise (· ≤ ·)) : ∃ kept, kept.Pairwise (· < ·) ∧ kept ⊆ places ∧
      (places.map f).destutter (· ≠ ·) = kept.map f := by
  cases places with
  | nil => exact ⟨[], .nil, List.Subset.refl _, rfl⟩
  | cons place places =>
    obtain ⟨rest, hsorted, hsub, heq⟩ := exists_map_eq_destutter' f place places h
    exact ⟨place :: rest, hsorted, List.cons_subset_cons _ hsub, heq⟩

/-- Places that ascend are some of all that there are. -/
theorem sublist_filter_range {p : Nat → Bool} {n : Nat} {places : List Nat}
    (h : places.Pairwise (· < ·)) (hall : ∀ place ∈ places, place < n ∧ p place = true) :
    places.Sublist ((List.range n).filter p) := by
  have hsub : places ⊆ (List.range n).filter p := fun place hplace =>
    List.mem_filter.2 ⟨List.mem_range.2 (hall place hplace).1, (hall place hplace).2⟩
  exact List.sublist_of_subperm_of_pairwise (List.subperm_of_subset (h.imp Nat.ne_of_lt) hsub)
    (h.imp Nat.le_of_lt)
    ((List.pairwise_lt_range.imp Nat.le_of_lt).sublist List.filter_sublist)

namespace Draft

variable {tt : Timetable} {d : Draft} {journey : Journey} {duration : Nat}

theorem OffAt.isOff {place : Nat} (h : d.OffAt place) (hf : d.finish duration = .ok journey) :
    journey.isOff place = true := by
  obtain ⟨hstops, htransports⟩ := finish_parts hf
  unfold Journey.isOff
  rw [hstops, htransports, List.any_reverse]
  cases h with
  | start hzero => simp [hzero]
  | exit stop hstop hexit => simp [hstop, hexit]
  | walk t ht hat => rw [List.any_eq_true.2 ⟨t, ht, hat⟩, Bool.or_true]

/-- The stations that a draft has come by, those that are repeated taken once, are some of
those at which its journey is on no vehicle. -/
theorem Visits.sublist {nodes : List NodeId} (h : d.Visits tt nodes)
    (hf : d.finish duration = .ok journey) :
    ((nodes.map fun node => (stopAt tt node).station).destutter (· ≠ ·)).Sublist
      (journey.offVehicle.map Stop.station) := by
  obtain ⟨places, hsorted, -, hall⟩ := h
  have hstops := (finish_parts hf).1
  let station : Nat → String := fun place => (journey.stops[place]?.map Stop.station).getD ""
  have hstations : (nodes.map fun node => (stopAt tt node).station) = places.map station := by
    induction hall with
    | nil => rfl
    | cons hs _ ih =>
      obtain ⟨-, stop, hstop, hstation⟩ := hs
      rw [List.map_cons, List.map_cons, ih hsorted.of_cons, ← hstation]
      simp only [station, hstops, hstop, Option.map_some, Option.getD_some]
  have hplaces : ∀ place ∈ places, place < journey.stops.length ∧ journey.isOff place = true := by
    clear hstations hsorted
    induction hall with
    | nil => exact fun place hplace => absurd hplace List.not_mem_nil
    | cons hs _ ih =>
      obtain ⟨hoff, stop, hstop, -⟩ := hs
      intro place hplace
      rcases List.mem_cons.1 hplace with rfl | hplace
      · rw [hstops]
        exact ⟨(List.getElem?_eq_some_iff.1 hstop).1, hoff.isOff hf⟩
      · exact ih place hplace
  obtain ⟨kept, hkept, hsub, heq⟩ := exists_map_eq_destutter station hsorted
  have hin : ∀ place ∈ kept, ∃ stop, journey.stops[place]? = some stop := by
    intro place hplace
    exact ⟨_, List.getElem?_eq_getElem (hplaces place (hsub hplace)).1⟩
  have hmap : kept.map station = (kept.filterMap (journey.stops[·]?)).map Stop.station := by
    clear heq hkept hsub
    induction kept with
    | nil => rfl
    | cons place kept ih =>
      obtain ⟨stop, hstop⟩ := hin place List.mem_cons_self
      rw [List.filterMap_cons_some hstop, List.map_cons, List.map_cons,
        ih fun other hother => hin other (List.mem_cons_of_mem _ hother)]
      simp only [station, hstop, Option.map_some, Option.getD_some]
  rw [hstations, heq, hmap]
  exact ((sublist_filter_range hkept fun place hplace =>
    hplaces place (hsub hplace)).filterMap _).map _

end Draft

/-! ## Journeys -/

/-- In a search over a timetable that was built: every journey of the answer begins and ends
at the ends of the path and comes by all its stations in order, on no vehicle; and no label
ever counts more stations passed than there are, nor more than can be counted. -/
theorem path_in_order {fixture : Fixture} {tt : Timetable} (hbuild : fixture.build = .ok tt)
    {settings : Settings} {measures : List Measure} {router : Router}
    (hrouter : Router.Reached settings measures router) {request : Request} {q : Query}
    (hq : request.toQuery tt = .ok q) :
    (∀ run response, router.answer tt request = .ok (run, response) →
      ∀ journey ∈ response.journeys,
        journey.stops.head?.map Stop.station = request.path.head?.map PathStop.station ∧
        journey.stops.getLast?.map Stop.station = request.path.getLast?.map PathStop.station ∧
        ((request.path.map PathStop.station).destutter (· ≠ ·)).Sublist
          (journey.offVehicle.map Stop.station)) ∧
    q.target.vias.length < UInt8.size ∧
    ∀ m, Moment.Later q settings measures (Moment.first q router.frontier) m →
      ∀ id label, m.label? id = some label → label.progress ≤ q.target.vias.length ∧
        ∀ ref next, Run.expandEdge q settings id label ref = .ok (some next) →
          next.progress ≤ q.target.vias.length := by
  have hbuilt := Fixture.build_sound hbuild
  obtain ⟨hsound, htt, hd⟩ := Request.toQuery_sound hbuilt hq
  obtain ⟨hpath, hcount⟩ := Request.travelPath_eq hq
  refine ⟨fun run response hanswer journey hj => ?_, Nat.lt_succ_of_le hcount,
    fun m hlater id label hget => ?_⟩
  · obtain ⟨order, hanswers⟩ := hrouter.answers_to hbuild hq hanswer
    obtain ⟨id, hid, hok⟩ := hanswers.journeys journey hj
    obtain ⟨label, before, -, hchain, hgoal, htrail⟩ := hanswers.trail hid
    rw [hchain] at hok
    obtain ⟨d, hfold, hfinish⟩ := htrail.drafted hok
    have hthrough := Fixture.build_throughAtOne hbuild
    have hvias := Request.isStation_of_mem_vias hbuilt hq
    rw [← htt] at hthrough hvias
    obtain ⟨hvisits, hfirst, hlast⟩ := htrail.visits hsound hthrough hvias hgoal hfold
    have hstations := Request.stations_eq hbuilt hpath
    have hstops := (Draft.finish_parts hfinish).1
    rw [← htt, ← hd] at hstations
    refine ⟨?_, ?_, ?_⟩
    · rw [hstops, hfirst, ← List.head?_map, ← hstations, List.head?_map]
    · rw [hstops, hlast, ← List.getLast?_map, ← hstations, List.getLast?_map]
    · rw [hstations]
      exact hvisits.sublist hfinish
  · obtain ⟨order, hstands, -⟩ :=
      Moment.Later.stands hsound (Moment.first_stands hrouter.blank.2.2) hlater
    obtain ⟨links, ht, -⟩ := hstands.chain hget
    have hle := ht.trail.progress_le
    refine ⟨hle, fun ref next hnext => ?_⟩
    obtain ⟨cost, now, -, -, rfl⟩ := expandEdge_eq_some_iff.1 hnext
    exact q.target.advance_le _ hle

/-- Trains from one station to another and back. -/
def thereAndBack : Fixture :=
  { firstDay := Fixture.firstMonday, days := 1, categories := ["RE"],
    stations := [.plain "A" 0, .plain "X" 0],
    routes := [⟨["A", "X"], [.single "00:10" "00:20" 0 none]⟩,
      ⟨["X", "A"], [.single "00:30" "00:40" 0 none]⟩],
    footpaths := [], through := [] }

/-- A way round by `X`, to be back at a minute of the first day. -/
def thereAndBack.round : Request := (Fixture.onTrip "A" "A" 45 .backward).via "X"

set_option maxRecDepth 4000 in
/-- Whoever is to be back at `A` by way of `X` leaves a train there. -/
theorem path_in_order_thereAndBack : ∃ tt q run response, thereAndBack.build = .ok tt ∧
    thereAndBack.round.toQuery tt = .ok q ∧
    (Router.new {} Measure.all).answer tt thereAndBack.round = .ok (run, response) ∧
    response.journeys ≠ [] ∧
    (∀ journey ∈ response.journeys, journey.stops.head?.map Stop.station = some "A" ∧
      journey.stops.getLast?.map Stop.station = some "A" ∧
      ["A", "X", "A"].Sublist (journey.offVehicle.map Stop.station)) ∧
    q.target.vias.length < UInt8.size ∧
    ∀ m, Moment.Later q {} Measure.all (Moment.first q (Router.new {} Measure.all).frontier) m →
      ∀ id label, m.label? id = some label → label.progress ≤ q.target.vias.length := by
  obtain ⟨tt, q, run, response, journeys, hbuild, hq, -, -, hanswer, hrank, hfound⟩ :=
    Fixture.of_search? thereAndBack thereAndBack.round
      (fun _ _ journeys => !journeys.isEmpty) (by decide +kernel)
  rw [Bool.not_eq_true', List.isEmpty_eq_false_iff] at hfound
  obtain ⟨hjourneys, hcount, hprogress⟩ := path_in_order hbuild .new hq
  refine ⟨tt, q, run, response, hbuild, hq, hanswer, fun hnil => hfound ?_, fun journey hj => ?_,
    hcount, fun m hlater id label hget => (hprogress m hlater id label hget).1⟩
  · rw [hrank] at hnil
    have hperm := Journey.rank_perm journeys
    rw [hnil] at hperm
    exact hperm.symm.eq_nil
  · obtain ⟨hfirst, hlast, hsub⟩ := hjourneys run response hanswer journey hj
    exact ⟨hfirst, hlast, hsub⟩

end JourneyPlanner
