import JourneyPlanner.Proofs.Search.Counts
import JourneyPlanner.Proofs.Search.Leads
import JourneyPlanner.Proofs.Search.Progress
import Mathlib.Algebra.Order.BigOperators.Group.List
import Mathlib.Algebra.Order.Group.Nat
import Mathlib.Data.Finset.Card
import Mathlib.Data.Finset.Option
import Mathlib.Data.Fintype.Prod

/-!
# The states that a label can be in

The state of a label is all that labels of one node are compared by. Of two labels in one
state each replaces the other, so that a search never settles both
(`Run.Reached.eq_of_state_eq`). And the labels of one query are in finitely many states
(`exists_states`): nodes, trips, days and categories are those of the timetable, the stations
passed are among those of the path, and times and amounts have a ceiling.

Therefore a search settles no more labels than there are states
(`Run.Reached.settledCount_le`). No single number has to grow along an edge for that; what
goes round in a circle at no cost comes back to a state that has been settled.
-/

namespace JourneyPlanner

/-! ## Finitely many trips and categories -/

theorem exists_gt (l : List Nat) : ∃ bound, ∀ n ∈ l, n < bound :=
  ⟨l.sum + 1, fun _ hn => Nat.lt_succ_of_le (List.le_sum_of_mem hn)⟩

/-- A number above those of the trips on an edge of this kind. -/
def EdgeKind.tripBound : EdgeKind → Nat
  | .route legs => legs.size
  | .through trips => trips.length + (trips.filterMap id).sum + 1
  | _ => 0

theorem Direction.next?_lt {direction : Direction} {trips : List (Option Nat)} {trip next : Nat}
    (h : direction.next? trips trip = some next) : next < (EdgeKind.through trips).tripBound := by
  show next < trips.length + (trips.filterMap id).sum + 1
  cases direction with
  | forward =>
    have hmem := List.mem_of_getElem? (Option.join_eq_some_iff.1 h)
    have hle : next ≤ (trips.filterMap id).sum :=
      List.le_sum_of_mem (List.mem_filterMap.2 ⟨some next, hmem, rfl⟩)
    omega
  | backward =>
    have hlt := (List.findIdx?_eq_some_iff_getElem.1 h).1
    omega

theorem Event.trip_lt {legs : Array Leg} {trip day : Nat} {event : Event}
    (h : Event.at? legs trip day = some event) : event.trip < (EdgeKind.route legs).tripBound := by
  obtain ⟨htrip, -, hleg, -⟩ := Event.eq_of_at? h
  rw [htrip]
  exact (Array.getElem?_eq_some_iff.1 hleg).1

/-- The categories of all trips that are described, and the one of those that are not. -/
def Timetable.usedCategories (tt : Timetable) : List CategoryId :=
  (default : TripInfo).category :: tt.infos.toList.map (·.category)

theorem Timetable.category_mem (tt : Timetable) (id : InfoId) :
    (tt.info id).category ∈ tt.usedCategories := by
  unfold Timetable.info usedCategories
  cases h : tt.infos[id]? with
  | none => exact List.mem_cons_self
  | some info =>
    refine List.mem_cons_of_mem _ (List.mem_map_of_mem ?_)
    exact Array.mem_toList_iff.2 (Array.mem_of_getElem? h)

/-! ## What a trail says of its label -/

section Trail

variable {q : Query} {settings : Settings} {measures : List Measure} {label : Label}
  {before : List Label}

theorem Trail.now_le (h : Trail q settings measures (label :: before)) :
    label.now ≤ max label.start Bounded.ceiling := by
  refine Trail.along (P := fun label _ => label.now ≤ max label.start Bounded.ceiling) ?_ ?_ h
  · intro time htime
    exact Nat.le_max_left _ _
  · intro id ref label before cost now trail href ht hnow hin ih
    show now ≤ max label.start Bounded.ceiling
    cases hd : q.direction with
    | forward =>
      rw [hd] at hnow
      exact Nat.le_trans (Bounded.add?_eq_some_iff.1 hnow).2 (Nat.le_max_right _ _)
    | backward =>
      rw [hd] at hnow
      have heq := Bounded.sub?_eq_some_iff.1 hnow
      simp only [Time] at ih heq ⊢
      omega

theorem Trail.lastCategory_mem (hq : q.graph.Sound)
    (h : Trail q settings measures (label :: before)) :
    ∀ category ∈ label.lastCategory, category ∈ q.graph.timetable.usedCategories := by
  have hlast : ∀ used, label.lastConnection = some used →
      used.category ∈ q.graph.timetable.usedCategories := by
    refine Trail.along (P := fun label _ => ∀ used, label.lastConnection = some used →
      used.category ∈ q.graph.timetable.usedCategories) ?_ ?_ h
    · intro time htime used hused
      cases hused
    · intro id ref label before cost now trail href ht hnow hin ih used hused
      rw [lastConnection_after] at hused
      cases hc : cost.connection with
      | none =>
        rw [hc] at hused
        exact ih used hused
      | some used' =>
        rw [hc] at hused
        cases hused
        obtain ⟨eid, legs, event, transfer, -, -, -, -, -, rfl⟩ :=
          ht.section_spec hq (trail.riding hq) href hc
        cases hc
        exact q.graph.timetable.category_mem _
  intro category hcategory
  obtain ⟨used, hused, rfl⟩ := Option.map_eq_some_iff.1 hcategory
  exact hlast used hused

/-- Whoever rides is on a trip of some edge of the timetable. -/
theorem Trail.trip_lt (hq : q.graph.Sound) {bound : Nat}
    (hbound : ∀ edge ∈ q.graph.timetable.edges, edge.kind.tripBound ≤ bound)
    (h : Trail q settings measures (label :: before)) :
    ∀ ride, label.ride = some ride → ride.trip < bound := by
  refine Trail.along (P := fun label _ => ∀ ride, label.ride = some ride → ride.trip < bound)
    ?_ ?_ h
  · intro time htime ride hride
    cases hride
  · intro id ref label before cost now trail href ht hnow hin ih ride hride
    -- an event is one of the legs of its edge
    have hroute : ∀ eid legs event, ref = .timetable eid → (q.graph.edge ref).kind = .route legs →
        Event.at? legs event.trip event.day = some event → event.trip < bound := by
      intro eid legs event hid hkind hat
      subst hid
      have hlt := Event.trip_lt hat
      rw [← hkind] at hlt
      exact Nat.lt_of_lt_of_le hlt (hbound _ (hq.edge_mem href).1)
    cases ht with
    | stay eid legs older event hid hkind hold hat hahead =>
      cases hride
      exact hroute eid legs event hid hkind (Event.at?_self hat)
    | board eid legs event hid hkind hnone hboarding hfind =>
      cases hride
      subst hid
      exact hroute eid legs event rfl hkind (boardable_spec hq href hkind hfind).2.1
    | through trips older trip hkind hold htrip =>
      cases hride
      have hlt := Direction.next?_lt htrip
      rw [← hkind] at hlt
      exact Nat.lt_of_lt_of_le hlt (hbound _ (hq.through_mem href hkind).1)
    | access | egress | foot | mumo | hotel => cases hride

/-- Within the limits no amount has come to the ceiling. -/
theorem Trail.current_lt (hq : q.Sound) (h : Trail q settings Measure.all (label :: before))
    (m : Measure) : label.criteria.current m < Bounded.ceiling := by
  obtain ⟨hproper, -⟩ := h.proper hq
  have hne := (hproper.full.isBeyond_eq_false_iff.1 h.not_isBeyond m).1
  rw [hproper.least_eq] at hne
  exact lt_ceiling_of_boundOf hne

end Trail

/-! ## States -/

/-- What labels of one node are compared by: the node, how many stations have been passed and
the vehicle; the category used last; whether to board, a night and whether to wait; the
times; and what has been spent. -/
abbrev Label.State : Type :=
  (NodeId × Nat × Option (Nat × Nat)) × Option CategoryId × (Bool × Bool × Bool) ×
    (Time × Time) × Nat × Nat × Nat

/-- The state of a label. -/
def Label.state (label : Label) : Label.State :=
  ((label.node, label.progress, label.ride.map fun ride => (ride.trip, ride.day)),
    label.lastCategory, (label.boarding, label.hotel, label.pinned), (label.start, label.now),
    label.criteria.current .time, label.criteria.current .transfers,
    label.criteria.current .price)

theorem Ride.eq_of_pair_eq {a b : Option Ride}
    (h : a.map (fun ride => (ride.trip, ride.day)) = b.map fun ride => (ride.trip, ride.day)) :
    a = b := by
  refine Option.map_injective (fun x y hxy => ?_) h
  cases x
  cases y
  cases hxy
  rfl

/-- Of two labels in one state each replaces the other. -/
theorem Frontier.replaces_of_state_eq {a b : Label} (direction : Direction)
    (ha : a.criteria.Full) (hb : b.criteria.Full) (h : a.state = b.state) :
    replaces direction a b = true := by
  unfold Label.state at h
  simp only [Prod.mk.injEq] at h
  obtain ⟨⟨-, hprogress, hride⟩, hcategory, ⟨hboarding, hhotel, hpinned⟩, ⟨hstart, hnow⟩, htime,
    htransfers, hprice⟩ := h
  have hamounts : a.criteria.weaklyDominates b.criteria = true := by
    refine (ha.weaklyDominates_iff hb).2 fun m => ?_
    cases m with
    | time => exact Nat.le_of_eq htime
    | transfers => exact Nat.le_of_eq htransfers
    | price => exact Nat.le_of_eq hprice
  unfold replaces Label.comparable Label.sameState Label.withinTimes
  rw [hamounts, hprogress, Ride.eq_of_pair_eq hride, hcategory, hboarding, hhotel, hpinned,
    hstart, hnow]
  cases direction <;> simp

/-- The labels of a query are in finitely many states. -/
theorem exists_states {q : Query} (hq : q.Sound) (settings : Settings) :
    ∃ states : Finset Label.State, ∀ label before,
      Trail q settings Measure.all (label :: before) → label.state ∈ states := by
  obtain ⟨trips, htrips⟩ :=
    exists_gt (q.graph.timetable.edges.toList.map fun edge => edge.kind.tripBound)
  obtain ⟨latest, hlatest⟩ := exists_gt (Bounded.ceiling :: q.startTimes)
  have hbound : ∀ edge ∈ q.graph.timetable.edges, edge.kind.tripBound ≤ trips := by
    intro edge hedge
    exact Nat.le_of_lt (htrips _ (List.mem_map_of_mem (Array.mem_toList_iff.2 hedge)))
  let rides := Finset.insertNone
    (Finset.range trips ×ˢ Finset.range q.graph.timetable.period.days)
  let categories := Finset.insertNone q.graph.timetable.usedCategories.toFinset
  let amounts := Finset.range Bounded.ceiling
  refine ⟨(Finset.range q.graph.timetable.nodes.size ×ˢ Finset.range (q.target.vias.length + 1) ×ˢ
      rides) ×ˢ categories ×ˢ Finset.univ ×ˢ (Finset.range latest ×ˢ Finset.range latest) ×ˢ
      amounts ×ˢ amounts ×ˢ amounts, fun label before h => ?_⟩
  have hstart := h.start_mem
  have hstart_lt := hlatest _ (List.mem_cons_of_mem _ hstart)
  have hnow_lt : label.now < latest := by
    have hceiling := hlatest _ List.mem_cons_self
    have hle := h.now_le
    simp only [Time] at hle hstart_lt ⊢
    omega
  have hride : label.ride.map (fun ride => (ride.trip, ride.day)) ∈ rides := by
    refine Finset.mem_insertNone.2 fun pair hpair => ?_
    obtain ⟨ride, hride, rfl⟩ := Option.map_eq_some_iff.1 hpair
    exact Finset.mem_product.2 ⟨Finset.mem_range.2 (h.trip_lt hq.graph hbound ride hride),
      Finset.mem_range.2 ((h.riding hq.graph).day_lt ride hride)⟩
  have hcategory : label.lastCategory ∈ categories :=
    Finset.mem_insertNone.2 fun category hc =>
      List.mem_toFinset.2 (h.lastCategory_mem hq.graph category hc)
  have hamount : ∀ m, label.criteria.current m ∈ amounts :=
    fun m => Finset.mem_range.2 (h.current_lt hq m)
  unfold Label.state
  simp only [Finset.mem_product, Finset.mem_range, Finset.mem_univ, true_and]
  exact ⟨⟨(h.placed hq).node_lt, Nat.lt_succ_of_le h.progress_le, hride⟩, hcategory,
    ⟨hstart_lt, hnow_lt⟩, hamount .time, hamount .transfers, hamount .price⟩

/-! ## What is settled -/

namespace Run

variable {q : Query} {settings : Settings} {f : Frontier} {r : Run}

/-- Of the labels settled at one node no two are in the same state. -/
theorem Reached.eq_of_state_eq (hq : q.Sound) (hf : f.Blank)
    (h : Reached q settings Measure.all f r) {node : NodeId} {i j : LabelId} {a b : Label}
    (hi : i ∈ r.frontier.settledAt node) (hj : j ∈ r.frontier.settledAt node)
    (ha : r.frontier.pool.get? i = some a) (hb : r.frontier.pool.get? j = some b)
    (hstate : a.state = b.state) : i = j := by
  induction h generalizing i j a b with
  | start h => exact absurd (((start_sound hf h).settled node i).1 hi).1 List.not_mem_nil
  | @visit r r₁ r₂ id h hpop hvisit ih =>
    obtain ⟨order, hs⟩ := h.sound hq hf
    obtain ⟨-, -, hpool, hsettled, -⟩ := pop_sound hs hpop
    obtain ⟨order₁, label, links, hs₁, ht, hv⟩ := h.taken hq hf hpop hvisit
    have hhandled := hv.handled hq hs₁ ht.get?
    have hat : r₁.frontier.settledAt node = r.frontier.settledAt node := by
      unfold Frontier.settledAt
      rw [hsettled]
    -- what was settled before has kept its label
    have hold : ∀ k ∈ r₁.frontier.settledAt node, ∀ c, r₂.frontier.pool.get? k = some c →
        r.frontier.pool.get? k = some c ∧ c.criteria.Full := by
      intro k hk c hc
      obtain ⟨hin, l, hl, -⟩ := (hs₁.settled node k).1 hk
      have hsame := (hhandled.carries.settled node k l hk hl).2
      rw [hc] at hsame
      cases hsame
      obtain ⟨links', ht', -⟩ := hs₁.traced_of_passed hin hl
      rw [← hpool]
      exact ⟨hl, (ht'.trail.proper hq).1.full⟩
    -- the label in the hand is settled only if none at its node replaces it
    have hnew : ∀ k ∈ r₁.frontier.settledAt node, ∀ c, r₂.frontier.pool.get? k = some c →
        label.node = node → r₁.frontier.beatenAtNode label q.direction = false →
        c.state ≠ label.state := by
      intro k hk c hc hnode hplace hsame
      obtain ⟨hget, hfull⟩ := hold k hk c hc
      rw [← hpool] at hget
      rw [← hnode] at hk
      have hnot := List.any_eq_false.1 hplace k hk
      rw [hget] at hnot
      exact hnot (Frontier.replaces_of_state_eq q.direction hfull
        (ht.trail.proper hq).1.full hsame)
    have hmine : ∀ k ∈ r₂.frontier.settledAt node, k = id →
        r₂.frontier.pool.get? id = some label → label.node = node := by
      intro k hk hkid hget
      obtain ⟨order₂, hs₂⟩ := (h.visit hpop hvisit).sound hq hf
      obtain ⟨-, l, hl, hnode⟩ := (hs₂.settled node k).1 hk
      rw [hkid, hget] at hl
      cases hl
      exact hnode
    rcases hhandled.settled node i hi with hi' | ⟨hid, hget, -, -, hplace⟩
    · rcases hhandled.settled node j hj with hj' | ⟨hjd, hget, -, -, hplace⟩
      · exact ih (hat ▸ hi') (hat ▸ hj') (hold i hi' a ha).1 (hold j hj' b hb).1 hstate
      · rw [hjd, hget] at hb
        cases hb
        exact absurd hstate (hnew i hi' a ha (hmine j hj hjd hget) hplace)
    · rw [hid, hget] at ha
      cases ha
      rcases hhandled.settled node j hj with hj' | ⟨hjd, -⟩
      · exact absurd hstate.symm (hnew j hj' b hb (hmine i hi hid hget) hplace)
      · rw [hid, hjd]

/-- The lists of the nodes hold the slots that are settled. -/
theorem Reached.listed (hq : q.Sound) (hf : f.Blank) (h : Reached q settings Measure.all f r) :
    ∃ order, Frontier.Sound q settings Measure.all r.frontier order [] ∧
      r.frontier.Listed order [] := by
  have hlater : Moment.Later q settings Measure.all (Moment.first q f) ⟨.choosing, r⟩ := by
    induction h with
    | @start r h =>
      have hmakes : Makes q settings Measure.all (Moment.first q f)
          (Run.start q settings Measure.all f) := makes_start q.startTimes _
      obtain ⟨m, hlater, -, hok⟩ := hmakes
      rw [hok r h] at hlater
      exact hlater
    | visit h hpop hvisit ih => exact ih.trans (Turn.later hq hf h ⟨_, _, hpop, hvisit⟩)
  obtain ⟨order, hstands, -⟩ := Moment.Later.stands hq (Moment.first_stands hf) hlater
  exact ⟨order, hstands.sound, hstands.listed⟩

/-- No more labels are settled than there are states. -/
theorem Reached.settledCount_le (hq : q.Sound) (hf : f.Blank)
    (h : Reached q settings Measure.all f r) {states : Finset Label.State}
    (hstates : ∀ label before, Trail q settings Measure.all (label :: before) →
      label.state ∈ states) :
    r.frontier.settledCount ≤ (Finset.insertNone states).card := by
  obtain ⟨order, hs, hlisted⟩ := h.listed hq hf
  have hnodup : order.Nodup := (List.nodup_append.1 hs.nodup).1
  rw [hlisted.settledCount_eq, ← List.toFinset_card_of_nodup hnodup]
  -- the slots of the settled labels are told apart by their states
  refine Finset.card_le_card_of_injOn
    (fun id => (r.frontier.pool.get? id).map Label.state) ?_ ?_
  · intro id hid
    obtain ⟨label, links, ht, -⟩ := hs.passed id (List.mem_toFinset.1 hid)
    dsimp only
    rw [ht.get?]
    refine Finset.mem_coe.2 (Finset.mem_insertNone.2 fun state hstate => ?_)
    cases hstate
    exact hstates _ _ ht.trail
  · intro i hi j hj hij
    obtain ⟨a, linksA, hta, -⟩ := hs.passed i (List.mem_toFinset.1 hi)
    obtain ⟨b, linksB, htb, -⟩ := hs.passed j (List.mem_toFinset.1 hj)
    dsimp only at hij
    rw [hta.get?, htb.get?] at hij
    have hstate := Option.some.inj hij
    have hnode : a.node = b.node := congrArg (·.1.1) hstate
    have hi' := (hs.settled a.node i).2 ⟨List.mem_toFinset.1 hi, a, hta.get?, rfl⟩
    have hj' := (hs.settled a.node j).2 ⟨List.mem_toFinset.1 hj, b, htb.get?, hnode.symm⟩
    exact h.eq_of_state_eq hq hf hi' hj' hta.get? htb.get? hstate

end Run

end JourneyPlanner
