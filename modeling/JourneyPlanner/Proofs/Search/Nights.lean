import JourneyPlanner.Proofs.Query.Hotels
import JourneyPlanner.Proofs.Search.Order
import JourneyPlanner.Proofs.Search.Progress

/-!
# Nights are of no use

A night at a hotel leads to the node at which it begins, costs time and money, and opens no
way that was not open before: who has slept may not sleep once more, and that is all. So the
label that a night begins from replaces the one that it leads to
(`Trail.replaces_of_hotel`), and since it has been settled by then, the other is dropped as
soon as it is taken (`Run.Reached.beaten_of_hotel`). No label with a night on its way is ever
settled (`Run.Reached.hotel_of_holds`), whatever the criteria are.
-/

namespace JourneyPlanner

/-- Only a night is counted as one. -/
theorem Takes.hotel_eq {graph : QueryGraph} {direction : Direction} {horizon : Nat} {label : Label}
    {ref : EdgeRef} {cost : EdgeCost} (ht : Takes graph direction horizon label ref cost) :
    cost.hotel = (graph.edge ref).kind.isHotel := by
  cases ht with
  | access hkind hfoot => cases direction <;> rw [hkind] <;> rfl
  | egress ride hkind hride => cases direction <;> rw [hkind] <;> rfl
  | stay id legs ride event href hkind hride hat hahead => rw [hkind]; rfl
  | board id legs event href hkind hride hboarding hfind => rw [hkind]; rfl
  | through trips ride trip hkind hride htrip => rw [hkind]; rfl
  | foot duration price hkind hfoot => rw [hkind]; rfl
  | mumo ride time hkind hfoot htime hpinned => rw [hkind]; rfl
  | hotel stay hkind hfoot hfirst hpinned => rw [hkind]; rfl

theorem Label.hotel_after (q : Query) (id : LabelId) (label : Label) (ref : EdgeRef)
    (cost : EdgeCost) (now : Time) :
    (q.after id label ref cost now).hotel = (label.hotel || cost.hotel) := rfl

section Trail

variable {q : Query} {settings : Settings} {measures : List Measure} {label next : Label}
  {before : List Label}

/-- The label that a night begins from replaces the one that it leads to. -/
theorem Trail.replaces_of_hotel (hq : q.Sound)
    (h : Trail q settings measures (next :: label :: before)) (hfirst : label.hotel = false)
    (hnight : next.hotel = true) :
    label.node = next.node ∧ Frontier.replaces q.direction label next = true := by
  have hcriteria' := h.criteria_eq hq
  cases h with
  | step id ref next label before trail hgoal href hnext hin =>
    obtain ⟨cost, now, ht, hnow, rfl⟩ := expandEdge_eq_some_iff.1 hnext
    have hspent : ∀ m, spent q.graph (q.after id label ref cost now) (label :: before) m =
        spent q.graph label before m + cost.adds m := fun m => spent_after hq m trail href ht hnow
    obtain ⟨hfits, hsource⟩ := hq.graph.fits href
    have hadvance := trail.advance_eq
    have hcriteria := trail.criteria_eq hq
    have hpass := passes_of_timeAfter? hnow
    rw [Label.hotel_after, hfirst, Bool.false_or] at hnight
    cases ht with
    | access | egress | stay | board | through | foot | mumo => cases hnight
    | hotel stay hkind hfoot _ hpinned =>
      have htarget : q.graph.target ref q.direction = label.node := by
        have hends := hfits.hotel hkind
        rw [← hsource]
        unfold QueryGraph.target
        cases q.direction
        · exact hends
        · exact hends.symm
      refine ⟨htarget.symm, ?_⟩
      unfold Frontier.replaces Label.comparable
      rw [Bool.and_eq_true, Bool.and_eq_true]
      refine ⟨⟨?_, ?_⟩, ?_⟩
      · have hprogress : q.target.advance (q.graph.target ref q.direction) label.progress =
            label.progress := by
          rw [htarget]
          exact hadvance
        simp [Label.sameState, Query.after, Label.successor, Label.lastCategory, hprogress,
          hfoot.1, hfoot.2, hfirst, hpinned]
      · cases hd : q.direction with
        | forward =>
          rw [hd] at hpass
          have hlate : label.now ≤ now := Nat.le.intro (Eq.symm hpass)
          simp [Label.withinTimes, Query.after, Label.successor, hlate]
        | backward =>
          rw [hd] at hpass
          have hearly : now ≤ label.now := Nat.le.intro (Eq.symm hpass)
          simp [Label.withinTimes, Query.after, Label.successor, hearly]
      · rw [hcriteria, hcriteria', Criteria.weaklyDominates_map_iff]
        intro m _
        show spent q.graph label before m ≤ spent q.graph _ (label :: before) m
        rw [hspent m]
        exact Nat.le_add_right _ _

/-- No search starts with a night. -/
theorem Trail.exists_before_of_hotel (h : Trail q settings measures (label :: before))
    (hnight : label.hotel = true) : ∃ older rest, before = older :: rest := by
  cases h with
  | start time htime hin => cases hnight
  | step id ref next older rest trail hgoal href hnext hin => exact ⟨older, rest, rfl⟩

end Trail

namespace Run

variable {q : Query} {settings : Settings} {measures : List Measure} {f : Frontier} {r r₁ : Run}
  {order held : List LabelId} {id : LabelId} {label : Label} {links : List (LabelId × Label)}

/-- As long as no label with a night on its way has been settled, each of them can be
replaced. -/
theorem exists_replaces_of_hotel (hq : q.Sound)
    (hs : Frontier.Sound q settings measures f order held)
    (hall : ∀ other, f.Holds other → other.hotel = false)
    (ht : Frontier.Traced q settings measures f.pool order id label links)
    (hnight : label.hotel = true) :
    ∃ other, f.Holds other ∧ other.node = label.node ∧
      Frontier.replaces q.direction other label = true := by
  obtain ⟨older, rest, hbefore⟩ := ht.trail.exists_before_of_hotel hnight
  cases links with
  | nil => cases hbefore
  | cons link links =>
    have hmem : link.1 ∈ order := ht.sublist.subset List.mem_cons_self
    have hget : f.pool.get? link.1 = some link.2 :=
      ht.linked.get?_of_mem (List.mem_cons_of_mem _ List.mem_cons_self)
    have hholds : f.Holds link.2 :=
      ⟨link.1, (hs.settled link.2.node link.1).2 ⟨hmem, link.2, hget, rfl⟩, hget⟩
    exact ⟨link.2, hholds, ht.trail.replaces_of_hotel hq (hall link.2 hholds) hnight⟩

/-- No label with a night on its way is ever settled. -/
theorem Reached.hotel_of_holds (hq : q.Sound) (hf : f.Blank)
    (h : Reached q settings measures f r) (hl : r.frontier.Holds label) : label.hotel = false := by
  induction h generalizing label with
  | start h => exact absurd hl (not_holds_start hf h)
  | @visit r r₁ r₂ id h hpop hvisit ih =>
    obtain ⟨order, taken, links, hs₁, ht, hv⟩ := h.taken hq hf hpop hvisit
    have hall : ∀ other, r₁.frontier.Holds other → other.hotel = false :=
      fun other ho => ih ((pop_holds_iff hpop).1 ho)
    rcases hv.holds hq hs₁ ht.get? hl with hold | ⟨rfl, -, hplace⟩
    · exact hall label hold
    · cases hnight : label.hotel with
      | false => rfl
      | true =>
        obtain ⟨other, ho, hnode, hreplaces⟩ := exists_replaces_of_hotel hq hs₁ hall ht hnight
        rw [hplace other ho hnode] at hreplaces
        cases hreplaces

/-- A label with a night on its way is dropped as soon as it is taken. -/
theorem Reached.beaten_of_hotel (hq : q.Sound) (hf : f.Blank)
    (h : Reached q settings measures f r) (hpop : r.pop = (some id, r₁))
    (hs : Frontier.Sound q settings measures r₁.frontier order held)
    (ht : Frontier.Traced q settings measures r₁.frontier.pool order id label links)
    (hnight : label.hotel = true) : r₁.frontier.beatenAtNode label q.direction = true := by
  obtain ⟨other, ⟨slot, hslot, hget⟩, hnode, hreplaces⟩ := exists_replaces_of_hotel hq hs
    (fun _ ho => h.hotel_of_holds hq hf ((pop_holds_iff hpop).1 ho)) ht hnight
  refine List.any_eq_true.2 ⟨slot, hnode ▸ hslot, ?_⟩
  rw [hget]
  exact hreplaces

end Run

end JourneyPlanner
