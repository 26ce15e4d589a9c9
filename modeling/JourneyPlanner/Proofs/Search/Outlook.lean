import JourneyPlanner.Proofs.Query.Bounds
import JourneyPlanner.Proofs.Search.Sections

/-!
# What is still to come

The least that a label can come to is worked out from bounds that know nothing of
the time of day. Along a trail that ends at the goal it is never more than what
the trail comes to: an edge costs at least its weight in the bounds
(`Takes.minutes_le`, `Takes.minPrice_le`, `Takes.boardings_eq`), so that the rest
of the trail is a way to the goal which keeps within what its end has spent
(`Trail.within`), and the bounds are the least of all such ways.
-/

namespace JourneyPlanner

/-- With so much spent at a node, some way to the goal comes to no more than the
total. -/
def Query.Within (q : Query) (weight : EdgeKind → Nat) (node : NodeId) (amount total : Nat) :
    Prop :=
  ∃ rest sum, LowerBounds.Way q.graph q.direction weight q.target.goal (node :: rest) sum ∧
    amount + sum ≤ total

namespace Query.Within

variable {q : Query} {weight : EdgeKind → Nat} {node : NodeId} {amount total : Nat}

/-- At the goal nothing is left to spend. -/
theorem goal (hq : q.Sound) (hnode : node = q.target.goal) (hle : amount ≤ total) :
    q.Within weight node amount total := by
  refine ⟨[], 0, ?_, hle⟩
  rw [hnode]
  exact .goal hq.goal.lt_size

/-- Who has spent less keeps within the total by the same way. -/
theorem mono {amount' : Nat} (h : q.Within weight node amount total) (hle : amount' ≤ amount) :
    q.Within weight node amount' total := by
  obtain ⟨rest, sum, way, hsum⟩ := h
  exact ⟨rest, sum, way, by omega⟩

/-- An edge keeps within the total if what it costs at least leaves enough for the rest. -/
theorem step {ref : EdgeRef} {next : Nat} (href : ref ∈ q.graph.edgesAt node q.direction)
    (h : q.Within weight (q.graph.target ref q.direction) next total)
    (hle : amount + weight (q.graph.edge ref).kind ≤ next) :
    q.Within weight node amount total := by
  obtain ⟨rest, sum, way, hsum⟩ := h
  exact ⟨_, _, .step href way, by omega⟩

/-- The bound is the least of all ways, so it stays below any of them. -/
theorem distanceAt_le (hq : q.Sound) (h : q.Within weight node amount total) :
    amount + LowerBounds.distanceAt
      (LowerBounds.distances q.graph q.target.goal q.direction weight) node ≤ total := by
  obtain ⟨rest, sum, way, hsum⟩ := h
  have := LowerBounds.distanceAt_le hq.graph hq.goal.lt_size way
  omega

end Query.Within

/-! ## No edge costs less than its weight -/

/-- Getting off counts no minutes in the bounds. -/
theorem LowerBounds.minutesOf_egress (direction : Direction) :
    minutesOf direction.egress = 0 := by
  cases direction <;> rfl

/-- Getting off counts no price in the bounds. -/
theorem LowerBounds.priceOf_egress (tt : Timetable) (direction : Direction) :
    priceOf tt direction.egress = 0 := by
  cases direction <;> rfl

section Weights

variable {q : Query} {settings : Settings} {label : Label} {ref : EdgeRef} {cost : EdgeCost}

/-- No run of a leg is shorter than what the bounds count for it. -/
theorem minDuration_le {legs : Array Leg} {trip day : Nat} {event : Event}
    (h : Event.at? legs trip day = some event) :
    EdgeKind.minDuration legs ≤ event.arrival - event.departure := by
  obtain ⟨-, -, hleg, hdep, harr⟩ := Event.eq_of_at? h
  have hmem : event.leg.duration ∈ legs.toList.map Leg.duration :=
    List.mem_map_of_mem (Array.mem_toList_iff.2 (Array.mem_of_getElem? hleg))
  have hle := List.min?_getD_le_of_mem (k := 0) hmem
  unfold EdgeKind.minDuration
  rw [hdep, harr]
  unfold Time.ofDay
  unfold Leg.duration at hle ⊢
  omega

/-- Waiting for a run and riding it lasts at least as long as the run. -/
theorem Event.duration_le_span {event : Event} {now : Time} {direction : Direction}
    (h : event.isAhead now direction = true) :
    event.arrival - event.departure ≤ event.span now direction := by
  cases direction <;>
    simp only [Event.isAhead, Event.span, decide_eq_true_eq, Time] at * <;> omega

/-- No run of a leg is cheaper than what the bounds count for it. -/
theorem minPrice_le {tt : Timetable} {legs : Array Leg} {trip day : Nat} {event : Event}
    (h : Event.at? legs trip day = some event) :
    LowerBounds.priceOf tt (.route legs) ≤ (tt.info event.leg.info).price := by
  obtain ⟨-, -, hleg, -⟩ := Event.eq_of_at? h
  exact List.min?_getD_le_of_mem
    (List.mem_map_of_mem (f := fun leg : Leg => (tt.info leg.info).price)
      (Array.mem_toList_iff.2 (Array.mem_of_getElem? hleg)))

/-- No edge is taken in fewer minutes than the bounds count for it. -/
theorem Takes.minutes_le (hq : q.graph.Sound) (hl : label.Riding q.graph q.direction)
    (href : ref ∈ q.graph.edgesAt label.node q.direction)
    (ht : Takes q.graph q.direction settings.maxMinutes label ref cost) :
    LowerBounds.minutesOf (q.graph.edge ref).kind ≤ cost.time := by
  cases hc : cost.connection with
  | some used =>
    -- the least over the trips of the edge, without any waiting
    obtain ⟨id, legs, event, transfer, -, hkind, hat, -, hahead, rfl⟩ :=
      ht.section_spec hq hl href hc
    rw [hkind]
    exact Nat.le_trans (minDuration_le hat) (Event.duration_le_span hahead)
  | none =>
    cases ht with
    | access hkind hfoot => cases hd : q.direction <;> rw [hkind, hd] <;> exact Nat.le_refl 0
    | egress ride hkind hride =>
      cases hd : q.direction <;> rw [hkind, hd] <;> exact Nat.le_refl 0
    | stay | board => cases hc
    | through trips ride trip hkind hride htrip => rw [hkind]; exact Nat.le_refl 0
    | foot duration price hkind hfoot => rw [hkind]; exact Nat.le_refl duration
    | mumo ride time hkind hfoot htime hpinned => rw [hkind]; exact Mumo.duration_le_time htime
    | hotel stay hkind hfoot hfirst hpinned => rw [hkind]; exact Nat.le_max_right _ _

/-- No edge is taken for less than the bounds count for it. -/
theorem Takes.minPrice_le (hq : q.graph.Sound) (hl : label.Riding q.graph q.direction)
    (href : ref ∈ q.graph.edgesAt label.node q.direction)
    (ht : Takes q.graph q.direction settings.maxMinutes label ref cost) :
    LowerBounds.priceOf q.graph.timetable (q.graph.edge ref).kind ≤ cost.price := by
  cases hc : cost.connection with
  | some used =>
    obtain ⟨id, legs, event, transfer, -, hkind, hat, -, -, rfl⟩ :=
      ht.section_spec hq hl href hc
    rw [hkind]
    exact JourneyPlanner.minPrice_le hat
  | none =>
    cases ht with
    | access hkind hfoot => cases hd : q.direction <;> rw [hkind, hd] <;> exact Nat.le_refl 0
    | egress ride hkind hride =>
      cases hd : q.direction <;> rw [hkind, hd] <;> exact Nat.le_refl 0
    | stay | board => cases hc
    | through trips ride trip hkind hride htrip => rw [hkind]; exact Nat.le_refl 0
    | foot duration price hkind hfoot => rw [hkind]; exact Nat.le_refl price
    | mumo ride time hkind hfoot htime hpinned => rw [hkind]; exact Nat.le_refl ride.price
    | hotel stay hkind hfoot hfirst hpinned => rw [hkind]; exact Nat.le_refl stay.price

/-- The edges that lead to a vehicle are those after which one is about to board. -/
theorem Takes.boardings_eq
    (ht : Takes q.graph q.direction settings.maxMinutes label ref cost) :
    LowerBounds.boardingsOf q.direction (q.graph.edge ref).kind = cost.boarding.toNat := by
  cases ht with
  | access hkind hfoot => cases hd : q.direction <;> rw [hkind, hd] <;> rfl
  | egress ride hkind hride => cases hd : q.direction <;> rw [hkind, hd] <;> rfl
  | stay id legs ride event hid hkind hride hat hahead => rw [hkind]; rfl
  | board id legs event hid hkind hride hboarding hfind => rw [hkind]; rfl
  | through trips ride trip hkind hride htrip => rw [hkind]; rfl
  | foot duration price hkind hfoot => rw [hkind]; rfl
  | mumo ride time hkind hfoot htime hpinned => rw [hkind]; rfl
  | hotel stay hkind hfoot hfirst hpinned => rw [hkind]; rfl

end Weights

/-! ## The rest of a trail -/

section Rest

variable {q : Query} {settings : Settings} {measures : List Measure} {label last : Label}
  {before rest tail : List Label}

/-- From any label of a trail that ends at the goal the rest of the trail keeps
within what its end has spent, and within the vehicles boarded until then. -/
theorem Trail.within (hq : q.Sound) (h : Trail q settings measures (last :: tail))
    (hgoal : q.target.isGoal last = true)
    (hsplit : rest.reverse ++ label :: before = last :: tail) :
    q.Within LowerBounds.minutesOf label.node (spent q.graph label before .time)
        (spent q.graph last tail .time) ∧
      q.Within (LowerBounds.priceOf q.graph.timetable) label.node
        (spent q.graph label before .price) (spent q.graph last tail .price) ∧
      q.Within (LowerBounds.boardingsOf q.direction) label.node
        ((label :: before).countP (·.boarding)) (tail.countP (·.boarding)) := by
  induction rest generalizing label before with
  | nil =>
    -- at the goal nothing is still to come, and nobody is about to board
    cases hsplit
    have hnode : last.node = q.target.goal := by
      unfold Target.isGoal at hgoal
      rw [Bool.and_eq_true] at hgoal
      exact beq_iff_eq.1 hgoal.1
    have hboarding := (h.onFoot_of_isGoal hq hgoal).2
    refine ⟨.goal hq hnode (Nat.le_refl _), .goal hq hnode (Nat.le_refl _), .goal hq hnode ?_⟩
    rw [List.countP_cons, hboarding]
    exact Nat.le_refl _
  | cons next rest ih =>
    rw [List.reverse_cons, List.append_assoc, List.singleton_append] at hsplit
    obtain ⟨htime, hprice, hboardings⟩ := ih hsplit
    rw [← hsplit] at h
    have htrail : Trail q settings measures (next :: label :: before) := h.suffix
    cases htrail with
    | step id ref _ _ _ trail _ href hnext hin =>
      obtain ⟨cost, now, ht, hnow, rfl⟩ := expandEdge_eq_some_iff.1 hnext
      have hl := trail.riding hq.graph
      refine ⟨.step href htime ?_, .step href hprice ?_, .step href hboardings ?_⟩
      · rw [spent_after hq _ trail href ht hnow]
        exact Nat.add_le_add_left (ht.minutes_le hq.graph hl href) _
      · rw [spent_after hq _ trail href ht hnow]
        exact Nat.add_le_add_left (ht.minPrice_le hq.graph hl href) _
      · have hafter : (q.after id label ref cost now).boarding = cost.boarding := rfl
        rw [ht.boardings_eq, List.countP_cons (l := label :: before), hafter]
        cases cost.boarding <;> exact Nat.le_refl _

/-! ## The bounds of a label -/

variable {context : BoundContext} {amount total : Nat}

/-- A larger amount never has a smaller bound. -/
theorem boundOf_mono {bounds : LowerBounds} {a b : Nat} (measure : Measure) (h : a ≤ b) :
    Criterion.boundOf bounds context measure a ≤ Criterion.boundOf bounds context measure b := by
  cases measure with
  | time | price =>
    simp only [Criterion.boundOf, Bounded.add]
    omega
  | transfers =>
    simp only [Criterion.boundOf, Criterion.transferBound, Bounded.add]
    split
    · exact Nat.le_refl _
    · omega

/-- The least minutes a label can come to are no more than those of its way to the goal. -/
theorem boundOf_time_le (hq : q.Sound)
    (h : q.Within LowerBounds.minutesOf context.node amount total) :
    Criterion.boundOf q.bounds context .time amount ≤ total := by
  refine Nat.le_trans (Nat.min_le_left _ _) ?_
  rw [hq.bounds_eq]
  exact h.distanceAt_le hq

/-- The least price a label can come to is no more than that of its way to the goal. -/
theorem boundOf_price_le (hq : q.Sound)
    (h : q.Within (LowerBounds.priceOf q.graph.timetable) context.node amount total) :
    Criterion.boundOf q.bounds context .price amount ≤ total := by
  refine Nat.le_trans (Nat.min_le_left _ _) ?_
  rw [hq.bounds_eq]
  exact h.distanceAt_le hq

/-- The first vehicle is boarded without a change, both by what has been spent and
by what is still to come. -/
theorem boundOf_transfers_le (hq : q.Sound)
    (hreach : q.bounds.boardingsAt context.node ≠ Bounded.ceiling)
    (hfirst : context.hasConnection = true ↔ 0 < amount)
    (h : q.Within (LowerBounds.boardingsOf q.direction) context.node
      (amount + context.boarding.toNat) total) :
    Criterion.boundOf q.bounds context .transfers (amount - 1) ≤ total - 1 := by
  have hle := h.distanceAt_le hq
  have hbounds : q.bounds.boardingsAt context.node = LowerBounds.distanceAt
      (LowerBounds.distances q.graph q.target.goal q.direction
        (LowerBounds.boardingsOf q.direction)) context.node := by
    rw [hq.bounds_eq]
    rfl
  rw [← hbounds] at hle
  unfold Criterion.boundOf Criterion.transferBound
  dsimp only
  rw [if_neg hreach]
  refine Nat.le_trans (Nat.min_le_left _ _) ?_
  cases hc : context.hasConnection with
  | true =>
    have := hfirst.1 hc
    simp only [if_true]
    omega
  | false =>
    -- the first vehicle is still to come, and is no change either
    have : ¬ 0 < amount := fun hpos => by
      rw [hfirst.2 hpos] at hc
      cases hc
    simp only [Bool.false_eq_true, if_false]
    omega

end Rest

end JourneyPlanner
