import JourneyPlanner.Proofs.Search.Criteria
import JourneyPlanner.Proofs.Search.Outlook
import Mathlib.Logic.Relation

/-!
# Bounds never fall

`Query.Leads` is a step over an edge with nothing pruned: no limit, no result and
no other label is held against the label that it leads to. `Label.Proper` says what
all labels have in common to which such steps lead from a start. Their criteria need
not be what has been spent, since they stop at the ceiling.

Along a step the least that a measure can come to never falls. The distances behind
it are consistent, but for boardings the ceiling gets in the way: a node that is
farther away than can be counted has no bound at all. `Criterion.floorOf` is the
bound without this case, and never falls whatever the distances are
(`Takes.floorOf_le`, `Label.Proper.floor_le`). For labels within the limits the two
are the same, so that no bound falls from there (`Label.Proper.least_le`), and at the
goal they are what has been spent (`Label.Proper.least_of_isGoal`).
-/

namespace JourneyPlanner

open Relation (ReflTransGen)

/-- An edge leads from a label to another, whatever the limits say. -/
def Query.Leads (q : Query) (settings : Settings) (label next : Label) : Prop :=
  ∃ id, ∃ ref ∈ q.graph.edgesAt label.node q.direction,
    Run.expandEdge q settings id label ref = .ok (some next)

/-- Edges lead to a label from a start of a search for minutes, transfers and price. -/
def Query.Possible (q : Query) (settings : Settings) (label : Label) : Prop :=
  ∃ time ∈ q.startTimes,
    ReflTransGen (q.Leads settings) (Run.startLabel q Measure.all time) label

/-- Edges lead from a label to one at the goal. -/
def Query.Completes (q : Query) (settings : Settings) (label last : Label) : Prop :=
  ReflTransGen (q.Leads settings) label last ∧ q.target.isGoal last = true

/-- Where some edges lead from a label, if they lead on from each other. -/
def Query.along? (q : Query) (settings : Settings) (label : Label) : List EdgeRef → Option Label
  | [] => some label
  | ref :: refs =>
    if ref ∈ q.graph.edgesAt label.node q.direction then
      match Run.expandEdge q settings 0 label ref with
      | .ok (some next) => q.along? settings next refs
      | _ => none
    else none

/-- Edges that lead on from each other lead to the last label. -/
theorem Query.leads_of_along? {q : Query} {settings : Settings} {label last : Label}
    {refs : List EdgeRef} (h : q.along? settings label refs = some last) :
    ReflTransGen (q.Leads settings) label last := by
  induction refs generalizing label with
  | nil =>
    cases h
    exact .refl
  | cons ref refs ih =>
    unfold Query.along? at h
    split at h
    · next href =>
      split at h
      · next next hnext => exact .head ⟨0, ref, href, hnext⟩ (ih h)
      · cases h
    · cases h

/-! ## The bound without the ceiling of boardings -/

namespace Criterion

variable {bounds : LowerBounds} {context : BoundContext} {current : Nat}

/-- The least that a measure can come to, as if all nodes were near enough to the goal
for the vehicles to be counted. -/
def floorOf (bounds : LowerBounds) (context : BoundContext) (measure : Measure) (current : Nat) :
    Nat :=
  match measure with
  | .transfers =>
    let pending := bounds.boardingsAt context.node + context.boarding.toNat
    Bounded.add current (if context.hasConnection then pending else pending - 1)
  | measure => boundOf bounds context measure current

/-- Where the boardings can be counted, the ceiling makes no difference. -/
theorem boundOf_eq_floorOf {measure : Measure}
    (h : measure = .transfers → bounds.boardingsAt context.node ≠ Bounded.ceiling) :
    boundOf bounds context measure current = floorOf bounds context measure current := by
  cases measure with
  | time => rfl
  | price => rfl
  | transfers =>
    unfold boundOf transferBound
    dsimp only
    rw [if_neg (h rfl)]
    rfl

/-- No bound is above the ceiling. -/
theorem boundOf_le_ceiling (measure : Measure) :
    boundOf bounds context measure current ≤ Bounded.ceiling := by
  cases measure with
  | time => exact Bounded.add_le_ceiling _ _
  | price => exact Bounded.add_le_ceiling _ _
  | transfers =>
    unfold boundOf transferBound
    dsimp only
    split
    · exact Nat.le_refl _
    · exact Bounded.add_le_ceiling _ _

/-- A bound below the ceiling is the floor. -/
theorem boundOf_eq_floorOf_of_ne {measure : Measure}
    (h : boundOf bounds context measure current ≠ Bounded.ceiling) :
    boundOf bounds context measure current = floorOf bounds context measure current := by
  refine boundOf_eq_floorOf fun hm heq => h ?_
  subst hm
  unfold boundOf transferBound
  dsimp only
  rw [if_pos heq]

/-- The floor is never above the bound. -/
theorem floorOf_le_boundOf (measure : Measure) :
    floorOf bounds context measure current ≤ boundOf bounds context measure current := by
  by_cases h : boundOf bounds context measure current = Bounded.ceiling
  · rw [h]
    cases measure with
    | time => exact Bounded.add_le_ceiling _ _
    | price => exact Bounded.add_le_ceiling _ _
    | transfers => exact Bounded.add_le_ceiling _ _
  · exact Nat.le_of_eq (boundOf_eq_floorOf_of_ne h).symm

end Criterion

/-! ## One step -/

section Step

variable {q : Query} {settings : Settings} {label : Label} {ref : EdgeRef} {cost : EdgeCost}
  {id : LabelId} {now : Time}

/-- An edge is no shorter in the bounds than the distance that it gains. -/
theorem Query.Sound.distanceAt_le (hq : q.Sound) (weight : EdgeKind → Nat)
    (href : ref ∈ q.graph.edgesAt label.node q.direction) :
    LowerBounds.distanceAt (LowerBounds.distances q.graph q.target.goal q.direction weight)
        label.node ≤
      Bounded.add (LowerBounds.distanceAt
          (LowerBounds.distances q.graph q.target.goal q.direction weight)
          (q.graph.target ref q.direction))
        (weight (q.graph.edge ref).kind) :=
  LowerBounds.distanceAt_le_add hq.graph hq.goal.lt_size href

/-- The vehicle that is boarded next is no longer to come, and the first of all is
boarded without a change. -/
theorem Takes.transfers_le (hp : label.Placed q.graph.timetable.nodes)
    (ht : Takes q.graph q.direction settings.maxMinutes label ref cost) {near far : Nat}
    (hdist : near ≤ far + cost.boarding.toNat) :
    let pending := near + label.boarding.toNat
    let pending' := far + cost.boarding.toNat
    (if label.lastConnection.isSome then pending else pending - 1) ≤
      cost.transfer.toNat +
        (if (q.after id label ref cost now).lastConnection.isSome then pending'
          else pending' - 1) := by
  dsimp only
  rw [lastConnection_after, Option.isSome_or]
  by_cases hb : label.boarding = true
  · obtain ⟨hsome, htransfer⟩ := ht.board_of_boarding hp hb
    rw [hb, hsome, htransfer]
    cases label.lastConnection.isSome <;> simp <;> omega
  · rw [Bool.not_eq_true] at hb
    obtain ⟨htransfer, hride⟩ := ht.of_not_boarding hb
    have hsame : (cost.connection.isSome || label.lastConnection.isSome) =
        label.lastConnection.isSome := by
      cases hc : cost.connection.isSome with
      | false => rfl
      | true => rw [Option.isSome_iff_ne_none.2 (hp.ridden (hride hc))]; rfl
    rw [hb, hsame, htransfer]
    cases label.lastConnection.isSome <;> simp <;> omega

/-- Along an edge no bound falls. -/
theorem Takes.floorOf_le (hq : q.Sound) (hp : label.Placed q.graph.timetable.nodes)
    (hl : label.Riding q.graph q.direction)
    (href : ref ∈ q.graph.edgesAt label.node q.direction)
    (ht : Takes q.graph q.direction settings.maxMinutes label ref cost) (measure : Measure)
    (current : Nat) :
    Criterion.floorOf q.bounds label.context measure current ≤
      Criterion.floorOf q.bounds (q.after id label ref cost now).context measure
        (Criterion.spend cost measure current) := by
  -- the distance gained is no more than the weight of the edge, nor that than its cost
  have hdist : ∀ weight, LowerBounds.distanceAt
      (LowerBounds.distances q.graph q.target.goal q.direction weight) label.node ≤
        Bounded.add (LowerBounds.distanceAt
          (LowerBounds.distances q.graph q.target.goal q.direction weight)
          (q.after id label ref cost now).node) (weight (q.graph.edge ref).kind) :=
    fun weight => hq.distanceAt_le weight href
  rw [hq.bounds_eq]
  cases measure with
  | time =>
    have hd := hdist LowerBounds.minutesOf
    have hc := ht.minutes_le hq.graph hl href
    simp only [Criterion.floorOf, Criterion.boundOf, Criterion.spend, LowerBounds.minutesAt,
      LowerBounds.compute, Label.context, Bounded.add] at hd ⊢
    omega
  | price =>
    have hd := hdist (LowerBounds.priceOf q.graph.timetable)
    have hc := ht.minPrice_le hq.graph hl href
    simp only [Criterion.floorOf, Criterion.boundOf, Criterion.spend, LowerBounds.priceAt,
      LowerBounds.compute, Label.context, Bounded.add] at hd ⊢
    omega
  | transfers =>
    have hd := hdist (LowerBounds.boardingsOf q.direction)
    rw [ht.boardings_eq] at hd
    have hadd : ∀ {x y t : Nat}, x ≤ t + y →
        Bounded.add current x ≤ Bounded.add (current + t) y := by
      intro x y t h
      unfold Bounded.add
      omega
    exact hadd (ht.transfers_le hp (Nat.le_trans hd (Nat.min_le_left _ _)))

end Step

/-! ## Labels to which steps lead -/

/-- What the labels have in common to which steps lead from a start: their criteria are
for all measures, each with the bound that belongs to it. -/
structure Label.Proper (q : Query) (label : Label) : Prop where
  placed : label.Placed q.graph.timetable.nodes
  riding : label.Riding q.graph q.direction
  full : label.criteria.Full
  least_eq : ∀ m, label.criteria.least m =
    Criterion.boundOf q.bounds label.context m (label.criteria.current m)

section Proper

variable {q : Query} {settings : Settings} {label next last : Label} {ref : EdgeRef}
  {cost : EdgeCost} {id : LabelId} {now : Time}

/-- Criteria made for an amount of each measure are full and read these amounts. -/
theorem Criteria.full_make {bounds : LowerBounds} {context : BoundContext}
    {amount : Measure → Nat} {cs : Criteria}
    (h : cs = Measure.all.map fun m => Criterion.make bounds context m (amount m)) :
    cs.Full ∧ ∀ m, cs.current m = amount m ∧
      cs.least m = Criterion.boundOf bounds context m (amount m) := by
  rw [h]
  exact Criteria.full_map fun m => rfl

/-- A proper label's criteria are those made for what it has spent. -/
theorem Label.Proper.criteria_eq (h : label.Proper q) :
    label.criteria = Measure.all.map fun m =>
      Criterion.make q.bounds label.context m (label.criteria.current m) := by
  conv_lhs => rw [h.full.eq_map]
  refine List.map_congr_left fun m _ => ?_
  rw [h.least_eq]
  rfl

/-- The label of a start is proper. -/
theorem Label.Proper.start (hq : q.Sound) (time : Time) :
    (Run.startLabel q Measure.all time).Proper q := by
  have hcriteria : (Run.startLabel q Measure.all time).criteria = Measure.all.map fun m =>
      Criterion.make q.bounds (Run.startLabel q Measure.all time).context m 0 := rfl
  obtain ⟨hfull, hall⟩ := Criteria.full_make hcriteria
  refine ⟨⟨fun _ => hq.origin, fun hnot => absurd ⟨rfl, rfl⟩ hnot, fun hb => Bool.noConfusion hb,
    fun hr => absurd rfl hr⟩, ⟨fun used hused => ?_, fun ref legs href => ?_, fun ride hr => ?_,
    fun hr => ?_⟩, hfull, fun m => ?_⟩
  · cases hused
  · cases href
  · cases hr
  · cases hr
  · rw [(hall m).2, (hall m).1]

/-- A step keeps a label proper, and each criterion adds up. -/
theorem Label.Proper.after (hq : q.Sound) (h : label.Proper q)
    (href : ref ∈ q.graph.edgesAt label.node q.direction)
    (ht : Takes q.graph q.direction settings.maxMinutes label ref cost) :
    (q.after id label ref cost now).Proper q ∧
      ∀ m, (q.after id label ref cost now).criteria.current m =
        Criterion.spend cost m (label.criteria.current m) := by
  have hcriteria : (q.after id label ref cost now).criteria = Measure.all.map fun m =>
      Criterion.make q.bounds (q.after id label ref cost now).context m
        (Criterion.spend cost m (label.criteria.current m)) := Query.criteria_after h.criteria_eq
  obtain ⟨hfull, hall⟩ := Criteria.full_make hcriteria
  refine ⟨⟨Query.after_placed hq.graph h.placed href ht, ht.riding hq.graph h.riding href, hfull,
    fun m => ?_⟩, fun m => (hall m).1⟩
  rw [(hall m).2, (hall m).1]

/-- An edge leads from a proper label to proper ones. -/
theorem Label.Proper.leads (hq : q.Sound) (h : label.Proper q) (hl : q.Leads settings label next) :
    next.Proper q := by
  obtain ⟨id, ref, href, hnext⟩ := hl
  obtain ⟨cost, now, ht, -, rfl⟩ := expandEdge_eq_some_iff.1 hnext
  exact (h.after hq href ht).1

/-- Edges lead from a proper label to proper ones. -/
theorem Label.Proper.all_leads (hq : q.Sound) (h : label.Proper q)
    (hl : ReflTransGen (q.Leads settings) label next) : next.Proper q := by
  induction hl with
  | refl => exact h
  | tail _ hstep ih => exact ih.leads hq hstep

/-- Every label to which edges lead from a start is proper. -/
theorem Query.Possible.proper (hq : q.Sound) (h : q.Possible settings label) : label.Proper q := by
  obtain ⟨time, -, hl⟩ := h
  exact (Label.Proper.start hq time).all_leads hq hl

/-- The labels of trails are proper, and no criterion of theirs has been cut. -/
theorem Trail.proper (hq : q.Sound) {before : List Label}
    (h : Trail q settings Measure.all (label :: before)) :
    label.Proper q ∧ ∀ m, label.criteria.current m = spent q.graph label before m := by
  obtain ⟨hfull, hall⟩ := Criteria.full_make (h.criteria_eq hq)
  refine ⟨⟨h.placed hq, h.riding hq.graph, hfull, fun m => ?_⟩, fun m => (hall m).1⟩
  rw [(hall m).2, (hall m).1]

/-! ## Many steps -/

/-- The least that a measure can come to at a label, without the ceiling of boardings. -/
def Label.floor (q : Query) (label : Label) (m : Measure) : Nat :=
  Criterion.floorOf q.bounds label.context m (label.criteria.current m)

/-- What a proper label can come to is capped at the ceiling. -/
theorem Label.Proper.least_le_ceiling (h : label.Proper q) (m : Measure) :
    label.criteria.least m ≤ Bounded.ceiling := by
  rw [h.least_eq]
  exact Criterion.boundOf_le_ceiling m

/-- What a proper label can come to is no less than its floor. -/
theorem Label.Proper.floor_le_least (h : label.Proper q) (m : Measure) :
    label.floor q m ≤ label.criteria.least m := by
  rw [h.least_eq]
  exact Criterion.floorOf_le_boundOf m

/-- Within the limits the bound is the floor. -/
theorem Label.Proper.least_eq_floor (h : label.Proper q)
    (hin : label.criteria.isBeyond settings = false) (m : Measure) :
    label.criteria.least m = label.floor q m := by
  have hne := (h.full.isBeyond_eq_false_iff.1 hin m).1
  rw [h.least_eq] at hne ⊢
  exact Criterion.boundOf_eq_floorOf_of_ne hne

/-- The floor never falls on the way. -/
theorem Label.Proper.floor_le (hq : q.Sound) (h : label.Proper q)
    (hl : ReflTransGen (q.Leads settings) label next) (m : Measure) :
    label.floor q m ≤ next.floor q m := by
  induction hl with
  | refl => exact Nat.le_refl _
  | @tail label' next' hl hstep ih =>
    refine Nat.le_trans ih ?_
    have h' := h.all_leads hq hl
    obtain ⟨id, ref, href, hnext⟩ := hstep
    obtain ⟨cost, now, ht, -, rfl⟩ := expandEdge_eq_some_iff.1 hnext
    unfold Label.floor
    rw [(h'.after hq href ht).2 m]
    exact ht.floorOf_le hq h'.placed h'.riding href m _

/-- From a label within the limits no bound falls. -/
theorem Label.Proper.least_le (hq : q.Sound) (h : label.Proper q)
    (hin : label.criteria.isBeyond settings = false)
    (hl : ReflTransGen (q.Leads settings) label next) (m : Measure) :
    label.criteria.least m ≤ next.criteria.least m := by
  rw [h.least_eq_floor hin]
  exact Nat.le_trans (h.floor_le hq hl m) ((h.all_leads hq hl).floor_le_least m)

/-- A proper label at the goal is at the goal's node, and in no vehicle. -/
theorem Label.Proper.onFoot_of_isGoal (hq : q.Sound) (h : label.Proper q)
    (hgoal : q.target.isGoal label = true) : label.node = q.target.goal ∧ label.OnFoot := by
  have hnode : label.node = q.target.goal := by
    unfold Target.isGoal at hgoal
    rw [Bool.and_eq_true] at hgoal
    exact beq_iff_eq.1 hgoal.1
  refine ⟨hnode, ?_⟩
  by_contra hf
  have hstop := h.placed.stop hf
  rw [hnode] at hstop
  exact absurd hstop hq.goal.not_isStop

/-- At the goal nothing is still to come. -/
theorem Label.Proper.least_of_isGoal (hq : q.Sound) (h : label.Proper q)
    (hgoal : q.target.isGoal label = true) (m : Measure) :
    label.criteria.least m = min (label.criteria.current m) Bounded.ceiling := by
  obtain ⟨hnode, hfoot⟩ := h.onFoot_of_isGoal hq hgoal
  have hzero : ∀ weight, LowerBounds.distanceAt
      (LowerBounds.distances q.graph q.target.goal q.direction weight) label.node = 0 := by
    intro weight
    rw [hnode]
    exact LowerBounds.distanceAt_goal hq.graph hq.goal.lt_size
  have hboardings : q.bounds.boardingsAt label.context.node = 0 := by
    rw [hq.bounds_eq]
    exact hzero _
  have hfloor : label.criteria.least m = label.floor q m := by
    rw [h.least_eq]
    refine Criterion.boundOf_eq_floorOf fun _ => ?_
    rw [hboardings]
    exact Nat.zero_ne_add_one _
  rw [hfloor]
  unfold Label.floor
  cases m with
  | time =>
    have hz := hzero LowerBounds.minutesOf
    rw [hq.bounds_eq]
    simp only [Criterion.floorOf, Criterion.boundOf, LowerBounds.minutesAt, LowerBounds.compute,
      Label.context, hz, Bounded.add, Nat.add_zero]
  | price =>
    have hz := hzero (LowerBounds.priceOf q.graph.timetable)
    rw [hq.bounds_eq]
    simp only [Criterion.floorOf, Criterion.boundOf, LowerBounds.priceAt, LowerBounds.compute,
      Label.context, hz, Bounded.add, Nat.add_zero]
  | transfers =>
    unfold Criterion.floorOf
    dsimp only
    rw [hboardings]
    show Bounded.add _ (if _ then 0 + label.boarding.toNat else 0 + label.boarding.toNat - 1) = _
    rw [hfoot.2]
    simp [Bounded.add]

/-- At the goal nothing is added to what has been spent. -/
theorem Label.Proper.least_le_current (hq : q.Sound) (h : label.Proper q)
    (hgoal : q.target.isGoal label = true) (m : Measure) :
    label.criteria.least m ≤ label.criteria.current m := by
  rw [h.least_of_isGoal hq hgoal]
  exact Nat.min_le_left _ _

end Proper

end JourneyPlanner
