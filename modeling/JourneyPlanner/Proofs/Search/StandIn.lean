import JourneyPlanner.Proofs.Search.Leads
import JourneyPlanner.Proofs.Search.Waiting

/-!
# Labels that take the place of others

One label replaces another at its node if it can go on in the same ways, is no later and
has spent no more (`Replaces`). That is not enough for it to get wherever the other
does: whoever is earlier may board another run. It is enough for one that has started
and stands there at the very same times. Such a label `StandsFor` the other, takes every
edge that the other takes at the same cost (`StandsFor.takes`), and then stands for it
still (`StandsFor.after`).

A label that replaces another without standing for it has spent less time
(`Replaces.times_eq`), and so is in an earlier bucket (`Label.Proper.bucket_lt`).
-/

namespace JourneyPlanner

/-! ## What the vehicle left last has to do with the next -/

section Category

variable {direction : Direction} {label other : Label}

/-- A change to one category takes two labels at a node as long, if they come from
vehicles of one category. -/
theorem Timetable.changeTime_congr (tt : Timetable) (hnode : other.node = label.node)
    (hlast : other.lastCategory = label.lastCategory) (category : CategoryId) :
    tt.changeTime other direction category = tt.changeTime label direction category := by
  unfold Label.lastCategory at hlast
  unfold Timetable.changeTime
  rw [hnode]
  cases ho : other.lastConnection with
  | none =>
    rw [ho] at hlast
    cases hl : label.lastConnection with
    | none => rfl
    | some last =>
      rw [hl] at hlast
      cases hlast
  | some last =>
    rw [ho] at hlast
    cases hl : label.lastConnection with
    | none =>
      rw [hl] at hlast
      cases hlast
    | some last' =>
      rw [hl] at hlast
      have hsame : last.category = last'.category := Option.some.inj hlast
      cases direction <;> simp only [hsame]

theorem Label.isSome_lastConnection_congr (h : other.lastCategory = label.lastCategory) :
    other.lastConnection.isSome = label.lastConnection.isSome := by
  have hsome := congrArg Option.isSome h
  unfold Label.lastCategory at hsome
  rw [Option.isSome_map, Option.isSome_map] at hsome
  exact hsome

end Category

/-! ## What has been spent -/

theorem Criterion.spend_mono (cost : EdgeCost) (m : Measure) {a b : Nat} (h : a ≤ b) :
    spend cost m a ≤ spend cost m b := by
  cases m with
  | time => exact Bounded.add_mono h _
  | transfers => exact Nat.add_le_add_right h _
  | price => exact Bounded.add_mono h _

/-- What can come to less is within the limits as well. -/
theorem Label.Proper.not_isBeyond_of_least_le {q : Query} {settings : Settings} {a b : Label}
    (ha : a.Proper q) (hb : b.Proper q) (hin : b.criteria.isBeyond settings = false)
    (hle : ∀ m, a.criteria.least m ≤ b.criteria.least m) :
    a.criteria.isBeyond settings = false := by
  apply ha.full.isBeyond_eq_false_iff.2
  intro m
  obtain ⟨hne, hlimit⟩ := hb.full.isBeyond_eq_false_iff.1 hin m
  have hcap := hb.least_le_ceiling m
  have hle := hle m
  constructor
  · omega
  · omega

/-- What has spent less time at a node is in an earlier bucket. -/
theorem Label.Proper.bucket_lt {q : Query} {settings : Settings} {a b : Label}
    (ha : a.Proper q) (hb : b.Proper q) (hnode : a.node = b.node)
    (hin : b.criteria.isBeyond settings = false)
    (htime : a.criteria.current .time < b.criteria.current .time) :
    a.criteria.bucket < b.criteria.bucket := by
  have hne := (hb.full.isBeyond_eq_false_iff.1 hin .time).1
  rw [ha.full.bucket_eq, hb.full.bucket_eq]
  rw [hb.least_eq] at hne
  rw [ha.least_eq, hb.least_eq]
  show Bounded.add _ (q.bounds.minutesAt a.node) < Bounded.add _ (q.bounds.minutesAt b.node)
  rw [hnode]
  unfold Criterion.boundOf Label.context Bounded.add at *
  dsimp only at hne
  omega

/-- What replaces a label: it can go on in the same ways, is no later and has spent no
more. -/
structure Replaces (direction : Direction) (a b : Label) : Prop where
  progress : a.progress = b.progress
  ride : a.ride = b.ride
  boarding : a.boarding = b.boarding
  category : a.lastCategory = b.lastCategory
  hotel : a.hotel = true → b.hotel = true
  pinned : a.pinned = b.pinned
  same : a.pinned = true → a.now = b.now
  started : direction.NoLater b.start a.start
  now : direction.NoLater a.now b.now
  current : ∀ m, a.criteria.current m ≤ b.criteria.current m

/-- The test of the search is `Replaces`, for criteria of all measures. -/
theorem Frontier.replaces_iff {direction : Direction} {a b : Label} (ha : a.criteria.Full)
    (hb : b.criteria.Full) : Frontier.replaces direction a b = true ↔ Replaces direction a b := by
  have htimes : a.withinTimes b direction = true ↔
      direction.NoLater b.start a.start ∧ direction.NoLater a.now b.now := by
    unfold Label.withinTimes
    cases direction <;> simp [Direction.NoLater]
  unfold Frontier.replaces Label.comparable Label.sameState
  rw [Bool.and_eq_true, ha.weaklyDominates_iff hb, Bool.and_eq_true, htimes]
  simp only [Bool.and_eq_true, beq_iff_eq, Bool.or_eq_true, Bool.not_eq_true',
    ← Bool.not_eq_true, ← imp_iff_not_or]
  constructor
  · rintro ⟨⟨⟨⟨⟨⟨⟨⟨hprogress, hride⟩, hboarding⟩, hcategory⟩, hhotel⟩, hpinned⟩, hsame⟩, hstart,
      hnow⟩, hcurrent⟩
    exact ⟨hprogress, hride, hboarding, hcategory, hhotel, hpinned, hsame, hstart, hnow, hcurrent⟩
  · rintro ⟨hprogress, hride, hboarding, hcategory, hhotel, hpinned, hsame, hstart, hnow, hcurrent⟩
    exact ⟨⟨⟨⟨⟨⟨⟨⟨hprogress, hride⟩, hboarding⟩, hcategory⟩, hhotel⟩, hpinned⟩, hsame⟩, hstart,
      hnow⟩, hcurrent⟩

namespace Replaces

variable {q : Query} {settings : Settings} {direction : Direction} {a b c : Label}
  {before before' : List Label}

theorem trans (h : Replaces direction a b) (h' : Replaces direction b c) :
    Replaces direction a c := by
  refine ⟨h.progress.trans h'.progress, h.ride.trans h'.ride, h.boarding.trans h'.boarding,
    h.category.trans h'.category, fun hh => h'.hotel (h.hotel hh), h.pinned.trans h'.pinned,
    fun hp => ?_, h'.started.trans h.started, h.now.trans h'.now,
    fun m => Nat.le_trans (h.current m) (h'.current m)⟩
  have hp' : b.pinned = true := by
    rw [← h.pinned]
    exact hp
  exact (h.same hp).trans (h'.same hp')

theorem connected (h : Replaces direction a b) :
    a.lastConnection.isSome = b.lastConnection.isSome :=
  Label.isSome_lastConnection_congr h.category

/-- At one node less can come of what has spent no more. -/
theorem least_le (h : Replaces direction a b) (hnode : a.node = b.node) (ha : a.Proper q)
    (hb : b.Proper q) (m : Measure) : a.criteria.least m ≤ b.criteria.least m := by
  have hcontext : a.context = b.context := by
    unfold Label.context
    rw [hnode, h.boarding, h.connected]
  rw [ha.least_eq, hb.least_eq, hcontext]
  exact boundOf_mono m (h.current m)

/-- What has spent as much time has done so between the same times. -/
theorem times_eq (hq : q.Sound) (h : Replaces q.direction a b)
    (ha : Trail q settings Measure.all (a :: before))
    (hb : Trail q settings Measure.all (b :: before'))
    (htime : b.criteria.current .time ≤ a.criteria.current .time) :
    a.start = b.start ∧ a.now = b.now := by
  have hstarted := h.started
  have hnow := h.now
  have hordered := ha.inOrder.noLater
  rw [(ha.proper hq).2, (hb.proper hq).2] at htime
  simp only [spent, Label.travelTime, Bounded.distance] at htime
  cases hd : q.direction with
  | forward =>
    rw [hd] at hstarted hnow hordered
    simp only [Direction.NoLater, Time] at *
    omega
  | backward =>
    rw [hd] at hstarted hnow hordered
    simp only [Direction.NoLater, Time] at *
    omega

end Replaces

/-- What replaces a label at its node, and has started and stands there at the same
times. -/
structure StandsFor (direction : Direction) (a b : Label) : Prop extends
    Replaces direction a b where
  node_eq : a.node = b.node
  start_eq : a.start = b.start
  now_eq : a.now = b.now

namespace StandsFor

variable {q : Query} {settings : Settings} {a b : Label} {ref : EdgeRef} {cost : EdgeCost}

theorem refl (direction : Direction) (label : Label) : StandsFor direction label label :=
  ⟨⟨rfl, rfl, rfl, rfl, id, rfl, fun _ => rfl, .refl _ _, .refl _ _, fun _ => Nat.le_refl _⟩, rfl,
    rfl, rfl⟩

theorem isGoal_eq {target : Target} {direction : Direction} (h : StandsFor direction a b) :
    target.isGoal a = target.isGoal b := by
  unfold Target.isGoal
  rw [h.node_eq, h.progress]

/-- Whoever stands for a label takes the same edges at the same cost. -/
theorem takes {graph : QueryGraph} {direction : Direction} {horizon : Nat}
    (h : StandsFor direction a b) (ht : Takes graph direction horizon b ref cost) :
    Takes graph direction horizon a ref cost := by
  have hnow := h.now_eq
  have hfoot : b.OnFoot → a.OnFoot := fun hf => ⟨h.ride.trans hf.1, h.boarding.trans hf.2⟩
  have hchange : ∀ category, graph.timetable.changeTime a direction category =
      graph.timetable.changeTime b direction category :=
    graph.timetable.changeTime_congr h.node_eq h.category
  cases ht with
  | access hkind hf => exact .access hkind (hfoot hf)
  | egress ride hkind hride => exact .egress ride hkind (h.ride.trans hride)
  | stay id legs ride event hid hkind hride hat hahead =>
    rw [← hnow] at hahead ⊢
    exact .stay id legs ride event hid hkind (h.ride.trans hride) hat hahead
  | board id legs event hid hkind hride hboarding hfind =>
    -- the same window, and the same time for the change
    have hboardable : a.boardable graph.timetable legs direction horizon =
        b.boardable graph.timetable legs direction horizon := by
      unfold Label.boardable Timetable.boardingWindow
      rw [h.pinned, hnow, h.start_eq]
    have hinTime : a.inTime graph.timetable direction = b.inTime graph.timetable direction := by
      funext event
      unfold Label.inTime
      rw [hnow, hchange]
    rw [← hnow, ← h.connected]
    refine .board id legs event hid hkind (h.ride.trans hride) (h.boarding.trans hboarding) ?_
    rw [hboardable, hinTime]
    exact hfind
  | through trips ride trip hkind hride htrip =>
    exact .through trips ride trip hkind (h.ride.trans hride) htrip
  | foot duration price hkind hf => exact .foot duration price hkind (hfoot hf)
  | mumo ride time hkind hf htime hpinned =>
    refine .mumo ride time hkind (hfoot hf) ?_ fun hp => ?_
    · rw [hnow]
      exact htime
    · apply hpinned
      rw [← h.pinned]
      exact hp
  | hotel stay hkind hf hfirst hpinned =>
    rw [← hnow]
    refine .hotel stay hkind (hfoot hf) ?_ (h.pinned.trans hpinned)
    apply Bool.eq_false_iff.2
    intro hh
    rw [h.hotel hh] at hfirst
    cases hfirst

/-- Whoever stands for a label stands for it also after the next edge. -/
theorem after (hq : q.Sound) (h : StandsFor q.direction a b) (ha : a.Proper q) (hb : b.Proper q)
    (id id' : LabelId) (href : ref ∈ q.graph.edgesAt b.node q.direction)
    (ht : Takes q.graph q.direction settings.maxMinutes b ref cost) (now : Time) :
    StandsFor q.direction (q.after id a ref cost now) (q.after id' b ref cost now) := by
  have href' : ref ∈ q.graph.edgesAt a.node q.direction := by
    rw [h.node_eq]
    exact href
  refine ⟨⟨?_, rfl, rfl, ?_, ?_, ?_, fun _ => rfl, ?_, .refl _ _, fun m => ?_⟩, rfl, h.start_eq,
    rfl⟩
  · show q.target.advance _ a.progress = q.target.advance _ b.progress
    rw [h.progress]
  · have hcategory := h.category
    unfold Label.lastCategory at hcategory ⊢
    rw [lastConnection_after, lastConnection_after]
    cases cost.connection with
    | some used => rfl
    | none => exact hcategory
  · show (a.hotel || cost.hotel) = true → (b.hotel || cost.hotel) = true
    rw [Bool.or_eq_true, Bool.or_eq_true]
    exact Or.imp_left h.hotel
  · show (a.pinned && cost.connection.isNone) = (b.pinned && cost.connection.isNone)
    rw [h.pinned]
  · show q.direction.NoLater b.start a.start
    exact h.started
  · rw [(ha.after hq href' (h.takes ht)).2 m, (hb.after hq href ht).2 m]
    exact Criterion.spend_mono cost m (h.current m)

end StandsFor

end JourneyPlanner
