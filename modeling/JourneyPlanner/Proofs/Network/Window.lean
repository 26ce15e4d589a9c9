import JourneyPlanner.Network.Window
import JourneyPlanner.Proofs.Network.Builder
import Mathlib.Algebra.GroupWithZero.Nat

/-!
# What a window holds

A window over a route edge with ordered legs is a list of events without
surprises (`mem_events_make`, `pairwise_events_make`):

> its events are the runs of the edge's trips on the days of the schedule on
> which they run, with a time between the bounds, and they come in the order in
> which a search meets them, the earlier day first among equals.

The window merges one stretch of legs for each day. `Holds` says which legs the
stretches have left, and one step of the merge (`taken_of_takeNext?`) takes away the
leg that is met first; both statements are inductions over such steps.
-/

namespace JourneyPlanner

/-- Of two legs on one day, the one at `a` is met before the one at `b`. -/
def Direction.MeetsPosition : Direction → Nat → Nat → Prop
  | .forward, a, b => a < b
  | .backward, a, b => b < a

/-- The first event is met before the second: sooner, or at one time on an
earlier day, or on one day at a position that comes first. -/
def Event.Before (direction : Direction) (a b : Event) : Prop :=
  Window.sooner direction (a.key direction) (b.key direction) = true ∨
    a.key direction = b.key direction ∧
      (a.day < b.day ∨ a.day = b.day ∧ direction.MeetsPosition a.trip b.trip)

instance (direction : Direction) (a b : Nat) : Decidable (direction.MeetsPosition a b) :=
  match direction with
  | .forward => inferInstanceAs (Decidable (a < b))
  | .backward => inferInstanceAs (Decidable (b < a))

instance (direction : Direction) (a b : Event) : Decidable (a.Before direction b) :=
  inferInstanceAs (Decidable (_ ∨ _ ∧ (_ ∨ _ ∧ _)))

/-- Of two events at most one is met before the other. -/
theorem Event.Before.asymm {direction : Direction} {a b : Event} (h : a.Before direction b) :
    ¬ b.Before direction a := by
  intro h'
  cases direction <;>
    simp only [Event.Before, Window.sooner, Direction.MeetsPosition, decide_eq_true_eq, Time]
      at h h' <;>
    omega

/-- An event is the run of its own trip on its own day. -/
theorem Event.eq_of_at? {legs : Array Leg} {trip day : Nat} {event : Event}
    (h : Event.at? legs trip day = some event) :
    event.trip = trip ∧ event.day = day ∧ legs[trip]? = some event.leg ∧
      event.departure = Time.ofDay day event.leg.departure ∧
      event.arrival = Time.ofDay day event.leg.arrival := by
  unfold Event.at? at h
  obtain ⟨leg, hleg, rfl⟩ := Option.map_eq_some_iff.1 h
  exact ⟨rfl, rfl, hleg, rfl, rfl⟩

/-- A run found under a trip and a day is that trip's run of that day. -/
theorem Event.at?_self {legs : Array Leg} {trip day : Nat} {event : Event}
    (h : Event.at? legs trip day = some event) :
    Event.at? legs event.trip event.day = some event := by
  obtain ⟨htrip, hday, -⟩ := Event.eq_of_at? h
  rw [htrip, hday]
  exact h

/-- The key of a run is that of its leg, on its day. -/
theorem Event.key_eq {legs : Array Leg} {trip day : Nat} {event : Event}
    (h : Event.at? legs trip day = some event) (direction : Direction) :
    event.key direction = Time.ofDay day (event.leg.key direction) := by
  obtain ⟨-, -, -, hd, ha⟩ := Event.eq_of_at? h
  cases direction
  · exact hd
  · exact ha

/-- In ordered legs the keys grow with the positions. -/
theorem Leg.key_le {legs : Array Leg} (h : legs.toList.Pairwise Leg.NoLater) {i j : Nat}
    {a b : Leg} (ha : legs[i]? = some a) (hb : legs[j]? = some b) (hij : i ≤ j)
    (direction : Direction) : a.key direction ≤ b.key direction := by
  rcases Nat.lt_or_eq_of_le hij with hlt | rfl
  · rw [List.pairwise_iff_getElem] at h
    obtain ⟨hi, rfl⟩ := Array.getElem?_eq_some_iff.1 ha
    obtain ⟨hj, rfl⟩ := Array.getElem?_eq_some_iff.1 hb
    have hle := h i j (by simpa using hi) (by simpa using hj) hlt
    cases direction
    · exact hle.departure_le
    · exact hle.arrival_le
  · rw [ha] at hb
    cases hb
    exact Nat.le_refl _

namespace Window

/-- The window still has the leg at a position on a day. -/
def Holds (w : Window) (day position : Nat) : Prop :=
  ∃ run ∈ w.runs, run.day = day ∧ run.lo ≤ position ∧ position < run.hi

/-- One stretch a day, all within the legs, which are ordered. -/
structure Ordered (w : Window) : Prop where
  sorted : w.legs.toList.Pairwise Leg.NoLater
  days : w.runs.Pairwise (fun a b => a.day < b.day)
  hi_le : ∀ run ∈ w.runs, run.hi ≤ w.legs.size

/-- The time of a leg on a day. -/
def timeAt (w : Window) (day position : Nat) : Nat :=
  match w.legs[position]? with
  | some leg => Time.ofDay day (leg.key w.direction)
  | none => 0

/-- The next time of a stretch is the time of its next leg. -/
theorem nextTime_eq (w : Window) (run : DayRun) :
    w.nextTime run = w.timeAt run.day (nextIndex w.direction run) := rfl

/-- On one day a leg further on is timed no sooner. -/
theorem Ordered.timeAt_le {w : Window} (h : w.Ordered) (day : Nat) {i j : Nat} (hij : i ≤ j)
    (hj : j < w.legs.size) : w.timeAt day i ≤ w.timeAt day j := by
  have hi : i < w.legs.size := by omega
  have hle := Leg.key_le h.sorted (Array.getElem?_eq_getElem hi) (Array.getElem?_eq_getElem hj) hij
    w.direction
  unfold timeAt
  rw [Array.getElem?_eq_getElem hi, Array.getElem?_eq_getElem hj]
  exact Nat.add_le_add_left hle _

/-- The first of two legs is met before the second. -/
def Meets (w : Window) (a b : Nat × Nat) : Prop :=
  sooner w.direction (w.timeAt a.1 a.2) (w.timeAt b.1 b.2) = true ∨
    w.timeAt a.1 a.2 = w.timeAt b.1 b.2 ∧
      (a.1 < b.1 ∨ a.1 = b.1 ∧ w.direction.MeetsPosition a.2 b.2)

/-- The next leg of a stretch is met before the others of that stretch. -/
theorem Ordered.meets_next {w : Window} (h : w.Ordered) {run : DayRun} (hrun : run ∈ w.runs)
    {position : Nat} (hlo : run.lo ≤ position) (hhi : position < run.hi)
    (hne : position ≠ nextIndex w.direction run) :
    w.Meets (run.day, nextIndex w.direction run) (run.day, position) := by
  have hsize := h.hi_le run hrun
  unfold Meets
  cases hd : w.direction with
  | forward =>
    rw [hd] at hne
    have hle := h.timeAt_le run.day hlo (by omega)
    rcases Nat.lt_or_eq_of_le hle with hlt | heq
    · exact Or.inl (decide_eq_true hlt)
    · exact Or.inr ⟨heq, Or.inr ⟨rfl, Nat.lt_of_le_of_ne hlo (Ne.symm hne)⟩⟩
  | backward =>
    rw [hd] at hne
    have hne' : position ≠ run.hi - 1 := hne
    have hle := h.timeAt_le run.day (i := position) (j := run.hi - 1) (by omega) (by omega)
    rcases Nat.lt_or_eq_of_le hle with hlt | heq
    · exact Or.inl (decide_eq_true hlt)
    · exact Or.inr ⟨heq.symm, Or.inr ⟨rfl, show position < run.hi - 1 by omega⟩⟩

/-! ## The soonest stretch -/

/-- What `best?` has found among some of the stretches with their places. -/
def IsBest (w : Window) (runs : List (DayRun × Nat)) : Option (Nat × Time) → Prop
  | none => ∀ e ∈ runs, e.1.hi ≤ e.1.lo
  | some (place, least) => ∃ run, (run, place) ∈ runs ∧ run.lo < run.hi ∧ w.nextTime run = least ∧
      ∀ e ∈ runs, e.1.lo < e.1.hi → sooner w.direction (w.nextTime e.1) least = false ∧
        (e.2 < place → sooner w.direction least (w.nextTime e.1) = true)

/-- What is sooner than something is sooner than whatever that is not later than. -/
theorem sooner_trans {direction : Direction} {a b c : Time}
    (h₁ : sooner direction a b = true) (h₂ : sooner direction c b = false) :
    sooner direction a c = true := by
  cases direction <;> simp only [sooner, decide_eq_true_eq, decide_eq_false_iff_not] at h₁ h₂ ⊢
  · exact Nat.lt_of_lt_of_le h₁ (Nat.le_of_not_lt h₂)
  · exact Nat.lt_of_le_of_lt (Nat.le_of_not_lt h₂) h₁

/-- Of two times not both are the sooner. -/
theorem not_sooner_of_sooner {direction : Direction} {a b : Time}
    (h : sooner direction a b = true) : sooner direction b a = false := by
  cases direction <;> simp only [sooner, decide_eq_true_eq, decide_eq_false_iff_not] at h ⊢
  · exact Nat.not_lt.2 (Nat.le_of_lt h)
  · exact Nat.not_lt.2 (Nat.le_of_lt h)

/-- One more stretch, with its place, against the best so far. -/
def pick (w : Window) (best : Option (Nat × Time)) (e : DayRun × Nat) : Option (Nat × Time) :=
  if e.1.hi ≤ e.1.lo then best
  else
    match best with
    | none => some (e.2, w.nextTime e.1)
    | some (_, least) =>
      if sooner w.direction (w.nextTime e.1) least then some (e.2, w.nextTime e.1) else best

/-- The soonest stretch is found by picking, one stretch after the other. -/
theorem best?_eq (w : Window) : w.best? = w.runs.zipIdx.foldl w.pick none := rfl

/-- Picking once more keeps the best of all stretches looked at. -/
theorem isBest_pick {w : Window} {runs : List (DayRun × Nat)} {e : DayRun × Nat}
    {best : Option (Nat × Time)} (hplace : ∀ e' ∈ runs, e'.2 < e.2) (h : w.IsBest runs best) :
    w.IsBest (runs ++ [e]) (w.pick best e) := by
  have hself : ∀ t, sooner w.direction t t = false := by
    intro t
    cases w.direction <;> simp [sooner]
  unfold pick
  split
  · -- a stretch that is used up changes nothing
    next hempty =>
    cases best with
    | none =>
      intro e' he'
      rcases List.mem_append.1 he' with he' | he'
      · exact h e' he'
      · rw [List.mem_singleton.1 he']
        exact hempty
    | some b =>
      obtain ⟨run, hmem, hfill, htime, hall⟩ := h
      refine ⟨run, List.mem_append_left _ hmem, hfill, htime, fun e' he' hfill' => ?_⟩
      rcases List.mem_append.1 he' with he' | he'
      · exact hall e' he' hfill'
      · rw [List.mem_singleton.1 he'] at hfill'
        omega
  · next hfill =>
    cases best with
    | none =>
      refine ⟨e.1, by simp, by omega, rfl, fun e' he' hfill' => ?_⟩
      rcases List.mem_append.1 he' with he' | he'
      · have := h e' he'
        omega
      · rw [List.mem_singleton.1 he']
        exact ⟨hself _, fun hlt => absurd hlt (Nat.lt_irrefl _)⟩
    | some b =>
      obtain ⟨place, least⟩ := b
      obtain ⟨run, hmem, hfill₀, htime, hall⟩ := h
      dsimp only
      split
      · -- the new one takes the place, and is sooner than all that the old one was not after
        next hsooner =>
        refine ⟨e.1, by simp, by omega, rfl, fun e' he' hfill' => ?_⟩
        rcases List.mem_append.1 he' with he' | he'
        · have hlt := sooner_trans hsooner (hall e' he' hfill').1
          exact ⟨not_sooner_of_sooner hlt, fun _ => hlt⟩
        · rw [List.mem_singleton.1 he']
          exact ⟨hself _, fun hlt => absurd hlt (Nat.lt_irrefl _)⟩
      · next hsooner =>
        refine ⟨run, List.mem_append_left _ hmem, hfill₀, htime, fun e' he' hfill' => ?_⟩
        rcases List.mem_append.1 he' with he' | he'
        · exact hall e' he' hfill'
        · rw [List.mem_singleton.1 he']
          refine ⟨Bool.eq_false_iff.2 hsooner, fun hlt => ?_⟩
          have := hplace _ hmem
          omega

/-- The stretch found is the soonest of all, and the first of the soonest. -/
theorem best?_isBest (w : Window) : w.IsBest w.runs.zipIdx w.best? := by
  have hpairs : w.runs.zipIdx.Pairwise (fun a b => a.2 < b.2) := by
    rw [← List.pairwise_map (f := Prod.snd) (R := (· < ·)), List.zipIdx_map_snd]
    exact List.pairwise_lt_range'
  rw [best?_eq]
  generalize w.runs.zipIdx = runs at hpairs ⊢
  induction runs using List.reverseRecOn with
  | nil => intro e he; cases he
  | append_singleton runs e ih =>
    rw [List.pairwise_append] at hpairs
    rw [List.foldl_append]
    exact isBest_pick (fun e' he' => hpairs.2.2 e' he' e (by simp)) (ih hpairs.1)

/-! ## One step of the merge -/

/-- A window has as many legs left as its stretches together. -/
theorem size_eq_sum (w : Window) : w.size = (w.runs.map DayRun.size).sum := by
  rw [List.sum_eq_foldl, List.foldl_map]
  rfl

/-- Replacing one stretch changes a sum over them by that stretch alone. -/
theorem sum_map_set {l : List DayRun} {f : DayRun → Nat} {i : Nat} {old : DayRun}
    (new : DayRun) (h : l[i]? = some old) :
    ((l.set i new).map f).sum + f old = (l.map f).sum + f new := by
  induction l generalizing i with
  | nil => cases h
  | cons x l ih =>
    cases i with
    | zero =>
      cases h
      simp only [List.set_cons_zero, List.map_cons, List.sum_cons]
      omega
    | succ i =>
      have := ih h
      simp only [List.set_cons_succ, List.map_cons, List.sum_cons]
      omega

/-- The days of the stretches tell them apart. -/
theorem Ordered.day_lt {w : Window} (h : w.Ordered) {i j : Nat} {a b : DayRun}
    (ha : w.runs[i]? = some a) (hb : w.runs[j]? = some b) (hij : i < j) : a.day < b.day := by
  obtain ⟨hi, rfl⟩ := List.getElem?_eq_some_iff.1 ha
  obtain ⟨hj, rfl⟩ := List.getElem?_eq_some_iff.1 hb
  exact List.pairwise_iff_getElem.1 h.days i j hi hj hij

/-- The next leg of a stretch is one of it. -/
theorem nextIndex_bounds (direction : Direction) {run : DayRun} (h : run.lo < run.hi) :
    run.lo ≤ nextIndex direction run ∧ nextIndex direction run < run.hi := by
  cases direction <;> simp only [nextIndex] <;> omega

/-- A stretch without its next leg holds the others. -/
theorem mem_dropNext {direction : Direction} {run : DayRun} (h : run.lo < run.hi) (i : Nat) :
    (dropNext direction run).lo ≤ i ∧ i < (dropNext direction run).hi ↔
      (run.lo ≤ i ∧ i < run.hi) ∧ i ≠ nextIndex direction run := by
  cases direction <;> simp only [dropNext, nextIndex] <;> omega

/-- A stretch without its next leg is shorter by one. -/
theorem size_dropNext (direction : Direction) {run : DayRun} (h : run.lo < run.hi) :
    (dropNext direction run).size + 1 = run.size := by
  cases direction <;> simp only [dropNext, DayRun.size] <;> omega

/-- A merge with nothing to take has no leg left. -/
theorem not_holds_of_takeNext? {w : Window} (h : w.takeNext? = none) (day position : Nat) :
    ¬ w.Holds day position := by
  rintro ⟨run, hrun, -, hlo, hhi⟩
  have hbest := best?_isBest w
  unfold takeNext? at h
  cases hb : w.best? with
  | none =>
    rw [hb] at hbest
    obtain ⟨i, hi⟩ := List.getElem?_of_mem hrun
    have := hbest (run, i) (List.mem_zipIdx_iff_getElem?.2 hi)
    dsimp only at this
    omega
  | some b =>
    rw [hb] at hbest h
    obtain ⟨r, hmem, -⟩ := hbest
    have hget : w.runs[b.1]? = some r := List.mem_zipIdx_iff_getElem?.1 hmem
    simp [hget] at h

section Cut

variable {w : Window} {place : Nat} {run : DayRun}

/-- The window without the next leg of one of its stretches. -/
def cut (w : Window) (place : Nat) (run : DayRun) : Window :=
  { w with runs := w.runs.set place (dropNext w.direction run) }

theorem day_dropNext (direction : Direction) (run : DayRun) :
    (dropNext direction run).day = run.day := by
  cases direction <;> rfl

/-- What is left lies on the stretch that was cut, or on one of the others. -/
theorem holds_cut_cases (hfill : run.lo < run.hi) {d i : Nat} (h : (w.cut place run).Holds d i) :
    (run.day = d ∧ (run.lo ≤ i ∧ i < run.hi) ∧ i ≠ nextIndex w.direction run) ∨
      ∃ q r, q ≠ place ∧ w.runs[q]? = some r ∧ r.day = d ∧ r.lo ≤ i ∧ i < r.hi := by
  obtain ⟨r, hr, hd, hi⟩ := h
  obtain ⟨q, hq⟩ := List.getElem?_of_mem hr
  have hq' : (w.runs.set place (dropNext w.direction run))[q]? = some r := hq
  rw [List.getElem?_set] at hq'
  split at hq'
  · split at hq'
    · cases hq'
      rw [day_dropNext] at hd
      exact Or.inl ⟨hd, (mem_dropNext hfill i).1 hi⟩
    · cases hq'
  · next hne => exact Or.inr ⟨q, r, Ne.symm hne, hq', hd, hi⟩

/-- Cutting a leg off takes away that leg and no other. -/
theorem holds_cut_iff (ho : w.Ordered) (hget : w.runs[place]? = some run) (hfill : run.lo < run.hi)
    (d i : Nat) : (w.cut place run).Holds d i ↔
      w.Holds d i ∧ ¬ (d = run.day ∧ i = nextIndex w.direction run) := by
  constructor
  · intro hh
    rcases holds_cut_cases hfill hh with ⟨hd, hi, hne⟩ | ⟨q, r, hq, hr, hd, hlo, hhi⟩
    · exact ⟨⟨run, List.mem_of_getElem? hget, hd, hi⟩, fun heq => hne heq.2⟩
    · refine ⟨⟨r, List.mem_of_getElem? hr, hd, hlo, hhi⟩, fun heq => ?_⟩
      -- another stretch is on another day
      rcases Nat.lt_or_gt_of_ne hq with hlt | hgt
      · have := ho.day_lt hr hget hlt
        omega
      · have := ho.day_lt hget hr hgt
        omega
  · rintro ⟨⟨r, hr, hd, hlo, hhi⟩, hne⟩
    obtain ⟨q, hq⟩ := List.getElem?_of_mem hr
    obtain ⟨hlt, -⟩ := List.getElem?_eq_some_iff.1 hq
    unfold cut Holds
    by_cases hqp : place = q
    · rw [← hqp, hget] at hq
      cases hq
      refine ⟨dropNext w.direction run, ?_, (day_dropNext _ _).trans hd, ?_⟩
      · exact List.mem_of_getElem? (i := place) (by
          rw [List.getElem?_set_self (by omega)])
      · exact (mem_dropNext hfill i).2 ⟨⟨hlo, hhi⟩, fun heq => hne ⟨hd.symm, heq⟩⟩
    · exact ⟨r, List.mem_of_getElem? (i := q) (by
        rw [List.getElem?_set_ne hqp]; exact hq), hd, hlo, hhi⟩

/-- A leg cut off leaves the stretches in order. -/
theorem Ordered.cut (ho : w.Ordered) (hget : w.runs[place]? = some run) :
    (w.cut place run).Ordered := by
  refine ⟨ho.sorted, ?_, fun r hr => ?_⟩
  · have hmap : (w.runs.set place (dropNext w.direction run)).map DayRun.day =
        w.runs.map DayRun.day := by
      obtain ⟨hlt, rfl⟩ := List.getElem?_eq_some_iff.1 hget
      rw [List.map_set, day_dropNext, ← List.getElem_map DayRun.day (h := by simpa using hlt),
        List.set_getElem_self]
    have hp := ho.days
    rw [← List.pairwise_map (f := DayRun.day) (R := (· < ·))] at hp
    rw [← List.pairwise_map (f := DayRun.day) (R := (· < ·))]
    show ((w.runs.set place (dropNext w.direction run)).map DayRun.day).Pairwise (· < ·)
    rw [hmap]
    exact hp
  · rcases List.mem_or_eq_of_mem_set hr with hr | rfl
    · exact ho.hi_le r hr
    · have := ho.hi_le run (List.mem_of_getElem? hget)
      show (dropNext w.direction run).hi ≤ w.legs.size
      cases hdir : w.direction <;> simp only [dropNext] <;> omega

/-- A leg cut off leaves one leg less. -/
theorem size_cut (hget : w.runs[place]? = some run) (hfill : run.lo < run.hi) :
    (w.cut place run).size + 1 = w.size := by
  have hsum := sum_map_set (f := DayRun.size) (dropNext w.direction run) hget
  have hdrop := size_dropNext w.direction hfill
  rw [size_eq_sum, size_eq_sum]
  unfold Window.cut
  dsimp only
  omega

/-- The next leg of the soonest stretch is met before every leg of another one. -/
theorem Ordered.meets_other (ho : w.Ordered) (hget : w.runs[place]? = some run)
    {q i : Nat} {r : DayRun} (hne : q ≠ place) (hr : w.runs[q]? = some r)
    (hns : sooner w.direction (w.nextTime r) (w.nextTime run) = false)
    (hbefore : q < place → sooner w.direction (w.nextTime run) (w.nextTime r) = true)
    (hlo : r.lo ≤ i) (hhi : i < r.hi) :
    w.Meets (run.day, nextIndex w.direction run) (r.day, i) := by
  have hsize := ho.hi_le r (List.mem_of_getElem? hr)
  have hday : place < q → run.day < r.day := ho.day_lt hget hr
  rw [nextTime_eq, nextTime_eq] at hns hbefore
  unfold Meets
  -- the leg is not met before the next one of its stretch, and that one not before the soonest
  cases hdir : w.direction with
  | forward =>
    rw [hdir] at hns hbefore
    have hnot : ¬ w.timeAt r.day r.lo < w.timeAt run.day run.lo := of_decide_eq_false hns
    have hle := ho.timeAt_le r.day hlo (by omega)
    rcases Nat.lt_or_ge (w.timeAt run.day run.lo) (w.timeAt r.day i) with hlt | hge
    · exact Or.inl (decide_eq_true hlt)
    · refine Or.inr ⟨Nat.le_antisymm (Nat.le_trans (Nat.le_of_not_lt hnot) hle) hge,
        Or.inl (hday ?_)⟩
      rcases Nat.lt_or_gt_of_ne hne with hqlt | hqgt
      · have hlt : w.timeAt run.day run.lo < w.timeAt r.day r.lo :=
          of_decide_eq_true (hbefore hqlt)
        omega
      · exact hqgt
  | backward =>
    rw [hdir] at hns hbefore
    have hnot : ¬ w.timeAt run.day (run.hi - 1) < w.timeAt r.day (r.hi - 1) :=
      of_decide_eq_false hns
    have hle := ho.timeAt_le r.day (i := i) (j := r.hi - 1) (by omega) (by omega)
    rcases Nat.lt_or_ge (w.timeAt r.day i) (w.timeAt run.day (run.hi - 1)) with hlt | hge
    · exact Or.inl (decide_eq_true hlt)
    · refine Or.inr ⟨Nat.le_antisymm hge (Nat.le_trans hle (Nat.le_of_not_lt hnot)),
        Or.inl (hday ?_)⟩
      rcases Nat.lt_or_gt_of_ne hne with hqlt | hqgt
      · have hlt : w.timeAt r.day (r.hi - 1) < w.timeAt run.day (run.hi - 1) :=
          of_decide_eq_true (hbefore hqlt)
        omega
      · exact hqgt

end Cut

/-- What one step of the merge does: it takes the leg that is met before all
others, and leaves the others. -/
structure Taken (w rest : Window) (day position : Nat) : Prop where
  holds : w.Holds day position
  holds_iff : ∀ d i, rest.Holds d i ↔ w.Holds d i ∧ ¬ (d = day ∧ i = position)
  meets : ∀ d i, rest.Holds d i → w.Meets (day, position) (d, i)
  ordered : rest.Ordered
  legs_eq : rest.legs = w.legs
  direction_eq : rest.direction = w.direction
  size_eq : rest.size + 1 = w.size

/-- Each step of the merge takes the leg that is met first and leaves the others. -/
theorem taken_of_takeNext? {w rest : Window} (ho : w.Ordered) {day position : Nat}
    (h : w.takeNext? = some ((day, position), rest)) : w.Taken rest day position := by
  have hbest := best?_isBest w
  unfold takeNext? at h
  obtain ⟨⟨place, least⟩, hb, h⟩ := Option.bind_eq_some_iff.1 h
  rw [hb] at hbest
  obtain ⟨run, hmem, hfill, rfl, hall⟩ := hbest
  have hget : w.runs[place]? = some run := List.mem_zipIdx_iff_getElem?.1 hmem
  obtain ⟨run', hget', h⟩ := Option.bind_eq_some_iff.1 h
  rw [hget] at hget'
  cases hget'
  cases h
  have hrun : run ∈ w.runs := List.mem_of_getElem? hget
  refine ⟨⟨run, hrun, rfl, nextIndex_bounds w.direction hfill⟩, holds_cut_iff ho hget hfill,
    fun d i hh => ?_, ho.cut hget, rfl, rfl, size_cut hget hfill⟩
  rcases holds_cut_cases hfill hh with ⟨rfl, ⟨hlo, hhi⟩, hne⟩ | ⟨q, r, hq, hr, rfl, hlo, hhi⟩
  · exact ho.meets_next hrun hlo hhi hne
  · obtain ⟨hns, hbefore⟩ := hall (r, q) (List.mem_zipIdx_iff_getElem?.2 hr)
      (Nat.lt_of_le_of_lt hlo hhi)
    exact ho.meets_other hget hq hr hns hbefore hlo hhi

/-! ## All events of a window -/

/-- A window that has a leg is not empty. -/
theorem Holds.size_pos {w : Window} {day position : Nat} (h : w.Holds day position) :
    0 < w.size := by
  obtain ⟨run, hrun, -, hlo, hhi⟩ := h
  rw [size_eq_sum]
  refine List.sum_pos_iff_exists_pos_nat.2 ⟨run.size, List.mem_map_of_mem hrun, ?_⟩
  unfold DayRun.size
  omega

/-- The run of a day is there if its trip has it and the mask says so. -/
theorem eventOn?_eq_some {w : Window} {day position : Nat} {event : Event} :
    w.eventOn? day position = some event ↔
      Event.at? w.legs position day = some event ∧ event.leg.days.runsOn day = true := by
  unfold eventOn?
  rw [Option.filter_eq_some_iff]

/-- The key of a run is the time of its leg in the window. -/
theorem key_eq_timeAt {w : Window} {day position : Nat} {event : Event}
    (h : Event.at? w.legs position day = some event) :
    event.key w.direction = w.timeAt day position := by
  obtain ⟨-, -, hleg, -, -⟩ := Event.eq_of_at? h
  rw [Event.key_eq h]
  unfold timeAt
  rw [hleg]

/-- Legs met one before the other give events one before the other. -/
theorem Meets.before {w : Window} {d₁ i₁ d₂ i₂ : Nat} {a b : Event}
    (h : w.Meets (d₁, i₁) (d₂, i₂)) (ha : Event.at? w.legs i₁ d₁ = some a)
    (hb : Event.at? w.legs i₂ d₂ = some b) : Event.Before w.direction a b := by
  obtain ⟨ht₁, hd₁, -⟩ := Event.eq_of_at? ha
  obtain ⟨ht₂, hd₂, -⟩ := Event.eq_of_at? hb
  unfold Event.Before
  rw [key_eq_timeAt ha, key_eq_timeAt hb, ht₁, hd₁, ht₂, hd₂]
  exact h

/-- The merge gives every leg that the stretches hold and whose trip runs on the
day, in the order in which they are met. -/
theorem eventsWithin_spec {turns : Nat} {w : Window} (ho : w.Ordered) (hsize : w.size ≤ turns) :
    (∀ event, event ∈ eventsWithin turns w ↔
      ∃ day position, w.Holds day position ∧ w.eventOn? day position = some event) ∧
    (eventsWithin turns w).Pairwise (Event.Before w.direction) := by
  induction turns generalizing w with
  | zero =>
    refine ⟨fun event => ?_, List.Pairwise.nil⟩
    simp only [eventsWithin, List.not_mem_nil, false_iff]
    rintro ⟨day, position, hholds, -⟩
    have := hholds.size_pos
    omega
  | succ turns ih =>
    unfold eventsWithin
    cases hnext : w.takeNext? with
    | none =>
      refine ⟨fun event => ?_, List.Pairwise.nil⟩
      simp only [List.not_mem_nil, false_iff]
      rintro ⟨day, position, hholds, -⟩
      exact not_holds_of_takeNext? hnext day position hholds
    | some next =>
      obtain ⟨⟨day, position⟩, rest⟩ := next
      have ht := taken_of_takeNext? ho hnext
      obtain ⟨hmem, hpair⟩ := ih ht.ordered (by have := ht.size_eq; omega)
      have hon : ∀ d i, rest.eventOn? d i = w.eventOn? d i := by
        intro d i
        unfold eventOn?
        rw [ht.legs_eq]
      rw [ht.direction_eq] at hpair
      simp only [hon] at hmem
      dsimp only
      cases hev : w.eventOn? day position with
      | none =>
        -- the leg that was taken does not run on the day
        refine ⟨fun event => ?_, hpair⟩
        rw [hmem]
        constructor
        · rintro ⟨d, i, hh, he⟩
          exact ⟨d, i, ((ht.holds_iff d i).1 hh).1, he⟩
        · rintro ⟨d, i, hh, he⟩
          refine ⟨d, i, (ht.holds_iff d i).2 ⟨hh, fun heq => ?_⟩, he⟩
          rw [heq.1, heq.2, hev] at he
          cases he
      | some first =>
        refine ⟨fun event => ?_, List.pairwise_cons.2 ⟨fun event hevent => ?_, hpair⟩⟩
        · rw [List.mem_cons, hmem]
          constructor
          · rintro (rfl | ⟨d, i, hh, he⟩)
            · exact ⟨day, position, ht.holds, hev⟩
            · exact ⟨d, i, ((ht.holds_iff d i).1 hh).1, he⟩
          · rintro ⟨d, i, hh, he⟩
            by_cases heq : d = day ∧ i = position
            · rw [heq.1, heq.2, hev] at he
              cases he
              exact Or.inl rfl
            · exact Or.inr ⟨d, i, (ht.holds_iff d i).2 ⟨hh, heq⟩, he⟩
        · obtain ⟨d, i, hh, he⟩ := (hmem event).1 hevent
          exact (ht.meets d i hh).before (eventOn?_eq_some.1 hev).1 (eventOn?_eq_some.1 he).1

/-- What is found is one of the events, and it serves. -/
theorem mem_of_find? {window : Window} {p : Event → Bool} {found : Event}
    (h : window.find? p = some found) : found ∈ window.events ∧ p found = true := by
  rw [find?_eq] at h
  exact ⟨List.mem_of_find?_eq_some h, List.find?_some h⟩

/-- Something is found if one of the events serves. -/
theorem exists_find? {window : Window} {p : Event → Bool} {event : Event}
    (hmem : event ∈ window.events) (hp : p event = true) :
    ∃ found, window.find? p = some found := by
  rw [find?_eq]
  exact Option.isSome_iff_exists.1 (List.find?_isSome.2 ⟨event, hmem, hp⟩)

/-! ## The window over a route edge -/

section Make

variable {legs : Array Leg} {begin finish dayCount : Nat} {direction : Direction}

/-- The legs before the count are those before the bound. -/
theorem lt_countBefore_iff (h : legs.toList.Pairwise Leg.NoLater) (direction : Direction)
    (day bound : Nat) {i : Nat} {leg : Leg} (hleg : legs[i]? = some leg) :
    i < countBefore legs direction day bound ↔ Time.ofDay day (leg.key direction) < bound := by
  unfold countBefore
  obtain ⟨hi, rfl⟩ := Array.getElem?_eq_some_iff.1 hleg
  constructor
  · intro hlt
    have hnot := Array.not_of_lt_findIdx hlt
    simpa using hnot
  · intro hlt
    rcases Nat.lt_or_ge i
      (legs.findIdx fun leg => decide (bound ≤ Time.ofDay day (leg.key direction))) with hc | hc
    · exact hc
    · have hfound := Array.findIdx_getElem
        (p := fun leg => decide (bound ≤ Time.ofDay day (leg.key direction)))
        (w := Nat.lt_of_le_of_lt hc hi)
      rw [decide_eq_true_eq] at hfound
      have hle := Leg.key_le h (Array.getElem?_eq_getElem (Nat.lt_of_le_of_lt hc hi))
        (Array.getElem?_eq_getElem hi) hc direction
      have hle' := Nat.add_le_add_left hle (day * Time.perDay)
      exact absurd (Nat.lt_of_lt_of_le (Nat.lt_of_le_of_lt hle' hlt) hfound) (Nat.lt_irrefl _)

theorem countBefore_le_size (day bound : Nat) :
    countBefore legs direction day bound ≤ legs.size := Array.findIdx_le_size

/-- A day on which a leg is in the window is among the days looked at. -/
theorem mem_candidateDays {least greatest day key : Nat} (hl : least ≤ key) (hg : key ≤ greatest)
    (hb : begin ≤ Time.ofDay day key) (hf : Time.ofDay day key < finish) (hd : day < dayCount) :
    day ∈ candidateDays least greatest begin finish dayCount := by
  unfold candidateDays
  simp only [Time.ofDay, Time.perDay, Time] at *
  rw [if_pos (by omega)]
  rw [List.mem_range'_1]
  omega

/-- The days looked at ascend. -/
theorem candidateDays_pairwise (least greatest : Nat) :
    (candidateDays least greatest begin finish dayCount).Pairwise (· < ·) := by
  unfold candidateDays
  split
  · exact List.pairwise_lt_range'
  · exact List.Pairwise.nil

/-- Only days of the schedule are looked at. -/
theorem lt_of_mem_candidateDays {least greatest day : Nat}
    (h : day ∈ candidateDays least greatest begin finish dayCount) : day < dayCount := by
  unfold candidateDays at h
  split at h
  · rw [List.mem_range'_1] at h
    omega
  · cases h

/-- A window over sorted legs is in order from the start. -/
theorem make_ordered (h : legs.toList.Pairwise Leg.NoLater) (begin finish : Time)
    (direction : Direction) (dayCount : Nat) :
    (make legs begin finish direction dayCount).Ordered := by
  unfold make
  split
  · refine ⟨h, ?_, ?_⟩
    · refine List.Pairwise.filter _ ?_
      rw [List.pairwise_map]
      exact candidateDays_pairwise _ _
    · intro run hrun
      obtain ⟨day, -, rfl⟩ := List.mem_map.1 (List.mem_filter.1 hrun).1
      exact countBefore_le_size day finish
  · exact ⟨h, List.Pairwise.nil, by simp⟩

theorem legs_make : (make legs begin finish direction dayCount).legs = legs := by
  unfold make
  split <;> rfl

theorem direction_make : (make legs begin finish direction dayCount).direction = direction := by
  unfold make
  split <;> rfl

/-- A window holds the legs whose time on the day lies between the bounds. -/
theorem holds_make_iff (h : legs.toList.Pairwise Leg.NoLater) {day i : Nat} {leg : Leg}
    (hleg : legs[i]? = some leg) :
    (make legs begin finish direction dayCount).Holds day i ↔
      day < dayCount ∧ begin ≤ Time.ofDay day (leg.key direction) ∧
        Time.ofDay day (leg.key direction) < finish := by
  have hlo := lt_countBefore_iff h direction day begin hleg
  have hhi := lt_countBefore_iff h direction day finish hleg
  obtain ⟨hi, hleg'⟩ := Array.getElem?_eq_some_iff.1 hleg
  unfold make
  split
  · next first last hfirst hlast =>
    rw [Array.back?_eq_getElem?] at hlast
    have hleast := Leg.key_le h hfirst hleg (Nat.zero_le i) direction
    have hgreatest := Leg.key_le h hleg hlast (by omega) direction
    constructor
    · rintro ⟨run, hrun, rfl, hrlo, hrhi⟩
      obtain ⟨day, hday, rfl⟩ := List.mem_map.1 (List.mem_filter.1 hrun).1
      refine ⟨lt_of_mem_candidateDays hday, ?_, hhi.1 hrhi⟩
      exact Nat.le_of_not_lt fun hlt => absurd (hlo.2 hlt) (Nat.not_lt.2 hrlo)
    · rintro ⟨hd, hb, hf⟩
      refine ⟨runOn legs direction begin finish day, List.mem_filter.2 ⟨List.mem_map.2
        ⟨day, mem_candidateDays hleast hgreatest hb hf hd, rfl⟩, ?_⟩, rfl, ?_, hhi.2 hf⟩
      · have h₁ : countBefore legs direction day begin ≤ i :=
          Nat.le_of_not_lt fun hlt => absurd (hlo.1 hlt) (Nat.not_lt.2 hb)
        exact decide_eq_true (Nat.lt_of_le_of_lt h₁ (hhi.2 hf))
      · exact Nat.le_of_not_lt fun hlt => absurd (hlo.1 hlt) (Nat.not_lt.2 hb)
  · next hnone =>
    exfalso
    refine hnone legs[0] (legs.back (by omega)) (Array.getElem?_eq_getElem (by omega)) ?_
    rw [Array.back?_eq_getElem?, Array.back_eq_getElem]
    exact Array.getElem?_eq_getElem (by omega)

/-- The events of a window are the runs of the trips of its edge whose time lies
between the bounds, on the days of the schedule on which they run. -/
theorem mem_events_make (h : legs.toList.Pairwise Leg.NoLater) {event : Event} :
    event ∈ (make legs begin finish direction dayCount).events ↔
      Event.at? legs event.trip event.day = some event ∧
        event.leg.days.runsOn event.day = true ∧ event.day < dayCount ∧
        begin ≤ event.key direction ∧ event.key direction < finish := by
  rw [events, (eventsWithin_spec (make_ordered h _ _ _ _) (Nat.le_refl _)).1]
  constructor
  · rintro ⟨day, i, hholds, hev⟩
    rw [eventOn?_eq_some, legs_make] at hev
    obtain ⟨hat, hruns⟩ := hev
    obtain ⟨ht, hd, hleg, -⟩ := Event.eq_of_at? hat
    obtain ⟨hlt, hb, hf⟩ := (holds_make_iff h hleg).1 hholds
    rw [Event.key_eq hat, ht, hd]
    exact ⟨hat, hruns, hlt, hb, hf⟩
  · rintro ⟨hat, hruns, hd, hb, hf⟩
    obtain ⟨-, -, hleg, -⟩ := Event.eq_of_at? hat
    rw [Event.key_eq hat] at hb hf
    refine ⟨event.day, event.trip, (holds_make_iff h hleg).2 ⟨hd, hb, hf⟩, ?_⟩
    rw [eventOn?_eq_some, legs_make]
    exact ⟨hat, hruns⟩

/-- They come in the order in which a search meets them. -/
theorem pairwise_events_make (h : legs.toList.Pairwise Leg.NoLater) (begin finish : Time)
    (direction : Direction) (dayCount : Nat) :
    (make legs begin finish direction dayCount).events.Pairwise (Event.Before direction) := by
  have hp := (eventsWithin_spec (make_ordered h begin finish direction dayCount)
    (Nat.le_refl _)).2
  rw [direction_make] at hp
  exact hp

/-- The first event that serves is met before any other that does. -/
theorem find?_make_spec (h : legs.toList.Pairwise Leg.NoLater) {p : Event → Bool}
    {found other : Event}
    (hfound : (make legs begin finish direction dayCount).find? p = some found)
    (hother : other ∈ (make legs begin finish direction dayCount).events) (hp : p other = true) :
    found = other ∨ found.Before direction other := by
  rw [find?_eq, List.find?_eq_some_iff_append] at hfound
  obtain ⟨-, before, after, hsplit, hnot⟩ := hfound
  have hpair := pairwise_events_make h begin finish direction dayCount
  rw [hsplit] at hother hpair
  rcases List.mem_append.1 hother with hmem | hmem
  · exact absurd hp (by simpa using hnot other hmem)
  · rcases List.mem_cons.1 hmem with rfl | hmem
    · exact Or.inl rfl
    · exact Or.inr ((List.pairwise_cons.1 (List.pairwise_append.1 hpair).2.1).1 other hmem)

/-- A first event that serves is also the first of a narrower window, if it lies there. -/
theorem find?_make_of_subset (h : legs.toList.Pairwise Leg.NoLater) {p : Event → Bool}
    {begin' finish' : Nat} {found : Event}
    (hsub : ∀ event ∈ (make legs begin finish direction dayCount).events,
      event ∈ (make legs begin' finish' direction dayCount).events)
    (hfound : (make legs begin' finish' direction dayCount).find? p = some found)
    (hmem : found ∈ (make legs begin finish direction dayCount).events) :
    (make legs begin finish direction dayCount).find? p = some found := by
  have hp : p found = true := (mem_of_find? hfound).2
  obtain ⟨first, hfirst⟩ := exists_find? hmem hp
  obtain ⟨hmem', hp'⟩ := mem_of_find? hfirst
  rcases find?_make_spec h hfirst hmem hp with rfl | hbefore
  · exact hfirst
  · rcases find?_make_spec h hfound (hsub first hmem') hp' with rfl | hbefore'
    · exact hfirst
    · exact absurd hbefore' hbefore.asymm

end Make

end Window

end JourneyPlanner
