import JourneyPlanner.Search.Criteria
import Mathlib.Data.List.Forall2
import Mathlib.Data.List.Lex

/-!
# Comparing criteria

Criteria are compared number by number. For two labels of one search, whose
criteria are for the same measures in the same order, each comparison is the one
that its name says, for all measures at once: `weaklyDominates_map_iff` and
`dominates_map_iff`.

Where the criteria are minutes, transfers and price (`Criteria.Full`), they are read
by `Criteria.current` and `Criteria.least`, and the order of the queue is that of
the lists of bounds (`order_ne_gt_iff`).
-/

namespace JourneyPlanner

/-- Merged one by one, comparisons tell whether any of them was greater and any smaller. -/
theorem Dominance.foldl_merge (l : List Dominance) (d : Dominance) :
    l.foldl Dominance.merge d =
      ⟨d.greater || l.any (·.greater), d.smaller || l.any (·.smaller)⟩ := by
  induction l generalizing d with
  | nil => simp
  | cons x l ih =>
    rw [List.foldl_cons, ih]
    simp [Dominance.merge, Bool.or_assoc]

theorem Measure.mem_all (m : Measure) : m ∈ Measure.all := by
  cases m <;> decide

namespace Criteria

variable {α : Type} {items : List α} {f g : α → Criterion} {final : Bool}

/-- What the second label is compared by. -/
def other (final : Bool) (c : Criterion) : Nat := if final then c.lowerBound else c.current

/-- Criteria for the same measures are compared measure by measure. -/
theorem dominance_map : dominance final (items.map f) (items.map g) =
    ⟨items.any fun m => decide (other final (g m) < (f m).current),
      items.any fun m => decide ((f m).current < other final (g m))⟩ := by
  have hzip : List.zipWith (Criterion.dominance final) (items.map f) (items.map g) =
      items.map fun m => Criterion.dominance final (f m) (g m) := by
    rw [List.zipWith_map, List.zipWith_self]
  rw [dominance, hzip, Dominance.foldl_merge, List.any_map, List.any_map]
  rfl

/-- A label is weakly dominated by one that has spent no more of any measure. -/
theorem weaklyDominates_map_iff : weaklyDominates (items.map f) (items.map g) = true ↔
    ∀ m ∈ items, (f m).current ≤ (g m).current := by
  rw [weaklyDominates, dominance_map]
  simp [other]

/-- A label is dominated by one that is nowhere worse and somewhere better than what it is held
against. -/
theorem dominates_map_iff : dominates final (items.map f) (items.map g) = true ↔
    (∀ m ∈ items, (f m).current ≤ other final (g m)) ∧
      ∃ m ∈ items, (f m).current < other final (g m) := by
  rw [dominates, dominance_map, Dominance.dominates]
  simp

/-- No criteria beat themselves. -/
theorem not_dominates_self (cs : Criteria) : cs.dominates false cs = false := by
  rw [← Bool.not_eq_true]
  intro h
  rw [← List.map_id cs, dominates_map_iff] at h
  obtain ⟨-, m, -, hlt⟩ := h
  exact absurd hlt (Nat.lt_irrefl _)

/-- The first is nowhere worse than the second, `final` telling to hold it against
the least that the second can come to. -/
def NoWorse (final : Bool) (a b : Criteria) : Prop :=
  List.Forall₂ (fun x y => x.current ≤ other final y) a b

/-- What has been spent is nowhere worse than itself. -/
theorem NoWorse.refl (cs : Criteria) : NoWorse false cs cs :=
  List.forall₂_same.2 fun _ _ => Nat.le_refl _

/-- What is nowhere worse than something nowhere worse is itself nowhere worse. -/
theorem NoWorse.trans {a b c : Criteria} (h : NoWorse false a b) (h' : NoWorse final b c) :
    NoWorse final a c := by
  unfold NoWorse at *
  induction h generalizing c with
  | nil => exact h'
  | cons hle _ ih =>
    cases h' with
    | cons hle' h' => exact .cons (Nat.le_trans hle hle') (ih h')

/-- Criteria for the same measures are nowhere worse measure by measure. -/
theorem noWorse_map_iff : NoWorse final (items.map f) (items.map g) ↔
    ∀ m ∈ items, (f m).current ≤ other final (g m) := by
  unfold NoWorse
  rw [List.forall₂_map_left_iff, List.forall₂_map_right_iff, List.forall₂_same]

/-- Dominance looks at pairs of criteria, as many as both have. -/
theorem dominates_iff_zip {a b : Criteria} : dominates final a b = true ↔
    (∀ p ∈ a.zip b, p.1.current ≤ other final p.2) ∧
      ∃ p ∈ a.zip b, p.1.current < other final p.2 := by
  have hzip : List.zipWith (Criterion.dominance final) a b =
      (a.zip b).map fun p => Criterion.dominance final p.1 p.2 := by
    rw [List.zip_eq_zipWith, List.map_zipWith]
  rw [dominates, dominance, hzip, Dominance.foldl_merge, Dominance.dominates]
  simp [Criterion.dominance, Dominance.between, Dominance.equal, other]

/-- What is nowhere worse than a label that beats another beats it as well. -/
theorem NoWorse.dominates {a b c : Criteria} (h : NoWorse false a b)
    (h' : b.dominates final c = true) : a.dominates final c = true := by
  rw [dominates_iff_zip] at h' ⊢
  obtain ⟨hall, hex⟩ := h'
  unfold NoWorse at h
  -- each half on its own, since the rest of the lists need not differ anywhere
  constructor
  · clear hex
    induction h generalizing c with
    | nil => exact fun p hp => absurd hp List.not_mem_nil
    | @cons x y a b hle _ ih =>
      cases c with
      | nil => exact fun p hp => absurd hp List.not_mem_nil
      | cons z c =>
        intro p hp
        rcases List.mem_cons.1 hp with rfl | hp
        · exact Nat.le_trans hle (hall (y, z) List.mem_cons_self)
        · exact ih (fun p hp => hall p (List.mem_cons_of_mem _ hp)) p hp
  · clear hall
    induction h generalizing c with
    | nil =>
      obtain ⟨p, hp, -⟩ := hex
      exact absurd hp List.not_mem_nil
    | @cons x y a b hle _ ih =>
      cases c with
      | nil =>
        obtain ⟨p, hp, -⟩ := hex
        exact absurd hp List.not_mem_nil
      | cons z c =>
        obtain ⟨p, hp, hlt⟩ := hex
        rcases List.mem_cons.1 hp with rfl | hp
        · exact ⟨(x, z), List.mem_cons_self, Nat.lt_of_le_of_lt hle hlt⟩
        · obtain ⟨p', hp', hlt'⟩ := ih ⟨p, hp, hlt⟩
          exact ⟨p', List.mem_cons_of_mem _ hp', hlt'⟩

/-! ## The order of the queue -/

/-- The least that each criterion can come to. -/
def bounds (cs : Criteria) : List Nat := cs.map (·.lowerBound)

/-- A label goes no later than another if and only if its bounds come no later, the
first that differs deciding. -/
theorem order_ne_gt_iff {a b : Criteria} (h : a.length = b.length) :
    a.order b ≠ .gt ↔ a.bounds ≤ b.bounds := by
  induction a generalizing b with
  | nil =>
    cases b with
    | nil => simp [order, bounds]
    | cons y b => cases h
  | cons x a ih =>
    cases b with
    | nil => cases h
    | cons y b =>
      have ih : order a b ≠ .gt ↔ ¬ b.map (·.lowerBound) < a.map (·.lowerBound) := by
        rw [not_lt]
        exact ih (Nat.succ.inj h)
      unfold order bounds
      rw [List.map_cons, List.map_cons, ← not_lt, List.cons_lt_cons_iff, not_or, not_and, ← ih]
      rcases Nat.lt_trichotomy x.lowerBound y.lowerBound with hlt | heq | hgt
      · rw [Nat.compare_eq_lt.2 hlt]
        simp
        omega
      · rw [heq, Nat.compare_eq_eq.2 rfl]
        simp
      · rw [Nat.compare_eq_gt.2 hgt]
        simp [hgt]

/-! ## Criteria for all measures -/

/-- A criterion for each measure. -/
def Full (cs : Criteria) : Prop := cs.map (·.measure) = Measure.all

/-- What has been spent of a measure. -/
def current (cs : Criteria) (m : Measure) : Nat :=
  ((cs.find? (·.measure == m)).map (·.current)).getD 0

/-- The least that a measure can come to. -/
def least (cs : Criteria) (m : Measure) : Nat :=
  ((cs.find? (·.measure == m)).map (·.lowerBound)).getD 0

/-- Made for all measures, criteria can be read at each of them. -/
theorem full_map {f : Measure → Criterion} (hf : ∀ m, (f m).measure = m) :
    Full (Measure.all.map f) ∧ ∀ m, current (Measure.all.map f) m = (f m).current ∧
      least (Measure.all.map f) m = (f m).lowerBound := by
  refine ⟨?_, fun m => ?_⟩
  · unfold Full
    rw [List.map_map]
    exact (List.map_congr_left fun m _ => hf m).trans (List.map_id _)
  · cases m <;> simp [current, least, Measure.all, hf]

/-- Full criteria are made up of what they read for each measure. -/
theorem Full.eq_map {cs : Criteria} (h : cs.Full) :
    cs = Measure.all.map fun m => ⟨m, cs.current m, cs.least m⟩ := by
  rcases cs with _ | ⟨⟨_, _, _⟩, _ | ⟨⟨_, _, _⟩, _ | ⟨⟨_, _, _⟩, _ | ⟨_, _⟩⟩⟩⟩ <;>
    simp [Full, Measure.all] at h
  obtain ⟨rfl, rfl, rfl⟩ := h
  rfl

section Full

variable {a b c : Criteria} {settings : Settings}

/-- Full criteria are weakly dominated by those that have spent no more of any measure. -/
theorem Full.weaklyDominates_iff (ha : a.Full) (hb : b.Full) :
    weaklyDominates a b = true ↔ ∀ m, a.current m ≤ b.current m := by
  conv_lhs => rw [ha.eq_map, hb.eq_map, weaklyDominates_map_iff]
  simp [Measure.mem_all]

/-- Full criteria are nowhere worse than others that have spent at least as much of each measure. -/
theorem Full.noWorse_iff (ha : a.Full) (hb : b.Full) :
    NoWorse false a b ↔ ∀ m, a.current m ≤ b.current m := by
  conv_lhs => rw [ha.eq_map, hb.eq_map, noWorse_map_iff]
  simp [other, Measure.mem_all]

/-- Full criteria dominate others on the way if they have spent no more, and less of some measure.
-/
theorem Full.dominates_false_iff (ha : a.Full) (hb : b.Full) :
    dominates false a b = true ↔
      (∀ m, a.current m ≤ b.current m) ∧ ∃ m, a.current m < b.current m := by
  conv_lhs => rw [ha.eq_map, hb.eq_map, dominates_map_iff]
  simp [other, Measure.mem_all]

/-- Full criteria dominate others at the goal if they have spent no more than the least the others
can come to, and less of some measure. -/
theorem Full.dominates_true_iff (ha : a.Full) (hb : b.Full) :
    dominates true a b = true ↔
      (∀ m, a.current m ≤ b.least m) ∧ ∃ m, a.current m < b.least m := by
  conv_lhs => rw [ha.eq_map, hb.eq_map, dominates_map_iff]
  simp [other, Measure.mem_all]

/-- What beats the best that a label can come to beats it also where less can come of
it. -/
theorem Full.dominates_of_least_le (ha : a.Full) (hb : b.Full) (hc : c.Full)
    (h : a.dominates true b = true) (hle : ∀ m, b.least m ≤ c.least m) :
    a.dominates true c = true := by
  obtain ⟨hall, m, hlt⟩ := (ha.dominates_true_iff hb).1 h
  exact (ha.dominates_true_iff hc).2
    ⟨fun m => Nat.le_trans (hall m) (hle m), m, Nat.lt_of_lt_of_le hlt (hle m)⟩

/-- What beats the best that a label can come to beats all that has spent as much. -/
theorem Full.dominates_of_least_le_current (ha : a.Full) (hb : b.Full) (hc : c.Full)
    (h : a.dominates true b = true) (hle : ∀ m, b.least m ≤ c.current m) :
    a.dominates false c = true := by
  obtain ⟨hall, m, hlt⟩ := (ha.dominates_true_iff hb).1 h
  exact (ha.dominates_false_iff hc).2
    ⟨fun m => Nat.le_trans (hall m) (hle m), m, Nat.lt_of_lt_of_le hlt (hle m)⟩

/-- Full criteria are beyond the limits if some measure can only come to more than allowed, or has
no way to the goal. -/
theorem Full.isBeyond_iff (ha : a.Full) : a.isBeyond settings = true ↔
    ∃ m, a.least m = Bounded.ceiling ∨ Criterion.limit settings m < a.least m := by
  conv_lhs => rw [ha.eq_map]
  simp [isBeyond, Criterion.isBeyond, Measure.mem_all]

/-- Within the limits no bound has come to the ceiling or passed its limit. -/
theorem Full.isBeyond_eq_false_iff (ha : a.Full) : a.isBeyond settings = false ↔
    ∀ m, a.least m ≠ Bounded.ceiling ∧ a.least m ≤ Criterion.limit settings m := by
  rw [← Bool.not_eq_true, ha.isBeyond_iff]
  constructor
  · intro h m
    exact ⟨fun hmax => h ⟨m, Or.inl hmax⟩, Nat.le_of_not_lt fun hlt => h ⟨m, Or.inr hlt⟩⟩
  · rintro h ⟨m, hmax | hlt⟩
    · exact (h m).1 hmax
    · exact Nat.not_lt_of_le (h m).2 hlt

/-- A label waits in the bucket of the least minutes that it can come to. -/
theorem Full.bucket_eq (ha : a.Full) : a.bucket = a.least .time := by
  conv_lhs => rw [ha.eq_map]
  rfl

/-- The bounds in order are those of minutes, transfers and price. -/
theorem Full.bounds_eq (ha : a.Full) : a.bounds = Measure.all.map a.least := by
  conv_lhs => rw [ha.eq_map]
  rfl

theorem Full.length_eq (ha : a.Full) : a.length = Measure.all.length := by
  rw [← ha, List.length_map]

/-- Criteria with lower bounds go first. -/
theorem Full.bounds_le (ha : a.Full) (hb : b.Full) (h : ∀ m, a.least m ≤ b.least m) :
    a.bounds ≤ b.bounds := by
  rw [ha.bounds_eq, hb.bounds_eq, ← not_lt]
  intro hlt
  have htime := h .time
  have htransfers := h .transfers
  have hprice := h .price
  rcases List.cons_lt_cons_iff.1 hlt with hlt | ⟨-, hlt⟩
  · omega
  rcases List.cons_lt_cons_iff.1 hlt with hlt | ⟨-, hlt⟩
  · omega
  rcases List.cons_lt_cons_iff.1 hlt with hlt | ⟨-, hlt⟩
  · omega
  · cases hlt

/-- The bucket decides first. -/
theorem Full.bounds_le_of_bucket_lt (ha : a.Full) (hb : b.Full) (h : a.bucket < b.bucket) :
    a.bounds ≤ b.bounds := by
  rw [ha.bucket_eq, hb.bucket_eq] at h
  rw [ha.bounds_eq, hb.bounds_eq]
  exact le_of_lt (List.cons_lt_cons_iff.2 (Or.inl h))

/-- Criteria of equal bounds are equal in the bound of each measure. -/
theorem Full.least_eq_of_bounds_eq (ha : a.Full) (hb : b.Full) (h : a.bounds = b.bounds)
    (m : Measure) : a.least m = b.least m := by
  rw [ha.bounds_eq, hb.bounds_eq] at h
  exact List.map_inj_left.1 h m m.mem_all

/-- The summary is what has been spent of each measure. -/
theorem Full.summary_eq (ha : a.Full) :
    a.summary = ⟨a.current .time, a.current .transfers, a.current .price⟩ := by
  conv_lhs => rw [ha.eq_map]
  rfl

end Full

end Criteria

end JourneyPlanner
