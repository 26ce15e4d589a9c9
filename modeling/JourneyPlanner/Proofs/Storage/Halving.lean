import JourneyPlanner.Storage.BucketQueue
import Mathlib.Order.Lattice

/-!
# Finding a place by halving

A bucket that is kept the other way round has its items in descending order, with the one that goes
next at its end. The place of a new item, in front of its equals, is then found by halving: all items
before it are greater, and none after it is. The main result of this file is

> `reverse_insertSorted`: in a bucket that ascends an item is put where halving finds its place in
> the bucket read backwards.
-/

namespace JourneyPlanner.BucketQueue

variable {α : Type} {compare : α → α → Ordering} {item : α} {items front back : List α}

/-- The first place between two at which a test fails, if it fails at all places after one at which
it does. -/
def firstFailing (test : Nat → Bool) (low high : Nat) : Nat :=
  if low < high then
    let middle := (low + high) / 2
    if test middle then firstFailing test (middle + 1) high else firstFailing test low middle
  else low
termination_by high - low

/-- Halving finds the first place where the test fails, when it holds before and fails from there
on. -/
theorem firstFailing_eq {test : Nat → Bool} {low high place : Nat} (hlow : low ≤ place)
    (hhigh : place ≤ high) (hholds : ∀ i < place, test i = true)
    (hfails : ∀ i ≥ place, test i = false) : firstFailing test low high = place := by
  fun_induction firstFailing test low high with
  | case1 low high hlt middle hmiddle ih =>
    refine ih ?_ hhigh
    by_contra hplace
    rw [hfails middle (by omega)] at hmiddle
    cases hmiddle
  | case2 low high hlt middle hmiddle ih =>
    refine ih hlow ?_
    by_contra hplace
    exact hmiddle (hholds middle (by omega))
  | case3 low high hge => omega

/-- Puts an item among descending ones, in front of its equals. -/
def insertHalving (compare : α → α → Ordering) (item : α) (items : List α) : List α :=
  let place := firstFailing (fun i => items[i]?.any fun x => compare x item == .gt) 0 items.length
  items.take place ++ item :: items.drop place

/-- Halving finds where the greater items end. -/
theorem insertHalving_append (hfront : ∀ x ∈ front, compare x item = .gt)
    (hback : ∀ x ∈ back, compare x item ≠ .gt) :
    insertHalving compare item (front ++ back) = front ++ item :: back := by
  have hplace : firstFailing (fun i => (front ++ back)[i]?.any fun x => compare x item == .gt) 0
      (front ++ back).length = front.length := by
    refine firstFailing_eq (Nat.zero_le _) ?_ ?_ ?_
    · rw [List.length_append]
      exact Nat.le_add_right _ _
    · intro i hi
      rw [List.getElem?_append_left hi, List.getElem?_eq_getElem hi]
      exact beq_iff_eq.2 (hfront _ (List.getElem_mem hi))
    · intro i hi
      rw [List.getElem?_append_right hi, Option.any_eq_false]
      intro x hx
      exact beq_eq_false_iff_ne.2 (hback x (List.mem_of_getElem? hx))
  unfold insertHalving
  dsimp only
  rw [hplace, List.take_left, List.drop_left]

/-- An item is put behind those that are not greater, and in a list that ascends all others are
greater. -/
theorem exists_insertSorted_eq [Std.TransCmp compare] (item : α)
    (h : items.Pairwise fun x y => compare x y ≠ .gt) : ∃ front back,
      items = front ++ back ∧ insertSorted compare item items = front ++ item :: back ∧
      (∀ x ∈ front, compare x item ≠ .gt) ∧ ∀ x ∈ back, compare x item = .gt := by
  induction items with
  | nil => exact ⟨[], [], rfl, rfl, by simp, by simp⟩
  | cons first rest ih =>
    obtain ⟨hfirst, hrest⟩ := List.pairwise_cons.1 h
    by_cases hgt : compare first item = .gt
    · refine ⟨[], first :: rest, rfl, ?_, by simp, ?_⟩
      · rw [insertSorted, hgt]
        rfl
      · intro x hx
        rcases List.mem_cons.1 hx with rfl | hx
        · exact hgt
        · have hge : (compare x first).isGE = true := by
            rw [Std.OrientedCmp.isGE_iff_isLE]
            exact Ordering.ne_gt_iff_isLE.1 (hfirst x hx)
          exact Std.TransCmp.gt_of_isGE_of_gt hge hgt
    · obtain ⟨front, back, hitems, hinsert, hfront, hback⟩ := ih hrest
      refine ⟨first :: front, back, ?_, ?_, ?_, hback⟩
      · rw [hitems, List.cons_append]
      · rw [insertSorted]
        split
        · next hgt' => exact absurd hgt' hgt
        · rw [hinsert, List.cons_append]
      · intro x hx
        rcases List.mem_cons.1 hx with rfl | hx
        · exact hgt
        · exact hfront x hx

/-- Inserting into a sorted list, and by halving into its reverse, gives one list in two directions.
-/
theorem reverse_insertSorted [Std.TransCmp compare]
    (h : items.Pairwise fun x y => compare x y ≠ .gt) :
    (insertSorted compare item items).reverse = insertHalving compare item items.reverse := by
  obtain ⟨front, back, hitems, hinsert, hfront, hback⟩ := exists_insertSorted_eq item h
  rw [hinsert, hitems, List.reverse_append, List.reverse_append, List.reverse_cons,
    List.append_assoc, insertHalving_append]
  · rfl
  · intro x hx
    exact hback x (List.mem_reverse.1 hx)
  · intro x hx
    exact hfront x (List.mem_reverse.1 hx)

end JourneyPlanner.BucketQueue
