import JourneyPlanner.Proofs.Storage.Queue
import Mathlib.Order.Lattice

/-!
# The queue in order

What a search needs of the order of its queue. An item lies in the bucket of its
own key as long as no key has to be moved, and where buckets are kept in order,
each of them ascends. `BucketQueue.Ranked` says both; a push keeps it
(`Ranked.push`), and then a pop takes an item that goes before all others, and
leaves the cursor at its key (`Ranked.pop`).

Items are ordered by a rank, and the comparison that the queue is given has to
agree with the ranks of the items that are there.
-/

namespace JourneyPlanner.BucketQueue

variable {α β : Type} [LinearOrder β] {key : α → Nat} {rank : α → β}
  {compare : α → α → Ordering} {item : α} {items : List α} {queue queue' : BucketQueue α}

/-- Every item lies in the bucket of its key, and the buckets ascend if they are to
be kept in order. -/
structure Ranked (key : α → Nat) (rank : α → β) (queue : BucketQueue α) : Prop where
  filed : ∀ (i : Nat), ∀ x ∈ queue.buckets[i]?.getD [], key x = i
  ascends : queue.sorted = true → ∀ i : Nat,
    (queue.buckets[i]?.getD []).Pairwise fun x y => rank x ≤ rank y

/-- One item goes before another: by its key, and among items of one key, where
they are kept in order, by its rank. -/
def GoesFirst (key : α → Nat) (rank : α → β) (sorted : Bool) (x y : α) : Prop :=
  key x ≤ key y ∧ (sorted = true → key x = key y → rank x ≤ rank y)

/-- An item is held exactly when some bucket holds it. -/
theorem mem_items {x : α} : x ∈ queue.items ↔ ∃ i : Nat, x ∈ queue.buckets[i]?.getD [] := by
  unfold items
  rw [List.mem_flatten]
  constructor
  · rintro ⟨bucket, hbucket, hx⟩
    obtain ⟨i, hi, rfl⟩ := List.getElem_of_mem hbucket
    refine ⟨i, ?_⟩
    rw [Array.getElem?_eq_getElem (by simpa using hi)]
    exact hx
  · rintro ⟨i, hx⟩
    cases hget : queue.buckets[i]? with
    | none =>
      rw [hget] at hx
      cases hx
    | some bucket =>
      rw [hget] at hx
      exact ⟨bucket, Array.mem_toList_iff.2 (Array.mem_of_getElem? hget), hx⟩

/-! ## Push -/

/-- An item put behind all that are not greater keeps a list in order. -/
theorem pairwise_insertSorted {R : α → α → Prop} (trans : ∀ {x y z}, R x y → R y z → R x z)
    (h : items.Pairwise R) (hgt : ∀ x ∈ items, compare x item = .gt → R item x)
    (hle : ∀ x ∈ items, compare x item ≠ .gt → R x item) :
    (insertSorted compare item items).Pairwise R := by
  induction items with
  | nil => exact List.pairwise_singleton _ _
  | cons first rest ih =>
    obtain ⟨hfirst, hrest⟩ := List.pairwise_cons.1 h
    unfold insertSorted
    split
    · next hgreater =>
      -- the item goes before the first, and so before the rest
      have hbefore := hgt first List.mem_cons_self hgreater
      refine List.pairwise_cons.2 ⟨fun x hx => ?_, h⟩
      rcases List.mem_cons.1 hx with rfl | hx
      · exact hbefore
      · exact trans hbefore (hfirst x hx)
    · next hnot =>
      refine List.pairwise_cons.2 ⟨fun x hx => ?_, ih hrest
        (fun x hx => hgt x (List.mem_cons_of_mem _ hx))
        fun x hx => hle x (List.mem_cons_of_mem _ hx)⟩
      rcases mem_insertSorted.1 hx with rfl | hx
      · exact hle first List.mem_cons_self hnot
      · exact hfirst x hx

theorem sorted_push (k : Nat) : (queue.push compare k item).sorted = queue.sorted := rfl

theorem cursor_push (k : Nat) : (queue.push compare k item).cursor = queue.cursor := rfl

/-- The buckets after a push: the one for the key has gained the item. -/
theorem getElem?_push (k i : Nat) :
    (queue.push compare k item).buckets[i]?.getD [] =
      if queue.bucketOf k = i then
        if queue.sorted = true then insertSorted compare item (queue.buckets[i]?.getD [])
        else item :: queue.buckets[i]?.getD []
      else queue.buckets[i]?.getD [] := by
  have hlt : queue.bucketOf k < (reach queue.buckets (queue.bucketOf k)).size := by
    rw [size_reach]
    omega
  have hsame := getD_reach queue.buckets (queue.bucketOf k) i
  unfold push
  dsimp only
  rw [Array.getElem?_modify]
  by_cases hi : queue.bucketOf k = i
  · subst hi
    rw [if_pos rfl, if_pos rfl]
    rw [Array.getElem?_eq_getElem hlt] at hsame ⊢
    rw [Option.map_some, Option.getD_some, ← hsame, Option.getD_some]
    split <;> rfl
  · rw [if_neg hi, if_neg hi]
    exact hsame

/-- A push under a key that need not be moved keeps the queue in order. -/
theorem Ranked.push (h : queue.Ranked key rank) (hkey : queue.bucketOf (key item) = key item)
    (hcompare : ∀ x ∈ queue.items, compare x item ≠ .gt ↔ rank x ≤ rank item) :
    (queue.push compare (key item) item).Ranked key rank := by
  constructor
  · intro i x hx
    rw [getElem?_push, hkey] at hx
    split at hx
    · next hi =>
      split at hx
      · rcases mem_insertSorted.1 hx with rfl | hx
        · exact hi
        · exact h.filed i x hx
      · rcases List.mem_cons.1 hx with rfl | hx
        · exact hi
        · exact h.filed i x hx
    · exact h.filed i x hx
  · intro hsorted i
    have hsorted' : queue.sorted = true := hsorted
    rw [getElem?_push, if_pos hsorted']
    split
    · have hcompare' : ∀ x ∈ queue.buckets[i]?.getD [],
          compare x item ≠ .gt ↔ rank x ≤ rank item :=
        fun x hx => hcompare x (mem_items.2 ⟨i, hx⟩)
      refine pairwise_insertSorted le_trans (h.ascends hsorted' i) (fun x hx hgt => ?_)
        fun x hx hle => (hcompare' x hx).1 hle
      exact le_of_lt (not_le.1 fun hle => (hcompare' x hx).2 hle hgt)
    · exact h.ascends hsorted' i

/-! ## Pop -/

/-- A pop takes the head of the first bucket that is not empty. -/
theorem pop_eq (h : queue.pop = (some item, queue')) :
    ∃ rest, queue.buckets[queue'.cursor]? = some (item :: rest) ∧
      queue'.cursor = firstFilled queue.buckets queue.cursor ∧
      queue'.buckets = queue.buckets.modify queue'.cursor List.tail ∧
      queue'.maxBucket = queue.maxBucket ∧ queue'.sorted = queue.sorted := by
  unfold pop at h
  split at h
  · cases h
  · dsimp only at h
    split at h
    · next rest hget =>
      cases h
      exact ⟨rest, hget, rfl, rfl, rfl, rfl⟩
    · cases h

/-- The buckets before a pop: the one at the cursor had the item at its head. -/
theorem getElem?_of_pop (h : queue.pop = (some item, queue')) (i : Nat) :
    queue.buckets[i]?.getD [] =
      if queue'.cursor = i then item :: queue'.buckets[i]?.getD []
      else queue'.buckets[i]?.getD [] := by
  obtain ⟨rest, hget, -, hbuckets, -, -⟩ := pop_eq h
  rw [hbuckets, Array.getElem?_modify]
  by_cases hi : queue'.cursor = i
  · rw [if_pos hi, if_pos hi, ← hi, hget]
    rfl
  · rw [if_neg hi, if_neg hi]

/-- There is nothing below the bucket that an item has been taken from. -/
theorem getElem?_of_lt_cursor (hs : queue.Sound) (h : queue.pop = (some item, queue')) {i : Nat}
    (hi : i < queue'.cursor) : queue.buckets[i]?.getD [] = [] := by
  obtain ⟨rest, -, hcursor, -⟩ := pop_eq h
  rw [hcursor] at hi
  exact (firstFilled_spec queue.buckets queue.cursor hs.below).1 i hi

/-- What is taken goes before all that are left, which stay in order. -/
theorem Ranked.pop (h : queue.Ranked key rank) (hs : queue.Sound)
    (hpop : queue.pop = (some item, queue')) :
    queue'.Ranked key rank ∧ queue'.cursor = key item ∧
      ∀ x ∈ queue'.items, GoesFirst key rank queue.sorted item x := by
  obtain ⟨-, -, -, -, -, hsorted⟩ := pop_eq hpop
  have hhead : queue.buckets[queue'.cursor]?.getD [] =
      item :: queue'.buckets[queue'.cursor]?.getD [] := by
    rw [getElem?_of_pop hpop, if_pos rfl]
  have hkey : key item = queue'.cursor := by
    refine h.filed queue'.cursor item ?_
    rw [hhead]
    exact List.mem_cons_self
  -- what is left was there before
  have hleft : ∀ i : Nat, (queue'.buckets[i]?.getD []).Sublist (queue.buckets[i]?.getD []) := by
    intro i
    rw [getElem?_of_pop hpop]
    split
    · exact List.sublist_cons_self _ _
    · exact List.Sublist.refl _
  refine ⟨⟨fun i x hx => h.filed i x ((hleft i).subset hx), fun hs' i => ?_⟩, hkey.symm,
    fun x hx => ?_⟩
  · rw [hsorted] at hs'
    exact (h.ascends hs' i).sublist (hleft i)
  · obtain ⟨i, hx⟩ := mem_items.1 hx
    have hkx := h.filed i x ((hleft i).subset hx)
    have hge : queue'.cursor ≤ i := by
      by_contra hlt
      have hmem := (hleft i).subset hx
      rw [getElem?_of_lt_cursor hs hpop (by omega)] at hmem
      cases hmem
    refine ⟨by omega, fun hs' heq => ?_⟩
    obtain rfl : queue'.cursor = i := by omega
    have hall := h.ascends hs' queue'.cursor
    rw [hhead] at hall
    exact (List.pairwise_cons.1 hall).1 x hx

/-- A new queue holds nothing, so nothing is in a wrong bucket or out of order. -/
theorem new_ranked (maxBucket : Nat) (sorted : Bool) :
    (new maxBucket sorted : BucketQueue α).Ranked key rank := by
  constructor
  · intro i x hx
    simp [new] at hx
  · intro _ i
    simp [new]

end JourneyPlanner.BucketQueue
