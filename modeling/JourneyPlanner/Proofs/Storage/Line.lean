import JourneyPlanner.Proofs.Storage.Ranked

/-!
# The queue as one line

Bucket by bucket, the items of a queue make one line, in the order in which they
go. As long as no key has to be moved, a push puts its item into the line
(`Ranked.items_push`) and a pop takes the first (`items_pop`), so that no more
need be said of buckets. `place` tells where an item goes: behind all of lower keys,
and among items of its own key where the comparison puts it, or first if buckets are
not kept in order.

An item that is put into a line goes before the same items whether or not some of the
others are there (`filterMap_insertSorted`). What that takes is that once an item goes
behind another, it does so behind all that follow (`GoesFirst.place_eq_gt`).
-/

namespace JourneyPlanner.BucketQueue

variable {α β γ : Type} {compare : α → α → Ordering} {item : α} {items front rest : List α}

/-! ## Putting an item into a list -/

/-- An insertion reads the order only at the items already there, each against the new one. -/
theorem insertSorted_congr {compare' : α → α → Ordering}
    (h : ∀ x ∈ items, compare x item = compare' x item) :
    insertSorted compare item items = insertSorted compare' item items := by
  induction items with
  | nil => rfl
  | cons first rest ih =>
    unfold insertSorted
    rw [h first List.mem_cons_self, ih fun x hx => h x (List.mem_cons_of_mem _ hx)]

/-- An item goes behind all that are not greater. -/
theorem insertSorted_append_of_ne_gt (h : ∀ x ∈ front, compare x item ≠ .gt) :
    insertSorted compare item (front ++ rest) = front ++ insertSorted compare item rest := by
  induction front with
  | nil => rfl
  | cons first front ih =>
    rw [List.cons_append, List.cons_append, insertSorted]
    split
    · next hgt => exact absurd hgt (h first List.mem_cons_self)
    · rw [ih fun x hx => h x (List.mem_cons_of_mem _ hx)]

/-- An item goes before all that are greater. -/
theorem insertSorted_of_gt (h : ∀ x ∈ items, compare x item = .gt) :
    insertSorted compare item items = item :: items := by
  cases items with
  | nil => rfl
  | cons first rest =>
    rw [insertSorted, h first List.mem_cons_self]

/-- Items that come after the new one never take part: it is inserted before them. -/
theorem insertSorted_append_of_gt (h : ∀ x ∈ rest, compare x item = .gt) :
    insertSorted compare item (items ++ rest) = insertSorted compare item items ++ rest := by
  induction items with
  | nil => exact insertSorted_of_gt h
  | cons first items ih =>
    rw [List.cons_append, insertSorted, insertSorted, ih]
    split <;> rfl

/-- Where an item goes does not depend on those that are left out. -/
theorem filterMap_insertSorted {compare' : β → β → Ordering} {pick : α → Option β}
    (hsame : ∀ x ∈ items, ∀ y ∈ pick x, ∀ b ∈ pick item, compare x item = compare' y b)
    (hclosed : items.Pairwise fun x y => compare x item = .gt → compare y item = .gt) :
    (insertSorted compare item items).filterMap pick =
      match pick item with
      | some b => insertSorted compare' b (items.filterMap pick)
      | none => items.filterMap pick := by
  induction items with
  | nil =>
    cases hitem : pick item <;> simp [insertSorted, hitem]
  | cons first rest ih =>
    obtain ⟨hfirst, hrest⟩ := List.pairwise_cons.1 hclosed
    have ih := ih (fun x hx => hsame x (List.mem_cons_of_mem _ hx)) hrest
    rw [insertSorted]
    split
    · next hgt =>
      -- all that follow are greater as well, whichever of them are left
      cases hitem : pick item with
      | none => exact List.filterMap_cons_none hitem
      | some b =>
        rw [List.filterMap_cons_some hitem]
        dsimp only
        rw [insertSorted_of_gt]
        intro y hy
        obtain ⟨x, hx, hpick⟩ := List.mem_filterMap.1 hy
        rw [← hsame x hx y hpick b hitem]
        rcases List.mem_cons.1 hx with rfl | hx
        · exact hgt
        · exact hfirst x hx hgt
    · next hle =>
      cases hpick : pick first with
      | none =>
        rw [List.filterMap_cons_none hpick, List.filterMap_cons_none hpick]
        exact ih
      | some y =>
        rw [List.filterMap_cons_some hpick, List.filterMap_cons_some hpick, ih]
        cases hitem : pick item with
        | none => rfl
        | some b =>
          have hle' : compare' y b ≠ .gt := by
            rw [← hsame first List.mem_cons_self y hpick b hitem]
            exact hle
          dsimp only
          conv_rhs => rw [insertSorted]
          split
          · next hgt => exact absurd hgt hle'
          · rfl

/-! ## Buckets below and above -/

/-- An item of the first `k` lists lies in one of them, below `k`. -/
theorem mem_flatten_take {lists : List (List α)} {k : Nat} {x : α}
    (h : x ∈ (lists.take k).flatten) : ∃ i < k, x ∈ lists[i]?.getD [] := by
  obtain ⟨l, hl, hx⟩ := List.mem_flatten.1 h
  obtain ⟨i, hi, rfl⟩ := List.mem_take_iff_getElem.1 hl
  refine ⟨i, by omega, ?_⟩
  rw [List.getElem?_eq_getElem (by omega)]
  exact hx

/-- An item behind the first `k` lists lies in one of those, from `k` on. -/
theorem mem_flatten_drop {lists : List (List α)} {k : Nat} {x : α}
    (h : x ∈ (lists.drop k).flatten) : ∃ i, k ≤ i ∧ x ∈ lists[i]?.getD [] := by
  obtain ⟨l, hl, hx⟩ := List.mem_flatten.1 h
  obtain ⟨j, hj, rfl⟩ := List.mem_drop_iff_getElem.1 hl
  refine ⟨k + j, Nat.le_add_right k j, ?_⟩
  rw [List.getElem?_eq_getElem (by omega)]
  exact hx

/-- Changing one list changes the row at its place and leaves what is before and behind. -/
theorem flatten_modify {lists : List (List α)} {k : Nat} {bucket : List α}
    (h : lists[k]? = some bucket) (f : List α → List α) :
    (lists.modify k f).flatten =
      (lists.take k).flatten ++ (f bucket ++ (lists.drop (k + 1)).flatten) := by
  obtain ⟨hk, rfl⟩ := List.getElem?_eq_some_iff.1 h
  rw [List.modify_eq_take_cons_drop hk, List.flatten_append, List.flatten_cons]

/-! ## Push and pop -/

section Line

variable [LinearOrder γ] {key : α → Nat} {rank : α → γ} {queue queue' : BucketQueue α}

/-- Where one item stands to another in the line. -/
def place (key : α → Nat) (sorted : Bool) (compare : α → α → Ordering) (x y : α) : Ordering :=
  (Ord.compare (key x) (key y)).then (if sorted then compare x y else .gt)

/-- One item stands behind another by its key, or at equal keys by the order of a sorted queue. -/
theorem place_eq_gt_iff {sorted : Bool} {x y : α} : place key sorted compare x y = .gt ↔
    key y < key x ∨ key x = key y ∧ (sorted = true → compare x y = .gt) := by
  unfold place
  rw [Ordering.then_eq_gt, Nat.compare_eq_gt, Nat.compare_eq_eq]
  cases sorted <;> simp

/-- At equal keys a sorted queue compares, and an unsorted one puts the newcomer behind. -/
theorem place_of_key_eq {sorted : Bool} {x y : α} (h : key x = key y) :
    place key sorted compare x y = if sorted then compare x y else .gt := by
  unfold place
  rw [Nat.compare_eq_eq.2 h]
  rfl

/-- Items of which one goes first are in this order to every other. -/
theorem GoesFirst.place_eq_gt {sorted : Bool} {x y : α} (h : GoesFirst key rank sorted x y)
    (hx : compare x item ≠ .gt ↔ rank x ≤ rank item)
    (hy : compare y item ≠ .gt ↔ rank y ≤ rank item)
    (hgt : place key sorted compare x item = .gt) : place key sorted compare y item = .gt := by
  obtain ⟨hkey, hrank⟩ := h
  rw [place_eq_gt_iff] at hgt ⊢
  by_cases hlt : key item < key y
  · exact Or.inl hlt
  · rcases hgt with hgt | ⟨heq, hgt⟩
    · omega
    · refine Or.inr ⟨by omega, fun hs => ?_⟩
      have hrank := hrank hs (by omega)
      by_contra hne
      exact hx.2 (le_trans hrank (hy.1 hne)) (hgt hs)

/-- Going first is transitive. -/
theorem GoesFirst.trans {sorted : Bool} {x y z : α} (h : GoesFirst key rank sorted x y)
    (h' : GoesFirst key rank sorted y z) : GoesFirst key rank sorted x z := by
  refine ⟨Nat.le_trans h.1 h'.1, fun hs heq => ?_⟩
  have hxy := h.1
  have hyz := h'.1
  exact le_trans (h.2 hs (by omega)) (h'.2 hs (by omega))

/-- The new item goes first where the other is placed behind it. -/
theorem goesFirst_of_place_eq_gt {sorted : Bool} {x : α}
    (hx : compare x item ≠ .gt ↔ rank x ≤ rank item)
    (hgt : place key sorted compare x item = .gt) : GoesFirst key rank sorted item x := by
  rcases place_eq_gt_iff.1 hgt with hlt | ⟨heq, hgt⟩
  · exact ⟨Nat.le_of_lt hlt, fun _ heq => absurd heq (Nat.ne_of_lt hlt)⟩
  · refine ⟨Nat.le_of_eq heq.symm, fun hs _ => le_of_lt (not_le.1 fun hle => ?_)⟩
    exact hx.2 hle (hgt hs)

/-- Otherwise the other goes first. -/
theorem goesFirst_of_place_ne_gt {sorted : Bool} {x : α}
    (hx : compare x item ≠ .gt ↔ rank x ≤ rank item)
    (hne : place key sorted compare x item ≠ .gt) : GoesFirst key rank sorted x item := by
  rw [Ne, place_eq_gt_iff, not_or] at hne
  refine ⟨Nat.le_of_not_lt hne.1, fun hs heq => hx.1 fun hgt => ?_⟩
  exact hne.2 ⟨heq, fun _ => hgt⟩

/-- A push puts its item into the line. -/
theorem Ranked.items_push (h : queue.Ranked key rank)
    (hkey : queue.bucketOf (key item) = key item) :
    (queue.push compare (key item) item).items =
      insertSorted (place key queue.sorted compare) item queue.items := by
  have hlt : key item < (reach queue.buckets (key item)).size := by
    rw [size_reach]
    omega
  have hfiled : ∀ i : Nat, ∀ x ∈ (reach queue.buckets (key item)).toList[i]?.getD [],
      key x = i := by
    intro i x hx
    rw [Array.getElem?_toList, getD_reach] at hx
    exact h.filed i x hx
  obtain ⟨bucket, hbucket⟩ : ∃ bucket,
      (reach queue.buckets (key item)).toList[key item]? = some bucket :=
    ⟨_, List.getElem?_eq_getElem (by simpa using hlt)⟩
  have hown : ∀ x ∈ bucket, key x = key item := by
    intro x hx
    apply hfiled
    rw [hbucket]
    exact hx
  have hline : queue.items = ((reach queue.buckets (key item)).toList.take (key item)).flatten ++
      (bucket ++ ((reach queue.buckets (key item)).toList.drop (key item + 1)).flatten) := by
    have hid := flatten_modify hbucket id
    rw [List.modify_id, flatten_reach] at hid
    exact hid
  have hpush : (queue.push compare (key item) item).items =
      ((reach queue.buckets (key item)).toList.modify (key item)
        (if queue.sorted then insertSorted compare item else (item :: ·))).flatten := by
    unfold items BucketQueue.push
    dsimp only
    rw [hkey, Array.toList_modify]
  rw [hpush, flatten_modify hbucket, hline, insertSorted_append_of_ne_gt,
    insertSorted_append_of_gt]
  · congr 2
    cases hs : queue.sorted with
    | false =>
      refine (insertSorted_of_gt fun x hx => ?_).symm
      rw [place_of_key_eq (hown x hx)]
      rfl
    | true =>
      refine insertSorted_congr fun x hx => ?_
      rw [place_of_key_eq (hown x hx)]
      rfl
  · intro x hx
    obtain ⟨i, hi, hx⟩ := mem_flatten_drop hx
    have hkx := hfiled i x hx
    exact place_eq_gt_iff.2 (Or.inl (by omega))
  · intro x hx hgt
    obtain ⟨i, hi, hx⟩ := mem_flatten_take hx
    have hkx := hfiled i x hx
    rcases place_eq_gt_iff.1 hgt with hlt | ⟨heq, -⟩ <;> omega

/-- A pop takes the first of the line. -/
theorem items_pop (hs : queue.Sound) (hpop : queue.pop = (some item, queue')) :
    queue.items = item :: queue'.items := by
  obtain ⟨rest, hget, hcursor, hbuckets, -, -⟩ := pop_eq hpop
  have hbelow : ∀ i < queue'.cursor, queue.buckets[i]?.getD [] = [] := by
    rw [hcursor]
    exact (firstFilled_spec queue.buckets queue.cursor hs.below).1
  have hget' : queue.buckets.toList[queue'.cursor]? = some (item :: rest) := by
    rw [Array.getElem?_toList]
    exact hget
  have hnone : (queue.buckets.toList.take queue'.cursor).flatten = [] := by
    apply List.eq_nil_iff_forall_not_mem.2
    intro x hx
    obtain ⟨i, hi, hx⟩ := mem_flatten_take hx
    rw [Array.getElem?_toList, hbelow i hi] at hx
    cases hx
  have hid := flatten_modify hget' id
  rw [List.modify_id, hnone] at hid
  unfold items
  rw [hid, hbuckets, Array.toList_modify, flatten_modify hget' List.tail, hnone]
  rfl

/-- The line is in order. -/
theorem Ranked.pairwise_items (h : queue.Ranked key rank) :
    queue.items.Pairwise (GoesFirst key rank queue.sorted) := by
  have hfiled : ∀ (i : Nat) (hi : i < queue.buckets.toList.length),
      ∀ x ∈ queue.buckets.toList[i], key x = i := by
    intro i hi x hx
    apply h.filed i
    rw [Array.getElem?_eq_getElem (by simpa using hi)]
    exact hx
  unfold items
  rw [List.pairwise_flatten]
  constructor
  · intro bucket hbucket
    obtain ⟨i, hi, rfl⟩ := List.getElem_of_mem hbucket
    have hown := hfiled i hi
    by_cases hs : queue.sorted = true
    · have hascends := h.ascends hs i
      rw [Array.getElem?_eq_getElem (by simpa using hi), Option.getD_some] at hascends
      refine hascends.imp_of_mem fun {x y} hx hy hle => ?_
      exact ⟨Nat.le_of_eq ((hown x hx).trans (hown y hy).symm), fun _ _ => hle⟩
    · refine List.pairwise_of_forall_mem_list fun x hx y hy => ?_
      exact ⟨Nat.le_of_eq ((hown x hx).trans (hown y hy).symm), fun hs' => absurd hs' hs⟩
  · refine List.pairwise_iff_getElem.2 fun i j hi hj hlt x hx y hy => ?_
    have hkx := hfiled i hi x hx
    have hky := hfiled j hj y hy
    exact ⟨by omega, fun _ heq => absurd heq (by omega)⟩

end Line

end JourneyPlanner.BucketQueue
