import JourneyPlanner.Storage.BucketQueue

/-!
# The queue as a bag

What a search needs of its queue apart from the order: nothing is lost and
nothing comes out twice. `BucketQueue.items` lists what is held, bucket by
bucket, and the two operations are pinned through it:

> `items_push`: a push adds its item and nothing else.
> `pop_spec`: a pop answers an item as long as there is one, and takes that one
> and nothing else.

That a pop finds an item at all rests on `Sound`: the buckets below the cursor
are empty and the count is right, so the walk of the cursor cannot run past the
last item.
-/

namespace JourneyPlanner.BucketQueue

variable {α : Type}

/-- All that is held, bucket by bucket. -/
def items (queue : BucketQueue α) : List α := queue.buckets.toList.flatten

/-- The count is that of the items, which all lie at the cursor or above, and
no bucket is past the last. -/
structure Sound (queue : BucketQueue α) : Prop where
  count_eq : queue.count = queue.items.length
  below : ∀ i < queue.cursor, queue.buckets[i]?.getD [] = []
  cursor_le : queue.cursor ≤ queue.maxBucket
  size_le : queue.buckets.size ≤ queue.maxBucket + 1

/-! ## One bucket among all -/

/-- Changing one list among several changes what they hold by as much. -/
theorem flatten_modify_perm {lists : List (List α)} {i : Nat} {old : List α}
    (h : lists[i]? = some old) (f : List α → List α) :
    ((lists.modify i f).flatten ++ old).Perm (lists.flatten ++ f old) := by
  induction lists generalizing i with
  | nil => simp at h
  | cons first rest ih =>
    cases i with
    | zero =>
      rw [List.getElem?_cons_zero, Option.some.injEq] at h
      subst h
      rw [List.modify_zero_cons, List.flatten_cons, List.flatten_cons, List.append_assoc]
      refine List.perm_append_comm.trans ?_
      exact List.perm_append_comm.append_right (f first)
    | succ i =>
      rw [List.getElem?_cons_succ] at h
      rw [List.modify_succ_cons, List.flatten_cons, List.flatten_cons, List.append_assoc,
        List.append_assoc]
      exact (ih h).append_left first

/-- An insertion adds its item and loses none. -/
theorem insertSorted_perm (compare : α → α → Ordering) (item : α) (items : List α) :
    (insertSorted compare item items).Perm (item :: items) := by
  induction items with
  | nil => exact List.Perm.refl _
  | cons first rest ih =>
    unfold insertSorted
    split
    · exact List.Perm.refl _
    · exact (ih.cons first).trans (List.Perm.swap item first rest)

/-- Growing the row of buckets adds empty ones alone. -/
theorem flatten_reach (buckets : Array (List α)) (key : Nat) :
    (reach buckets key).toList.flatten = buckets.toList.flatten := by
  rw [reach, Array.toList_append, List.flatten_append, Array.toList_replicate,
    List.flatten_replicate_nil, List.append_nil]

/-! ## Push -/

section Push

variable {queue : BucketQueue α} {compare : α → α → Ordering} {key : Nat} {item : α}

/-- A push adds its item and nothing else. -/
theorem items_push : (queue.push compare key item).items.Perm (item :: queue.items) := by
  have hlt : queue.bucketOf key < (reach queue.buckets (queue.bucketOf key)).size := by
    rw [size_reach]
    omega
  obtain ⟨old, hold⟩ : ∃ old, (reach queue.buckets (queue.bucketOf key)).toList[queue.bucketOf key]?
      = some old := ⟨_, List.getElem?_eq_getElem (by simpa using hlt)⟩
  -- sorted or not, a bucket gains the item and nothing else
  have hplace : ∀ place : List α → List α, (place old).Perm (item :: old) →
      ((reach queue.buckets (queue.bucketOf key)).modify
        (queue.bucketOf key) place).toList.flatten.Perm (item :: queue.items) := by
    intro place hp
    have hm := flatten_modify_perm hold place
    rw [flatten_reach] at hm
    rw [Array.toList_modify]
    refine (List.perm_append_right_iff old).1 (hm.trans ?_)
    exact (hp.append_left _).trans List.perm_middle
  unfold items push
  simp only
  split
  · exact hplace _ (insertSorted_perm compare item old)
  · exact hplace _ (List.Perm.refl _)

/-- No item is put into a bucket the cursor has passed. -/
theorem cursor_le_bucketOf (key : Nat) (h : queue.cursor ≤ queue.maxBucket) :
    queue.cursor ≤ queue.bucketOf key := by
  unfold bucketOf
  omega

/-- A push keeps the count of items and the empty buckets below the cursor. -/
theorem Sound.push (h : queue.Sound) : (queue.push compare key item).Sound := by
  have hle := cursor_le_bucketOf key h.cursor_le
  have hmax : queue.bucketOf key ≤ queue.maxBucket := Nat.min_le_right _ _
  refine ⟨?_, ?_, h.cursor_le, ?_⟩
  · rw [items_push.length_eq, List.length_cons, ← h.count_eq]
    rfl
  · intro i hi
    have hi' : i < queue.cursor := hi
    have hne : queue.bucketOf key ≠ i := by omega
    unfold BucketQueue.push
    simp only
    rw [Array.getElem?_modify, if_neg hne, getD_reach]
    exact h.below i hi'
  · have hs := h.size_le
    unfold BucketQueue.push
    simp only
    rw [Array.size_modify, size_reach]
    omega

end Push

/-! ## Pop -/

/-- The cursor stops at an item if there is one at the cursor or above. -/
theorem firstFilled_spec (buckets : Array (List α)) (cursor : Nat)
    (below : ∀ i < cursor, buckets[i]?.getD [] = []) :
    (∀ i < firstFilled buckets cursor, buckets[i]?.getD [] = []) ∧
      (firstFilled buckets cursor = cursor ∨ firstFilled buckets cursor < buckets.size) ∧
      (buckets[firstFilled buckets cursor]?.getD [] = [] → buckets.toList.flatten = []) := by
  fun_induction firstFilled buckets cursor with
  | case1 cursor hlt hnil ih =>
    -- an empty bucket, which is below the cursor from now on
    obtain ⟨h₁, h₂, h₃⟩ := ih (by
      intro i hi
      rcases Nat.lt_succ_iff_lt_or_eq.1 hi with hi | rfl
      · exact below i hi
      · rw [hnil]
        rfl)
    refine ⟨h₁, ?_, h₃⟩
    rcases h₂ with h₂ | h₂
    · right
      omega
    · exact Or.inr h₂
  | case2 cursor hlt hnil =>
    refine ⟨below, Or.inl rfl, fun hempty => ?_⟩
    have hlt' : cursor < buckets.size := by omega
    rw [Array.getElem?_eq_getElem hlt', Option.getD_some] at hempty
    exact absurd (by rw [Array.getElem?_eq_getElem hlt', hempty]) hnil
  | case3 cursor hge =>
    -- past the last bucket, so that all of them are below
    refine ⟨below, Or.inl rfl, fun hempty => ?_⟩
    rw [List.flatten_eq_nil_iff]
    intro l hl
    obtain ⟨i, hi, rfl⟩ := List.getElem_of_mem hl
    have hi' : i < buckets.size := by simpa using hi
    have hi₂ : buckets[i]?.getD [] = [] := by
      rcases Nat.lt_or_ge i cursor with hc | hc
      · exact below i hc
      · have : i = cursor := by omega
        rw [this]
        exact hempty
    rw [Array.getElem?_eq_getElem hi', Option.getD_some] at hi₂
    rw [Array.getElem_toList]
    exact hi₂

/-- The queue says it is empty exactly when no bucket holds an item. -/
theorem isEmpty_iff {queue : BucketQueue α} (h : queue.Sound) :
    queue.isEmpty = true ↔ queue.items = [] := by
  rw [isEmpty, beq_iff_eq, h.count_eq, List.length_eq_zero_iff]

/-- A pop answers an item as long as there is one, and takes that one and
nothing else. -/
theorem pop_spec {queue : BucketQueue α} (h : queue.Sound) :
    (queue.pop.1 = none ∧ queue.items = [] ∧ queue.pop.2 = queue) ∨
      ∃ item, queue.pop.1 = some item ∧ queue.items.Perm (item :: queue.pop.2.items) ∧
        queue.pop.2.Sound := by
  unfold pop
  split
  · next hempty => exact Or.inl ⟨rfl, (isEmpty_iff h).1 hempty, rfl⟩
  · next hempty =>
    have hitems : queue.items ≠ [] := fun he => hempty ((isEmpty_iff h).2 he)
    obtain ⟨hbelow, hcursor, hfilled⟩ := firstFilled_spec queue.buckets queue.cursor h.below
    have hmax : firstFilled queue.buckets queue.cursor ≤ queue.maxBucket := by
      have := h.cursor_le
      have := h.size_le
      omega
    simp only [advance]
    cases hget : queue.buckets[firstFilled queue.buckets queue.cursor]? with
    | none => exact absurd (hfilled (by rw [hget]; rfl)) hitems
    | some bucket =>
      cases bucket with
      | nil => exact absurd (hfilled (by rw [hget]; rfl)) hitems
      | cons item rest =>
        have hget' : queue.buckets.toList[firstFilled queue.buckets queue.cursor]?
            = some (item :: rest) := by
          rw [Array.getElem?_toList]
          exact hget
        have hp : queue.items.Perm (item ::
            (queue.buckets.toList.modify (firstFilled queue.buckets queue.cursor)
              List.tail).flatten) := by
          have hm := flatten_modify_perm hget' List.tail
          rw [List.tail_cons] at hm
          exact ((List.perm_append_right_iff rest).1
            ((List.perm_middle.symm.trans hm).trans (List.Perm.refl _))).symm
        right
        refine ⟨item, rfl, ?_, ⟨?_, ?_, hmax, ?_⟩⟩
        · simpa only [items, Array.toList_modify] using hp
        · have hl := hp.length_eq
          simp only [items, Array.toList_modify]
          rw [List.length_cons, ← h.count_eq] at hl
          omega
        · intro i hi
          simp only at hi ⊢
          rw [Array.getElem?_modify, if_neg (by omega)]
          exact hbelow i hi
        · simp only [Array.size_modify]
          exact h.size_le

/-- A new queue counts nothing and has its cursor at the first bucket. -/
theorem new_sound (maxBucket : Nat) (sorted : Bool) :
    (new maxBucket sorted : BucketQueue α).Sound := by
  refine ⟨rfl, ?_, Nat.zero_le _, Nat.zero_le _⟩
  intro i hi
  exact absurd hi (Nat.not_lt_zero i)

@[simp] theorem items_new (maxBucket : Nat) (sorted : Bool) :
    (new maxBucket sorted : BucketQueue α).items = [] := rfl

end JourneyPlanner.BucketQueue
