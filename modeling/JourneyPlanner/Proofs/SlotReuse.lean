import JourneyPlanner.Proofs.Storage.Slots

/-!
# A pool is a partial map with a stack of released slots

The main result of this file, `pool_refines`, is about a pool that has been asked anything at all,
under any numbers, also those of slots that were released or used before everything was dropped:

> it has answered as `Slots` do, and goes on to do so (`Pool.Follows`): no slot is handed out that is
> in use, no other slot changes, and a slot is refused only to a pool with all slots in use;
> its slots lie in blocks that are filled one after the other (`Pool.Fills`).
-/

namespace JourneyPlanner

namespace Pool

variable {α : Type} {pool : Pool α} {slots : Slots α} {first : Nat}

/-! ## Places in blocks -/

/-- A place within a block is that of the slot as far from the first of the block. -/
theorem locate_start_add_place {b place : Nat} (hpos : 0 < first) (hplace : place < first * 2 ^ b) :
    locate first (first * (2 ^ b - 1) + place) = (b, place) := by
  have hsum := locate_start_add (first * (2 ^ b - 1) + place) hpos
  have hlt := snd_locate_lt (first * (2 ^ b - 1) + place) hpos
  rcases hl : locate first (first * (2 ^ b - 1) + place) with ⟨c, o⟩
  rw [hl] at hsum hlt
  dsimp only at hsum hlt
  rcases Nat.lt_trichotomy b c with hbc | rfl | hcb
  · have := start_add_le first hbc
    omega
  · rw [show o = place by omega]
  · have := start_add_le first hcb
    omega

/-- The block of a slot is the logarithm of one more than how often the first block goes into the
number of the slot. -/
theorem locate_eq_log2 (hpos : 0 < first) (id : Nat) :
    locate first id = ((id / first + 1).log2,
      id - first * (2 ^ (id / first + 1).log2 - 1)) := by
  generalize hb : (id / first + 1).log2 = b
  have hle : 2 ^ b ≤ id / first + 1 := by
    rw [← hb]
    exact Nat.log2_self_le (Nat.succ_ne_zero _)
  have hlt : id / first + 1 < 2 ^ (b + 1) := by
    rw [← hb]
    exact Nat.lt_log2_self
  -- so the slot lies between the first of its block and the first of the next
  have hstart : first * (2 ^ b - 1) ≤ id := by
    refine Nat.le_trans (Nat.mul_le_mul_left first ?_) (Nat.mul_div_le id first)
    omega
  have hend : id < first * (2 ^ (b + 1) - 1) := by
    rw [Nat.mul_comm]
    refine (Nat.div_lt_iff_lt_mul hpos).1 ?_
    omega
  rw [start_succ] at hend
  have hplace : id - first * (2 ^ b - 1) < first * 2 ^ b := by omega
  have hlocate := locate_start_add_place hpos hplace
  rw [Nat.add_sub_cancel' hstart] at hlocate
  exact hlocate

/-- Slots follow one another within a block, and from one block to the next. -/
theorem locate_ascends {id other : Nat} (hpos : 0 < first) (hlt : id < other) :
    (locate first id).1 < (locate first other).1 ∨
      (locate first id).1 = (locate first other).1 ∧
        (locate first id).2 < (locate first other).2 := by
  have hsum := locate_start_add id hpos
  have hsum' := locate_start_add other hpos
  have hplace := snd_locate_lt other hpos
  rcases Nat.lt_trichotomy (locate first id).1 (locate first other).1 with hb | hb | hb
  · exact Or.inl hb
  · rw [hb] at hsum
    exact Or.inr ⟨hb, by omega⟩
  · have := start_add_le first hb
    omega

/-- No more than one block is begun for a slot. -/
theorem blockCount_alloc_le (pool : Pool α) (value : α) :
    (pool.alloc value).2.blockCount ≤ pool.blockCount + 1 := by
  have hset : ∀ id slot, (setSlot pool.blocks pool.firstBlock id slot).size = pool.blocks.size := by
    intro id slot
    simp [setSlot]
  have hpush : ∀ slot, (pushSlot pool.blocks pool.firstBlock pool.taken slot).size ≤
      pool.blocks.size + 1 := by
    intro slot
    unfold pushSlot
    dsimp only
    split
    · simp
    · rw [Array.size_modify]
      exact Nat.le_succ _
  unfold alloc blockCount
  split
  · split
    · dsimp only
      rw [hset]
      exact Nat.le_succ _
    · exact Nat.le_succ _
  · split
    · exact hpush _
    · exact Nat.le_succ _

/-- No call changes the length of the first block. -/
theorem firstBlock_calls (pool : Pool α) (calls : List (Call α)) :
    (pool.calls calls).2.firstBlock = pool.firstBlock := by
  induction calls generalizing pool with
  | nil => rfl
  | cons call calls ih =>
    refine (ih (pool.call call).2).trans ?_
    cases call with
    | alloc value => exact pool.firstBlock_alloc value
    | dealloc id => exact pool.firstBlock_dealloc id
    | get id => rfl
    | clear => rfl

/-- The slots of a pool lie in blocks, each twice as large as the one before: a logarithm tells the
block of a slot; slots and places within blocks correspond, in order; a block is begun when those
before it are full; and when everything is dropped, one is left. -/
structure Fills (pool : Pool α) : Prop where
  logarithm : ∀ id, locate pool.firstBlock id =
    ((id / pool.firstBlock + 1).log2,
      id - pool.firstBlock * (2 ^ (id / pool.firstBlock + 1).log2 - 1))
  within : ∀ id, (locate pool.firstBlock id).2 <
    pool.firstBlock * 2 ^ (locate pool.firstBlock id).1
  exactly : ∀ b place, place < pool.firstBlock * 2 ^ b →
    ∃! id, locate pool.firstBlock id = (b, place)
  inOrder : ∀ id other, id < other →
    (locate pool.firstBlock id).1 < (locate pool.firstBlock other).1 ∨
      (locate pool.firstBlock id).1 = (locate pool.firstBlock other).1 ∧
        (locate pool.firstBlock id).2 < (locate pool.firstBlock other).2
  block_size : ∀ b slots, pool.blocks[b]? = some slots →
    slots.size = min (pool.firstBlock * 2 ^ b) (pool.taken - pool.firstBlock * (2 ^ b - 1))
  begun : ∀ b, b < pool.blockCount ↔ b = 0 ∨ pool.firstBlock * (2 ^ b - 1) < pool.taken
  alloc : ∀ value, (pool.alloc value).2.blockCount ≤ pool.blockCount + 1
  clear : pool.clear.blockCount = 1

/-- A pool laid out in doubling blocks has filled all but the last of them. -/
theorem Laid.fills (h : pool.Laid) : pool.Fills := by
  refine ⟨locate_eq_log2 h.pos, fun id => snd_locate_lt id h.pos, ?_,
    fun _ _ => locate_ascends h.pos, h.size_eq, h.block_iff, pool.blockCount_alloc_le, rfl⟩
  intro b place hplace
  refine ⟨_, locate_start_add_place h.pos hplace, ?_⟩
  intro id hid
  exact locate_inj h.pos (hid.trans (locate_start_add_place h.pos hplace).symm)

/-! ## Slots -/

/-- A pool that does what its slots do. -/
structure Follows (pool : Pool α) (slots : Slots α) : Prop where
  get : pool.get? = slots.value
  size : ∃ ids : List Nat, ids.Nodup ∧ (∀ id, id ∈ ids ↔ (pool.get? id).isSome = true) ∧
    pool.size = ids.length
  /-- A slot is refused only by a pool that has them all in use. -/
  alloc_none : ∀ value, (pool.alloc value).1 = none ↔ pool.size = maxSlots
  alloc : ∀ value id pool', pool.alloc value = (some id, pool') →
    id = slots.released.head?.getD slots.fresh ∧ pool.get? id = none ∧
      pool'.get? = Function.update pool.get? id (some value)
  dealloc : ∀ id, (pool.dealloc id).1 = pool.get? id ∧
    (pool.dealloc id).2.get? = Function.update pool.get? id none ∧
    (pool.get? id = none → (pool.dealloc id).2 = pool)

/-- The numbers with a value are those of as many slots as are counted. -/
theorem Represents.exists_ids (h : pool.Represents slots) : ∃ ids : List Nat, ids.Nodup ∧
    (∀ id, id ∈ ids ↔ (pool.get? id).isSome = true) ∧ pool.size = ids.length := by
  refine ⟨(List.range slots.fresh).filter fun id => (slots.value id).isSome,
    List.nodup_range.filter _, ?_, ?_⟩
  · intro id
    rw [List.mem_filter, List.mem_range, h.get?_eq]
    refine and_iff_right_of_imp fun hsome => ?_
    obtain ⟨value, hvalue⟩ := Option.isSome_iff_exists.1 hsome
    exact h.orderly.lt_fresh id value hvalue
  · rw [h.size_eq, ← List.countP_eq_length_filter]
    rfl

/-- A pool that represents its slots answers every call as they do. -/
theorem Represents.follows (h : pool.Represents slots) : pool.Follows slots := by
  refine ⟨h.get?_eq, h.exists_ids, ?_, ?_, ?_⟩
  · intro value
    obtain ⟨id?, pool', slots', halloc, halloc', -⟩ := h.alloc value
    rw [h.size_eq, ← h.orderly.alloc_none_iff value, halloc, halloc']
  · intro value id pool' halloc
    obtain ⟨hnone, hself, hothers, -⟩ := alloc_spec h.laid halloc
    refine ⟨?_, hnone, ?_⟩
    · obtain ⟨id?, pool'', slots', halloc', hslots, -⟩ := h.alloc value
      rw [halloc] at halloc'
      cases halloc'
      exact Slots.eq_of_alloc hslots
    · exact Function.eq_update_iff.2 ⟨hself, hothers⟩
  · intro id
    cases hget : pool.get? id with
    | none =>
      rw [dealloc_of_get?_eq_none hget]
      refine ⟨rfl, ?_, fun _ => rfl⟩
      rw [← hget, Function.update_eq_self]
    | some value =>
      obtain ⟨pool', hdealloc, -⟩ := h.release ((congrFun h.get?_eq id).symm.trans hget)
      obtain ⟨hself, hothers, -⟩ := dealloc_spec h.laid hget
      refine ⟨by rw [hdealloc], Function.eq_update_iff.2 ⟨hself, hothers⟩, fun hnone => ?_⟩
      cases hnone

end Pool

/-- Whatever a pool is asked, by whatever numbers, it answers as its slots do, and what it is left
with follows them; it lies in blocks the first of which is as large as was asked for, but not
empty. -/
theorem pool_refines {α : Type} (first : Nat) (calls : List (Pool.Call α)) :
    ((Pool.new first).calls calls).1 = (Slots.new.calls calls).1 ∧
    ((Pool.new first).calls calls).2.Follows (Slots.new.calls calls).2 ∧
    ((Pool.new first : Pool α).calls calls).2.firstBlock = max first 1 ∧
    ((Pool.new first : Pool α).calls calls).2.Fills := by
  have hnew : (Pool.new first : Pool α).Represents Slots.new :=
    Pool.represents_of_empty (Pool.new_laid first) rfl rfl rfl
  obtain ⟨hanswers, hlast⟩ := hnew.run calls
  exact ⟨hanswers, hlast.follows, Pool.firstBlock_calls _ calls, hlast.laid.fills⟩

/-- Of three slots two are released, one of them twice, and both are used again in the opposite
order; what was handed out before everything is dropped is unknown afterwards. -/
example : ((Pool.new 1 : Pool Nat).calls
    [.alloc 7, .alloc 8, .alloc 9, .dealloc 0, .dealloc 2, .dealloc 0, .alloc 5, .alloc 6, .get 0,
      .alloc 4, .clear, .get 2, .dealloc 1, .alloc 3]).1 =
    [.id (some 0), .id (some 1), .id (some 2), .value (some 7), .value (some 9), .value none,
      .id (some 2), .id (some 0), .value (some 6), .id (some 3), .done, .value none, .value none,
      .id (some 0)] := by
  decide +kernel

end JourneyPlanner
