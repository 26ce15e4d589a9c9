import JourneyPlanner.Storage.Pool
import Mathlib.Algebra.GroupWithZero.Nat

/-!
# The pool as a partial map

Seen through `Pool.get?` a pool is a partial map from numbers to values. This
file pins its operations through that view:

> `alloc_spec`: a slot that is handed out was not in use, holds the value
> afterwards, and no other slot changes.
> `dealloc_spec`: a slot that is released is not in use afterwards, and no other
> slot changes.

Both rest on `Laid`, which says how the blocks are filled: block `b` begins
after `firstBlock * (2 ^ b - 1)` slots, so its length follows from the number of
slots ever taken. The list of free slots plays no part here. A head of that
list which were in use would make `alloc` refuse, never overwrite.
-/

namespace JourneyPlanner.Pool

variable {α : Type}

/-- The blocks are filled in order: each is as long as the slots taken reach
into it, and there is no block that has not been begun, the first excepted. -/
structure Laid (pool : Pool α) : Prop where
  pos : 0 < pool.firstBlock
  size_eq : ∀ b slots, pool.blocks[b]? = some slots →
    slots.size = min (pool.firstBlock * 2 ^ b) (pool.taken - pool.firstBlock * (2 ^ b - 1))
  block_iff : ∀ b, b < pool.blocks.size ↔ b = 0 ∨ pool.firstBlock * (2 ^ b - 1) < pool.taken

/-! ## Places -/

/-- Walking on from a block ends `passed` blocks later, in a place within the block
there, and the slots passed and the place make up the slot's number. -/
theorem locateFrom_eq (fuel block size id : Nat) (pos : 0 < size) (enough : id ≤ fuel) :
    ∃ passed place, locateFrom fuel block size id = (block + passed, place) ∧
      place < size * 2 ^ passed ∧ size * (2 ^ passed - 1) + place = id := by
  induction fuel generalizing block size id with
  | zero => exact ⟨0, id, rfl, by omega, by omega⟩
  | succ fuel ih =>
    unfold locateFrom
    split
    · obtain ⟨passed, place, walk, within, sum⟩ :=
        ih (block + 1) (2 * size) (id - size) (by omega) (by omega)
      have slots : size * 2 ^ (passed + 1) = 2 * size * 2 ^ passed := by
        rw [Nat.pow_succ, Nat.mul_comm (2 ^ passed), ← Nat.mul_assoc, Nat.mul_comm size]
      have first : 2 * size ≤ 2 * size * 2 ^ passed :=
        Nat.le_mul_of_pos_right _ (Nat.two_pow_pos passed)
      rw [Nat.mul_sub_one] at sum
      refine ⟨passed + 1, place, ?_, ?_, ?_⟩
      · rw [walk, Nat.add_right_comm, Nat.add_assoc]
      · rw [slots]
        exact within
      · rw [Nat.mul_sub_one, slots]
        omega
    · exact ⟨0, id, rfl, by omega, by omega⟩

/-- The position lies inside its block, which is `2 ^ block` times as long as the first. -/
theorem snd_locate_lt {firstBlock : Nat} (id : Nat) (pos : 0 < firstBlock) :
    (locate firstBlock id).2 < firstBlock * 2 ^ (locate firstBlock id).1 := by
  obtain ⟨passed, place, walk, within, -⟩ := locateFrom_eq id 0 firstBlock id pos (Nat.le_refl id)
  rw [locate, walk, Nat.zero_add]
  exact within

/-- The start of the block and the position in it add up to the id again. -/
theorem locate_start_add {firstBlock : Nat} (id : Nat) (pos : 0 < firstBlock) :
    firstBlock * (2 ^ (locate firstBlock id).1 - 1) + (locate firstBlock id).2 = id := by
  obtain ⟨passed, place, walk, -, sum⟩ := locateFrom_eq id 0 firstBlock id pos (Nat.le_refl id)
  rw [locate, walk, Nat.zero_add]
  exact sum

/-- Two ids never share a slot. -/
theorem locate_inj {first id other : Nat} (hpos : 0 < first)
    (h : locate first id = locate first other) : id = other := by
  have h₁ := locate_start_add id hpos
  have h₂ := locate_start_add other hpos
  rw [h] at h₁
  omega

/-- Where a block begins, by the number of the block before it. -/
theorem start_succ (first b : Nat) :
    first * (2 ^ (b + 1) - 1) = first * (2 ^ b - 1) + first * 2 ^ b := by
  have hp : 0 < 2 ^ b := Nat.two_pow_pos b
  rw [← Nat.mul_add, Nat.pow_succ]
  congr 1
  omega

/-- Later blocks start at larger ids. -/
theorem start_le_start (first : Nat) {b c : Nat} (h : b ≤ c) :
    first * (2 ^ b - 1) ≤ first * (2 ^ c - 1) := by
  have hp : 2 ^ b ≤ 2 ^ c := Nat.pow_le_pow_right (by omega) h
  exact Nat.mul_le_mul_left _ (by omega)

/-- A block ends before a later one begins. -/
theorem start_add_le (first : Nat) {b c : Nat} (h : b < c) :
    first * (2 ^ b - 1) + first * 2 ^ b ≤ first * (2 ^ c - 1) := by
  have hle := start_le_start first (Nat.succ_le_of_lt h)
  rw [Nat.succ_eq_add_one, start_succ] at hle
  exact hle

theorem slot?_eq (pool : Pool α) (id : Nat) :
    pool.slot? id = (pool.blocks[(locate pool.firstBlock id).1]?).bind
      (·[(locate pool.firstBlock id).2]?) := rfl

/-- The slots there are, are those that have been taken. -/
theorem Laid.slot?_isSome_iff {pool : Pool α} (h : Laid pool) (id : Nat) :
    (pool.slot? id).isSome = true ↔ id < pool.taken := by
  rw [slot?_eq]
  have hsum := locate_start_add id h.pos
  have hlt := snd_locate_lt id h.pos
  rcases hl : locate pool.firstBlock id with ⟨b, o⟩
  rw [hl] at hsum hlt
  simp only at hsum hlt ⊢
  cases hb : pool.blocks[b]? with
  | none =>
    have hge : ¬ b < pool.blocks.size := by
      intro hlt'
      rw [Array.getElem?_eq_getElem hlt'] at hb
      simp at hb
    rw [h.block_iff] at hge
    simp only [Option.bind_none, Option.isSome_none, Bool.false_eq_true, false_iff]
    omega
  | some slots =>
    have hs := h.size_eq b slots hb
    rw [Option.bind_some, isSome_getElem?]
    omega

/-- The next id to be handed out has no slot yet. -/
theorem Laid.slot?_taken {pool : Pool α} (h : Laid pool) : pool.slot? pool.taken = none := by
  have hn := h.slot?_isSome_iff pool.taken
  simp only [Nat.lt_irrefl, iff_false, Bool.not_eq_true, Option.isSome_eq_false_iff,
    Option.isNone_iff_eq_none] at hn
  exact hn

/-! ## Writing into a slot -/

section Write

variable {pool pool' : Pool α} {id : Nat} {slot : Slot α}

/-- A slot written over is read back, if it was there. -/
theorem slot?_setSlot_self (pool : Pool α) (hf : pool'.firstBlock = pool.firstBlock)
    (hb : pool'.blocks = setSlot pool.blocks pool.firstBlock id slot)
    (hs : (pool.slot? id).isSome = true) : pool'.slot? id = some slot := by
  rw [slot?_eq] at hs
  rw [slot?_eq, hf, hb]
  simp only [setSlot, Array.getElem?_modify, if_true]
  cases h : pool.blocks[(locate pool.firstBlock id).1]? with
  | none => simp [h] at hs
  | some slots =>
    rw [h, Option.bind_some, isSome_getElem?] at hs
    simp [hs]

/-- Writing one slot leaves every other. -/
theorem slot?_setSlot_ne {other : Nat} (hpos : 0 < pool.firstBlock)
    (hf : pool'.firstBlock = pool.firstBlock)
    (hb : pool'.blocks = setSlot pool.blocks pool.firstBlock id slot) (hne : other ≠ id) :
    pool'.slot? other = pool.slot? other := by
  rw [slot?_eq, slot?_eq, hf, hb]
  simp only [setSlot, Array.getElem?_modify]
  split
  · next heq =>
    cases pool.blocks[(locate pool.firstBlock other).1]? with
    | none => rfl
    | some slots =>
      simp only [Option.map_some, Option.bind_some]
      rw [Array.getElem?_setIfInBounds, if_neg]
      intro h₂
      exact hne (locate_inj hpos (Prod.ext heq.symm h₂.symm))
  · rfl

/-- A pool stays laid out when a slot is written over. -/
theorem setSlot_laid (h : Laid pool) (hf : pool'.firstBlock = pool.firstBlock)
    (ht : pool'.taken = pool.taken)
    (hb : pool'.blocks = setSlot pool.blocks pool.firstBlock id slot) : Laid pool' := by
  have hsize : pool'.blocks.size = pool.blocks.size := by rw [hb]; simp [setSlot]
  refine ⟨by rw [hf]; exact h.pos, ?_, ?_⟩
  · intro b slots hget
    rw [hb] at hget
    simp only [setSlot, Array.getElem?_modify] at hget
    rw [hf, ht]
    split at hget
    · obtain ⟨slots₀, h₀, rfl⟩ := Option.map_eq_some_iff.1 hget
      rw [Array.size_setIfInBounds]
      exact h.size_eq b slots₀ h₀
    · exact h.size_eq b slots hget
  · intro b
    rw [hsize, hf, ht]
    exact h.block_iff b

end Write

/-! ## A new slot -/

/-- The block of the next new slot is there already or is the next to be begun. -/
theorem Laid.block_taken_le {pool : Pool α} (h : Laid pool) :
    (locate pool.firstBlock pool.taken).1 ≤ pool.blocks.size := by
  have hsum := locate_start_add pool.taken h.pos
  rcases Nat.lt_or_ge pool.blocks.size (locate pool.firstBlock pool.taken).1 with hlt | hle
  · exfalso
    have hn : ¬ pool.blocks.size < pool.blocks.size := Nat.lt_irrefl _
    rw [h.block_iff] at hn
    have hle := start_add_le pool.firstBlock hlt
    have hp : 0 < pool.firstBlock * 2 ^ pool.blocks.size :=
      Nat.mul_pos h.pos (Nat.two_pow_pos _)
    omega
  · exact hle

section Push

variable {pool pool' : Pool α} {slot : Slot α}

/-- The block that takes the next new slot, after it has been taken. -/
theorem getElem?_pushSlot (h : Laid pool) (slot : Slot α) (b : Nat) :
    (pushSlot pool.blocks pool.firstBlock pool.taken slot)[b]? =
      if b = (locate pool.firstBlock pool.taken).1 then
        some ((pool.blocks[b]?.getD #[]).push slot)
      else pool.blocks[b]? := by
  have hle := h.block_taken_le
  unfold pushSlot
  rcases hl : locate pool.firstBlock pool.taken with ⟨c, o⟩
  rw [hl] at hle
  simp only at hle ⊢
  split
  · next hc =>
    subst hc
    rw [Array.getElem?_push]
    split
    · next hb => subst hb; simp
    · rfl
  · next hc =>
    rw [Array.getElem?_modify]
    rcases Nat.lt_or_ge b pool.blocks.size with hb | hb
    · rw [Array.getElem?_eq_getElem hb]
      by_cases hcb : b = c
      · subst hcb; simp
      · rw [if_neg (fun e => hcb e.symm), if_neg hcb]
    · rw [Array.getElem?_eq_none hb, if_neg (by omega), if_neg (by omega)]

/-- The slots in use of that block end where the new slot has its place. -/
theorem Laid.size_block_taken (h : Laid pool) :
    (pool.blocks[(locate pool.firstBlock pool.taken).1]?.getD #[]).size =
      (locate pool.firstBlock pool.taken).2 := by
  have hsum := locate_start_add pool.taken h.pos
  have hlt := snd_locate_lt pool.taken h.pos
  have hle := h.block_taken_le
  rcases hl : locate pool.firstBlock pool.taken with ⟨b, o⟩
  rw [hl] at hsum hlt hle
  simp only at hsum hlt hle ⊢
  cases hb : pool.blocks[b]? with
  | none =>
    have hge : ¬ b < pool.blocks.size := by
      intro hlt'
      rw [Array.getElem?_eq_getElem hlt'] at hb
      simp at hb
    rw [h.block_iff] at hge
    simp only [Option.getD_none, Array.size_empty]
    omega
  | some slots =>
    have hs := h.size_eq b slots hb
    simp only [Option.getD_some]
    omega

/-- A slot appended is read back under the id the pool hands out next. -/
theorem slot?_pushSlot_self (h : Laid pool) (hf : pool'.firstBlock = pool.firstBlock)
    (hb : pool'.blocks = pushSlot pool.blocks pool.firstBlock pool.taken slot) :
    pool'.slot? pool.taken = some slot := by
  rw [slot?_eq, hf, hb, getElem?_pushSlot h slot, if_pos rfl, Option.bind_some,
    ← h.size_block_taken, Array.getElem?_push_size]

/-- Appending a slot leaves every other, whether a block was opened for it or not. -/
theorem slot?_pushSlot_ne (h : Laid pool) {other : Nat} (hne : other ≠ pool.taken)
    (hf : pool'.firstBlock = pool.firstBlock)
    (hb : pool'.blocks = pushSlot pool.blocks pool.firstBlock pool.taken slot) :
    pool'.slot? other = pool.slot? other := by
  rw [slot?_eq, slot?_eq, hf, hb, getElem?_pushSlot h slot]
  split
  · next heq =>
    -- the same block, so another place in it
    have hplace : (locate pool.firstBlock other).2 ≠
        (pool.blocks[(locate pool.firstBlock other).1]?.getD #[]).size := by
      intro hp
      rw [heq, h.size_block_taken] at hp
      exact hne (locate_inj h.pos (Prod.ext heq hp))
    rw [Option.bind_some, Array.getElem?_push, if_neg hplace]
    cases pool.blocks[(locate pool.firstBlock other).1]? with
    | none => simp
    | some slots => rfl
  · rfl

/-- A pool stays laid out when a slot is appended, in the last block or in one opened for it. -/
theorem pushSlot_laid (h : Laid pool) (hf : pool'.firstBlock = pool.firstBlock)
    (ht : pool'.taken = pool.taken + 1)
    (hb : pool'.blocks = pushSlot pool.blocks pool.firstBlock pool.taken slot) : Laid pool' := by
  have hsum := locate_start_add pool.taken h.pos
  have hlt := snd_locate_lt pool.taken h.pos
  have hplace := h.size_block_taken
  have hle := h.block_taken_le
  have hget := getElem?_pushSlot h slot
  rw [← hb] at hget
  rcases hl : locate pool.firstBlock pool.taken with ⟨c, o⟩
  rw [hl] at hsum hlt hplace hle hget
  simp only at hsum hlt hplace hle hget
  refine ⟨by rw [hf]; exact h.pos, ?_, ?_⟩
  · intro b slots hs
    rw [hget] at hs
    rw [hf, ht]
    split at hs
    · next hbc =>
      subst hbc
      cases hs
      rw [Array.size_push, hplace]
      omega
    · next hbc =>
      have hold := h.size_eq b slots hs
      have hin : b < pool.blocks.size := by
        rcases Nat.lt_or_ge b pool.blocks.size with hb' | hb'
        · exact hb'
        · rw [Array.getElem?_eq_none hb'] at hs
          simp at hs
      -- any block but the one written to is full or lies before it
      rcases Nat.lt_or_ge b c with hbc' | hbc'
      · have := start_add_le pool.firstBlock hbc'
        omega
      · have := start_add_le pool.firstBlock (show c < b by omega)
        rw [h.block_iff] at hin
        omega
  · intro b
    have hbs : b < pool'.blocks.size ↔ b < pool.blocks.size ∨ b = c := by
      have h₁ : b < pool'.blocks.size ↔ (pool'.blocks[b]?).isSome = true := by simp
      have h₂ : b < pool.blocks.size ↔ (pool.blocks[b]?).isSome = true := by simp
      rw [h₁, hget]
      split
      · next hbc => simp [hbc]
      · next hbc => rw [h₂]; simp [hbc]
    rw [hbs, h.block_iff, hf, ht]
    constructor
    · rintro ((h0 | h1) | rfl)
      · exact Or.inl h0
      · exact Or.inr (by omega)
      · exact Or.inr (by omega)
    · rintro (h0 | h1)
      · exact Or.inl (Or.inl h0)
      · rcases Nat.lt_or_ge (pool.firstBlock * (2 ^ b - 1)) pool.taken with h2 | h2
        · exact Or.inl (Or.inr h2)
        · -- the block begins with the new slot
          refine Or.inr ?_
          rcases Nat.lt_trichotomy b c with hbc | hbc | hbc
          · have := start_add_le pool.firstBlock hbc
            have hp : 0 < pool.firstBlock * 2 ^ b := Nat.mul_pos h.pos (Nat.two_pow_pos _)
            omega
          · exact hbc
          · have := start_add_le pool.firstBlock hbc
            omega

end Push

/-! ## The operations -/

@[simp] theorem firstBlock_alloc (pool : Pool α) (value : α) :
    (pool.alloc value).2.firstBlock = pool.firstBlock := by
  unfold alloc
  split
  · split <;> rfl
  · split <;> rfl

@[simp] theorem firstBlock_dealloc (pool : Pool α) (id : Nat) :
    (pool.dealloc id).2.firstBlock = pool.firstBlock := by
  unfold dealloc
  split <;> rfl

/-- An id is read back exactly when its slot is occupied. -/
theorem get?_eq_some_iff {pool : Pool α} {id : Nat} {value : α} :
    pool.get? id = some value ↔ pool.slot? id = some (.occupied value) := by
  unfold get?
  split
  · next v hv => rw [hv]; simp
  · next hv => constructor
               · intro h; cases h
               · intro h; exact absurd h (hv value)

/-- A slot on the free list reads as nothing. -/
theorem get?_eq_none_of_free {pool : Pool α} {id : Nat} {next : Option Nat}
    (h : pool.slot? id = some (.free next)) : pool.get? id = none := by
  unfold get?
  rw [h]

/-- What an id reads as depends on its slot alone. -/
theorem get?_congr {pool pool' : Pool α} {id : Nat} (h : pool'.slot? id = pool.slot? id) :
    pool'.get? id = pool.get? id := by
  unfold get?
  rw [h]

/-- A new pool is laid out: it has its first block, and no slot in it. -/
theorem new_laid (first : Nat) : (new first : Pool α).Laid := by
  refine ⟨by simp only [new]; omega, ?_, ?_⟩
  · intro b slots hs
    rcases Nat.eq_zero_or_pos b with rfl | hb
    · simp only [new] at hs ⊢
      cases hs
      simp
    · simp only [new] at hs
      rw [Array.getElem?_eq_none hb] at hs
      cases hs
  · intro b
    simp only [new, Nat.not_lt_zero, or_false]
    exact Nat.lt_one_iff

/-- So is a pool that has been cleared. -/
theorem clear_laid {pool : Pool α} (h : Laid pool) : pool.clear.Laid := by
  have hn := new_laid (α := α) pool.firstBlock
  have hm : max pool.firstBlock 1 = pool.firstBlock := Nat.max_eq_left h.pos
  simp only [new, hm] at hn
  exact ⟨hn.pos, hn.size_eq, hn.block_iff⟩

/-- As long as no slot has been taken, none is in use. -/
theorem Laid.get?_eq_none {pool : Pool α} (h : Laid pool) (htaken : pool.taken = 0) (id : Nat) :
    pool.get? id = none := by
  cases hget : pool.get? id with
  | none => rfl
  | some value =>
    have hlt := (h.slot?_isSome_iff id).1 (by rw [get?_eq_some_iff.1 hget]; rfl)
    omega

/-- A slot handed out was not in use, holds the value afterwards, and no other
slot changes. -/
theorem alloc_spec {pool pool' : Pool α} {value : α} {id : Nat} (h : Laid pool)
    (ha : pool.alloc value = (some id, pool')) :
    pool.get? id = none ∧ pool'.get? id = some value ∧
      (∀ other, other ≠ id → pool'.get? other = pool.get? other) ∧
      Laid pool' ∧ pool'.live = pool.live + 1 := by
  unfold alloc at ha
  split at ha
  · next head hhead =>
    split at ha
    · next next hslot =>
      cases ha
      refine ⟨?_, ?_, fun other hne => ?_, ?_, rfl⟩
      · exact get?_eq_none_of_free hslot
      · rw [get?_eq_some_iff]
        exact slot?_setSlot_self pool rfl rfl (by rw [hslot]; rfl)
      · exact get?_congr (slot?_setSlot_ne h.pos rfl rfl hne)
      · exact setSlot_laid h rfl rfl rfl
    · cases ha
  · next hhead =>
    split at ha
    · cases ha
      refine ⟨?_, ?_, fun other hne => ?_, ?_, rfl⟩
      · unfold get?
        rw [h.slot?_taken]
      · rw [get?_eq_some_iff]
        exact slot?_pushSlot_self h rfl rfl
      · exact get?_congr (slot?_pushSlot_ne h hne rfl rfl)
      · exact pushSlot_laid h rfl rfl rfl
    · cases ha

/-- A slot that is released is not in use afterwards, and no other slot changes. -/
theorem dealloc_spec {pool : Pool α} {value : α} {id : Nat} (h : Laid pool)
    (hv : pool.get? id = some value) :
    (pool.dealloc id).2.get? id = none ∧
      (∀ other, other ≠ id → (pool.dealloc id).2.get? other = pool.get? other) ∧
      Laid (pool.dealloc id).2 ∧ (pool.dealloc id).2.live = pool.live - 1 := by
  rw [get?_eq_some_iff] at hv
  have hd : (pool.dealloc id).2 =
      { pool with
        blocks := setSlot pool.blocks pool.firstBlock id (.free pool.freeHead)
        freeHead := some id
        live := pool.live - 1 } := by
    unfold dealloc
    rw [hv]
  rw [hd]
  refine ⟨?_, fun other hne => ?_, ?_, rfl⟩
  · exact get?_eq_none_of_free
      (slot?_setSlot_self pool rfl rfl (by rw [hv]; rfl))
  · exact get?_congr (slot?_setSlot_ne h.pos rfl rfl hne)
  · exact setSlot_laid h rfl rfl rfl

end JourneyPlanner.Pool
