import JourneyPlanner.Proofs.Storage.Pool
import Mathlib.Logic.Function.Basic

/-!
# The slots of a pool without their blocks

`Slots` says what a pool is for without blocks and without links: values under numbers, a stack of
the numbers that have been released, and the least number that has not been used since the last time
that all were dropped. A pool `Represents` them if its slots hold the same values and its free slots
point along the stack (`Threads`). One call keeps that and answers the same (`Represents.step`), so
that any number of calls do (`Represents.run`).

A number is on the stack, and once, if and only if it has been used and has no value
(`Slots.Orderly`). So the head of the free slots is never in use, and the numbers with a value are
as many as the pool has counted.
-/

namespace JourneyPlanner

/-- Values under numbers. -/
structure Slots (α : Type) where
  value : Nat → Option α
  /-- The numbers that have been released and not been used again, the last released first. -/
  released : List Nat
  /-- The least number that has not been used. -/
  fresh : Nat

/-- Something to ask of a pool. -/
inductive Pool.Call (α : Type) where
  | alloc (value : α)
  | dealloc (id : Nat)
  | get (id : Nat)
  | clear

/-- What a pool answers: the number of a slot, the value of one, or nothing that could be told. -/
inductive Pool.Answer (α : Type) where
  | id (id? : Option Nat)
  | value (value? : Option α)
  | done
  deriving DecidableEq, Repr

namespace Slots

variable {α : Type}

/-- No number has been used. -/
def new : Slots α := { value := fun _ => none, released := [], fresh := 0 }

/-- A value under the number that was released last, where `rest` are those before it. -/
def reuse (slots : Slots α) (id : Nat) (rest : List Nat) (value : α) : Slots α :=
  { slots with value := Function.update slots.value id (some value), released := rest }

/-- A value under the fresh number. -/
def begin (slots : Slots α) (value : α) : Slots α :=
  { slots with
    value := Function.update slots.value slots.fresh (some value), fresh := slots.fresh + 1 }

/-- No value under a number any more. -/
def release (slots : Slots α) (id : Nat) : Slots α :=
  { slots with value := Function.update slots.value id none, released := id :: slots.released }

/-- Puts a value under the number that was released last, or else under the fresh one, as long as
numbers have not run out. -/
def alloc (slots : Slots α) (value : α) : Option Nat × Slots α :=
  match slots.released with
  | id :: rest => (some id, slots.reuse id rest value)
  | [] =>
    if slots.fresh < Pool.maxSlots then (some slots.fresh, slots.begin value) else (none, slots)

/-- Takes away the value under a number, if there is one. -/
def dealloc (slots : Slots α) (id : Nat) : Option α × Slots α :=
  match slots.value id with
  | some value => (some value, slots.release id)
  | none => (none, slots)

def call (slots : Slots α) : Pool.Call α → Pool.Answer α × Slots α
  | .alloc value => (slots.alloc value).map .id id
  | .dealloc number => (slots.dealloc number).map .value id
  | .get id => (.value (slots.value id), slots)
  | .clear => (.done, new)

/-- The answers to several calls, and what is left after them. -/
def calls (slots : Slots α) : List (Pool.Call α) → List (Pool.Answer α) × Slots α
  | [] => ([], slots)
  | c :: cs =>
    let (answer, after) := slots.call c
    let (answers, last) := after.calls cs
    (answer :: answers, last)

/-- How many numbers have a value. -/
def size (slots : Slots α) : Nat :=
  (List.range slots.fresh).countP fun id => (slots.value id).isSome

/-- A number that has been used either has a value or is on the stack, and is there but once. -/
structure Orderly (slots : Slots α) : Prop where
  lt_fresh : ∀ id value, slots.value id = some value → id < slots.fresh
  mem_released : ∀ id, id ∈ slots.released ↔ id < slots.fresh ∧ slots.value id = none
  nodup : slots.released.Nodup
  fresh_le : slots.fresh ≤ Pool.maxSlots

variable {slots : Slots α} {id : Nat} {value : α}

/-- Slots of which none has been used are orderly. -/
theorem new_orderly : (new : Slots α).Orderly := by
  refine ⟨?_, ?_, List.nodup_nil, Nat.zero_le _⟩
  · intro id value hvalue
    cases hvalue
  · intro id
    simp [new]

/-- Every number that has been used has a value or has been released. -/
theorem Orderly.size_add (h : slots.Orderly) :
    slots.size + slots.released.length = slots.fresh := by
  have hperm : slots.released.Perm
      ((List.range slots.fresh).filter fun id => decide ¬(slots.value id).isSome = true) := by
    rw [List.perm_ext_iff_of_nodup h.nodup (List.nodup_range.filter _)]
    intro id
    rw [h.mem_released, List.mem_filter, List.mem_range]
    simp
  have hall : (List.range slots.fresh).length = slots.size + _ :=
    List.length_eq_countP_add_countP fun id => (slots.value id).isSome
  rw [List.length_range, List.countP_eq_length_filter, ← hperm.length_eq] at hall
  exact hall.symm

/-- Where a slot holds a value, one at least is in use. -/
theorem Orderly.size_pos (h : slots.Orderly) (hvalue : slots.value id = some value) :
    0 < slots.size := by
  refine List.countP_pos_iff.2 ⟨id, List.mem_range.2 (h.lt_fresh id value hvalue), ?_⟩
  rw [hvalue]
  rfl

/-- What is handed out is the number that was released last, or else the fresh one. -/
theorem eq_of_alloc {slots' : Slots α} (h : slots.alloc value = (some id, slots')) :
    id = slots.released.head?.getD slots.fresh := by
  unfold alloc at h
  split at h
  · next head rest hreleased =>
    cases h
    rw [hreleased]
    rfl
  · next hreleased =>
    split at h
    · cases h
      rw [hreleased]
      rfl
    · cases h

/-- A number is refused only when all have a value. -/
theorem Orderly.alloc_none_iff (h : slots.Orderly) (value : α) :
    (slots.alloc value).1 = none ↔ slots.size = Pool.maxSlots := by
  have hadd := h.size_add
  have hle := h.fresh_le
  unfold alloc
  split
  · next head rest hreleased =>
    rw [hreleased, List.length_cons] at hadd
    refine iff_of_false (Option.some_ne_none head) ?_
    omega
  · next hreleased =>
    rw [hreleased, List.length_nil] at hadd
    split
    · refine iff_of_false (Option.some_ne_none _) ?_
      omega
    · refine iff_of_true rfl ?_
      omega

/-! ## What a call leaves -/

/-- A number that is used again has a value from then on. -/
theorem Orderly.reuse {rest : List Nat} (h : slots.Orderly) (hreleased : slots.released = id :: rest)
    (value : α) : (slots.reuse id rest value).Orderly := by
  have hmem := h.mem_released
  have hnodup := h.nodup
  rw [hreleased] at hmem hnodup
  obtain ⟨hnot, hrest⟩ := List.nodup_cons.1 hnodup
  obtain ⟨hfresh, -⟩ := (hmem id).1 List.mem_cons_self
  unfold Slots.reuse
  refine ⟨?_, ?_, hrest, h.fresh_le⟩
  · intro other value' hvalue
    dsimp only at hvalue ⊢
    by_cases hother : other = id
    · rw [hother]
      exact hfresh
    · rw [Function.update_of_ne hother] at hvalue
      exact h.lt_fresh other value' hvalue
  · intro other
    dsimp only
    by_cases hother : other = id
    · rw [hother, Function.update_self]
      simp [hnot]
    · rw [Function.update_of_ne hother, ← hmem other, List.mem_cons]
      exact ⟨Or.inr, fun h => h.resolve_left hother⟩

/-- A number that is used for the first time. -/
theorem Orderly.begin (h : slots.Orderly) (hlt : slots.fresh < Pool.maxSlots) (value : α) :
    (slots.begin value).Orderly := by
  have hmem := h.mem_released
  unfold Slots.begin
  refine ⟨?_, ?_, h.nodup, hlt⟩
  · intro other value' hvalue
    dsimp only at hvalue ⊢
    by_cases hother : other = slots.fresh
    · omega
    · rw [Function.update_of_ne hother] at hvalue
      exact Nat.lt_succ_of_lt (h.lt_fresh other value' hvalue)
  · intro other
    dsimp only
    rw [hmem other]
    by_cases hother : other = slots.fresh
    · rw [hother, Function.update_self]
      simp
    · rw [Function.update_of_ne hother]
      constructor
      · exact fun h => ⟨Nat.lt_succ_of_lt h.1, h.2⟩
      · exact fun h => ⟨by omega, h.2⟩

/-- A number that is released goes on the stack. -/
theorem Orderly.release (h : slots.Orderly) (hvalue : slots.value id = some value) :
    (slots.release id).Orderly := by
  have hmem := h.mem_released
  have hnot : id ∉ slots.released := by
    rw [hmem, hvalue]
    rintro ⟨-, hnone⟩
    cases hnone
  unfold Slots.release
  refine ⟨?_, ?_, List.nodup_cons.2 ⟨hnot, h.nodup⟩, h.fresh_le⟩
  · intro other value' hvalue'
    dsimp only at hvalue'
    by_cases hother : other = id
    · rw [hother, Function.update_self] at hvalue'
      cases hvalue'
    · rw [Function.update_of_ne hother] at hvalue'
      exact h.lt_fresh other value' hvalue'
  · intro other
    dsimp only
    rw [List.mem_cons]
    by_cases hother : other = id
    · rw [hother, Function.update_self]
      simp [h.lt_fresh id value hvalue]
    · rw [Function.update_of_ne hother, ← hmem other]
      exact ⟨fun h => h.resolve_left hother, Or.inr⟩

end Slots

/-! ## A pool with its slots -/

namespace Pool

variable {α : Type} {pool pool' : Pool α} {slots : Slots α}

def call (pool : Pool α) : Call α → Answer α × Pool α
  | .alloc value => (pool.alloc value).map .id id
  | .dealloc number => (pool.dealloc number).map .value id
  | .get id => (.value (pool.get? id), pool)
  | .clear => (.done, pool.clear)

/-- The answers to several calls, and the pool after them. -/
def calls (pool : Pool α) : List (Call α) → List (Answer α) × Pool α
  | [] => ([], pool)
  | c :: cs =>
    let (answer, after) := pool.call c
    let (answers, last) := after.calls cs
    (answer :: answers, last)

/-- From `head` on free slots point along a list, up to its end. -/
inductive Threads (pool : Pool α) : Option Nat → List Nat → Prop
  | done : Threads pool none []
  | link {id : Nat} {next : Option Nat} {rest : List Nat}
      (hslot : pool.slot? id = some (.free next)) (hrest : Threads pool next rest) :
      Threads pool (some id) (id :: rest)

/-- Free slots go on pointing along a list as long as none of them is written to. -/
theorem Threads.congr {head : Option Nat} {ids : List Nat} (h : Threads pool head ids)
    (hsame : ∀ id ∈ ids, pool'.slot? id = pool.slot? id) : Threads pool' head ids := by
  induction h with
  | done => exact .done
  | @link id next rest hslot hrest ih =>
    refine .link ?_ (ih fun other hother => hsame other (List.mem_cons_of_mem id hother))
    rw [hsame id List.mem_cons_self]
    exact hslot

/-- A pool has in its slots what is under the numbers, and the free ones point along the stack. -/
structure Represents (pool : Pool α) (slots : Slots α) : Prop where
  laid : pool.Laid
  orderly : slots.Orderly
  get?_eq : pool.get? = slots.value
  threads : pool.Threads pool.freeHead slots.released
  taken_eq : pool.taken = slots.fresh
  live_add : pool.live + slots.released.length = slots.fresh

/-- A pool has counted the numbers with a value. -/
theorem Represents.size_eq (h : pool.Represents slots) : pool.size = slots.size := by
  have hlive := h.live_add
  have hsize := h.orderly.size_add
  show pool.live = slots.size
  omega

/-- A pool that has handed nothing out represents slots of which none has been used, whatever blocks
it has kept. -/
theorem represents_of_empty (hlaid : pool.Laid) (htaken : pool.taken = 0)
    (hhead : pool.freeHead = none) (hlive : pool.live = 0) : pool.Represents Slots.new := by
  refine ⟨hlaid, Slots.new_orderly, funext (hlaid.get?_eq_none htaken), ?_, htaken, hlive⟩
  rw [hhead]
  exact .done

/-- The slot that was released last is used again. -/
theorem Represents.reuse {id : Nat} {rest : List Nat} (h : pool.Represents slots)
    (hreleased : slots.released = id :: rest) (value : α) :
    ∃ pool', pool.alloc value = (some id, pool') ∧
      pool'.Represents (slots.reuse id rest value) := by
  have hthreads := h.threads
  have hadd := h.live_add
  have hnodup := h.orderly.nodup
  rw [hreleased] at hthreads hadd hnodup
  generalize hhead : pool.freeHead = head at hthreads
  cases hthreads with
  | @link _ next _ hslot hrest =>
    have halloc : pool.alloc value = (some id,
        { pool with
          blocks := setSlot pool.blocks pool.firstBlock id (.occupied value)
          freeHead := next
          live := pool.live + 1 }) := by
      unfold alloc
      rw [hhead]
      dsimp only
      rw [hslot]
    obtain ⟨-, hself, hothers, hlaid, -⟩ := alloc_spec h.laid halloc
    refine ⟨_, halloc, hlaid, h.orderly.reuse hreleased value, ?_, ?_, h.taken_eq, ?_⟩
    · show _ = Function.update slots.value id (some value)
      rw [← h.get?_eq]
      exact Function.eq_update_iff.2 ⟨hself, hothers⟩
    · refine hrest.congr fun other hother => slot?_setSlot_ne h.laid.pos rfl rfl ?_
      intro heq
      rw [heq] at hother
      exact (List.nodup_cons.1 hnodup).1 hother
    · rw [List.length_cons] at hadd
      show pool.live + 1 + rest.length = slots.fresh
      omega

/-- A new slot is taken, as long as there are numbers. -/
theorem Represents.begin (h : pool.Represents slots) (hreleased : slots.released = [])
    (hlt : slots.fresh < maxSlots) (value : α) :
    ∃ pool', pool.alloc value = (some slots.fresh, pool') ∧
      pool'.Represents (slots.begin value) := by
  have hthreads := h.threads
  have hadd := h.live_add
  have htaken := h.taken_eq
  rw [hreleased] at hthreads hadd
  generalize hhead : pool.freeHead = head at hthreads
  cases hthreads with
  | done =>
    have halloc : pool.alloc value = (some slots.fresh,
        { pool with
          blocks := pushSlot pool.blocks pool.firstBlock pool.taken (.occupied value)
          taken := pool.taken + 1
          live := pool.live + 1 }) := by
      unfold alloc
      rw [hhead, ← htaken]
      exact if_pos (by rw [htaken]; exact hlt)
    obtain ⟨-, hself, hothers, hlaid, -⟩ := alloc_spec h.laid halloc
    refine ⟨_, halloc, hlaid, h.orderly.begin hlt value, ?_, ?_, ?_, ?_⟩
    · show _ = Function.update slots.value slots.fresh (some value)
      rw [← h.get?_eq]
      exact Function.eq_update_iff.2 ⟨hself, hothers⟩
    · show Threads _ pool.freeHead slots.released
      rw [hreleased, hhead]
      exact .done
    · show pool.taken + 1 = slots.fresh + 1
      rw [htaken]
    · rw [List.length_nil] at hadd
      show pool.live + 1 + slots.released.length = slots.fresh + 1
      rw [hreleased, List.length_nil]
      omega

/-- Handing out gives the same id on both sides and leaves the pool representing the slots. -/
theorem Represents.alloc (h : pool.Represents slots) (value : α) :
    ∃ id? pool' slots', pool.alloc value = (id?, pool') ∧ slots.alloc value = (id?, slots') ∧
      pool'.Represents slots' := by
  unfold Slots.alloc
  cases hreleased : slots.released with
  | cons id rest =>
    obtain ⟨pool', halloc, hpool'⟩ := h.reuse hreleased value
    exact ⟨_, _, _, halloc, rfl, hpool'⟩
  | nil =>
    dsimp only
    by_cases hlt : slots.fresh < maxSlots
    · rw [if_pos hlt]
      obtain ⟨pool', halloc, hpool'⟩ := h.begin hreleased hlt value
      exact ⟨_, _, _, halloc, rfl, hpool'⟩
    · rw [if_neg hlt]
      have hthreads := h.threads
      rw [hreleased] at hthreads
      generalize hhead : pool.freeHead = head at hthreads
      cases hthreads with
      | done =>
        have halloc : pool.alloc value = (none, pool) := by
          unfold Pool.alloc
          rw [hhead]
          exact if_neg (by rw [h.taken_eq]; exact hlt)
        exact ⟨none, pool, slots, halloc, rfl, h⟩

/-- What is not in use is not released. -/
theorem dealloc_of_get?_eq_none {id : Nat} (h : pool.get? id = none) :
    pool.dealloc id = (none, pool) := by
  unfold dealloc
  split
  · next value hslot =>
    rw [get?_eq_some_iff.2 hslot] at h
    cases h
  · rfl

/-- The slot that is released points to the one that was before. -/
theorem Represents.release {id : Nat} {value : α} (h : pool.Represents slots)
    (hvalue : slots.value id = some value) :
    ∃ pool', pool.dealloc id = (some value, pool') ∧ pool'.Represents (slots.release id) := by
  have hget : pool.get? id = some value := (congrFun h.get?_eq id).trans hvalue
  have hslot := get?_eq_some_iff.1 hget
  have hdealloc : pool.dealloc id = (some value,
      { pool with
        blocks := setSlot pool.blocks pool.firstBlock id (.free pool.freeHead)
        freeHead := some id
        live := pool.live - 1 }) := by
    unfold Pool.dealloc
    rw [hslot]
  obtain ⟨hself, hothers, hlaid, -⟩ := dealloc_spec h.laid hget
  rw [hdealloc] at hself hothers hlaid
  refine ⟨_, hdealloc, hlaid, h.orderly.release hvalue, ?_, ?_, h.taken_eq, ?_⟩
  · show _ = Function.update slots.value id none
    rw [← h.get?_eq]
    exact Function.eq_update_iff.2 ⟨hself, hothers⟩
  · refine .link (slot?_setSlot_self pool rfl rfl ?_) (h.threads.congr fun other hother => ?_)
    · rw [hslot]
      rfl
    · refine slot?_setSlot_ne h.laid.pos rfl rfl ?_
      intro heq
      obtain ⟨-, hnone⟩ := (h.orderly.mem_released other).1 hother
      rw [heq, hvalue] at hnone
      cases hnone
  · have hpos := h.orderly.size_pos hvalue
    have hsize := h.size_eq
    have hadd := h.live_add
    show pool.live - 1 + (slots.released.length + 1) = slots.fresh
    have hlive : pool.live = slots.size := hsize
    omega

/-- Giving back reads the same value on both sides and leaves the pool representing the slots. -/
theorem Represents.dealloc (h : pool.Represents slots) (id : Nat) :
    ∃ value? pool' slots', pool.dealloc id = (value?, pool') ∧
      slots.dealloc id = (value?, slots') ∧ pool'.Represents slots' := by
  unfold Slots.dealloc
  cases hvalue : slots.value id with
  | none =>
    have hdealloc := dealloc_of_get?_eq_none ((congrFun h.get?_eq id).trans hvalue)
    exact ⟨none, pool, slots, hdealloc, rfl, h⟩
  | some value =>
    obtain ⟨pool', hdealloc, hpool'⟩ := h.release hvalue
    exact ⟨_, _, _, hdealloc, rfl, hpool'⟩

/-- So does a pool that has been cleared. -/
theorem Represents.clear (h : pool.Represents slots) : pool.clear.Represents Slots.new :=
  represents_of_empty (clear_laid h.laid) rfl rfl rfl

/-- A pool answers a call as its slots do. -/
theorem Represents.step (h : pool.Represents slots) (call : Call α) :
    ∃ answer pool' slots', pool.call call = (answer, pool') ∧
      slots.call call = (answer, slots') ∧ pool'.Represents slots' := by
  cases call with
  | alloc value =>
    obtain ⟨id?, pool', slots', halloc, halloc', hpool'⟩ := h.alloc value
    refine ⟨.id id?, pool', slots', ?_, ?_, hpool'⟩
    · show (pool.alloc value).map _ _ = _
      rw [halloc]
      rfl
    · show (slots.alloc value).map _ _ = _
      rw [halloc']
      rfl
  | dealloc id =>
    obtain ⟨value?, pool', slots', hdealloc, hdealloc', hpool'⟩ := h.dealloc id
    refine ⟨.value value?, pool', slots', ?_, ?_, hpool'⟩
    · show (pool.dealloc id).map _ _ = _
      rw [hdealloc]
      rfl
    · show (slots.dealloc id).map _ _ = _
      rw [hdealloc']
      rfl
  | get id =>
    refine ⟨.value (slots.value id), pool, slots, ?_, rfl, h⟩
    rw [← h.get?_eq]
    rfl
  | clear => exact ⟨.done, pool.clear, Slots.new, rfl, rfl, h.clear⟩

/-- Whatever is asked of a pool, it answers as its slots do. -/
theorem Represents.run (h : pool.Represents slots) (calls : List (Call α)) :
    (pool.calls calls).1 = (slots.calls calls).1 ∧
      (pool.calls calls).2.Represents (slots.calls calls).2 := by
  induction calls generalizing pool slots with
  | nil => exact ⟨rfl, h⟩
  | cons call calls ih =>
    obtain ⟨answer, pool', slots', hcall, hcall', hpool'⟩ := h.step call
    obtain ⟨hanswers, hlast⟩ := ih hpool'
    unfold Pool.calls Slots.calls
    rw [hcall, hcall']
    exact ⟨congrArg (answer :: ·) hanswers, hlast⟩

end Pool

end JourneyPlanner
