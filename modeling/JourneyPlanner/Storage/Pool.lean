/-!
# A pool of slots

Values are kept in numbered slots. The slots lie in blocks, each twice as large as the one before, that
are filled in order (`Pool.locate`). A released slot is used again before any new one is taken, the last
released first: the free slots form a list that runs through the slots themselves. Clearing the pool
keeps only the first block.
-/

namespace JourneyPlanner

/-- A slot: in use, or free and pointing to the next free one. -/
inductive Pool.Slot (α : Type) where
  | occupied (value : α)
  | free (next : Option Nat)
  deriving Inhabited

/-- Numbered slots in blocks. -/
structure Pool (α : Type) where
  blocks : Array (Array (Pool.Slot α))
  /-- How many slots the first block has; at least one. -/
  firstBlock : Nat
  /-- How many slots have ever been taken since the pool was last empty. -/
  taken : Nat
  /-- The free slot to use next. -/
  freeHead : Option Nat
  /-- How many slots are in use. -/
  live : Nat

namespace Pool

variable {α : Type}

/-- The number of slots that identifiers can tell apart. -/
def maxSlots : Nat := 4294967296

/-- The bytes that a program can address. -/
def addressable : Nat := Nat.pow 2 47

/-- Whether a first block of so many slots can be laid out, each slot taking `slotBytes` bytes. -/
def fits (slotBytes firstBlock : Nat) : Bool := firstBlock * slotBytes ≤ addressable

/-- An empty pool whose first block has `firstBlock` slots, but at least one. -/
def new (firstBlock : Nat) : Pool α :=
  { blocks := #[#[]], firstBlock := max firstBlock 1, taken := 0, freeHead := none, live := 0 }

/-- The block of a slot and its place there, where `id` counts from the first slot of a block that has
number `block` and `size` slots. Each block that is passed takes slots off `id`, so no more than `id`
blocks are passed. -/
def locateFrom : Nat → Nat → Nat → Nat → Nat × Nat
  | 0, block, _, id => (block, id)
  | fuel + 1, block, size, id =>
    if size ≤ id then locateFrom fuel (block + 1) (2 * size) (id - size) else (block, id)

/-- The block of a slot and its place there. Block `b` has `firstBlock * 2 ^ b` slots, after
`firstBlock * (2 ^ b - 1)` slots in the blocks before it. -/
def locate (firstBlock id : Nat) : Nat × Nat := locateFrom id 0 firstBlock id

/-- The slot under a number, if it has ever been taken. -/
def slot? (pool : Pool α) (id : Nat) : Option (Slot α) := do
  let (block, offset) := locate pool.firstBlock id
  (← pool.blocks[block]?)[offset]?

/-- The blocks with the slot under a number replaced. -/
def setSlot (blocks : Array (Array (Slot α))) (firstBlock id : Nat) (slot : Slot α) :
    Array (Array (Slot α)) :=
  let (block, offset) := locate firstBlock id
  blocks.modify block fun slots => slots.setIfInBounds offset slot

/-- The blocks with one more slot, number `id`, in a new block if the last one is full. -/
def pushSlot (blocks : Array (Array (Slot α))) (firstBlock id : Nat) (slot : Slot α) :
    Array (Array (Slot α)) :=
  let (block, _) := locate firstBlock id
  if block = blocks.size then blocks.push #[slot]
  else blocks.modify block fun slots => slots.push slot

/-- Puts a value into the slot that was released last, or else into a new one, and answers the number
of the slot. When the numbers have run out there is no slot, and nothing happens. -/
def alloc (pool : Pool α) (value : α) : Option Nat × Pool α :=
  match pool.freeHead with
  | some id =>
    match pool.slot? id with
    | some (.free next) =>
      (some id,
        { pool with
          blocks := setSlot pool.blocks pool.firstBlock id (.occupied value)
          freeHead := next
          live := pool.live + 1 })
    | _ => (none, pool)
  | none =>
    if pool.taken < maxSlots then
      (some pool.taken,
        { pool with
          blocks := pushSlot pool.blocks pool.firstBlock pool.taken (.occupied value)
          taken := pool.taken + 1
          live := pool.live + 1 })
    else (none, pool)

/-- The value in a slot, if it is in use. -/
def get? (pool : Pool α) (id : Nat) : Option α :=
  match pool.slot? id with
  | some (.occupied value) => some value
  | _ => none

/-- Releases a slot and answers the value that it held; nothing happens if it is not in use. -/
def dealloc (pool : Pool α) (id : Nat) : Option α × Pool α :=
  match pool.slot? id with
  | some (.occupied value) =>
    (some value,
      { pool with
        blocks := setSlot pool.blocks pool.firstBlock id (.free pool.freeHead)
        freeHead := some id
        live := pool.live - 1 })
  | _ => (none, pool)

/-- How many slots are in use. -/
def size (pool : Pool α) : Nat := pool.live

/-- Whether no slot is in use. -/
def isEmpty (pool : Pool α) : Bool := pool.live == 0

/-- The pool without values and without any block but the first. -/
def clear (pool : Pool α) : Pool α :=
  { pool with blocks := #[#[]], taken := 0, freeHead := none, live := 0 }

/-- How many blocks there are. -/
def blockCount (pool : Pool α) : Nat := pool.blocks.size

/-- How many slots the blocks have room for. -/
def reserved (pool : Pool α) : Nat := pool.firstBlock * (Nat.pow 2 pool.blockCount - 1)

@[simp] theorem size_new (firstBlock : Nat) : (new firstBlock : Pool α).size = 0 := rfl

@[simp] theorem size_clear (pool : Pool α) : pool.clear.size = 0 := rfl

@[simp] theorem blockCount_clear (pool : Pool α) : pool.clear.blockCount = 1 := rfl

theorem size_of_alloc {pool pool' : Pool α} {value : α} {id : Nat}
    (h : pool.alloc value = (some id, pool')) : pool'.size = pool.size + 1 := by
  unfold alloc at h
  split at h
  · split at h
    · cases h; rfl
    · cases h
  · split at h
    · cases h; rfl
    · cases h

theorem eq_of_alloc_none {pool pool' : Pool α} {value : α}
    (h : pool.alloc value = (none, pool')) : pool' = pool := by
  unfold alloc at h
  split at h
  · split at h
    · cases h
    · cases h; rfl
  · split at h
    · cases h
    · cases h; rfl

end Pool

end JourneyPlanner
