/-!
# A queue of buckets

A priority queue for small whole keys. Items lie in one bucket per key, and a cursor that only moves up
stands at or below the first bucket with an item; a key below the cursor or past the last bucket is
moved to the nearest bucket that is allowed. Within a bucket the items are either ordered by a
comparison, equal items in the order in which they came, or the last to come is the first to go.
-/

namespace JourneyPlanner

/-- Items in buckets `0` to `maxBucket`. The head of a bucket is the item that goes next. -/
structure BucketQueue (α : Type) where
  /-- The buckets up to the highest that has been used; all further ones are empty. -/
  buckets : Array (List α)
  /-- The greatest key that has a bucket of its own. -/
  maxBucket : Nat
  cursor : Nat
  count : Nat
  sorted : Bool

namespace BucketQueue

variable {α : Type}

/-- An empty queue for keys up to `maxBucket`. -/
def new (maxBucket : Nat) (sorted : Bool) : BucketQueue α :=
  { buckets := #[], maxBucket, cursor := 0, count := 0, sorted }

/-- How many items are held. -/
def size (queue : BucketQueue α) : Nat := queue.count

/-- Whether no item is held. -/
def isEmpty (queue : BucketQueue α) : Bool := queue.count == 0

/-- The bucket for a key. -/
def bucketOf (queue : BucketQueue α) (key : Nat) : Nat :=
  min (max key queue.cursor) queue.maxBucket

/-- Puts an item behind all that are not greater. -/
def insertSorted (compare : α → α → Ordering) (item : α) : List α → List α
  | [] => [item]
  | first :: rest =>
    match compare first item with
    | .gt => item :: first :: rest
    | _ => first :: insertSorted compare item rest

/-- The buckets, with the one for `key` among them. -/
def reach (buckets : Array (List α)) (key : Nat) : Array (List α) :=
  buckets ++ Array.replicate (key + 1 - buckets.size) []

/-- Adds an item under a key. -/
def push (queue : BucketQueue α) (compare : α → α → Ordering) (key : Nat) (item : α) :
    BucketQueue α :=
  let key := queue.bucketOf key
  let { buckets, maxBucket, cursor, count, sorted } := queue
  let place := if sorted then insertSorted compare item else (item :: ·)
  { buckets := (reach buckets key).modify key place, maxBucket, cursor, count := count + 1, sorted }

/-- The first bucket from `cursor` on that has an item, or else the last one. -/
def firstFilled (buckets : Array (List α)) (cursor : Nat) : Nat :=
  if cursor + 1 < buckets.size then
    match buckets[cursor]? with
    | some [] => firstFilled buckets (cursor + 1)
    | _ => cursor
  else cursor
termination_by buckets.size - cursor

/-- The queue with its cursor at the first bucket that has an item. -/
def advance (queue : BucketQueue α) : BucketQueue α :=
  { queue with cursor := firstFilled queue.buckets queue.cursor }

/-- The item to go next, if there is one, and the queue after it has gone. -/
def pop (queue : BucketQueue α) : Option α × BucketQueue α :=
  if queue.isEmpty then (none, queue)
  else
    let queue := queue.advance
    match queue.buckets[queue.cursor]? with
    | some (item :: _) =>
      (some item,
        { queue with
          buckets := queue.buckets.modify queue.cursor List.tail
          count := queue.count - 1 })
    | _ => (none, queue)

/-- The item to go next, if there is one; looking for it moves the cursor. -/
def peek (queue : BucketQueue α) : Option α × BucketQueue α :=
  if queue.isEmpty then (none, queue)
  else
    let queue := queue.advance
    (queue.buckets[queue.cursor]?.bind List.head?, queue)

/-- An empty queue for keys up to `maxBucket`, in place of this one. -/
def reset (_ : BucketQueue α) (maxBucket : Nat) (sorted : Bool) : BucketQueue α :=
  new maxBucket sorted

/-- The queue without its items. -/
def clear (queue : BucketQueue α) : BucketQueue α := queue.reset queue.maxBucket queue.sorted

@[simp] theorem size_new (maxBucket : Nat) (sorted : Bool) :
    (new maxBucket sorted : BucketQueue α).size = 0 := rfl

@[simp] theorem maxBucket_new (m : Nat) (sorted : Bool) :
    (new m sorted : BucketQueue α).maxBucket = m := rfl

@[simp] theorem size_push (queue : BucketQueue α) (compare : α → α → Ordering) (key : Nat)
    (item : α) : (queue.push compare key item).size = queue.size + 1 := rfl

@[simp] theorem maxBucket_push (queue : BucketQueue α) (compare : α → α → Ordering) (key : Nat)
    (item : α) : (queue.push compare key item).maxBucket = queue.maxBucket := rfl

theorem size_reach (buckets : Array (List α)) (key : Nat) :
    (reach buckets key).size = max buckets.size (key + 1) := by
  simp only [reach, Array.size_append, Array.size_replicate]
  omega

theorem getD_reach (buckets : Array (List α)) (key i : Nat) :
    (reach buckets key)[i]?.getD [] = buckets[i]?.getD [] := by
  simp only [reach, Array.getElem?_append, Array.getElem?_replicate]
  split
  · rfl
  · rw [Array.getElem?_eq_none (by omega)]
    split <;> rfl

theorem mem_insertSorted {compare : α → α → Ordering} {item x : α} {items : List α} :
    x ∈ insertSorted compare item items ↔ x = item ∨ x ∈ items := by
  induction items with
  | nil => simp [insertSorted]
  | cons first rest ih =>
    unfold insertSorted
    split
    · simp
    · simp only [List.mem_cons, ih]
      constructor
      · rintro (h | h | h) <;> simp [h]
      · rintro (h | h | h) <;> simp [h]

end BucketQueue

end JourneyPlanner
