import JourneyPlanner.Storage.BucketQueue
import Mathlib.Order.Lattice

/-!
# What a priority queue is asked to do

A `PriorityList` says what a queue of buckets is for without any buckets: it keeps the items in
the order in which they came, each with the key that it was given, and it does not say how the next
one is found. `PriorityList.Step` tells what each call may do:

> an item is given its own key, moved up to the cursor or down to the greatest key; a pop or a
> peek finds an item that goes before all others (`Entry.GoesBefore`) and moves the cursor to its
> key; and only a reset moves the cursor back.

Items that are equal to each other are told apart by their numbers, so that it can be said of each
what has become of it (`Run.accounted`). The order of the items leaves no choice, and neither do the
calls (`Run.unique`).
-/

namespace JourneyPlanner

namespace BucketQueue

/-- Something to ask of a queue. -/
inductive Call (α : Type) where
  | push (key : Nat) (item : α)
  | pop
  | peek
  | reset (maxBucket : Nat) (sorted : Bool)
  | clear

/-- What a queue tells after a call: the item that it has found, if it was asked for one, how many
items it holds, and whether it holds none. -/
structure Reading (α : Type) where
  answer : Option α
  size : Nat
  isEmpty : Bool
  deriving DecidableEq, Repr

variable {α : Type}

/-- One call, with the item that it finds. -/
def call (compare : α → α → Ordering) (queue : BucketQueue α) :
    Call α → Option α × BucketQueue α
  | .push key item => (none, queue.push compare key item)
  | .pop => queue.pop
  | .peek => queue.peek
  | .reset maxBucket sorted => (none, queue.reset maxBucket sorted)
  | .clear => (none, queue.clear)

/-- What a queue tells after each of several calls. -/
def readings (compare : α → α → Ordering) (queue : BucketQueue α) :
    List (Call α) → List (Reading α)
  | [] => []
  | c :: calls =>
    let (answer, after) := queue.call compare c
    { answer, size := after.size, isEmpty := after.isEmpty } :: after.readings compare calls

/-- The queue after several calls. -/
def afterCalls (compare : α → α → Ordering) (queue : BucketQueue α) (calls : List (Call α)) :
    BucketQueue α :=
  calls.foldl (fun queue c => (queue.call compare c).2) queue

end BucketQueue

/-- An item that has been pushed: how many had been pushed before it, and the key under which it
is held. -/
structure PriorityList.Entry (α : Type) where
  number : Nat
  key : Nat
  item : α

/-- The items that have been pushed, by what has become of them. -/
structure PriorityList (α : Type) where
  held : List (PriorityList.Entry α)
  popped : List (PriorityList.Entry α)
  dropped : List (PriorityList.Entry α)
  /-- How many items have been pushed. -/
  pushed : Nat
  cursor : Nat
  maxBucket : Nat
  sorted : Bool

namespace PriorityList

variable {α : Type} {compare : α → α → Ordering} {sorted : Bool}

/-- No item has been pushed. -/
def new (maxBucket : Nat) (sorted : Bool) : PriorityList α :=
  { held := [], popped := [], dropped := [], pushed := 0, cursor := 0, maxBucket, sorted }

/-- The key under which an item is held: its own, but not below the cursor nor above the greatest. -/
def keyFor (list : PriorityList α) (key : Nat) : Nat := min (max key list.cursor) list.maxBucket

/-- The list with one more item. -/
def push (list : PriorityList α) (key : Nat) (item : α) : PriorityList α :=
  { list with
    held := list.held ++ [⟨list.pushed, list.keyFor key, item⟩]
    pushed := list.pushed + 1 }

/-- The list once `next` is popped, of what came before and after it. -/
def without (list : PriorityList α) (before : List (Entry α)) (next : Entry α)
    (after : List (Entry α)) : PriorityList α :=
  { list with held := before ++ after, popped := list.popped ++ [next], cursor := next.key }

/-- The list without its items, for keys up to `maxBucket`. -/
def reset (list : PriorityList α) (maxBucket : Nat) (sorted : Bool) : PriorityList α :=
  { list with
    held := [], dropped := list.dropped ++ list.held, cursor := 0, maxBucket, sorted }

/-- Of two items of one key, where items are to be sorted, the smaller one goes first, and of equal
ones the one that came first. Otherwise the one that came last goes first. -/
def Entry.Precedes (compare : α → α → Ordering) (sorted : Bool) (x y : Entry α) : Prop :=
  if sorted then
    compare x.item y.item = .lt ∨ compare x.item y.item = .eq ∧ x.number < y.number
  else y.number < x.number

/-- One item goes before another. -/
def Entry.GoesBefore (compare : α → α → Ordering) (sorted : Bool) (x y : Entry α) : Prop :=
  x.key < y.key ∨ x.key = y.key ∧ x.Precedes compare sorted y

/-- Among the items held, one that goes before all others, with those that came before and after
it. -/
def IsNext (compare : α → α → Ordering) (list : PriorityList α) (before : List (Entry α))
    (next : Entry α) (after : List (Entry α)) : Prop :=
  list.held = before ++ next :: after ∧
    ∀ other ∈ before ++ after, next.GoesBefore compare list.sorted other

/-- What a call may find, and what it leaves. -/
inductive Step (compare : α → α → Ordering) (list : PriorityList α) :
    BucketQueue.Call α → Option (Entry α) → PriorityList α → Prop
  | push (key : Nat) (item : α) : Step compare list (.push key item) none (list.push key item)
  | popNone (hnone : list.held = []) : Step compare list .pop none list
  | pop {before after : List (Entry α)} {next : Entry α}
      (hnext : list.IsNext compare before next after) :
      Step compare list .pop (some next) (list.without before next after)
  | peekNone (hnone : list.held = []) : Step compare list .peek none list
  | peek {before after : List (Entry α)} {next : Entry α}
      (hnext : list.IsNext compare before next after) :
      Step compare list .peek (some next) { list with cursor := next.key }
  | reset (maxBucket : Nat) (sorted : Bool) :
      Step compare list (.reset maxBucket sorted) none (list.reset maxBucket sorted)
  | clear : Step compare list .clear none (list.reset list.maxBucket list.sorted)

/-- What several calls may tell, and what they leave. -/
inductive Run (compare : α → α → Ordering) : PriorityList α → List (BucketQueue.Call α) →
    List (BucketQueue.Reading α) → PriorityList α → Prop
  | done (list : PriorityList α) : Run compare list [] [] list
  | step {list after last : PriorityList α} {call : BucketQueue.Call α}
      {found : Option (Entry α)} {calls : List (BucketQueue.Call α)}
      {readings : List (BucketQueue.Reading α)}
      (hstep : Step compare list call found after) (hrest : Run compare after calls readings last) :
      Run compare list (call :: calls)
        (⟨found.map Entry.item, after.held.length, after.held.isEmpty⟩ :: readings) last

/-! ## What has become of each item -/

/-- Every number up to that of the pushes is that of one item, which is held, has been popped or has
been dropped. -/
def Accounted (list : PriorityList α) : Prop :=
  ((list.popped ++ list.dropped ++ list.held).map Entry.number).Perm (List.range list.pushed)

/-- A new list holds nothing and has handed nothing out. -/
theorem new_accounted (maxBucket : Nat) (sorted : Bool) :
    (new maxBucket sorted : PriorityList α).Accounted := List.Perm.refl _

/-- A push enters the item among those held and among those pushed. -/
theorem Accounted.push {list : PriorityList α} (h : list.Accounted) (key : Nat) (item : α) :
    (list.push key item).Accounted := by
  unfold Accounted at h ⊢
  show ((list.popped ++ list.dropped ++ (list.held ++ [_])).map Entry.number).Perm
    (List.range (list.pushed + 1))
  rw [← List.append_assoc, List.map_append, List.range_succ]
  exact h.append_right [list.pushed]

/-- A reset gives up what is held and counts it among what was dropped. -/
theorem Accounted.reset {list : PriorityList α} (h : list.Accounted) (maxBucket : Nat)
    (sorted : Bool) : (list.reset maxBucket sorted).Accounted := by
  unfold Accounted at h ⊢
  show ((list.popped ++ (list.dropped ++ list.held) ++ []).map Entry.number).Perm _
  rw [List.append_nil, ← List.append_assoc]
  exact h

/-- An item that is popped goes from the one place to the other. -/
theorem Accounted.without {list : PriorityList α} {before after : List (Entry α)}
    {next : Entry α} (h : list.Accounted) (hheld : list.held = before ++ next :: after) :
    (list.without before next after).Accounted := by
  unfold Accounted at h ⊢
  refine List.Perm.trans (List.Perm.map _ ?_) h
  show (list.popped ++ [next] ++ list.dropped ++ (before ++ after)).Perm
    (list.popped ++ list.dropped ++ list.held)
  have hmoved : (next :: (list.dropped ++ (before ++ after))).Perm
      (list.dropped ++ (before ++ next :: after)) := by
    rw [← List.append_assoc, ← List.append_assoc]
    exact List.perm_middle.symm
  rw [hheld, List.append_assoc, List.append_assoc, List.append_assoc]
  exact hmoved.append_left list.popped

/-- A call leaves every pushed item held, popped or dropped. -/
theorem Step.accounted {list after : PriorityList α} {call : BucketQueue.Call α}
    {found : Option (Entry α)} (hstep : Step compare list call found after)
    (h : list.Accounted) : after.Accounted := by
  cases hstep with
  | push key item => exact h.push key item
  | popNone hnone => exact h
  | pop hnext => exact h.without hnext.1
  | peekNone hnone => exact h
  | peek hnext => exact h
  | reset maxBucket sorted => exact h.reset maxBucket sorted
  | clear => exact h.reset list.maxBucket list.sorted

/-- After any calls every item that has been pushed is accounted for, and none twice. -/
theorem Run.accounted {list last : PriorityList α} {calls : List (BucketQueue.Call α)}
    {readings : List (BucketQueue.Reading α)} (hrun : Run compare list calls readings last)
    (h : list.Accounted) : last.Accounted := by
  induction hrun with
  | done list => exact h
  | step hstep hrest ih => exact ih (hstep.accounted h)

/-! ## The order of the items -/

/-- A list with an item that goes before all others holds one. -/
theorem IsNext.held_ne_nil {list : PriorityList α} {before after : List (Entry α)}
    {next : Entry α} (h : list.IsNext compare before next after) : list.held ≠ [] := by
  intro hnone
  rw [h.1] at hnone
  simp at hnone

section Order

variable [Std.TransCmp compare] {x y z : Entry α}

/-- Two entries do not precede each other: ties are broken by the moment of the push. -/
theorem Entry.Precedes.asymm (h : x.Precedes compare sorted y) :
    ¬ y.Precedes compare sorted x := by
  unfold Precedes at h ⊢
  intro h'
  split at h
  · rw [if_pos ‹_›] at h'
    rcases h with hlt | ⟨heq, hnumber⟩
    · rcases h' with hlt' | ⟨heq', -⟩
      · exact Std.OrientedCmp.not_lt_of_lt hlt hlt'
      · rw [Std.OrientedCmp.eq_comm, hlt] at heq'
        cases heq'
    · rcases h' with hlt' | ⟨-, hnumber'⟩
      · rw [Std.OrientedCmp.eq_comm, hlt'] at heq
        cases heq
      · omega
  · rw [if_neg ‹_›] at h'
    omega

/-- Preceding is transitive, through equal buckets and equal items as well. -/
theorem Entry.Precedes.trans (h : x.Precedes compare sorted y)
    (h' : y.Precedes compare sorted z) : x.Precedes compare sorted z := by
  unfold Precedes at h h' ⊢
  split
  · rw [if_pos ‹_›] at h h'
    rcases h with hlt | ⟨heq, hnumber⟩
    · rcases h' with hlt' | ⟨heq', -⟩
      · exact Or.inl (Std.TransCmp.lt_trans hlt hlt')
      · exact Or.inl (Std.TransCmp.lt_of_lt_of_eq hlt heq')
    · rcases h' with hlt' | ⟨heq', hnumber'⟩
      · exact Or.inl (Std.TransCmp.lt_of_eq_of_lt heq hlt')
      · exact Or.inr ⟨Std.TransCmp.eq_trans heq heq', Nat.lt_trans hnumber hnumber'⟩
  · rw [if_neg ‹_›] at h h'
    exact Nat.lt_trans h' h

/-- Two entries never go before each other in the order a push sees. -/
theorem Entry.GoesBefore.asymm (h : x.GoesBefore compare sorted y) :
    ¬ y.GoesBefore compare sorted x := by
  intro h'
  rcases h with hlt | ⟨heq, hfirst⟩
  · rcases h' with hlt' | ⟨heq', -⟩ <;> omega
  · rcases h' with hlt' | ⟨-, hfirst'⟩
    · omega
    · exact hfirst.asymm hfirst'

/-- No more than one item goes before all others. -/
theorem IsNext.unique {list : PriorityList α} {before after before' after' : List (Entry α)}
    {next next' : Entry α} (h : list.IsNext compare before next after)
    (h' : list.IsNext compare before' next' after') :
    before = before' ∧ next = next' ∧ after = after' := by
  obtain ⟨hheld, hfirst⟩ := h
  obtain ⟨hheld', hfirst'⟩ := h'
  -- of two items at different places each would go before the other
  have hplace : ∀ {before after before' after' : List (Entry α)} {next next' : Entry α},
      before ++ next :: after = before' ++ next' :: after' → before.length < before'.length →
      next ∈ before' ++ after' ∧ next' ∈ before ++ after := by
    intro before after before' after' next next' heq hlt
    rcases List.append_eq_append_iff.1 heq with ⟨middle, hbefore', hrest⟩ | ⟨middle, hbefore, -⟩
    · cases middle with
      | nil =>
        rw [hbefore', List.append_nil] at hlt
        exact absurd hlt (Nat.lt_irrefl _)
      | cons first middle =>
        rw [List.cons_append, List.cons.injEq] at hrest
        obtain ⟨rfl, hafter⟩ := hrest
        rw [hbefore', hafter]
        simp
    · rw [hbefore, List.length_append] at hlt
      omega
  have heq : before ++ next :: after = before' ++ next' :: after' := by rw [← hheld, ← hheld']
  rcases Nat.lt_trichotomy before.length before'.length with hlt | hlen | hlt
  · obtain ⟨hmem, hmem'⟩ := hplace heq hlt
    exact absurd (hfirst' next hmem) (hfirst next' hmem').asymm
  · obtain ⟨hbefore, hrest⟩ := List.append_inj heq hlen
    rw [List.cons.injEq] at hrest
    exact ⟨hbefore, hrest⟩
  · obtain ⟨hmem', hmem⟩ := hplace heq.symm hlt
    exact absurd (hfirst' next hmem) (hfirst next' hmem').asymm

/-- The list's answer to a call is determined, and so is the list it leaves. -/
theorem Step.unique {list after after' : PriorityList α} {call : BucketQueue.Call α}
    {found found' : Option (Entry α)} (h : Step compare list call found after)
    (h' : Step compare list call found' after') : found = found' ∧ after = after' := by
  cases h with
  | push key item => cases h'; exact ⟨rfl, rfl⟩
  | popNone hnone =>
    cases h' with
    | popNone => exact ⟨rfl, rfl⟩
    | pop hnext => exact absurd hnone hnext.held_ne_nil
  | pop hnext =>
    cases h' with
    | popNone hnone => exact absurd hnone hnext.held_ne_nil
    | pop hnext' =>
      obtain ⟨rfl, rfl, rfl⟩ := hnext.unique hnext'
      exact ⟨rfl, rfl⟩
  | peekNone hnone =>
    cases h' with
    | peekNone => exact ⟨rfl, rfl⟩
    | peek hnext => exact absurd hnone hnext.held_ne_nil
  | peek hnext =>
    cases h' with
    | peekNone hnone => exact absurd hnone hnext.held_ne_nil
    | peek hnext' =>
      obtain ⟨rfl, rfl, rfl⟩ := hnext.unique hnext'
      exact ⟨rfl, rfl⟩
  | reset maxBucket sorted => cases h'; exact ⟨rfl, rfl⟩
  | clear => cases h'; exact ⟨rfl, rfl⟩

/-- Calls leave no choice. -/
theorem Run.unique {list last last' : PriorityList α} {calls : List (BucketQueue.Call α)}
    {readings readings' : List (BucketQueue.Reading α)}
    (h : Run compare list calls readings last) (h' : Run compare list calls readings' last') :
    readings = readings' ∧ last = last' := by
  induction h generalizing readings' with
  | done list => cases h'; exact ⟨rfl, rfl⟩
  | step hstep hrest ih =>
    cases h' with
    | step hstep' hrest' =>
      obtain ⟨rfl, rfl⟩ := hstep.unique hstep'
      obtain ⟨rfl, hlast⟩ := ih hrest'
      exact ⟨rfl, hlast⟩

end Order

end PriorityList

end JourneyPlanner
