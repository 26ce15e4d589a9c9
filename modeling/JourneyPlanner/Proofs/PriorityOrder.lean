import JourneyPlanner.Proofs.Storage.Halving
import JourneyPlanner.Proofs.Storage.PriorityList
import JourneyPlanner.Proofs.Storage.Ranked

/-!
# A queue of buckets is a priority list

The main result of this file, `queue_refines`, is about every sequence of calls to a queue of
buckets, for any greatest key and any comparison that is a total preorder:

> what the queue tells after each call is what a priority list that is asked the same has to tell,
> and every item that was pushed is held, has been popped or has been dropped, and only one of them.

Behind it is a relation between the two, `Represents`: each bucket has the items that are held under
its key, in the order in which they go (`Files`). Buckets below the cursor are empty, so that the
first bucket with an item is that of the least key there is; and where items are to be sorted each
bucket ascends, so that the place of an item can be found by halving (`PlacesByHalving`).
-/

namespace JourneyPlanner

variable {α : Type} {queue : BucketQueue α}

namespace BucketQueue

theorem Sound.advance (h : queue.Sound) : queue.advance.Sound := by
  obtain ⟨hbelow, hcursor, -⟩ := firstFilled_spec queue.buckets queue.cursor h.below
  refine ⟨h.count_eq, hbelow, ?_, h.size_le⟩
  have hcursor_le := h.cursor_le
  have hsize_le := h.size_le
  show firstFilled queue.buckets queue.cursor ≤ queue.maxBucket
  omega

/-- A queue that holds an item has one in the bucket at which its cursor comes to stand. -/
theorem Sound.exists_head_advance (h : queue.Sound) (hsome : ¬ queue.isEmpty = true) :
    ∃ item rest, queue.buckets[queue.advance.cursor]? = some (item :: rest) := by
  obtain ⟨-, -, hfilled⟩ := firstFilled_spec queue.buckets queue.cursor h.below
  have hhead : queue.buckets[queue.advance.cursor]?.getD [] ≠ [] := by
    intro hnil
    exact hsome ((isEmpty_iff h).2 (hfilled hnil))
  cases hget : queue.buckets[queue.advance.cursor]? with
  | none =>
    rw [hget] at hhead
    exact absurd rfl hhead
  | some bucket =>
    cases bucket with
    | nil =>
      rw [hget] at hhead
      exact absurd rfl hhead
    | cons item rest => exact ⟨item, rest, rfl⟩

/-- Where items are to be sorted, a push puts an item where halving finds its place in the bucket
read backwards, and leaves the other buckets as they are. -/
def PlacesByHalving (compare : α → α → Ordering) (queue : BucketQueue α) : Prop :=
  queue.sorted = true → ∀ (key : Nat) (item : α) (i : Nat),
    ((queue.push compare key item).buckets[i]?.getD []).reverse =
      if queue.bucketOf key = i then insertHalving compare item (queue.buckets[i]?.getD []).reverse
      else (queue.buckets[i]?.getD []).reverse

end BucketQueue

namespace PriorityList

variable {compare : α → α → Ordering} {list : PriorityList α} {bucket rest : List α}
  {filed : List (Entry α)} {item : α}

/-- All that is held under a key, in the order in which it goes, and the bucket that has it. -/
structure Files (compare : α → α → Ordering) (list : PriorityList α) (key : Nat) (bucket : List α)
    (filed : List (Entry α)) : Prop where
  items : filed.map Entry.item = bucket
  held : filed.Perm (list.held.filter fun entry => entry.key = key)
  inOrder : filed.Pairwise (Entry.Precedes compare list.sorted)

/-- A queue has in its buckets what a list holds. -/
structure Represents (compare : α → α → Ordering) (queue : BucketQueue α)
    (list : PriorityList α) : Prop where
  sound : queue.Sound
  cursor_eq : queue.cursor = list.cursor
  maxBucket_eq : queue.maxBucket = list.maxBucket
  sorted_eq : queue.sorted = list.sorted
  size_eq : queue.size = list.held.length
  number_lt : ∀ entry ∈ list.held, entry.number < list.pushed
  files : ∀ key : Nat, ∃ filed, Files compare list key (queue.buckets[key]?.getD []) filed

theorem Files.mem_iff {key : Nat} (h : Files compare list key bucket filed) {entry : Entry α} :
    entry ∈ filed ↔ entry ∈ list.held ∧ entry.key = key := by
  rw [h.held.mem_iff, List.mem_filter, decide_eq_true_iff]

theorem new_represents (maxBucket : Nat) (sorted : Bool) :
    Represents compare (.new maxBucket sorted) (.new maxBucket sorted) := by
  refine ⟨BucketQueue.new_sound maxBucket sorted, rfl, rfl, rfl, rfl, ?_, ?_⟩
  · intro entry hentry
    cases hentry
  · intro key
    exact ⟨[], by simp [BucketQueue.new], List.Perm.refl _, List.Pairwise.nil⟩

/-! ## Push -/

/-- Entries are put where their items are. -/
theorem map_insertSorted (entry : Entry α) (filed : List (Entry α)) :
    (BucketQueue.insertSorted (fun x y => compare x.item y.item) entry filed).map Entry.item =
      BucketQueue.insertSorted compare entry.item (filed.map Entry.item) := by
  induction filed with
  | nil => rfl
  | cons first filed ih =>
    rw [List.map_cons, BucketQueue.insertSorted, BucketQueue.insertSorted]
    split
    · rfl
    · rw [List.map_cons, ih]

/-- An item that comes last goes behind those that are not greater. -/
theorem pairwise_insertSorted_of_last [Std.TransCmp compare] {entry : Entry α}
    (hfiled : filed.Pairwise (Entry.Precedes compare true))
    (hlast : ∀ x ∈ filed, x.number < entry.number) :
    (BucketQueue.insertSorted (fun x y => compare x.item y.item) entry filed).Pairwise
      (Entry.Precedes compare true) := by
  refine BucketQueue.pairwise_insertSorted Entry.Precedes.trans hfiled ?_ ?_
  · intro x hx hgt
    exact Or.inl (Std.OrientedCmp.lt_of_gt hgt)
  · intro x hx hle
    show compare x.item entry.item = .lt ∨ _
    cases hcompare : compare x.item entry.item with
    | lt => exact Or.inl rfl
    | eq => exact Or.inr ⟨rfl, hlast x hx⟩
    | gt => exact absurd hcompare hle

/-- A bucket that gains an item in its place. -/
theorem Files.push [Std.TransCmp compare] {key : Nat}
    (h : Files compare list (list.keyFor key) bucket filed)
    (hnumber : ∀ entry ∈ list.held, entry.number < list.pushed) (item : α) :
    ∃ filed', Files compare (list.push key item) (list.keyFor key)
      (if list.sorted = true then BucketQueue.insertSorted compare item bucket
        else item :: bucket) filed' := by
  have hlast : ∀ x ∈ filed, x.number < list.pushed := fun x hx => hnumber x (h.mem_iff.1 hx).1
  have hheld : (⟨list.pushed, list.keyFor key, item⟩ :: filed : List (Entry α)).Perm
      ((list.push key item).held.filter fun entry => entry.key = list.keyFor key) := by
    show List.Perm _ ((list.held ++ [_]).filter _)
    rw [List.filter_append, List.filter_cons, if_pos (decide_eq_true rfl), List.filter_nil]
    exact (h.held.cons _).trans (List.perm_append_singleton _ _).symm
  have hinOrder := h.inOrder
  by_cases hsorted : list.sorted = true
  · rw [if_pos hsorted]
    rw [hsorted] at hinOrder
    refine ⟨BucketQueue.insertSorted (fun x y => compare x.item y.item)
      ⟨list.pushed, list.keyFor key, item⟩ filed, ?_, ?_, ?_⟩
    · rw [map_insertSorted, h.items]
    · exact (BucketQueue.insertSorted_perm _ _ _).trans hheld
    · show List.Pairwise (Entry.Precedes compare list.sorted) _
      rw [hsorted]
      exact pairwise_insertSorted_of_last hinOrder hlast
  · rw [if_neg hsorted]
    refine ⟨⟨list.pushed, list.keyFor key, item⟩ :: filed, ?_, hheld, ?_⟩
    · rw [List.map_cons, h.items]
    · refine List.pairwise_cons.2 ⟨fun x hx => ?_, hinOrder⟩
      show Entry.Precedes compare list.sorted _ x
      unfold Entry.Precedes
      rw [if_neg hsorted]
      exact hlast x hx

/-- A push leaves the other buckets as they are. -/
theorem Files.push_other {key i : Nat} (h : Files compare list i bucket filed)
    (hne : list.keyFor key ≠ i) (item : α) :
    Files compare (list.push key item) i bucket filed := by
  refine ⟨h.items, ?_, h.inOrder⟩
  show filed.Perm ((list.held ++ [_]).filter _)
  rw [List.filter_append, List.filter_cons, decide_eq_false hne]
  simpa using h.held

theorem Represents.push [Std.TransCmp compare] (h : Represents compare queue list) (key : Nat)
    (item : α) : Represents compare (queue.push compare key item) (list.push key item) := by
  have hkey : queue.bucketOf key = list.keyFor key := by
    unfold BucketQueue.bucketOf keyFor
    rw [h.cursor_eq, h.maxBucket_eq]
  refine ⟨h.sound.push, h.cursor_eq, h.maxBucket_eq, h.sorted_eq, ?_, ?_, ?_⟩
  · show queue.size + 1 = (list.held ++ [_]).length
    rw [List.length_append, h.size_eq]
    rfl
  · intro entry hentry
    show entry.number < list.pushed + 1
    rcases List.mem_append.1 hentry with hentry | hentry
    · exact Nat.lt_succ_of_lt (h.number_lt entry hentry)
    · rw [List.mem_singleton.1 hentry]
      exact Nat.lt_succ_self list.pushed
  · intro i
    obtain ⟨filed, hfiles⟩ := h.files i
    rw [BucketQueue.getElem?_push, hkey, h.sorted_eq]
    by_cases hi : list.keyFor key = i
    · subst hi
      rw [if_pos rfl]
      exact hfiles.push h.number_lt item
    · rw [if_neg hi]
      exact ⟨filed, hfiles.push_other hi item⟩

/-! ## Pop and peek -/

theorem isEmpty_eq (hsize : queue.size = list.held.length) :
    queue.isEmpty = list.held.isEmpty := by
  show (queue.size == 0) = list.held.isEmpty
  rw [hsize]
  cases list.held <;> rfl

/-- What is left when an item goes was held. -/
theorem mem_held {before after : List (Entry α)} {next other : Entry α}
    (hheld : list.held = before ++ next :: after) (hother : other ∈ before ++ after) :
    other ∈ list.held := by
  rw [hheld]
  exact List.perm_middle.mem_iff.2 (List.mem_cons_of_mem next hother)

/-- The head of the first bucket that has an item goes before all others. -/
theorem Represents.isNext {cursor : Nat} (h : Represents compare queue list)
    (hget : queue.buckets[cursor]?.getD [] = item :: rest)
    (hbelow : ∀ i < cursor, queue.buckets[i]?.getD [] = []) :
    ∃ before next after filed, list.IsNext compare before next after ∧ next.key = cursor ∧
      next.item = item ∧ Files compare (list.without before next after) cursor rest filed := by
  obtain ⟨filed, hfiles⟩ := h.files cursor
  rw [hget] at hfiles
  cases filed with
  | nil => cases hfiles.items
  | cons next filed =>
    obtain ⟨hitem, hrest⟩ := List.cons.inj hfiles.items
    obtain ⟨hfirst, hinOrder⟩ := List.pairwise_cons.1 hfiles.inOrder
    obtain ⟨hnext, hkey⟩ := hfiles.mem_iff.1 List.mem_cons_self
    obtain ⟨before, after, hheld⟩ := List.append_of_mem hnext
    have hfiled : filed.Perm ((before ++ after).filter fun entry => entry.key = cursor) := by
      have hperm := hfiles.held
      rw [hheld] at hperm
      have hmoved := hperm.trans (List.perm_middle.filter _)
      rw [List.filter_cons, if_pos (decide_eq_true hkey)] at hmoved
      exact hmoved.cons_inv
    refine ⟨before, next, after, filed, ⟨hheld, ?_⟩, hkey, hitem, hrest, hfiled, hinOrder⟩
    intro other hother
    have hmem := mem_held hheld hother
    -- whatever is held is in the bucket of its key, and there is none below the cursor
    obtain ⟨others, hothers⟩ := h.files other.key
    rcases Nat.lt_trichotomy other.key cursor with hlt | heq | hgt
    · have hin := hothers.mem_iff.2 ⟨hmem, rfl⟩
      have hnil := hothers.items
      rw [hbelow _ hlt, List.map_eq_nil_iff] at hnil
      rw [hnil] at hin
      cases hin
    · refine Or.inr ⟨hkey.trans heq.symm, hfirst other ?_⟩
      rw [hfiled.mem_iff, List.mem_filter, decide_eq_true_iff]
      exact ⟨hother, heq⟩
    · left
      omega

/-- What goes leaves the other buckets as they are. -/
theorem Files.without_other {i : Nat} {before after : List (Entry α)} {next : Entry α}
    (h : Files compare list i bucket filed) (hheld : list.held = before ++ next :: after)
    (hne : next.key ≠ i) : Files compare (list.without before next after) i bucket filed := by
  refine ⟨h.items, ?_, h.inOrder⟩
  have hperm := h.held
  rw [hheld, List.filter_append, List.filter_cons, decide_eq_false hne] at hperm
  show filed.Perm ((before ++ after).filter _)
  rw [List.filter_append]
  exact hperm

/-- A pop finds the item that goes before all others, if there is one. -/
theorem Represents.pop (h : Represents compare queue list) :
    ∃ found after, Step compare list .pop found after ∧ Represents compare queue.pop.2 after ∧
      found.map Entry.item = queue.pop.1 := by
  rcases BucketQueue.pop_spec h.sound with ⟨hnone, hitems, hsame⟩ | ⟨item, hitem, hitems, hsound⟩
  · refine ⟨none, list, .popNone ?_, ?_, hnone.symm⟩
    · rw [← List.isEmpty_iff, ← isEmpty_eq h.size_eq]
      exact (BucketQueue.isEmpty_iff h.sound).2 hitems
    · rw [hsame]
      exact h
  · have hpop : queue.pop = (some item, queue.pop.2) := Prod.ext hitem rfl
    obtain ⟨-, -, hcursor, hbuckets, hmax, hsorted⟩ := BucketQueue.pop_eq hpop
    have hget := BucketQueue.getElem?_of_pop hpop queue.pop.2.cursor
    rw [if_pos rfl] at hget
    obtain ⟨before, next, after, filed, hnext, hkey, hnextItem, hfiles⟩ :=
      h.isNext hget fun i => BucketQueue.getElem?_of_lt_cursor h.sound hpop
    refine ⟨some next, _, .pop hnext, ?_, ?_⟩
    · refine ⟨hsound, hkey.symm, hmax.trans h.maxBucket_eq, hsorted.trans h.sorted_eq, ?_, ?_, ?_⟩
      · have hcount : queue.count = list.held.length := h.size_eq
        have hlength := hitems.length_eq
        rw [List.length_cons, ← h.sound.count_eq, ← hsound.count_eq, hcount, hnext.1,
          List.perm_middle.length_eq] at hlength
        exact (Nat.succ.inj hlength).symm
      · intro entry hentry
        exact h.number_lt entry (mem_held hnext.1 hentry)
      · intro i
        by_cases hi : queue.pop.2.cursor = i
        · subst hi
          exact ⟨filed, hfiles⟩
        · obtain ⟨filed', hfiles'⟩ := h.files i
          have hget' := BucketQueue.getElem?_of_pop hpop i
          rw [if_neg hi] at hget'
          rw [hget'] at hfiles'
          exact ⟨filed', hfiles'.without_other hnext.1 (by rw [hkey]; exact hi)⟩
    · rw [hitem, Option.map_some, hnextItem]

/-- A peek finds the item that goes before all others, if there is one. -/
theorem Represents.peek (h : Represents compare queue list) :
    ∃ found after, Step compare list .peek found after ∧ Represents compare queue.peek.2 after ∧
      found.map Entry.item = queue.peek.1 := by
  by_cases hempty : queue.isEmpty = true
  · have hpeek : queue.peek = (none, queue) := if_pos hempty
    rw [hpeek]
    refine ⟨none, list, .peekNone ?_, h, rfl⟩
    rw [← List.isEmpty_iff, ← isEmpty_eq h.size_eq]
    exact hempty
  · have hpeek : queue.peek =
        (queue.advance.buckets[queue.advance.cursor]?.bind List.head?, queue.advance) :=
      if_neg hempty
    have hsound := h.sound.advance
    obtain ⟨item, rest, hget⟩ := h.sound.exists_head_advance hempty
    have hhead : queue.buckets[queue.advance.cursor]?.getD [] = item :: rest := by
      rw [hget]
      rfl
    obtain ⟨before, next, after, filed, hnext, hkey, hitem, -⟩ := h.isNext hhead hsound.below
    rw [hpeek]
    refine ⟨some next, _, .peek hnext, ?_, ?_⟩
    · exact ⟨hsound, hkey.symm, h.maxBucket_eq, h.sorted_eq, h.size_eq, h.number_lt,
        fun i => (h.files i).imp fun filed hfiles => ⟨hfiles.items, hfiles.held, hfiles.inOrder⟩⟩
    · show some next.item = queue.buckets[queue.advance.cursor]?.bind List.head?
      rw [hget, hitem]
      rfl

/-! ## Calls -/

/-- A queue that is begun again. -/
theorem reset_represents (queue : BucketQueue α) (list : PriorityList α) (maxBucket : Nat)
    (sorted : Bool) :
    Represents compare (queue.reset maxBucket sorted) (list.reset maxBucket sorted) := by
  have hnew : Represents compare (queue.reset maxBucket sorted) (.new maxBucket sorted) :=
    new_represents maxBucket sorted
  refine ⟨hnew.sound, rfl, rfl, rfl, rfl, ?_, ?_⟩
  · intro entry hentry
    cases hentry
  · intro key
    obtain ⟨filed, hfiles⟩ := hnew.files key
    exact ⟨filed, hfiles.items, hfiles.held, hfiles.inOrder⟩

/-- A queue does at each call what a list may do. -/
theorem Represents.step [Std.TransCmp compare] (h : Represents compare queue list)
    (call : BucketQueue.Call α) : ∃ found after, Step compare list call found after ∧
      Represents compare (queue.call compare call).2 after ∧
      found.map Entry.item = (queue.call compare call).1 := by
  cases call with
  | push key item => exact ⟨none, _, .push key item, h.push key item, rfl⟩
  | pop => exact h.pop
  | peek => exact h.peek
  | reset maxBucket sorted =>
    exact ⟨none, _, .reset maxBucket sorted, reset_represents queue list maxBucket sorted, rfl⟩
  | clear =>
    refine ⟨none, _, .clear, ?_, rfl⟩
    show Represents compare (queue.reset queue.maxBucket queue.sorted) _
    rw [h.maxBucket_eq, h.sorted_eq]
    exact reset_represents queue list list.maxBucket list.sorted

/-- After any calls a queue has told what a list may tell. -/
theorem Represents.run [Std.TransCmp compare] (h : Represents compare queue list)
    (calls : List (BucketQueue.Call α)) :
    ∃ last, Run compare list calls (queue.readings compare calls) last ∧
      Represents compare (queue.afterCalls compare calls) last := by
  induction calls generalizing queue list with
  | nil => exact ⟨list, .done list, h⟩
  | cons call calls ih =>
    obtain ⟨found, after, hstep, hafter, hfound⟩ := h.step call
    obtain ⟨last, hrest, hlast⟩ := ih hafter
    have hrun := Run.step hstep hrest
    rw [hfound, ← hafter.size_eq, ← isEmpty_eq hafter.size_eq] at hrun
    exact ⟨last, hrun, hlast⟩

/-- The buckets of a queue ascend, so that halving finds a place in them. -/
theorem Represents.placesByHalving [Std.TransCmp compare] (h : Represents compare queue list) :
    queue.PlacesByHalving compare := by
  intro hsorted key item i
  obtain ⟨filed, hfiles⟩ := h.files i
  have hinOrder := hfiles.inOrder
  rw [← h.sorted_eq, hsorted] at hinOrder
  have hascends : (queue.buckets[i]?.getD []).Pairwise fun x y => compare x y ≠ .gt := by
    rw [← hfiles.items, List.pairwise_map]
    refine hinOrder.imp fun hprecedes hgt => ?_
    rcases hprecedes with hlt | ⟨heq, -⟩
    · rw [hgt] at hlt
      cases hlt
    · rw [hgt] at heq
      cases heq
  rw [BucketQueue.getElem?_push, if_pos hsorted]
  split
  · exact BucketQueue.reverse_insertSorted hascends
  · rfl

end PriorityList

open PriorityList

/-- Whatever a queue of buckets is asked to do, it tells after each call what a priority list has
to tell that is asked the same: the item it finds, if any, how many it holds and whether it holds
none. Of all items that have been pushed each is held, has been popped or has been dropped, and
none of them twice. Where items are to be sorted, halving finds the places of further ones. -/
theorem queue_refines {α : Type} {compare : α → α → Ordering} [Std.TransCmp compare]
    (maxBucket : Nat) (sorted : Bool) (calls : List (BucketQueue.Call α)) :
    ∃ list : PriorityList α,
      Run compare (.new maxBucket sorted) calls
        ((BucketQueue.new maxBucket sorted).readings compare calls) list ∧
      list.Accounted ∧
      (∀ readings list', Run compare (.new maxBucket sorted) calls readings list' →
        readings = (BucketQueue.new maxBucket sorted).readings compare calls ∧ list' = list) ∧
      ((BucketQueue.new maxBucket sorted).afterCalls compare calls).PlacesByHalving compare := by
  have hnew : Represents compare (.new maxBucket sorted) (.new maxBucket sorted) :=
    new_represents maxBucket sorted
  obtain ⟨list, hrun, hlast⟩ := hnew.run calls
  refine ⟨list, hrun, hrun.accounted (new_accounted maxBucket sorted), ?_, hlast.placesByHalving⟩
  intro readings list' hrun'
  exact hrun'.unique hrun

/-- A queue of pairs that are ordered by their first numbers. The last pop before the reset finds a
pair that was pushed under a key past the greatest, the one before it finds the later of two equal
ones, and after the reset the last of all goes first. -/
theorem queue_refines_pairs : ∃ list : PriorityList (Nat × Nat),
    Run (compareOn Prod.fst) (.new 3 true)
      [.push 2 (5, 0), .push 2 (4, 1), .push 2 (5, 2), .pop, .push 0 (1, 3), .push 9 (0, 4), .peek,
        .pop, .pop, .pop, .pop, .pop, .push 0 (7, 5), .reset 1 false, .push 1 (6, 6),
        .push 1 (6, 7), .pop]
      [⟨none, 1, false⟩, ⟨none, 2, false⟩, ⟨none, 3, false⟩, ⟨some (4, 1), 2, false⟩,
        ⟨none, 3, false⟩, ⟨none, 4, false⟩, ⟨some (1, 3), 4, false⟩, ⟨some (1, 3), 3, false⟩,
        ⟨some (5, 0), 2, false⟩, ⟨some (5, 2), 1, false⟩, ⟨some (0, 4), 0, true⟩,
        ⟨none, 0, true⟩, ⟨none, 1, false⟩, ⟨none, 0, true⟩, ⟨none, 1, false⟩, ⟨none, 2, false⟩,
        ⟨some (6, 7), 1, false⟩] list ∧
    list.Accounted := by
  obtain ⟨list, hrun, haccounted, -⟩ := @queue_refines (Nat × Nat) (compareOn Prod.fst) _ 3 true
    [.push 2 (5, 0), .push 2 (4, 1), .push 2 (5, 2), .pop, .push 0 (1, 3), .push 9 (0, 4), .peek,
      .pop, .pop, .pop, .pop, .pop, .push 0 (7, 5), .reset 1 false, .push 1 (6, 6),
      .push 1 (6, 7), .pop]
  refine ⟨list, ?_, haccounted⟩
  convert hrun using 1
  decide +kernel

end JourneyPlanner
