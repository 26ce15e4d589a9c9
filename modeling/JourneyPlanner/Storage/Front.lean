/-!
# Pareto fronts

A front is a list of items none of which is beaten by another. `Front.insert` keeps it so: an item that
is beaten, or that is the same as one already there, is turned away; any other drives out the items that
it beats and goes to the end.
-/

namespace JourneyPlanner.Front

variable {α : Type}

/-- Whether an element of the front turns the item away. -/
def rejects (beats same : α → α → Bool) (front : List α) (item : α) : Bool :=
  front.any fun e => beats e item || same e item

/-- The front after an item has come up, and whether it was taken in. -/
def insert (beats same : α → α → Bool) (front : List α) (item : α) : Bool × List α :=
  if rejects beats same front item then (false, front)
  else (true, (front.filter fun e => !beats item e) ++ [item])

/-- The front after several items have come up one by one. -/
def insertAll (beats same : α → α → Bool) (front items : List α) : List α :=
  items.foldl (fun front item => (insert beats same front item).2) front

theorem insert_of_rejects {beats same : α → α → Bool} {front : List α} {item : α}
    (h : rejects beats same front item = true) :
    insert beats same front item = (false, front) := by
  simp [insert, h]

theorem insert_of_not_rejects {beats same : α → α → Bool} {front : List α} {item : α}
    (h : rejects beats same front item = false) :
    insert beats same front item = (true, (front.filter fun e => !beats item e) ++ [item]) := by
  simp [insert, h]

end JourneyPlanner.Front
