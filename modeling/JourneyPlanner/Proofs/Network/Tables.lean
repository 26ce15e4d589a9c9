import JourneyPlanner.Proofs.Network.InPlace

/-!
# What calls leave behind

A later call does not touch the edges that are there (`Assembly.Reached.grows`), nor the names of
categories and tracks and the descriptions of trips. These go into one `Table` each, which lists in
order what the calls were given that add to it (`Table.entries_calls`).

Such a call is never refused. Its answer is the position of the new entry, cut down to the width
of the table's identifiers, of which there are `Table.room` (`Assembly.Indexed.answer?_of_added`).
-/

namespace JourneyPlanner

/-- The tables whose entries have identifiers. -/
inductive Table where
  | categories
  | tracks
  | infos

namespace Table

/-- What a table lists. -/
abbrev Entry : Table → Type
  | categories => String
  | tracks => String
  | infos => TripInfo

/-- How many identifiers there are for the entries of a table. -/
def room : Table → Nat
  | categories => 65536
  | tracks => 65536
  | infos => 4294967296

/-- What a call adds to a table. -/
def added? : (table : Table) → Call → Option table.Entry
  | categories, .category name => some name
  | tracks, .track name => some name
  | infos, .info description => some description
  | _, _ => none

/-- What a table lists so far. -/
def entries : (table : Table) → Builder → List table.Entry
  | categories, b => b.categories.toList
  | tracks, b => b.tracks.toList
  | infos, b => b.infos.toList

/-- How much a table lists in a finished timetable. -/
def size : Table → Timetable → Nat
  | categories, tt => tt.categories.size
  | tracks, tt => tt.tracks.size
  | infos, tt => tt.infos.size

/-- What a finished timetable reads under an identifier. -/
def read : (table : Table) → Timetable → Nat → table.Entry
  | categories, tt => tt.categoryName
  | tracks, tt => tt.trackName
  | infos, tt => tt.info

variable {table : Table} {b : Builder} {c : Call} {x : table.Entry}

theorem room_pos (table : Table) : 0 < table.room := by
  cases table <;> decide

theorem entries_new (table : Table) (period : Period) :
    table.entries (Assembly.new period).toBuilder = [] := by
  cases table <;> rfl

theorem size_build (table : Table) (b : Builder) :
    table.size b.build = (table.entries b).length := by
  cases table <;> rfl

theorem read_build {id : Nat} (h : (table.entries b)[id]? = some x) :
    table.read b.build id = x := by
  have hread : ∀ {α : Type} {names : Array α} {d y : α}, names.toList[id]? = some y →
      names[id]?.getD d = y := by
    intro α names d y hy
    rw [← Array.getElem?_toList, hy, Option.getD_some]
  cases table with
  | categories | tracks | infos => exact hread h

/-! ## One call -/

/-- A call that adds to a table is not refused, and answers with an identifier. -/
theorem op_of_added (h : table.added? c = some x) (b : Builder) :
    ∃ b', c.op b = .ok (some ((table.entries b).length % table.room), b') := by
  unfold added? at h
  split at h
  · exact ⟨_, rfl⟩
  · exact ⟨_, rfl⟩
  · exact ⟨_, rfl⟩
  · cases h

end Table

/-- What there is after a call: the edges from before it, and in each table the entries from before
it and the one that it adds there, if any. -/
structure Call.Leaves (c : Call) (b b' : Builder) : Prop where
  grows : b.Grows b'
  entries : ∀ table : Table, table.entries b' = table.entries b ++ (table.added? c).toList

theorem Call.leaves_of_op {c : Call} {b b' : Builder} {answer : Option Nat}
    (h : c.op b = .ok (answer, b')) : c.Leaves b b' := by
  have hsame : ∀ {α : Type} {xs : Array α}, xs = xs ++ #[] := Array.append_empty.symm
  have hnone : ∀ {α : Type} {l : List α}, l = l ++ [] := (List.append_nil _).symm
  cases c with
  | category name =>
    cases h
    refine ⟨.of_append hsame hsame, fun table => ?_⟩
    cases table with
    | categories => exact Array.toList_push
    | tracks | infos => exact hnone
  | track name =>
    cases h
    refine ⟨.of_append hsame hsame, fun table => ?_⟩
    cases table with
    | tracks => exact Array.toList_push
    | categories | infos => exact hnone
  | info description =>
    cases h
    refine ⟨.of_append hsame hsame, fun table => ?_⟩
    cases table with
    | infos => exact Array.toList_push
    | categories | tracks => exact hnone
  | interchange place rule =>
    cases h
    exact ⟨.of_append hsame hsame, fun table => by cases table <;> exact hnone⟩
  | station key name transferTime =>
    obtain ⟨⟨index, b₁⟩, hx, heq⟩ := Fallible.map_eq_ok.1 h
    cases heq
    obtain ⟨sid, -, -, -, rfl⟩ := Builder.addStation_eq_ok hx
    exact ⟨.of_append Array.push_eq_append hsame, fun table => by cases table <;> exact hnone⟩
  | route stops trips =>
    obtain ⟨⟨route, b₁⟩, hx, heq⟩ := Fallible.map_eq_ok.1 h
    cases heq
    obtain ⟨-, -, legs, -, -, hpush⟩ := Builder.addRoute_eq_ok hx
    cases hpush
    exact ⟨Builder.grows_pushRoute _, fun table => by cases table <;> exact hnone⟩
  | through source target trips =>
    obtain ⟨⟨id, b₁⟩, hx, heq⟩ := Fallible.map_eq_ok.1 h
    cases heq
    obtain ⟨first, second, tail, head, -, -, -, rfl⟩ := Builder.addThrough_eq_ok hx
    exact ⟨.of_append hsame Array.push_eq_append, fun table => by cases table <;> exact hnone⟩
  | footpath source target duration =>
    obtain ⟨⟨id, b₁⟩, hx, heq⟩ := Fallible.map_eq_ok.1 h
    cases heq
    obtain ⟨-, -, rfl⟩ := Builder.addFootpath_eq_ok hx
    exact ⟨.of_append hsame Array.push_eq_append, fun table => by cases table <;> exact hnone⟩

/-! ## Any calls -/

section Calls

variable {table : Table} {period : Period} {a : Assembly}

/-- A call that adds to a table answers with the identifier of its place. -/
theorem Assembly.Indexed.answer?_of_added {c : Call} {x : table.Entry} (h : a.Indexed)
    (hc : table.added? c = some x) :
    a.answer? c = some ((table.entries a.toBuilder).length % table.room) := by
  obtain ⟨b', hop⟩ := Table.op_of_added hc a.toBuilder
  rcases h.call_cases c with ⟨⟨fault, hfault⟩, -, -⟩ | ⟨hok, -⟩
  · rw [hop] at hfault
    cases hfault
  · rw [hop] at hok
    exact (Prod.mk.inj (Except.ok.inj hok)).1.symm

/-- Only what a call adds to a table comes to be there. -/
theorem Assembly.Indexed.entries_call (h : a.Indexed) (table : Table) (c : Call) :
    table.entries (a.call c).toBuilder =
      table.entries a.toBuilder ++ (table.added? c).toList := by
  rcases h.call_cases c with ⟨⟨fault, hfault⟩, -, hsame⟩ | ⟨hok, -⟩
  · cases hc : table.added? c with
    | none => rw [hsame, Option.toList_none, List.append_nil]
    | some x =>
      obtain ⟨b', hop⟩ := Table.op_of_added hc a.toBuilder
      rw [hop] at hfault
      cases hfault
  · exact (Call.leaves_of_op hok).entries table

/-- A table lists what it was given, in the order of the calls. -/
theorem Table.entries_calls (table : Table) (h : Assembly.Reached period a) (cs : List Call) :
    table.entries (a.calls cs).toBuilder =
      table.entries a.toBuilder ++ cs.filterMap table.added? := by
  induction cs generalizing a with
  | nil => exact (List.append_nil _).symm
  | cons c cs ih =>
    show table.entries ((a.call c).calls cs).toBuilder = _
    rw [ih (h.call c), h.indexed.entries_call, List.append_assoc]
    cases hc : table.added? c with
    | none => rw [List.filterMap_cons_none hc, Option.toList_none, List.nil_append]
    | some x => rw [List.filterMap_cons_some hc, Option.toList_some, List.singleton_append]

/-- Whatever edge there is stays where it is. -/
theorem Assembly.Reached.grows (h : Reached period a) (cs : List Call) :
    a.toBuilder.Grows (a.calls cs).toBuilder := by
  induction cs generalizing a with
  | nil => exact ⟨fun id node hid => hid, fun id edge hid => hid⟩
  | cons c cs ih =>
    have hlater := ih (h.call c)
    rcases h.indexed.call_cases c with ⟨-, -, hsame⟩ | ⟨hok, -⟩
    · rw [hsame] at hlater
      show a.toBuilder.Grows ((a.call c).calls cs).toBuilder
      rw [hsame]
      exact hlater
    · have hfirst := (Call.leaves_of_op hok).grows
      exact ⟨fun id node hid => hlater.node id node (hfirst.node id node hid),
        fun id edge hid => hlater.edge id edge (hfirst.edge id edge hid)⟩

end Calls

end JourneyPlanner
