import JourneyPlanner.Proofs.Network.Tables
import Mathlib.Data.List.Nodup

/-!
# What an identifier leads to

Vehicle categories, tracks and descriptions of trips are referred to by the identifiers with which
the calls that add them answer. The main result of this file, `ids_identify_iff`:

> the identifier of an entry is its position in the table, modulo the number of identifiers that
> there are, and under it the finished timetable reads the entry at that position. Different entries
> have different identifiers, and each leads back to its own entry, if and only if there are not
> more entries than identifiers.

A table goes on when its identifiers have run out. They begin again at the first, which leads to
what was there first (`crowd_confused`).
-/

namespace JourneyPlanner

namespace Table

/-- The answers of the calls that add to a table, each with what the call was given. -/
def issued (table : Table) : List Call → Assembly → List (Option Nat × table.Entry)
  | [], _ => []
  | c :: cs, a => ((table.added? c).map (a.answer? c, ·)).toList ++ table.issued cs (a.call c)

/-- The answers are identifiers, all different, under which a timetable reads what they were given
for. -/
structure Identifies (table : Table) (issued : List (Option Nat × table.Entry)) (tt : Timetable) :
    Prop where
  answered : ∀ issue ∈ issued, issue.1.isSome
  different : (issued.map Prod.fst).Nodup
  leads : ∀ id x, (some id, x) ∈ issued → id < table.size tt ∧ table.read tt id = x

variable {table : Table} {period : Period} {calls : List Call} {n : Nat} {x : table.Entry}

/-- Identifiers are given in the order of the entries. -/
theorem issued_eq {a : Assembly} (h : Assembly.Reached period a) (cs : List Call) :
    table.issued cs a = ((cs.filterMap table.added?).zipIdx (table.entries a.toBuilder).length).map
      fun entry => (some (entry.2 % table.room), entry.1) := by
  induction cs generalizing a with
  | nil => rfl
  | cons c cs ih =>
    rw [issued, ih (h.call c), h.indexed.entries_call]
    cases hc : table.added? c with
    | none =>
      rw [List.filterMap_cons_none hc, Option.map_none, Option.toList_none, Option.toList_none,
        List.append_nil, List.nil_append]
    | some x =>
      rw [List.filterMap_cons_some hc, Option.map_some, Option.toList_some, Option.toList_some,
        h.indexed.answer?_of_added hc, List.length_append, List.zipIdx_cons, List.map_cons]
      rfl

/-- The identifier at a place tells nothing but the place. -/
theorem getElem?_issued (table : Table) (period : Period) (calls : List Call) (n : Nat) :
    (table.issued calls (.new period))[n]? =
      (calls.filterMap table.added?)[n]?.map (some (n % table.room), ·) := by
  rw [issued_eq (Assembly.reached_new period), entries_new, List.length_nil, List.getElem?_map,
    List.getElem?_zipIdx, Option.map_map, Nat.zero_add]
  rfl

/-- What was added at a place is read there. -/
theorem read_of_added (period : Period) (h : (calls.filterMap table.added?)[n]? = some x) :
    n < table.size ((Assembly.new period).calls calls).build ∧
      table.read ((Assembly.new period).calls calls).build n = x := by
  have hentries := table.entries_calls (Assembly.reached_new period) calls
  rw [entries_new, List.nil_append] at hentries
  rw [← hentries] at h
  refine ⟨?_, read_build h⟩
  show n < table.size ((Assembly.new period).calls calls).toBuilder.build
  rw [size_build]
  exact (List.getElem?_eq_some_iff.1 h).1

/-- Identifiers are taken in turn. -/
theorem map_fst_issued (table : Table) (period : Period) (calls : List Call) :
    (table.issued calls (.new period)).map Prod.fst =
      (List.range (calls.filterMap table.added?).length).map fun n => some (n % table.room) := by
  refine List.ext_getElem? fun n => ?_
  rw [List.getElem?_map, getElem?_issued, Option.map_map, List.getElem?_map]
  rcases Nat.lt_or_ge n (calls.filterMap table.added?).length with hlt | hge
  · rw [List.getElem?_eq_getElem hlt, List.getElem?_range hlt]
    rfl
  · rw [List.getElem?_eq_none hge, List.getElem?_eq_none (by rwa [List.length_range])]
    rfl

/-- As long as there are enough of them, an identifier is the place of its entry. -/
theorem identifies_of_le (h : (calls.filterMap table.added?).length ≤ table.room) :
    table.Identifies (table.issued calls (.new period))
      ((Assembly.new period).calls calls).build := by
  have hplace : ∀ issue ∈ table.issued calls (.new period), ∃ n,
      (calls.filterMap table.added?)[n]? = some issue.2 ∧ issue.1 = some n := by
    intro issue hissue
    obtain ⟨n, hn⟩ := List.mem_iff_getElem?.1 hissue
    rw [getElem?_issued] at hn
    obtain ⟨x, hx, rfl⟩ := Option.map_eq_some_iff.1 hn
    have hlt := (List.getElem?_eq_some_iff.1 hx).1
    exact ⟨n, hx, congrArg some (Nat.mod_eq_of_lt (hlt.trans_le h))⟩
  refine ⟨fun issue hissue => ?_, ?_, fun id x hissue => ?_⟩
  · obtain ⟨n, -, hid⟩ := hplace issue hissue
    rw [hid, Option.isSome_some]
  · rw [map_fst_issued]
    refine List.Nodup.map_on (fun i hi j hj heq => ?_) List.nodup_range
    have hmod := Option.some.inj heq
    rwa [Nat.mod_eq_of_lt ((List.mem_range.1 hi).trans_le h),
      Nat.mod_eq_of_lt ((List.mem_range.1 hj).trans_le h)] at hmod
  · obtain ⟨n, hx, hid⟩ := hplace _ hissue
    cases hid
    exact read_of_added period hx

/-- The first entry for which there is no identifier left has that of the first one. -/
theorem le_of_nodup (h : ((table.issued calls (.new period)).map Prod.fst).Nodup) :
    (calls.filterMap table.added?).length ≤ table.room := by
  refine Nat.le_of_not_lt fun hlt => ?_
  rw [map_fst_issued] at h
  have hsame : some (0 % table.room) = some (table.room % table.room) := by
    rw [Nat.zero_mod, Nat.mod_self]
  have hzero := List.inj_on_of_nodup_map h (List.mem_range.2 (Nat.zero_lt_of_lt hlt))
    (List.mem_range.2 hlt) hsame
  exact absurd table.room_pos (hzero ▸ Nat.lt_irrefl 0)

end Table

/-- Whatever is called, an identifier is the position of its entry as far as the width of
identifiers goes, and leads to what was added at that position. So identifiers tell what was added
if and only if there are no more entries than identifiers. -/
theorem ids_identify_iff (table : Table) (period : Period) (calls : List Call) :
    (∀ (n : Nat) (answer : Option Nat) (x : table.Entry),
      (table.issued calls (.new period))[n]? = some (answer, x) →
        (calls.filterMap table.added?)[n]? = some x ∧ answer = some (n % table.room) ∧
        n % table.room < table.size ((Assembly.new period).calls calls).build ∧
        (calls.filterMap table.added?)[n % table.room]? =
          some (table.read ((Assembly.new period).calls calls).build (n % table.room))) ∧
      (table.Identifies (table.issued calls (.new period))
          ((Assembly.new period).calls calls).build ↔
        (calls.filterMap table.added?).length ≤ table.room) := by
  refine ⟨fun n answer x hn => ?_, fun h => Table.le_of_nodup h.different,
    Table.identifies_of_le⟩
  rw [Table.getElem?_issued] at hn
  obtain ⟨y, hy, heq⟩ := Option.map_eq_some_iff.1 hn
  cases heq
  have hlt : n % table.room < (calls.filterMap table.added?).length :=
    (Nat.mod_le n table.room).trans_lt (List.getElem?_eq_some_iff.1 hy).1
  have hthere := List.getElem?_eq_getElem hlt
  obtain ⟨hsize, hread⟩ := Table.read_of_added period hthere
  exact ⟨hy, rfl, hsize, by rw [hthere, hread]⟩

/-- A category, and then as many of another name as there are identifiers. -/
def crowd : List Call := .category "ICE" :: List.replicate 65536 (.category "RE")

theorem filterMap_crowd :
    crowd.filterMap Table.categories.added? = "ICE" :: List.replicate 65536 "RE" := by
  have hadded : ∀ name, Table.categories.added? (.category name) = some name := fun _ => rfl
  rw [crowd, List.filterMap_cons_some (hadded _), List.filterMap_replicate_of_some (hadded _)]

/-- The last of the calls answers as the first did, and what it added is read as the other. -/
theorem crowd_confused : ∃ period : Period,
    (Table.categories.issued crowd (.new period))[0]? = some (some 0, "ICE") ∧
    (Table.categories.issued crowd (.new period))[65536]? = some (some 0, "RE") ∧
    ((Assembly.new period).calls crowd).build.categoryName 0 = "ICE" ∧
    ¬ Table.categories.Identifies (Table.categories.issued crowd (.new period))
      ((Assembly.new period).calls crowd).build := by
  have hfirst : (crowd.filterMap Table.categories.added?)[0]? = some "ICE" := by
    rw [filterMap_crowd, List.getElem?_cons_zero]
  have hlast : (crowd.filterMap Table.categories.added?)[65536]? = some "RE" := by
    rw [filterMap_crowd, List.getElem?_cons_succ, List.getElem?_replicate_of_lt (by decide)]
  let period : Period := ⟨⟨2026, 3, 2, by decide, by decide⟩, 1⟩
  have hread := (Table.read_of_added period hfirst).2
  have hissued := Table.getElem?_issued .categories period crowd
  have hlater : (Table.categories.issued crowd (.new period))[65536]? = some (some 0, "RE") := by
    rw [hissued, hlast]
    rfl
  refine ⟨period, ?_, hlater, hread, fun h => ?_⟩
  · rw [hissued, hfirst]
    rfl
  · have hother := (h.leads 0 "RE" (List.mem_of_getElem? hlater)).2
    rw [hread] at hother
    exact absurd hother (by decide)

end JourneyPlanner
